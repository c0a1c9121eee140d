import PeatBtle.Data.Eviction
import PeatBtle.SeenWindow

/-!
# How many messages are remembered

A cleanup cuts the cache back, oldest first, but only time brings a cleanup on.
Between two of them every new message is one more entry, so the limit holds
exactly as long as no new message meets a full cache without a cleanup.
-/

namespace PeatBtle

open Wire

namespace SeenMessageCache

attribute [local instance] transCmp_messageId

/-- The call cleans up, is for a message of the cache, or finds room. -/
def Contained (c : SeenMessageCache) (call : MarkCall) : Prop :=
  c.CleanupDue call.nowMs ∨ call.messageId ∈ c.cache ∨ c.cache.size ≤ maxCacheSize

/-- What a call evicts before its time is not newer than anything that it leaves. -/
def EvictsOldest (c : SeenMessageCache) (call : MarkCall) : Prop :=
  ∀ (evicted retained : MessageId) (gone left : SeenEntry),
    c.cache[evicted]? = some gone → c.Live call.nowMs gone →
      (c.refreshed call.nowMs).cache[evicted]? = none →
        (c.refreshed call.nowMs).cache[retained]? = some left →
          gone.firstSeenMs ≤ left.firstSeenMs

/-! ## The size of the cache -/

section Size

variable (c : SeenMessageCache) (call : MarkCall) (nowMs : UInt64)

/-- The unexpired entries in the order in which they go. -/
def agedFirst : List (MessageId × SeenEntry) :=
  (c.unexpired nowMs).toList.mergeSort fun a b => a.2.firstSeenMs ≤ b.2.firstSeenMs

theorem agedFirst_perm : (c.agedFirst nowMs).Perm (c.unexpired nowMs).toList :=
  List.mergeSort_perm _ _

theorem agedFirst_sorted :
    (c.agedFirst nowMs).Pairwise fun a b => a.2.firstSeenMs ≤ b.2.firstSeenMs := by
  refine (List.pairwise_mergeSort (fun a b d hab hbd => ?_) (fun a b => ?_) _).imp of_decide_eq_true
  · exact decide_eq_true (UInt64.le_trans (of_decide_eq_true hab) (of_decide_eq_true hbd))
  · rw [Bool.or_eq_true, decide_eq_true_eq, decide_eq_true_eq]
    exact UInt64.le_total _ _

/-- A forced cleanup erases the first of these. -/
theorem cleanup_forced (hsize : (c.unexpired nowMs).size > maxCacheSize) :
    (c.cleanup nowMs).cache = Eviction.eraseAll (((c.agedFirst nowMs).take
      ((c.unexpired nowMs).size - maxCacheSize / 2)).map Prod.fst) (c.unexpired nowMs) :=
  if_pos hsize

theorem cleanup_unforced (hsize : ¬ (c.unexpired nowMs).size > maxCacheSize) :
    (c.cleanup nowMs).cache = c.unexpired nowMs :=
  if_neg hsize

theorem size_cleanup_le : (c.cleanup nowMs).cache.size ≤ maxCacheSize := by
  by_cases hsize : (c.unexpired nowMs).size > maxCacheSize
  · rw [cleanup_forced _ _ hsize]
    have hle := @Eviction.size_eraseAll_take_le _ _ _ _ _ _ _ _
      ((c.unexpired nowMs).size - maxCacheSize / 2) (c.agedFirst_perm nowMs)
    have hhalf : maxCacheSize / 2 ≤ maxCacheSize := Nat.div_le_self _ _
    omega
  · rw [cleanup_unforced _ _ hsize]
    exact Nat.not_lt.mp hsize

theorem size_mark :
    (c.mark call).cache.size = (c.refreshed call.nowMs).cache.size +
      if call.messageId ∈ (c.refreshed call.nowMs).cache then 0 else 1 := by
  rw [mark, markSeen_eq, hasSeen]
  by_cases hmem : call.messageId ∈ (c.refreshed call.nowMs).cache
  · rw [if_pos (Std.ExtTreeMap.contains_iff_mem.mpr hmem), if_pos hmem]
    exact Std.ExtTreeMap.size_modify
  · rw [if_neg (mt Std.ExtTreeMap.contains_iff_mem.mp hmem), if_neg hmem]
    show (Std.ExtTreeMap.insert _ _ _).size = _
    rw [Std.ExtTreeMap.size_insert, if_neg (mt Std.ExtTreeMap.contains_iff_mem.mp hmem)]

/-- One more entry than the limit stays so exactly with such a call. -/
theorem size_mark_le_iff (h : c.cache.size ≤ maxCacheSize + 1) :
    (c.mark call).cache.size ≤ maxCacheSize + 1 ↔ c.Contained call := by
  rw [size_mark, Contained, refreshed]
  by_cases hdue : c.CleanupDue call.nowMs
  · rw [if_pos hdue]
    refine iff_of_true ?_ (Or.inl hdue)
    have hcleaned := c.size_cleanup_le call.nowMs
    split <;> omega
  · rw [if_neg hdue, or_iff_right hdue]
    by_cases hmem : call.messageId ∈ c.cache
    · rw [if_pos hmem]
      exact iff_of_true h (Or.inl hmem)
    · rw [if_neg hmem, or_iff_right hmem]
      omega

theorem evictsOldest : c.EvictsOldest call := by
  intro evicted retained gone left hgone hlive hevicted hleft
  have hunexpired : (c.unexpired call.nowMs)[evicted]? = some gone := by
    rw [unexpired, Std.ExtTreeMap.getElem?_filter', hgone]
    exact Option.filter_some_pos (decide_eq_true hlive)
  rw [refreshed] at hevicted hleft
  by_cases hdue : c.CleanupDue call.nowMs
  · rw [if_pos hdue] at hevicted hleft
    by_cases hsize : (c.unexpired call.nowMs).size > maxCacheSize
    · rw [cleanup_forced _ _ hsize] at hevicted hleft
      exact Eviction.erased_before_left (c.agedFirst_perm _) (c.agedFirst_sorted _) hunexpired
        hevicted hleft
    · rw [cleanup_unforced _ _ hsize, hunexpired] at hevicted
      cases hevicted
  · rw [if_neg hdue, hgone] at hevicted
    cases hevicted

end Size

/-- The cache never holds more than one entry over its limit exactly when no new message meets a
full cache without a cleanup, and in every run what is evicted is the oldest. -/
theorem seen_cache_bounded_iff (ttlMs : UInt64) (calls : List MarkCall) :
    ((∀ front, front <+: calls →
        (LoggedRun.run mark (withTtl ttlMs) front).cache.size ≤ maxCacheSize + 1) ↔
      LoggedRun.Along mark Contained (withTtl ttlMs) calls) ∧
    LoggedRun.Along mark EvictsOldest (withTtl ttlMs) calls := by
  constructor
  · have hstart : (withTtl ttlMs).cache.size ≤ maxCacheSize + 1 := Nat.zero_le _
    exact @LoggedRun.forall_prefix_iff_along_of_step _ _ mark
      (fun c => c.cache.size ≤ maxCacheSize + 1) Contained _ calls hstart
      fun c call h => c.size_mark_le_iff call h
  · exact LoggedRun.along_of_mem (fun call _ c => c.evictsOldest call) _

/-! ## A burst of messages -/

/-- At time 0 no cleanup is due. -/
theorem size_run_burst (c : SeenMessageCache) (ids : List MessageId) (hids : ids.Nodup)
    (hfresh : ∀ id ∈ ids, id ∉ c.cache) :
    (LoggedRun.run mark c (ids.map fun id => ⟨id, 1, 0⟩)).cache.size =
      c.cache.size + ids.length := by
  induction ids generalizing c with
  | nil => rfl
  | cons id ids ih =>
      obtain ⟨hhead, htail⟩ := List.nodup_cons.mp hids
      have hquiet : c.refreshed 0 = c := by
        refine if_neg ?_
        rw [CleanupDue, gt_iff_lt, UInt64.lt_iff_toNat_lt, toNat_saturatingSub]
        change ¬ _ < 0 - _
        omega
      have hsize := c.size_mark ⟨id, 1, 0⟩
      rw [hquiet, if_neg (hfresh id (by simp))] at hsize
      rw [List.map_cons, LoggedRun.run_cons, ih _ htail, hsize, List.length_cons]
      · omega
      · intro other hother
        have hne : id ≠ other := fun heq => hhead (heq ▸ hother)
        rw [Std.ExtTreeMap.mem_iff_isSome_getElem?, getElem?_mark, hquiet, if_neg hne,
          ← Std.ExtTreeMap.mem_iff_isSome_getElem?]
        exact hfresh other (List.mem_cons_of_mem _ hother)

def numbered (n : Nat) : MessageId :=
  Vector.ofFn fun i => if i = 0 then UInt8.ofNat n else UInt8.ofNat (n / 256)

theorem numbered_injOn {a b : Nat} (ha : a < 65536) (hb : b < 65536) (h : numbered a = numbered b) :
    a = b := by
  have hlow : UInt8.ofNat a = UInt8.ofNat b := by
    simpa [numbered] using congrArg (fun v : MessageId => v[0]) h
  have hhigh : UInt8.ofNat (a / 256) = UInt8.ofNat (b / 256) := by
    simpa [numbered] using congrArg (fun v : MessageId => v[1]) h
  rw [← UInt8.toNat_inj, UInt8.toNat_ofNat', UInt8.toNat_ofNat'] at hlow hhigh
  omega

/-- 1002 messages in the first millisecond are all remembered. -/
theorem burst_overflows :
    (LoggedRun.run mark (withTtl defaultSeenTtlMs)
      (((List.range 1002).map numbered).map fun id => ⟨id, 1, 0⟩)).cache.size > maxCacheSize + 1 := by
  have hids : ((List.range 1002).map numbered).Nodup := by
    refine List.Nodup.map_on (fun a ha b hb h => ?_) List.nodup_range
    have haBound := List.mem_range.mp ha
    have hbBound := List.mem_range.mp hb
    exact numbered_injOn (by omega) (by omega) h
  rw [size_run_burst _ _ hids (fun id _ => Std.ExtTreeMap.not_mem_empty), List.length_map,
    List.length_range]
  decide

end SeenMessageCache

end PeatBtle
