import PeatBtle.Data.LoggedRun
import PeatBtle.Relay

/-!
# How long a message stays seen

Entries expire in a cleanup, and a cleanup happens when half a lifetime has passed
since the last one. A message is therefore a duplicate for its whole lifetime and
new again at most half of one later, whatever else arrives in between.
-/

namespace PeatBtle

open Wire MapMerge

namespace SeenMessageCache

theorem transCmp_messageId : Std.TransCmp (compare : MessageId → MessageId → Ordering) :=
  inferInstance

attribute [local instance] transCmp_messageId

/-- One call of `mark_seen`. -/
structure MarkCall where
  messageId : MessageId
  origin : NodeId
  nowMs : UInt64

def mark (c : SeenMessageCache) (call : MarkCall) : SeenMessageCache :=
  (c.markSeen call.messageId call.origin call.nowMs).1

def accepts (c : SeenMessageCache) (call : MarkCall) : Bool :=
  (c.markSeen call.messageId call.origin call.nowMs).2

/-- The message that a call announces as new. -/
def accepted (c : SeenMessageCache) (call : MarkCall) : Option MessageId :=
  if c.accepts call then some call.messageId else none

def CleanupDue (c : SeenMessageCache) (nowMs : UInt64) : Prop :=
  saturatingSub nowMs c.lastCleanupMs > c.ttlMs / 2

instance (c : SeenMessageCache) (nowMs : UInt64) : Decidable (c.CleanupDue nowMs) :=
  inferInstanceAs (Decidable (_ > _))

/-- The cache that a call looks its message up in. -/
def refreshed (c : SeenMessageCache) (nowMs : UInt64) : SeenMessageCache :=
  if c.CleanupDue nowMs then c.cleanup nowMs else c

/-- The entries that have not expired. -/
def unexpired (c : SeenMessageCache) (nowMs : UInt64) : Map MessageId SeenEntry :=
  c.cache.filter fun _ entry => saturatingSub nowMs entry.firstSeenMs < c.ttlMs

/-- No entry goes for the size of the cache. -/
def NoEviction (c : SeenMessageCache) (call : MarkCall) : Prop :=
  c.CleanupDue call.nowMs → (c.unexpired call.nowMs).size ≤ maxCacheSize

instance (c : SeenMessageCache) (call : MarkCall) : Decidable (c.NoEviction call) :=
  inferInstanceAs (Decidable (_ → _))

/-! ## One call -/

section Call

variable (c : SeenMessageCache) (call : MarkCall) (messageId : MessageId) (nowMs : UInt64)

theorem markSeen_eq :
    c.markSeen call.messageId call.origin call.nowMs =
      if (c.refreshed call.nowMs).hasSeen call.messageId then
        ({ c.refreshed call.nowMs with
          cache := (c.refreshed call.nowMs).cache.modify call.messageId fun e =>
            { e with count := e.count + 1 } }, false)
      else
        ({ c.refreshed call.nowMs with
          cache := (c.refreshed call.nowMs).cache.insert call.messageId
            ⟨call.nowMs, 1, call.origin⟩ }, true) := rfl

theorem accepts_iff :
    c.accepts call = true ↔ (c.refreshed call.nowMs).cache[call.messageId]? = none := by
  rw [accepts, markSeen_eq, hasSeen, Std.ExtTreeMap.contains_eq_isSome_getElem?]
  cases (c.refreshed call.nowMs).cache[call.messageId]? <;> simp

/-- The message of a call is in the cache afterwards, since whenever it was. -/
theorem getElem?_mark :
    (c.mark call).cache[messageId]? =
      if call.messageId = messageId then
        some (((c.refreshed call.nowMs).cache[messageId]?).elim ⟨call.nowMs, 1, call.origin⟩
          fun e => { e with count := e.count + 1 })
      else (c.refreshed call.nowMs).cache[messageId]? := by
  rw [mark, markSeen_eq, hasSeen, Std.ExtTreeMap.contains_eq_isSome_getElem?]
  cases hold : (c.refreshed call.nowMs).cache[call.messageId]? with
  | none =>
      simp only [Option.isSome_none, Bool.false_eq_true, if_false, getElem?_insert_eq]
      split_ifs with hid
      · rw [← hid, hold, Option.elim_none]
      · rfl
  | some e =>
      simp only [Option.isSome_some, if_true, getElem?_modify_eq, hold, Option.map_some]
      split_ifs with hid
      · rw [← hid, hold, Option.elim_some]
      · rfl

theorem mark_eq_refreshed :
    (c.mark call).lastCleanupMs = (c.refreshed call.nowMs).lastCleanupMs ∧
      (c.mark call).ttlMs = c.ttlMs := by
  refine ⟨?_, c.ttlMs_markSeen call.messageId call.origin call.nowMs⟩
  rw [mark, markSeen_eq]
  split <;> rfl

theorem lastCleanupMs_mark :
    (c.mark call).lastCleanupMs = if c.CleanupDue call.nowMs then call.nowMs else c.lastCleanupMs := by
  rw [(c.mark_eq_refreshed call).1, refreshed]
  split_ifs <;> rfl

/-- A cleanup that evicts nothing takes exactly what has expired. -/
theorem getElem?_refreshed {c : SeenMessageCache} {call : MarkCall} (h : c.NoEviction call) :
    (c.refreshed call.nowMs).cache[messageId]? =
      if c.CleanupDue call.nowMs then
        c.cache[messageId]?.filter fun e => saturatingSub call.nowMs e.firstSeenMs < c.ttlMs
      else c.cache[messageId]? := by
  unfold refreshed
  split_ifs with hdue
  · have hsize := h hdue
    unfold unexpired at hsize
    unfold cleanup
    dsimp only
    rw [if_neg (Nat.not_lt.mpr hsize), Std.ExtTreeMap.getElem?_filter']
  · rfl

end Call

/-! ## One message -/

section Message

variable {c : SeenMessageCache} {call : MarkCall} {messageId : MessageId} {first : UInt64}

/-- The message has been in the cache since a given time, and no cleanup has come since then that
would have taken it. -/
def SeenSince (c : SeenMessageCache) (messageId : MessageId) (first : UInt64) : Prop :=
  (∃ entry, c.cache[messageId]? = some entry ∧ entry.firstSeenMs = first) ∧
    (c.lastCleanupMs ≤ first ∨ c.lastCleanupMs.toNat < first.toNat + c.ttlMs.toNat)

/-- The entry of an announced message. -/
theorem seenSince_of_accepts (h : c.accepts call = true)
    (hclean : c.lastCleanupMs ≤ call.nowMs) :
    (c.mark call).SeenSince call.messageId call.nowMs := by
  constructor
  · rw [getElem?_mark, if_pos rfl, (c.accepts_iff call).mp h]
    exact ⟨_, rfl, rfl⟩
  · rw [lastCleanupMs_mark]
    split_ifs
    · exact Or.inl (UInt64.le_refl _)
    · exact Or.inl hclean

/-- A call after which the message is in the cache as before. -/
theorem SeenSince.mark_of_kept (h : c.SeenSince messageId first) (hquiet : c.NoEviction call)
    (hkept : c.CleanupDue call.nowMs →
      call.nowMs.toNat < first.toNat + c.ttlMs.toNat) (horder : first ≤ call.nowMs) :
    (c.mark call).SeenSince messageId first ∧ (call.messageId = messageId → c.accepts call = false) := by
  obtain ⟨⟨entry, hentry, hfirst⟩, hclean⟩ := h
  have hfresh : (c.refreshed call.nowMs).cache[messageId]? = some entry := by
    rw [getElem?_refreshed messageId hquiet, hentry]
    split_ifs with hdue
    · have hlive := hkept hdue
      rw [UInt64.le_iff_toNat_le] at horder
      refine Option.filter_some_pos (decide_eq_true ?_)
      rw [UInt64.lt_iff_toNat_lt, toNat_saturatingSub, hfirst]
      omega
    · rfl
  refine ⟨⟨?_, ?_⟩, ?_⟩
  · rw [getElem?_mark, hfresh]
    split_ifs
    · exact ⟨_, rfl, hfirst⟩
    · exact ⟨entry, rfl, hfirst⟩
  · rw [lastCleanupMs_mark, (c.mark_eq_refreshed call).2]
    split_ifs with hdue
    · exact Or.inr (hkept hdue)
    · exact hclean
  · rintro rfl
    rw [← Bool.not_eq_true, accepts_iff, hfresh]
    exact Option.some_ne_none entry

/-- A cleanup after the lifetime takes the message. -/
theorem SeenSince.expired (h : c.SeenSince messageId first) (hquiet : c.NoEviction call)
    (hdue : c.CleanupDue call.nowMs) (hlate : first.toNat + c.ttlMs.toNat ≤ call.nowMs.toNat) :
    (c.refreshed call.nowMs).cache[messageId]? = none := by
  obtain ⟨⟨entry, hentry, hfirst⟩, -⟩ := h
  rw [getElem?_refreshed messageId hquiet, if_pos hdue, hentry]
  refine Option.filter_some_neg ?_
  rw [decide_eq_false_iff_not, UInt64.lt_iff_toNat_lt, toNat_saturatingSub, hfirst]
  omega

/-- Half a lifetime after the lifetime, a cleanup is due. -/
theorem SeenSince.cleanupDue (h : c.SeenSince messageId first) {nowMs : UInt64}
    (hlate : first.toNat + c.ttlMs.toNat + c.ttlMs.toNat / 2 + 1 ≤ nowMs.toNat) :
    c.CleanupDue nowMs := by
  obtain ⟨-, hclean⟩ := h
  rw [UInt64.le_iff_toNat_le] at hclean
  unfold CleanupDue
  rw [gt_iff_lt, UInt64.lt_iff_toNat_lt, toNat_saturatingSub, UInt64.toNat_div]
  change c.ttlMs.toNat / 2 < _
  omega

/-- What becomes of an announced message until it is announced again. -/
def Pending (c : SeenMessageCache) (messageId : MessageId) (first : UInt64) : Prop :=
  c.SeenSince messageId first ∨ c.cache[messageId]? = none

theorem Pending.next (h : c.Pending messageId first) (hquiet : c.NoEviction call)
    (horder : first ≤ call.nowMs) (hnot : messageId ∉ c.accepted call) :
    (c.mark call).Pending messageId first := by
  have hforgotten : (c.refreshed call.nowMs).cache[messageId]? = none →
      (c.mark call).cache[messageId]? = none := by
    intro hfresh
    have hother : call.messageId ≠ messageId := by
      rintro rfl
      refine hnot ?_
      rw [accepted, if_pos ((c.accepts_iff call).mpr hfresh)]
      rfl
    rw [getElem?_mark, if_neg hother, hfresh]
  rcases h with hseen | hnone
  · by_cases hlate : c.CleanupDue call.nowMs ∧ first.toNat + c.ttlMs.toNat ≤ call.nowMs.toNat
    · exact Or.inr (hforgotten (hseen.expired hquiet hlate.1 hlate.2))
    · refine Or.inl (hseen.mark_of_kept hquiet (fun hdue => ?_) horder).1
      by_contra hnotlive
      exact hlate ⟨hdue, Nat.not_lt.mp hnotlive⟩
  · refine Or.inr (hforgotten ?_)
    rw [getElem?_refreshed messageId hquiet, hnone]
    split_ifs <;> rfl

/-- Late enough, the message is new. -/
theorem Pending.new_again (h : c.Pending messageId first) (hquiet : c.NoEviction call)
    (hid : call.messageId = messageId)
    (hlate : first.toNat + c.ttlMs.toNat + c.ttlMs.toNat / 2 + 1 ≤ call.nowMs.toNat) :
    c.accepts call = true := by
  subst hid
  rw [accepts_iff]
  rcases h with hseen | hnone
  · exact hseen.expired hquiet (hseen.cleanupDue hlate) (by omega)
  · rw [getElem?_refreshed call.messageId hquiet, hnone]
    split_ifs <;> rfl

end Message

/-! ## Runs of calls -/

section Runs

variable {c : SeenMessageCache} {calls : List MarkCall} {messageId : MessageId} {first : UInt64}

theorem ttlMs_run (c : SeenMessageCache) (calls : List MarkCall) :
    (LoggedRun.run mark c calls).ttlMs = c.ttlMs :=
  LoggedRun.run_unchanged (fun c call => (c.mark_eq_refreshed call).2) c calls

/-- The last cleanup was at the time of a call, or before all of them. -/
theorem lastCleanupMs_run_le {nowMs : UInt64} (hclean : c.lastCleanupMs ≤ nowMs)
    (hcalls : ∀ call ∈ calls, call.nowMs ≤ nowMs) :
    (LoggedRun.run mark c calls).lastCleanupMs ≤ nowMs := by
  have hstep (c : SeenMessageCache) (call : MarkCall) (hcall : call ∈ calls)
      (hclean : c.lastCleanupMs ≤ nowMs) : (c.mark call).lastCleanupMs ≤ nowMs := by
    rw [lastCleanupMs_mark]
    split_ifs
    · exact hcalls call hcall
    · exact hclean
  exact @LoggedRun.run_keeps _ _ mark (fun c => c.lastCleanupMs ≤ nowMs) c calls hclean hstep

/-- A message stays seen over calls within its lifetime. -/
theorem SeenSince.run (h : c.SeenSince messageId first)
    (hquiet : LoggedRun.Along mark NoEviction c calls)
    (hcalls : ∀ call ∈ calls, first ≤ call.nowMs ∧
      call.nowMs.toNat < first.toNat + c.ttlMs.toNat) :
    (LoggedRun.run mark c calls).SeenSince messageId first := by
  induction calls generalizing c with
  | nil => exact h
  | cons call calls ih =>
      obtain ⟨horder, hlive⟩ := hcalls call (by simp)
      refine ih (h.mark_of_kept hquiet.1 (fun _ => hlive) horder).1 hquiet.2 fun later hlater => ?_
      rw [(c.mark_eq_refreshed call).2]
      exact hcalls later (List.mem_cons_of_mem _ hlater)

theorem Pending.run (h : c.Pending messageId first)
    (hquiet : LoggedRun.Along mark NoEviction c calls)
    (hcalls : ∀ call ∈ calls, first ≤ call.nowMs)
    (hnot : messageId ∉ LoggedRun.log mark accepted c calls) :
    (LoggedRun.run mark c calls).Pending messageId first := by
  induction calls generalizing c with
  | nil => exact h
  | cons call calls ih =>
      rw [LoggedRun.log, List.mem_append, not_or, Option.mem_toList] at hnot
      exact ih (h.next hquiet.1 (hcalls call (by simp)) hnot.1) hquiet.2
        (fun later hlater => hcalls later (List.mem_cons_of_mem _ hlater)) hnot.2

end Runs

/-- Over calls at times that do not decrease, without an eviction: a message announced as new is a
duplicate until its lifetime is over. Half a lifetime and a millisecond after that it is new, unless
it has been announced again already. -/
theorem seen_window (ttlMs : UInt64) (before between : List MarkCall) (first later : MarkCall)
    (hsorted : (before ++ first :: (between ++ [later])).Pairwise fun a b => a.nowMs ≤ b.nowMs)
    (hquiet : LoggedRun.Along mark NoEviction (withTtl ttlMs)
      (before ++ first :: (between ++ [later])))
    (hrecorded : (LoggedRun.run mark (withTtl ttlMs) before).accepts first = true)
    (hsame : later.messageId = first.messageId) :
    let recorded := LoggedRun.run mark (withTtl ttlMs) (before ++ [first])
    (later.nowMs.toNat < first.nowMs.toNat + ttlMs.toNat →
      (LoggedRun.run mark recorded between).accepts later = false) ∧
    (first.nowMs.toNat + ttlMs.toNat + ttlMs.toNat / 2 + 1 ≤ later.nowMs.toNat →
      first.messageId ∉ LoggedRun.log mark accepted recorded between →
        (LoggedRun.run mark recorded between).accepts later = true) := by
  intro recorded
  have hrecordedIs : recorded = mark (LoggedRun.run mark (withTtl ttlMs) before) first :=
    LoggedRun.run_append ..
  have httl : recorded.ttlMs = ttlMs := ttlMs_run ..
  obtain ⟨-, hafter, hbefore⟩ := List.pairwise_append.mp hsorted
  obtain ⟨hfirst, hrest⟩ := List.pairwise_cons.mp hafter
  have hclean : (LoggedRun.run mark (withTtl ttlMs) before).lastCleanupMs ≤ first.nowMs :=
    lastCleanupMs_run_le UInt64.zero_le fun call hcall => hbefore call hcall first (by simp)
  have hseen : recorded.SeenSince first.messageId first.nowMs := by
    rw [hrecordedIs]
    exact seenSince_of_accepts hrecorded hclean
  rw [List.append_cons, LoggedRun.along_append] at hquiet
  obtain ⟨hbetween, hlater, -⟩ := LoggedRun.along_append.mp hquiet.2
  refine ⟨fun hearly => ?_, fun hlate hnot => ?_⟩
  · have hstill : (LoggedRun.run mark recorded between).SeenSince first.messageId first.nowMs := by
      refine hseen.run hbetween fun call hcall => ⟨hfirst call (by simp [hcall]), ?_⟩
      have hle := (List.pairwise_append.mp hrest).2.2 call hcall later (by simp)
      rw [UInt64.le_iff_toNat_le] at hle
      rw [httl]
      omega
    refine (hstill.mark_of_kept hlater (fun _ => ?_) (hfirst later (by simp))).2 hsame
    rw [ttlMs_run, httl]
    exact hearly
  · have hpending : (LoggedRun.run mark recorded between).Pending first.messageId first.nowMs :=
      Pending.run (Or.inl hseen) hbetween (fun call hcall => hfirst call (by simp [hcall])) hnot
    refine hpending.new_again hlater hsame ?_
    rw [ttlMs_run, httl]
    exact hlate

def sighting (nowMs : UInt64) : MarkCall := ⟨Vector.replicate 16 7, 1, nowMs⟩

/-- With a lifetime of 10: first seen at 0, new again at 11, and so a duplicate at 16. -/
theorem seen_again_within_window :
    (withTtl 10).accepts (sighting 0) = true ∧
      LoggedRun.Along mark NoEviction (withTtl 10) [sighting 0, sighting 11, sighting 16] ∧
      (LoggedRun.run mark (withTtl 10) [sighting 0]).accepts (sighting 11) = true ∧
      (LoggedRun.run mark (withTtl 10) [sighting 0, sighting 11]).accepts (sighting 16) = false := by
  decide +kernel

/-- Not heard of in between, it is new at 16. -/
theorem seen_window_sighting :
    (LoggedRun.run mark (withTtl 10) [sighting 0, sighting 9]).accepts (sighting 16) = true := by
  have hwindow := seen_window 10 [] [sighting 9] (sighting 0) (sighting 16) (by decide +kernel)
    (by decide +kernel) (by decide +kernel) rfl
  exact hwindow.2 (by decide) (by decide +kernel)

end SeenMessageCache

end PeatBtle
