import PeatBtle.Sync.Crdt.Sensor

/-!
# Emergency events

An emergency is identified by its source and its timestamp. Merging the same
emergency unites the acknowledgement tables; merging a different one keeps the
later of the two, and keeps the present one when the timestamps are equal.
-/

namespace PeatBtle

open Wire MapMerge

def maxEmergencyAcks : Nat := 256

@[ext] structure EmergencyEvent where
  sourceNode : UInt32
  timestamp : UInt64
  acks : Map UInt32 Bool
deriving DecidableEq

namespace EmergencyEvent

/-- `acks.entry(node).or_insert(false)` -/
def track (acks : Map UInt32 Bool) (node : UInt32) : Map UInt32 Bool :=
  acks.alter node fun old => some (old.getD false)

/-- The source counts as acknowledged; every other peer starts pending. -/
def new (sourceNode : UInt32) (timestamp : UInt64) (knownPeers : List UInt32) : EmergencyEvent where
  sourceNode := sourceNode
  timestamp := timestamp
  acks := knownPeers.foldl (fun acks peer => if peer ≠ sourceNode then track acks peer else acks)
    ((∅ : Map UInt32 Bool).insert sourceNode true)

def hasAcked (e : EmergencyEvent) (node : UInt32) : Bool := e.acks[node]?.getD false

/-- Whether the acknowledgement was new. -/
def ack (e : EmergencyEvent) (node : UInt32) : EmergencyEvent × Bool :=
  ({ e with acks := e.acks.insert node true }, !e.hasAcked node)

def ackedNodes (e : EmergencyEvent) : List UInt32 :=
  (e.acks.toList.filter fun entry => entry.2).map Prod.fst

def pendingNodes (e : EmergencyEvent) : List UInt32 :=
  (e.acks.toList.filter fun entry => !entry.2).map Prod.fst

def allNodes (e : EmergencyEvent) : List UInt32 := e.acks.toList.map Prod.fst

def allAcked (e : EmergencyEvent) : Bool := !e.acks.isEmpty && e.acks.toList.all fun entry => entry.2

def peerCount (e : EmergencyEvent) : Nat := e.acks.size

def ackCount (e : EmergencyEvent) : Nat := (e.acks.toList.filter fun entry => entry.2).length

/-! ## Merging -/

/-- One received flag: the table after it and whether any flag has risen so far. -/
def mergeAck (state : Map UInt32 Bool × Bool) (entry : UInt32 × Bool) : Map UInt32 Bool × Bool :=
  let current := state.1[entry.1]?.getD false
  (upsert false or state.1 entry, state.2 || (entry.2 && !current))

/-- The merged event and whether it differs from before. -/
def merge (e other : EmergencyEvent) : EmergencyEvent × Bool :=
  if e.sourceNode ≠ other.sourceNode ∨ e.timestamp ≠ other.timestamp then
    if other.timestamp > e.timestamp then (other, true) else (e, false)
  else
    let merged := other.acks.toList.foldl mergeAck (e.acks, false)
    ({ e with acks := merged.1 }, merged.2)

/-- The same incident, whatever has been acknowledged. -/
def SameEvent (e other : EmergencyEvent) : Prop :=
  e.sourceNode = other.sourceNode ∧ e.timestamp = other.timestamp

instance (e other : EmergencyEvent) : Decidable (SameEvent e other) :=
  inferInstanceAs (Decidable (_ ∧ _))

private theorem foldl_mergeAck_fst (entries : List (UInt32 × Bool))
    (state : Map UInt32 Bool × Bool) :
    (entries.foldl mergeAck state).1 = entries.foldl (upsert false or) state.1 := by
  induction entries generalizing state with
  | nil => rfl
  | cons entry entries ih => exact ih _

theorem merge_of_sameEvent {e other : EmergencyEvent} (h : e.SameEvent other) :
    (e.merge other).1 = { e with acks := mergeWith false or e.acks other.acks } := by
  have hsame : ¬ (e.sourceNode ≠ other.sourceNode ∨ e.timestamp ≠ other.timestamp) := by
    simp [h.1, h.2]
  simp only [merge, if_neg hsame, foldl_mergeAck_fst, mergeWith]

theorem merge_of_newer {e other : EmergencyEvent} (h : e.timestamp < other.timestamp) :
    (e.merge other).1 = other := by
  have hdiff : e.sourceNode ≠ other.sourceNode ∨ e.timestamp ≠ other.timestamp :=
    Or.inr (UInt64.ne_of_lt h)
  simp only [merge, if_pos hdiff, if_pos h]

/-- A different emergency that is not newer is ignored. -/
theorem merge_of_not_newer {e other : EmergencyEvent} (hdiff : ¬ e.SameEvent other)
    (hle : other.timestamp ≤ e.timestamp) : (e.merge other).1 = e := by
  have hne : e.sourceNode ≠ other.sourceNode ∨ e.timestamp ≠ other.timestamp := by
    by_contra hsame
    push Not at hsame
    exact hdiff hsame
  simp only [merge, if_pos hne, if_neg (UInt64.not_lt.mpr hle)]

/-- Nothing in the other event is news: every flag of the same event is known, or it is another
one and not newer. -/
def Covers (e other : EmergencyEvent) : Prop :=
  if e.SameEvent other then
    ∀ (node : UInt32) (flag : Bool), other.acks[node]? = some flag →
      ∃ own, e.acks[node]? = some own ∧ (flag = true → own = true)
  else other.timestamp ≤ e.timestamp

theorem merge_eq_self_iff {e other : EmergencyEvent} : (e.merge other).1 = e ↔ e.Covers other := by
  have habsorb : ∀ own flag : Bool, (own || flag) = own ↔ (flag = true → own = true) := by decide
  unfold Covers
  by_cases hsame : e.SameEvent other
  · rw [if_pos hsame, merge_of_sameEvent hsame, EmergencyEvent.ext_iff]
    simp only [mergeWith_eq_self_iff, habsorb, true_and]
  · rw [if_neg hsame]
    by_cases hle : other.timestamp ≤ e.timestamp
    · exact iff_of_true (merge_of_not_newer hsame hle) hle
    · have hnewer := UInt64.not_le.mp hle
      refine iff_of_false ?_ hle
      rw [merge_of_newer hnewer]
      rintro rfl
      exact hle (UInt64.le_refl _)

private theorem hasRisen_mergeAck (state : Map UInt32 Bool × Bool) (entry : UInt32 × Bool)
    (node : UInt32) :
    (mergeAck state entry).1[node]?.getD false =
      (state.1[node]?.getD false || (entry.2 && decide (entry.1 = node))) := by
  simp only [mergeAck, upsert, getElem?_alter_eq]
  by_cases hnode : entry.1 = node
  · simp [hnode]
  · simp [hnode]

/-- A change is reported when a flag is raised that was not. -/
private theorem foldl_mergeAck_snd {entries : List (UInt32 × Bool)}
    {state : Map UInt32 Bool × Bool} :
    (entries.foldl mergeAck state).2 = true ↔
      state.2 = true ∨ ∃ node, (node, true) ∈ entries ∧ state.1[node]?.getD false = false := by
  induction entries generalizing state with
  | nil => simp
  | cons entry entries ih =>
      obtain ⟨key, flag⟩ := entry
      have hflag : (mergeAck state (key, flag)).2 = true ↔
          state.2 = true ∨ flag = true ∧ state.1[key]?.getD false = false := by
        simp [mergeAck]
      rw [List.foldl_cons, ih, hflag]
      constructor
      · rintro ((hbefore | ⟨rfl, hnew⟩) | ⟨node, hmem, hlater⟩)
        · exact Or.inl hbefore
        · exact Or.inr ⟨key, by simp, hnew⟩
        · rw [hasRisen_mergeAck, Bool.or_eq_false_iff] at hlater
          exact Or.inr ⟨node, List.mem_cons_of_mem _ hmem, hlater.1⟩
      · rintro (hbefore | ⟨node, hmem, hnew⟩)
        · exact Or.inl (Or.inl hbefore)
        · by_cases hhead : key = node ∧ flag = true
          · obtain ⟨rfl, rfl⟩ := hhead
            exact Or.inl (Or.inr ⟨rfl, hnew⟩)
          · refine Or.inr ⟨node, ?_, ?_⟩
            · rcases List.mem_cons.mp hmem with heq | hrest
              · obtain ⟨rfl, rfl⟩ := Prod.mk.inj heq
                exact absurd ⟨rfl, rfl⟩ hhead
              · exact hrest
            · rw [hasRisen_mergeAck, hnew, Bool.false_or, Bool.and_eq_false_imp]
              intro hraised
              exact decide_eq_false fun hkey => hhead ⟨hkey, hraised⟩

/-- Of the same event, only a raised flag is reported. -/
theorem merge_reported_iff {e other : EmergencyEvent} (h : e.SameEvent other) :
    (e.merge other).2 = true ↔ ∃ node, other.acks[node]? = some true ∧ e.hasAcked node = false := by
  have hid : ¬ (e.sourceNode ≠ other.sourceNode ∨ e.timestamp ≠ other.timestamp) := by
    simp [h.1, h.2]
  simp only [merge, if_neg hid, foldl_mergeAck_snd, Bool.false_eq_true, false_or, hasAcked,
    Std.ExtTreeMap.mem_toList_iff_getElem?_eq_some]

/-- Of another event, exactly a newer one. -/
theorem merge_reported_of_not_sameEvent {e other : EmergencyEvent} (h : ¬ e.SameEvent other) :
    (e.merge other).2 = true ↔ e.timestamp < other.timestamp := by
  have hid : e.sourceNode ≠ other.sourceNode ∨ e.timestamp ≠ other.timestamp := by
    by_contra hnot
    push Not at hnot
    exact h hnot
  simp only [merge, if_pos hid]
  by_cases hnewer : other.timestamp > e.timestamp
  · simp [hnewer]
  · simp [hnewer]

/-- An event without news is not reported as a change. -/
theorem merge_unreported_of_covers {e other : EmergencyEvent} (h : e.Covers other) :
    (e.merge other).2 = false := by
  rw [← Bool.not_eq_true]
  unfold Covers at h
  by_cases hsame : e.SameEvent other
  · rw [if_pos hsame] at h
    rw [merge_reported_iff hsame]
    rintro ⟨node, hraised, hnew⟩
    obtain ⟨own, hown, hkept⟩ := h node true hraised
    rw [hasAcked, hown, Option.getD_some, hkept rfl] at hnew
    cases hnew
  · rw [if_neg hsame] at h
    rw [merge_reported_of_not_sameEvent hsame]
    exact UInt64.not_lt.mpr h

theorem covers_self (e : EmergencyEvent) : e.Covers e := by
  rw [Covers, if_pos ⟨rfl, rfl⟩]
  exact fun node flag hflag => ⟨flag, hflag, id⟩

theorem covers_merge (e other : EmergencyEvent) :
    (e.merge other).1.Covers other := by
  by_cases hsame : e.SameEvent other
  · have hkept : ({ e with acks := mergeWith false or e.acks other.acks } :
        EmergencyEvent).SameEvent other := hsame
    rw [merge_of_sameEvent hsame, Covers, if_pos hkept]
    intro node flag hflag
    refine ⟨_, by rw [getElem?_mergeWith, hflag], ?_⟩
    rintro rfl
    exact Bool.or_true _
  · by_cases hle : other.timestamp ≤ e.timestamp
    · rw [merge_of_not_newer hsame hle, Covers, if_neg hsame]
      exact hle
    · rw [merge_of_newer (UInt64.not_le.mp hle)]
      exact other.covers_self

/-! ## Wire format -/

def encode (e : EmergencyEvent) : Bytes :=
  u32ToLe e.sourceNode ++ (u64ToLe e.timestamp ++ (u32ToLe (UInt32.ofNat e.acks.size) ++
    encodeEntries flagCodec e.acks.toList))

def decode (data : Bytes) : Option EmergencyEvent :=
  if data.length < 16 then none
  else
    let sourceNode := u32At data 0
    let timestamp := u64At data 4
    let numAcks := (u32At data 12).toNat
    if sourceNode = 0 then none
    else if timestamp < minValidTimestamp then none
    else if numAcks > maxEmergencyAcks then none
    else if data.length < 16 + numAcks * 5 then none
    else some { sourceNode, timestamp, acks := readEntries flagCodec (· != 0) data numAcks 16 ∅ }

/-- The identity checks of `decode`. -/
structure Identified (e : EmergencyEvent) : Prop where
  source_ne_zero : e.sourceNode ≠ 0
  timestamp_ge : minValidTimestamp ≤ e.timestamp

/-- All checks of `decode`, and no acknowledgement that it would skip. -/
structure Valid (e : EmergencyEvent) : Prop extends e.Identified where
  acks_le : e.acks.size ≤ maxEmergencyAcks
  zero_not_mem : 0 ∉ e.acks

@[simp] theorem encode_length (e : EmergencyEvent) : e.encode.length = 16 + e.acks.size * 5 := by
  simp only [encode, List.length_append, u32ToLe_length, u64ToLe_length, encodeEntries_length,
    Std.ExtTreeMap.length_toList, flagCodec]
  omega

section Header

variable (e : EmergencyEvent) (rest : Bytes)

private theorem source_read : u32At (e.encode ++ rest) 0 = e.sourceNode := by
  rw [encode, List.append_assoc, u32At_toLe]

private theorem timestamp_read : u64At (e.encode ++ rest) 4 = e.timestamp := by
  rw [encode, List.append_assoc, u64At_skip (by simp), u32ToLe_length, Nat.sub_self,
    List.append_assoc, u64At_toLe]

private theorem count_read : u32At (e.encode ++ rest) 12 = UInt32.ofNat e.acks.size := by
  rw [encode, List.append_assoc, u32At_skip (by simp), u32ToLe_length, List.append_assoc,
    u32At_skip (by simp), u64ToLe_length, List.append_assoc, u32At_toLe]

end Header

/-- Acknowledgements of the zero identifier do not survive. -/
theorem decode_encode {e : EmergencyEvent} (h : e.Identified)
    (hacks : e.acks.size ≤ maxEmergencyAcks) (rest : Bytes) :
    decode (e.encode ++ rest) = some { e with acks := e.acks.filter fun node _ => node != 0 } := by
  have hsize : (UInt32.ofNat e.acks.size).toNat = e.acks.size := by
    unfold maxEmergencyAcks at hacks
    rw [UInt32.toNat_ofNat']
    omega
  have hread := readEntries_toList flagCodec (· != 0) e.acks
    (u32ToLe e.sourceNode ++ (u64ToLe e.timestamp ++ u32ToLe (UInt32.ofNat e.acks.size))) rest
  simp only [List.append_assoc, List.length_append, u32ToLe_length, u64ToLe_length] at hread
  have hshape : e.encode ++ rest = u32ToLe e.sourceNode ++ (u64ToLe e.timestamp ++
      (u32ToLe (UInt32.ofNat e.acks.size) ++ (encodeEntries flagCodec e.acks.toList ++ rest))) := by
    simp only [encode, List.append_assoc]
  rw [← hshape] at hread
  have hlen : ¬ (e.encode ++ rest).length < 16 + e.acks.size * 5 := by simp
  have hmin : ¬ (e.encode ++ rest).length < 16 := by omega
  simp only [decode, source_read, timestamp_read, count_read, hsize, hread, if_neg hmin,
    if_neg h.source_ne_zero, if_neg (UInt64.not_lt.mpr h.timestamp_ge), if_neg hlen,
    if_neg (Nat.not_lt.mpr hacks)]

theorem decode_encode_of_valid {e : EmergencyEvent} (h : e.Valid) : decode e.encode = some e := by
  have hkeep : ∀ node ∈ e.acks, (node != 0) = true := by
    intro node hmem
    refine bne_iff_ne.mpr ?_
    rintro rfl
    exact h.zero_not_mem hmem
  have hread := decode_encode h.toIdentified h.acks_le []
  rwa [List.append_nil, filter_eq_self hkeep] at hread

/-- An event without an identity is rejected whatever follows it. -/
theorem decode_eq_none {e : EmergencyEvent} (h : ¬ e.Identified) (rest : Bytes) :
    decode (e.encode ++ rest) = none := by
  by_cases hsource : e.sourceNode = 0
  · simp only [decode, source_read, hsource, if_true, ite_self]
  · have hold : e.timestamp < minValidTimestamp := by
      by_contra hge
      exact h ⟨hsource, UInt64.not_lt.mp hge⟩
    simp only [decode, source_read, timestamp_read, if_neg hsource, if_pos hold, ite_self]

/-- So is an event with too many acknowledgements. -/
theorem decode_eq_none_of_many {e : EmergencyEvent} (hmany : maxEmergencyAcks < e.acks.size)
    (hsize : e.acks.size < 2 ^ 32) (rest : Bytes) : decode (e.encode ++ rest) = none := by
  have hcount : (UInt32.ofNat e.acks.size).toNat = e.acks.size := by
    rw [UInt32.toNat_ofNat', Nat.mod_eq_of_lt hsize]
  simp only [decode, count_read, hcount, if_pos hmany, ite_self]

theorem valid_of_decode {data : Bytes} {e : EmergencyEvent} (h : decode data = some e) :
    e.Valid := by
  unfold decode at h
  dsimp only at h
  split_ifs at h with hshort hsource htime hmany hfits
  obtain rfl := Option.some.inj h
  refine ⟨⟨hsource, UInt64.not_lt.mp htime⟩, ?_, ?_⟩
  · have hsize := size_readEntries_le flagCodec (· != 0) data (u32At data 12).toNat 16 ∅
    rw [Std.ExtTreeMap.size_empty] at hsize
    unfold maxEmergencyAcks at hmany ⊢
    dsimp only
    omega
  · intro hzero
    rcases mem_readEntries flagCodec hzero with hempty | hkeep
    · simp at hempty
    · cases hkeep

end EmergencyEvent

end PeatBtle
