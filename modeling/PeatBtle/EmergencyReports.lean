import PeatBtle.Mesh.Effect

/-!
# Reported changes of emergencies

A merge of acknowledgements adds the nodes it did not track and raises flags, but
reports only raised flags. A document that brings nothing but pending nodes changes
what we broadcast and leaves its version as it was.
-/

namespace PeatBtle

open Wire

namespace EmergencyEvent

variable {e other : EmergencyEvent}

/-- The same incident with nothing new but nodes that have not acknowledged. -/
structure OnlyTracks (e other : EmergencyEvent) : Prop where
  sameEvent : e.SameEvent other
  no_flag_raised : ∀ node, other.hasAcked node = true → e.hasAcked node = true
  new_node : ∃ node ∈ other.acks, node ∉ e.acks

theorem raised_iff_hasAcked {node : UInt32} :
    other.acks[node]? = some true ↔ other.hasAcked node = true := by
  unfold hasAcked
  cases other.acks[node]? with
  | none => simp
  | some flag => simp

theorem merge_reported_iff_hasAcked (h : e.SameEvent other) :
    (e.merge other).2 = true ↔ ∃ node, other.hasAcked node = true ∧ e.hasAcked node = false := by
  simp only [merge_reported_iff h, raised_iff_hasAcked]

/-- A merge of the same event has an effect if a flag is raised or a node is new. -/
theorem merge_ne_self_iff (h : e.SameEvent other) :
    (e.merge other).1 ≠ e ↔
      (∃ node, other.hasAcked node = true ∧ e.hasAcked node = false) ∨
        ∃ node ∈ other.acks, node ∉ e.acks := by
  rw [Ne, merge_eq_self_iff, Covers, if_pos h]
  constructor
  · intro hnews
    push Not at hnews
    obtain ⟨node, flag, hflag, hown⟩ := hnews
    cases hold : e.acks[node]? with
    | none =>
        refine Or.inr ⟨node, MapMerge.mem_of_getElem? hflag, ?_⟩
        rw [Std.ExtTreeMap.mem_iff_isSome_getElem?, hold]
        exact Bool.false_ne_true
    | some own =>
        obtain ⟨rfl, hlow⟩ := hown own hold
        refine Or.inl ⟨node, raised_iff_hasAcked.mp hflag, ?_⟩
        rw [hasAcked, hold, Option.getD_some]
        exact Bool.eq_false_iff.mpr hlow
  · rintro (⟨node, hraised, hlow⟩ | ⟨node, hmem, hnew⟩) hcovers
    · obtain ⟨own, hown, hkept⟩ := hcovers node true (raised_iff_hasAcked.mpr hraised)
      rw [hasAcked, hown, Option.getD_some, hkept rfl] at hlow
      cases hlow
    · obtain ⟨flag, hflag⟩ := Option.isSome_iff_exists.mp
        (Std.ExtTreeMap.mem_iff_isSome_getElem?.mp hmem)
      obtain ⟨own, hown, -⟩ := hcovers node flag hflag
      exact hnew (MapMerge.mem_of_getElem? hown)

theorem merge_reported_iff_changed :
    ((e.merge other).2 = true ↔ (e.merge other).1 ≠ e) ↔ ¬ e.OnlyTracks other := by
  by_cases hsame : e.SameEvent other
  · rw [merge_reported_iff_hasAcked hsame, merge_ne_self_iff hsame]
    constructor
    · intro hiff htracks
      obtain ⟨node, hraised, hlow⟩ := hiff.mpr (Or.inr htracks.new_node)
      rw [htracks.no_flag_raised node hraised] at hlow
      cases hlow
    · intro hnot
      refine ⟨Or.inl, ?_⟩
      rintro (hraised | hnew)
      · exact hraised
      · by_contra hnone
        push Not at hnone
        exact hnot ⟨hsame, fun node hraised => Bool.not_eq_false _ ▸ hnone node hraised, hnew⟩
  · refine iff_of_true ?_ fun htracks => hsame htracks.sameEvent
    rw [merge_reported_of_not_sameEvent hsame]
    rw [Ne, merge_eq_self_iff, Covers, if_neg hsame, UInt64.not_le]

end EmergencyEvent

namespace DocumentSync

/-- Pending nodes are all that an accepted document brings to the emergency, and the total of the
counts stays as it is. -/
def QuietlyTracks (s : DocumentSync) (data : Bytes) : Prop :=
  ∃ received own other, s.accepts data = some received ∧ s.emergency = some own ∧
    received.emergency = some other ∧ own.OnlyTracks other ∧
    (s.counter.merge received.counter).value = s.counter.value

theorem version_mergeReceived_eq_iff (s : DocumentSync) (received : PeatDocument) :
    (s.mergeReceived received).1.version = s.version ↔
      (s.counter.merge received.counter).value = s.counter.value ∧
        (PeatDocument.mergeEmergency s.emergency received.emergency).2 = false := by
  have hnext : s.version + 1 ≠ s.version := by
    intro h
    have := congrArg UInt32.toNat h
    rw [UInt32.toNat_add] at this
    change (s.version.toNat + 1) % 2 ^ 32 = s.version.toNat at this
    have := s.version.toNat_lt
    omega
  simp only [mergeReceived, Bool.or_eq_true, bne_iff_ne, ne_eq]
  split_ifs with hchanged
  · refine iff_of_false hnext ?_
    rintro ⟨hvalue, hemergency⟩
    rcases hchanged with hcounter | hreported
    · exact hcounter hvalue
    · rw [hreported] at hemergency
      cases hemergency
  · push Not at hchanged
    exact iff_of_true rfl ⟨hchanged.1, Bool.eq_false_iff.mpr hchanged.2⟩

/-- The one unreported effect. -/
theorem mergeEmergency_silent_iff {ours theirs : Option EmergencyEvent} :
    ((PeatDocument.mergeEmergency ours theirs).1 ≠ ours ∧
        (PeatDocument.mergeEmergency ours theirs).2 = false) ↔
      ∃ own other, ours = some own ∧ theirs = some other ∧ own.OnlyTracks other := by
  cases theirs with
  | none => simp [PeatDocument.mergeEmergency]
  | some other =>
      cases ours with
      | none => simp [PeatDocument.mergeEmergency]
      | some own =>
          have hexact := @EmergencyEvent.merge_reported_iff_changed own other
          have hneeded : (own.merge other).2 = true → (own.merge other).1 ≠ own := by
            intro hreported hsame
            rw [EmergencyEvent.merge_eq_self_iff] at hsame
            rw [EmergencyEvent.merge_unreported_of_covers hsame] at hreported
            cases hreported
          simp only [PeatDocument.mergeEmergency, Ne, Option.some.injEq]
          constructor
          · rintro ⟨hchanged, hsilent⟩
            refine ⟨own, other, rfl, rfl, ?_⟩
            by_contra hnot
            rw [(hexact.mpr hnot).mpr hchanged] at hsilent
            cases hsilent
          · rintro ⟨_, _, rfl, rfl, htracks⟩
            by_contra hnot
            refine hexact.mp ⟨hneeded, ?_⟩ htracks
            intro hchanged
            by_contra hsilent
            exact hnot ⟨hchanged, Bool.eq_false_iff.mpr hsilent⟩

/-- The emergency that we broadcast changes unnoticed exactly when a document quietly tracks. -/
theorem version_of_emergency_iff (s : DocumentSync) (data : Bytes) :
    ((s.mergeDocument data).1.toDocument.emergency ≠ s.toDocument.emergency →
        (s.mergeDocument data).1.version ≠ s.version) ↔ ¬ s.QuietlyTracks data := by
  rw [mergeDocument_eq]
  cases haccepts : s.accepts data with
  | none =>
      refine iff_of_true (fun h => absurd rfl h) ?_
      rintro ⟨received, own, other, hsome, -⟩
      rw [haccepts] at hsome
      cases hsome
  | some received =>
      show ((s.mergeReceived received).1.emergency ≠ s.emergency →
        (s.mergeReceived received).1.version ≠ s.version) ↔ _
      rw [emergency_mergeReceived, Ne, Ne, version_mergeReceived_eq_iff]
      constructor
      · rintro hbumped ⟨_, own, other, hsome, hown, hother, htracks, htotal⟩
        rw [haccepts] at hsome
        obtain rfl := Option.some.inj hsome
        obtain ⟨hchanged, hsilent⟩ :=
          mergeEmergency_silent_iff.mpr ⟨own, other, hown, hother, htracks⟩
        exact hbumped hchanged ⟨htotal, hsilent⟩
      · rintro hnot hchanged ⟨htotal, hsilent⟩
        obtain ⟨own, other, hown, hother, htracks⟩ :=
          mergeEmergency_silent_iff.mp ⟨hchanged, hsilent⟩
        exact hnot ⟨received, own, other, haccepts, hown, hother, htracks, htotal⟩

/-- A merge of two events reports a change exactly unless it only tracks new nodes; and a merged
document bumps the version with the emergency exactly unless it quietly does so. -/
theorem merge_reports_change_iff (e other : EmergencyEvent) (s : DocumentSync) (data : Bytes) :
    (((e.merge other).2 = true ↔ (e.merge other).1 ≠ e) ↔ ¬ e.OnlyTracks other) ∧
      (((s.mergeDocument data).1.toDocument.emergency ≠ s.toDocument.emergency →
          (s.mergeDocument data).1.version ≠ s.version) ↔ ¬ s.QuietlyTracks data) :=
  ⟨EmergencyEvent.merge_reported_iff_changed, version_of_emergency_iff s data⟩

/-- Node 1 has declared an emergency and knows nobody; node 2 has heard of it. -/
def declared : DocumentSync :=
  ((DocumentSync.new 1 "ALPHA").startEmergency 1700000000000 []).1

def withPendingNode : PeatDocument where
  version := 1
  nodeId := 2
  counter := GCounter.new
  peripheral := none
  emergency := some (EmergencyEvent.new 1 1700000000000 [2])

theorem pending_node_unreported :
    ((EmergencyEvent.new 1 1700000000000 []).merge
        (EmergencyEvent.new 1 1700000000000 [2])).2 = false ∧
      ((EmergencyEvent.new 1 1700000000000 []).merge
        (EmergencyEvent.new 1 1700000000000 [2])).1 ≠ EmergencyEvent.new 1 1700000000000 [] ∧
      (declared.mergeDocument withPendingNode.encode).1.toDocument.emergency ≠
        declared.toDocument.emergency ∧
      (declared.mergeDocument withPendingNode.encode).1.version = declared.version := by
  decide +kernel

end DocumentSync

end PeatBtle
