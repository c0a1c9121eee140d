import PeatBtle.Data.LoggedRun
import PeatBtle.Mesh.Effect

/-!
# Emergencies after they were cleared

Clearing an emergency drops the record that a merge compares with. What keeps an
old emergency out afterwards is an emergency that the node holds by then, and
nothing else does.
-/

namespace PeatBtle

namespace EmergencyEvent

/-- The other event is the same incident or an earlier one. -/
def Outdates (e other : EmergencyEvent) : Prop :=
  e.SameEvent other ∨ other.timestamp < e.timestamp

instance (e other : EmergencyEvent) : Decidable (Outdates e other) :=
  inferInstanceAs (Decidable (_ ∨ _))

/-- A merge either keeps the incident or takes over a newer one. -/
theorem sameEvent_merge_iff {e other : EmergencyEvent} :
    e.SameEvent (e.merge other).1 ↔ other.timestamp ≤ e.timestamp := by
  by_cases hsame : e.SameEvent other
  · rw [merge_of_sameEvent hsame]
    exact iff_of_true ⟨rfl, rfl⟩ (UInt64.le_of_eq hsame.2.symm)
  · by_cases hle : other.timestamp ≤ e.timestamp
    · rw [merge_of_not_newer hsame hle]
      exact iff_of_true ⟨rfl, rfl⟩ hle
    · rw [merge_of_newer (UInt64.not_le.mp hle)]
      exact iff_of_false hsame hle

end EmergencyEvent

namespace DocumentSync

variable {s : DocumentSync} {action : Action} {received : PeatDocument}
  {cleared other : EmergencyEvent}

/-- The action merges a document with an emergency that the cleared one outdates. -/
def MergesOutdated (cleared : EmergencyEvent) (action : Action) (received : PeatDocument)
    (other : EmergencyEvent) : Prop :=
  ∃ data, action = .merge data ∧ PeatDocument.decode data = some received ∧
    received.emergency = some other ∧ cleared.Outdates other

/-- Such a document does not make an emergency active where none is. -/
def StaysInactive (cleared : EmergencyEvent) (s : DocumentSync) (action : Action) : Prop :=
  ∀ received other, MergesOutdated cleared action received other →
    s.emergency = none → (s.act action).emergency = none

/-- Such a document does not make an emergency active that was not active right before. -/
def StaysDisplaced (cleared : EmergencyEvent) (s : DocumentSync) (action : Action) : Prop :=
  ∀ received other, MergesOutdated cleared action received other →
    ∀ active, (s.act action).emergency = some active →
      ∃ own, s.emergency = some own ∧ own.SameEvent active

/-- Such a document is our own, or we hold an emergency when it comes. -/
def ComesDuringEmergency (cleared : EmergencyEvent) (s : DocumentSync) (action : Action) : Prop :=
  ∀ received other, MergesOutdated cleared action received other →
    received.nodeId ≠ s.nodeId → s.emergency ≠ none

/-- Such a document is our own, or we hold an emergency that is no older when it comes. -/
def ComesTooLate (cleared : EmergencyEvent) (s : DocumentSync) (action : Action) : Prop :=
  ∀ received other, MergesOutdated cleared action received other →
    received.nodeId ≠ s.nodeId → ∃ own, s.emergency = some own ∧ other.timestamp ≤ own.timestamp

theorem emergency_clearEmergency (s : DocumentSync) : s.clearEmergency.emergency = none := by
  unfold clearEmergency
  split_ifs with hactive
  · rfl
  · exact Option.not_isSome_iff_eq_none.mp hactive

/-- What the merge of a document with an emergency leaves: what was there if the document is our
own, else the event that wins. -/
theorem emergency_act_of_merges (h : MergesOutdated cleared action received other) :
    (s.act action).emergency =
      if received.nodeId = s.nodeId then s.emergency
      else some (s.emergency.elim other fun own => (own.merge other).1) := by
  obtain ⟨data, rfl, hdecode, hother, -⟩ := h
  show (s.mergeDocument data).1.emergency = _
  have haccepts : s.accepts data =
      if received.nodeId = s.nodeId then none else some received := by
    rw [accepts, hdecode]
    rfl
  rw [mergeDocument_eq, haccepts]
  by_cases hown : received.nodeId = s.nodeId
  · rw [if_pos hown, if_pos hown]
  · rw [if_neg hown, if_neg hown]
    dsimp only
    rw [emergency_mergeReceived, hother]
    cases s.emergency with
    | none => rfl
    | some own => rfl

theorem staysInactive_iff :
    StaysInactive cleared s action ↔ ComesDuringEmergency cleared s action := by
  constructor
  · intro h received other hmerges hforeign hnone
    have hafter := h received other hmerges hnone
    rw [emergency_act_of_merges hmerges, if_neg hforeign] at hafter
    cases hafter
  · intro h received other hmerges hnone
    rw [emergency_act_of_merges hmerges]
    by_cases hown : received.nodeId = s.nodeId
    · rw [if_pos hown]
      exact hnone
    · exact absurd hnone (h received other hmerges hown)

theorem staysDisplaced_iff :
    StaysDisplaced cleared s action ↔ ComesTooLate cleared s action := by
  constructor
  · intro h received other hmerges hforeign
    have hafter := emergency_act_of_merges (s := s) hmerges
    rw [if_neg hforeign] at hafter
    obtain ⟨own, hown, hsame⟩ := h received other hmerges _ hafter
    rw [hown] at hsame
    exact ⟨own, hown, EmergencyEvent.sameEvent_merge_iff.mp hsame⟩
  · intro h received other hmerges active hactive
    rw [emergency_act_of_merges hmerges] at hactive
    by_cases hforeign : received.nodeId = s.nodeId
    · rw [if_pos hforeign] at hactive
      exact ⟨active, hactive, rfl, rfl⟩
    · obtain ⟨own, hown, hle⟩ := h received other hmerges hforeign
      rw [if_neg hforeign, hown] at hactive
      obtain rfl := Option.some.inj hactive
      exact ⟨own, hown, EmergencyEvent.sameEvent_merge_iff.mpr hle⟩

/-- A cleared emergency stays cleared if and only if, whenever a peer's copy of it or of an older
one is merged, the node holds an emergency again. To keep that one active as well, it must be no
older than the copy. -/
theorem cleared_stays_cleared_iff (s : DocumentSync) (front later : List Action)
    (cleared : EmergencyEvent) :
    (s.run front).emergency = some cleared →
    let start := s.run (front ++ [.mutate .clearEmergency])
    start.emergency = none ∧
    (LoggedRun.Along act (StaysInactive cleared) start later ↔
      LoggedRun.Along act (ComesDuringEmergency cleared) start later) ∧
    (LoggedRun.Along act (StaysDisplaced cleared) start later ↔
      LoggedRun.Along act (ComesTooLate cleared) start later) := by
  intro _ start
  refine ⟨?_, ?_, ?_⟩
  · show (s.run (front ++ [.mutate .clearEmergency])).emergency = none
    rw [run_append]
    exact emergency_clearEmergency (s.run front)
  · exact @LoggedRun.along_congr _ _ act (fun _ => True) _ _ start later trivial
      (fun _ _ _ => trivial) fun _ _ _ => staysInactive_iff
  · exact @LoggedRun.along_congr _ _ act (fun _ => True) _ _ start later trivial
      (fun _ _ _ => trivial) fun _ _ _ => staysDisplaced_iff

/-- A node that declared an emergency, and the peer that heard of it. -/
def declarer : DocumentSync := (new 0x111 "ALPHA").run [.mutate (.startEmergency 1705000000000 [])]

def listener : DocumentSync := (new 0x222 "BRAVO").run [.merge declarer.buildDocument]

/-- Under a newer emergency the peer's copy of the cleared one does nothing. -/
theorem cleared_stays_cleared_under_newer :
    LoggedRun.Along act (StaysInactive (EmergencyEvent.new 0x111 1705000000000 []))
      (declarer.act (.mutate .clearEmergency))
      [.mutate (.startEmergency 1705000001000 []), .merge listener.buildDocument] := by
  have hheld : (declarer.run []).emergency = some (EmergencyEvent.new 0x111 1705000000000 []) := rfl
  refine (cleared_stays_cleared_iff declarer [] _ _ hheld).2.1.mpr ⟨?_, ?_, trivial⟩
  · rintro received other ⟨data, haction, -⟩
    cases haction
  · intro received other _ _ hnone
    cases hnone

/-- The peer's next document brings the cleared emergency back. -/
theorem cleared_revived_by_echo :
    declarer.emergency = some (EmergencyEvent.new 0x111 1705000000000 []) ∧
    ¬ LoggedRun.Along act (StaysInactive (EmergencyEvent.new 0x111 1705000000000 []))
      (declarer.act (.mutate .clearEmergency)) [.merge listener.buildDocument] := by
  have hcarried : ((PeatDocument.decode listener.buildDocument).bind PeatDocument.emergency).map
      (fun e => (e.sourceNode, e.timestamp)) = some (0x111, 1705000000000) := by decide +kernel
  have hrevived : ((declarer.act (.mutate .clearEmergency)).act
      (.merge listener.buildDocument)).emergency.isSome = true := by decide +kernel
  refine ⟨rfl, ?_⟩
  rintro ⟨hstays, -⟩
  obtain ⟨other, hother, hidentity⟩ := Option.map_eq_some_iff.mp hcarried
  obtain ⟨received, hdecode, hreceived⟩ := Option.bind_eq_some_iff.mp hother
  obtain ⟨hsource, htimestamp⟩ := Prod.mk.inj hidentity
  have hafter := hstays received other
    ⟨_, rfl, hdecode, hreceived, Or.inl ⟨hsource.symm, htimestamp.symm⟩⟩ rfl
  rw [hafter] at hrevived
  cases hrevived

end DocumentSync

end PeatBtle
