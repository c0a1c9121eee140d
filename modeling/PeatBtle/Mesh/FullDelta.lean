import PeatBtle.Mesh.Run
import PeatBtle.Sync.DeltaRoundTrip

/-!
# Full deltas on the wire

A full delta describes all that a node holds, but a node may hold more than the
format can say: the lengths in it are narrower than the tables behind them, and
its peripheral is checked like any other.
-/

namespace PeatBtle

open Wire

namespace PeatMesh

variable {D : Type}

theorem fullDeltaDocument_eq (m : PeatMesh D) (nowMs : UInt64) :
    m.fullDeltaDocument nowMs =
      { DeltaDocument.new m.config.nodeId nowMs with
        operations := syncOperations m.documentSync (fun _ => nowMs) nowMs ++
          m.appDocumentDeltaOps.map Operation.app } := by
  rw [fullDeltaDocument, DeltaDocument.foldl_addOperation]
  rfl

/-- One operation for the emergency and one for each acknowledgement. -/
def emergencyOperationCount (emergency : Option EmergencyEvent) : Nat :=
  emergency.elim 0 fun e => 1 + e.ackCount

theorem length_emergencyOperations (emergency : Option EmergencyEvent) :
    (emergencyOperations emergency).length = emergencyOperationCount emergency := by
  cases emergency with
  | none => rfl
  | some e =>
      simp only [emergencyOperations, emergencyOperationCount, Option.elim, List.length_cons,
        List.length_map, EmergencyEvent.ackedNodes, EmergencyEvent.ackCount]
      omega

/-- What a node may hold for its full delta to be within the limits of the format. -/
structure FullDeltaFits (m : PeatMesh D) : Prop where
  operations_le : m.documentSync.counter.counts.size + 1 +
    emergencyOperationCount m.documentSync.emergency + m.appDocumentDeltaOps.length ≤ 65535
  peripheral_valid : m.documentSync.peripheral.Valid
  peers_le : ∀ e, m.documentSync.emergency = some e → e.acks.size ≤ 255
  app_fit : ∀ op ∈ m.appDocumentDeltaOps, op.Fits

theorem length_fullDelta (m : PeatMesh D) (nowMs : UInt64) :
    (m.fullDeltaDocument nowMs).operations.length = m.documentSync.counter.counts.size + 1 +
      emergencyOperationCount m.documentSync.emergency + m.appDocumentDeltaOps.length := by
  rw [fullDeltaDocument_eq]
  simp only [syncOperations, DocumentSync.counterEntries, GCounter.entries, List.length_append,
    List.length_cons, List.length_map, Std.ExtTreeMap.length_toList, length_emergencyOperations]
  omega

/-- Only some kinds of operations have limits. -/
theorem fullDelta_operations_fit_iff (m : PeatMesh D) (nowMs : UInt64) :
    (∀ op ∈ (m.fullDeltaDocument nowMs).operations, op.Fits) ↔
      m.documentSync.peripheral.Valid ∧
        (∀ e, m.documentSync.emergency = some e → e.acks.size ≤ 255) ∧
          ∀ op ∈ m.appDocumentDeltaOps, op.Fits := by
  have hperipheral : m.documentSync.peripheral.Valid ↔
      Peripheral.decode m.documentSync.peripheral.encode = some m.documentSync.peripheral :=
    ⟨Peripheral.decode_encode, Peripheral.valid_of_decode⟩
  have hcounts : ∀ op ∈ m.documentSync.counterEntries.map (fun entry =>
      Operation.incrementCounter 0 entry.1 entry.2 nowMs), op.Fits := by
    intro op hop
    obtain ⟨entry, -, rfl⟩ := List.mem_map.mp hop
    trivial
  have hemergency : (∀ op ∈ emergencyOperations m.documentSync.emergency, op.Fits) ↔
      ∀ e, m.documentSync.emergency = some e → e.acks.size ≤ 255 := by
    cases m.documentSync.emergency with
    | none => exact iff_of_true (fun _ hop => absurd hop List.not_mem_nil) (fun _ hnone => by cases hnone)
    | some e =>
        have hlength : e.allNodes.length = e.acks.size := by
          rw [EmergencyEvent.allNodes, List.length_map, Std.ExtTreeMap.length_toList]
        have hacks : ∀ op ∈ e.ackedNodes.map (fun node => Operation.ackEmergency node e.timestamp),
            op.Fits := by
          intro op hop
          obtain ⟨node, -, rfl⟩ := List.mem_map.mp hop
          trivial
        rw [emergencyOperations, List.forall_mem_cons, and_iff_left hacks, Operation.Fits, hlength]
        exact ⟨by rintro hle _ ⟨⟩; exact hle, fun h => h e rfl⟩
  rw [fullDeltaDocument_eq, hperipheral, ← hemergency]
  simp only [syncOperations, List.forall_mem_append, List.forall_mem_cons, List.forall_mem_map,
    Operation.Fits, peripheralOperation]
  constructor
  · rintro ⟨⟨-, hp, he⟩, happ⟩
    exact ⟨hp, he, happ⟩
  · rintro ⟨hp, he, happ⟩
    exact ⟨⟨fun _ _ => trivial, hp, he⟩, happ⟩

/-- A full delta is read back with the operations put in if and only if what the node holds is
within the limits. -/
theorem full_delta_read_back_iff (m : PeatMesh D) (nowMs : UInt64) :
    (∃ d, DeltaDocument.decode (m.fullDeltaDocument nowMs).encode = some d ∧
        d.operations = (m.fullDeltaDocument nowMs).operations) ↔ m.FullDeltaFits := by
  have hfit := m.fullDelta_operations_fit_iff nowMs
  have hlength := m.length_fullDelta nowMs
  constructor
  · rintro ⟨d, hdecode, hoperations⟩
    obtain ⟨hle, hall⟩ := DeltaDocument.operations_fit_of_decode hdecode
    rw [hoperations] at hle hall
    obtain ⟨hp, he, happ⟩ := hfit.mp hall
    exact ⟨by omega, hp, he, happ⟩
  · intro h
    have hplain : (m.fullDeltaDocument nowMs).Fits := by
      refine ⟨?_, by have hle := h.operations_le; omega,
        hfit.mpr ⟨h.peripheral_valid, h.peers_le, h.app_fit⟩⟩
      rw [fullDeltaDocument_eq]
      rfl
    refine ⟨_, DeltaDocument.decode_encode hplain ?_, rfl⟩
    rw [fullDeltaDocument_eq]
    exact fun _ hnone => by cases hnone

/-- A node that declares an emergency to 255 others. -/
def crowdedNode : PeatMesh Unit :=
  run .unavailable (PeatMeshConfig.new 1 "ALPHA-1" "DEMO")
    [.mutate (.startEmergency 1700000000000 ((List.range 255).map fun i => UInt32.ofNat (i + 2)))]

/-- The node itself is tracked too, and 256 does not fit the length byte. -/
theorem crowded_delta_not_read_back :
    ¬ ∃ d, DeltaDocument.decode (crowdedNode.fullDeltaDocument 1700000000001).encode = some d ∧
      d.operations = (crowdedNode.fullDeltaDocument 1700000000001).operations := by
  rintro ⟨d, hdecode, hoperations⟩
  have hall := (DeltaDocument.operations_fit_of_decode hdecode).2
  rw [hoperations] at hall
  have hpeers := ((crowdedNode.fullDelta_operations_fit_iff 1700000000001).mp hall).2.1
  have hmany : ¬ ∀ e ∈ crowdedNode.documentSync.emergency, e.acks.size ≤ 255 := by decide +kernel
  exact hmany hpeers

end PeatMesh

end PeatBtle
