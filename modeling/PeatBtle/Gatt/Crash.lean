import PeatBtle.Data.PartialRun
import PeatBtle.Gatt.Protocol

/-!
# Where the protocol panics

Two bytes of a message that starts a reassembly are the size of a table and an index
into it, and they are not compared. The size of a fragment comes from the MTU, and may
be zero.
-/

namespace PeatBtle

open Wire

namespace SyncProtocol

inductive Call where
  | setMtu (mtu : UInt16)
  | startSync (syncVector : Bytes)
  | queueDocument (docData : Bytes)
  | endSync
  | nextOutgoing
  | processIncoming (data : Bytes)
  | reset
deriving DecidableEq

/-- A panic has no result. -/
def call (p : SyncProtocol) : Call → Option SyncProtocol
  | .setMtu mtu => some (p.setMtu mtu)
  | .startSync syncVector => p.startSync syncVector
  | .queueDocument docData => p.queueDocument docData
  | .endSync => some p.endSync
  | .nextOutgoing => some p.nextOutgoing.1
  | .processIncoming data => (p.processIncoming data).map Prod.fst
  | .reset => some p.reset

/-- A first fragment has an index below the total of its message. -/
def InTable (p : SyncProtocol) (msg : SyncMessage) : Prop :=
  msg.totalFragments > 1 → (∀ held ∈ p.reassembler, held.seq ≠ msg.seq) →
    msg.fragmentIndex.toNat < msg.totalFragments.toNat

/-- Nothing is cut into fragments of no bytes, and the table is not left. -/
def Safe (p : SyncProtocol) : Call → Prop
  | .startSync payload | .queueDocument payload => payload ≠ [] → 0 < p.maxPayload
  | .processIncoming data => ∀ msg ∈ SyncMessage.decode data, p.InTable msg
  | .setMtu _ | .endSync | .nextOutgoing | .reset => True

instance (p : SyncProtocol) (msg : SyncMessage) : Decidable (p.InTable msg) :=
  inferInstanceAs (Decidable (_ → _ → _))

instance (p : SyncProtocol) : (action : Call) → Decidable (p.Safe action)
  | .startSync _ | .queueDocument _ => inferInstanceAs (Decidable (_ → _))
  | .processIncoming data => inferInstanceAs (Decidable (∀ msg ∈ SyncMessage.decode data, _))
  | .setMtu _ | .endSync | .nextOutgoing | .reset => inferInstanceAs (Decidable True)

theorem isSome_fragmentPayload_iff (msgType : SyncMessageType) (seq : UInt16) (payload : Bytes)
    (maxFragmentSize : Nat) :
    (fragmentPayload msgType seq payload maxFragmentSize).isSome = true ↔
      (payload ≠ [] → 0 < maxFragmentSize) := by
  unfold fragmentPayload
  split
  · rename_i hwhole
    refine iff_of_true rfl fun hsome => ?_
    rcases hwhole with hempty | hle
    · exact absurd (List.isEmpty_iff.mp hempty) hsome
    · have hlength := List.length_pos_iff.mpr hsome
      omega
  · rename_i hcut
    rw [not_or, List.isEmpty_iff] at hcut
    rw [forall_prop_of_true hcut.1]
    split
    · rename_i hzero
      exact iff_of_false Bool.false_ne_true (by omega)
    · rename_i hsize
      exact iff_of_true rfl (Nat.pos_of_ne_zero hsize)

theorem isSome_startReassembly_iff (p : SyncProtocol) (msg : SyncMessage) :
    (p.startReassembly msg).isSome = true ↔
      msg.fragmentIndex.toNat < msg.totalFragments.toNat := by
  rw [startReassembly, Option.isSome_map, FragmentReassembler.new]
  split
  · rename_i hlt
    exact iff_of_true rfl hlt
  · rename_i hge
    exact iff_of_false Bool.false_ne_true hge

/-- A fragment that joins a partial message is always taken or skipped. -/
theorem isSome_processFragment_iff (p : SyncProtocol) (msg : SyncMessage) :
    (p.processFragment msg).isSome = true ↔ ((∀ held ∈ p.reassembler, held.seq ≠ msg.seq) →
      msg.fragmentIndex.toNat < msg.totalFragments.toNat) := by
  unfold processFragment
  cases hheld : p.reassembler with
  | none =>
      rw [isSome_startReassembly_iff, forall_prop_of_true]
      intro held hnone
      cases hnone
  | some current =>
      by_cases hseq : current.seq = msg.seq
      · refine iff_of_true ?_ fun hother => absurd hseq (hother current rfl)
        simp only [if_pos hseq]
        split
        · split <;> rfl
        · rfl
      · simp only [if_neg hseq]
        rw [isSome_startReassembly_iff, forall_prop_of_true]
        intro held hsome
        obtain rfl := Option.some.inj hsome
        exact hseq

theorem isSome_processIncoming_iff (p : SyncProtocol) (data : Bytes) :
    (p.processIncoming data).isSome = true ↔ ∀ msg ∈ SyncMessage.decode data, p.InTable msg := by
  unfold processIncoming
  cases hdecode : SyncMessage.decode data with
  | none =>
      refine iff_of_true rfl fun msg hnone => ?_
      cases hnone
  | some msg =>
      have hone : (∀ other ∈ some msg, p.InTable other) ↔ p.InTable msg := by
        simp only [Option.mem_some_iff, forall_eq']
      rw [hone, InTable]
      by_cases hmany : msg.totalFragments > 1
      · simp only [if_pos hmany, forall_prop_of_true hmany]
        exact isSome_processFragment_iff p msg
      · simp only [if_neg hmany]
        exact iff_of_true rfl fun h => absurd h hmany

theorem isSome_call_iff (p : SyncProtocol) (action : Call) :
    (p.call action).isSome = true ↔ p.Safe action := by
  cases action with
  | startSync payload =>
      change ((fragmentPayload _ _ payload p.maxPayload).map _).isSome = true ↔ _
      rw [Option.isSome_map]
      exact isSome_fragmentPayload_iff ..
  | queueDocument payload =>
      have hmax :
          (if p.state = .idle then { p with state := .sendingDocuments } else p).maxPayload =
            p.maxPayload := by
        split <;> rfl
      change ((fragmentPayload _ _ payload _).map _).isSome = true ↔ _
      rw [Option.isSome_map, isSome_fragmentPayload_iff, hmax]
      rfl
  | processIncoming data =>
      change ((p.processIncoming data).map Prod.fst).isSome = true ↔ _
      rw [Option.isSome_map]
      exact isSome_processIncoming_iff p data
  | setMtu mtu => exact iff_of_true rfl trivial
  | endSync => exact iff_of_true rfl trivial
  | nextOutgoing => exact iff_of_true rfl trivial
  | reset => exact iff_of_true rfl trivial

/-- A row of calls goes through exactly if each of them is safe in the state it meets. -/
theorem calls_complete_iff (calls : List Call) :
    (PartialRun.run call new calls).isSome = true ↔ PartialRun.Along call Safe new calls :=
  PartialRun.isSome_run_iff trivial (fun _ _ _ _ _ => trivial) fun p action _ =>
    isSome_call_iff p action

/-- One write of five bytes, or an MTU of eight, is enough. -/
theorem calls_crash :
    PartialRun.run call new [.processIncoming [0x01, 0, 0, 2, 5]] = none ∧
      PartialRun.run call new [.setMtu 8, .queueDocument [1]] = none := by
  exact ⟨rfl, rfl⟩

end SyncProtocol

end PeatBtle
