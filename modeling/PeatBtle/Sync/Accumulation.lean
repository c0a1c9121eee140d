import PeatBtle.Data.LoggedRun
import PeatBtle.Data.Reservoir
import PeatBtle.Sync.Protocol

/-!
# Accumulated operations

An accumulator counts the bytes of what is pending and remembers when the first of
it came. It lets an operation of any size into an empty batch. The coordinator
counts an operation in its vector clock before the accumulator has seen it.
-/

namespace PeatBtle

open Std Wire MapMerge Reservoir

namespace OperationBatch

theorem totalSize_append (front back : List CrdtOperation) :
    totalSize (front ++ back) = totalSize front + totalSize back := by
  rw [totalSize, List.map_append, List.sum_append]
  rfl

end OperationBatch

namespace BatchAccumulator

def forceFlush (acc : BatchAccumulator) (currentTimeMs : UInt64) :
    BatchAccumulator × Option OperationBatch := acc.flush currentTimeMs

def clear (acc : BatchAccumulator) : BatchAccumulator :=
  { acc with pending := [], bytesAccumulated := 0, firstPendingTime := none }

inductive Call where
  | add (op : CrdtOperation) (currentTimeMs : UInt64)
  | flush (currentTimeMs : UInt64)
  | forceFlush (currentTimeMs : UInt64)
  | clear

def call (acc : BatchAccumulator) : Call → BatchAccumulator
  | .add op currentTimeMs => (acc.add op currentTimeMs).1
  | .flush currentTimeMs => (acc.flush currentTimeMs).1
  | .forceFlush currentTimeMs => (acc.forceFlush currentTimeMs).1
  | .clear => acc.clear

/-- The batch that a call returns. -/
def emitted (acc : BatchAccumulator) : Call → Option OperationBatch
  | .flush currentTimeMs => (acc.flush currentTimeMs).2
  | .forceFlush currentTimeMs => (acc.forceFlush currentTimeMs).2
  | _ => none

/-- What a call does to the pending operations: an accepted one is put in with its time. -/
def move (acc : BatchAccumulator) : Call → Option (Move (CrdtOperation × UInt64))
  | .add op currentTimeMs =>
      if (acc.add op currentTimeMs).2 then some (.put (op, currentTimeMs)) else none
  | .flush _ => some .drain
  | .forceFlush _ => some .drain
  | .clear => some .drop

/-- The fields agree with the accepted operations that are held. -/
structure Consistent (config : BatchConfig) (pending : List (CrdtOperation × UInt64))
    (acc : BatchAccumulator) : Prop where
  config_eq : acc.config = config
  pending_eq : acc.pending = pending.map Prod.fst
  bytes_eq : acc.bytesAccumulated = OperationBatch.totalSize acc.pending
  length_le : acc.pending.length ≤ config.maxOperations
  bytes_le : acc.bytesAccumulated ≤ config.maxBytes ∨ acc.pending.length = 1
  first_eq : acc.firstPendingTime = pending.head?.map Prod.snd

theorem hasRoom_iff (acc : BatchAccumulator) (op : CrdtOperation) :
    acc.hasRoom op = true ↔
      (acc.bytesAccumulated + op.size ≤ acc.config.maxBytes ∨ acc.pending = []) ∧
        acc.pending.length < acc.config.maxOperations := by
  simp only [hasRoom, Bool.and_eq_true, Bool.not_eq_true', Bool.and_eq_false_iff,
    decide_eq_false_iff_not, Bool.not_eq_false', List.isEmpty_iff, gt_iff_lt, ge_iff_le,
    Nat.not_lt, Nat.not_le]

namespace Consistent

variable {config : BatchConfig} {pending : List (CrdtOperation × UInt64)} {acc : BatchAccumulator}

theorem empty (acc : BatchAccumulator) (hconfig : acc.config = config) (hpending : acc.pending = [])
    (hbytes : acc.bytesAccumulated = 0) (hfirst : acc.firstPendingTime = none) :
    Consistent config [] acc where
  config_eq := hconfig
  pending_eq := hpending
  bytes_eq := by
    rw [hbytes, hpending]
    rfl
  length_le := by
    rw [hpending]
    exact Nat.zero_le _
  bytes_le := Or.inl (by rw [hbytes]; exact Nat.zero_le _)
  first_eq := hfirst

/-- An operation that finds room. -/
theorem add (h : Consistent config pending acc) {op : CrdtOperation} (currentTimeMs : UInt64)
    (hroom : acc.hasRoom op = true) :
    Consistent config (pending ++ [(op, currentTimeMs)]) (acc.add op currentTimeMs).1 := by
  have hadded : (acc.add op currentTimeMs).1 =
      { acc with
        firstPendingTime := some (acc.firstPendingTime.getD currentTimeMs)
        pending := acc.pending ++ [op]
        bytesAccumulated := acc.bytesAccumulated + op.size } := by
    rw [BatchAccumulator.add, if_pos hroom]
  obtain ⟨hbytes, hlength⟩ := (hasRoom_iff acc op).mp hroom
  rw [h.config_eq] at hbytes hlength
  rw [hadded]
  constructor
  · exact h.config_eq
  · show acc.pending ++ [op] = _
    rw [List.map_append, h.pending_eq]
    rfl
  · show acc.bytesAccumulated + op.size = OperationBatch.totalSize (acc.pending ++ [op])
    rw [OperationBatch.totalSize_append, h.bytes_eq]
    rfl
  · show (acc.pending ++ [op]).length ≤ _
    rw [List.length_append]
    exact hlength
  · rcases hbytes with hfits | hempty
    · exact Or.inl hfits
    · refine Or.inr ?_
      show (acc.pending ++ [op]).length = 1
      rw [hempty]
      rfl
  · show some (acc.firstPendingTime.getD currentTimeMs) = _
    rw [h.first_eq, List.head?_append]
    cases pending <;> rfl

theorem flush (h : Consistent config pending acc) (currentTimeMs : UInt64) :
    Consistent config [] (acc.flush currentTimeMs).1 := by
  unfold BatchAccumulator.flush
  split
  · rename_i hempty
    have hpending := List.isEmpty_iff.mp hempty
    have hnone : pending = [] := List.map_eq_nil_iff.mp (h.pending_eq.symm.trans hpending)
    exact hnone ▸ h
  · exact empty _ h.config_eq rfl rfl rfl

/-- One call keeps the fields together. -/
theorem call (h : Consistent config pending acc) (c : Call) :
    Consistent config ((acc.move c).toList.foldl hold pending) (acc.call c) := by
  cases c with
  | add op currentTimeMs =>
      cases hroom : acc.hasRoom op with
      | true =>
          have hmove : acc.move (.add op currentTimeMs) = some (.put (op, currentTimeMs)) := by
            simp [move, BatchAccumulator.add, hroom]
          rw [hmove]
          exact h.add currentTimeMs hroom
      | false =>
          have hmove : acc.move (.add op currentTimeMs) = none := by
            simp [move, BatchAccumulator.add, hroom]
          have hsame : acc.call (.add op currentTimeMs) = acc := by
            simp [BatchAccumulator.call, BatchAccumulator.add, hroom]
          rw [hmove, hsame]
          exact h
  | flush currentTimeMs => exact h.flush currentTimeMs
  | forceFlush currentTimeMs => exact h.flush currentTimeMs
  | clear => exact empty _ h.config_eq rfl rfl rfl

/-- What a call lets out are the operations of the batch that it returns. -/
theorem emitted (h : Consistent config pending acc) (c : Call) :
    (acc.emitted c).toList.flatMap OperationBatch.operations =
      (drained pending (acc.move c).toList).map Prod.fst := by
  have hflush (currentTimeMs : UInt64) :
      (acc.flush currentTimeMs).2.toList.flatMap OperationBatch.operations =
        pending.map Prod.fst := by
    rw [← h.pending_eq, BatchAccumulator.flush]
    split
    · rename_i hempty
      rw [List.isEmpty_iff.mp hempty]
      rfl
    · exact List.append_nil _
  cases c with
  | add op currentTimeMs =>
      cases hroom : acc.hasRoom op <;>
        simp [BatchAccumulator.emitted, move, BatchAccumulator.add, hroom, drained, out]
  | flush currentTimeMs => exact (hflush currentTimeMs).trans (by simp [move, drained, out])
  | forceFlush currentTimeMs => exact (hflush currentTimeMs).trans (by simp [move, drained, out])
  | clear => rfl

theorem run (h : Consistent config pending acc) (calls : List Call) :
    Consistent config ((LoggedRun.log BatchAccumulator.call move acc calls).foldl hold pending)
      (LoggedRun.run BatchAccumulator.call acc calls) := by
  induction calls generalizing pending acc with
  | nil => exact h
  | cons c calls ih =>
      rw [LoggedRun.run_cons, LoggedRun.log, List.foldl_append]
      exact ih (h.call c)

theorem emitted_run (h : Consistent config pending acc) (calls : List Call) :
    (LoggedRun.log BatchAccumulator.call BatchAccumulator.emitted acc calls).flatMap
        OperationBatch.operations =
      (drained pending (LoggedRun.log BatchAccumulator.call move acc calls)).map Prod.fst := by
  induction calls generalizing pending acc with
  | nil => rfl
  | cons c calls ih =>
      rw [LoggedRun.log, LoggedRun.log, List.flatMap_append, drained_append, List.map_append,
        h.emitted c, ih (h.call c)]

end Consistent

/-- After any calls the count, the limits and the first time fit what is pending, and the batches
with what is pending are the accepted operations that no `clear` has dropped. -/
theorem accumulation_consistent (config : BatchConfig) (calls : List Call) :
    let acc := LoggedRun.run call (new config) calls
    let moves := LoggedRun.log call move (new config) calls
    let batches := LoggedRun.log call emitted (new config) calls
    acc.bytesAccumulated = OperationBatch.totalSize acc.pending ∧
      acc.pending.length ≤ config.maxOperations ∧
      (acc.bytesAccumulated ≤ config.maxBytes ∨ acc.pending.length = 1) ∧
      (acc.firstPendingTime.isSome = true ↔ acc.pending ≠ []) ∧
      acc.pending = (held moves).map Prod.fst ∧
      acc.firstPendingTime = (held moves).head?.map Prod.snd ∧
      batches.flatMap OperationBatch.operations ++ acc.pending = (kept moves).map Prod.fst := by
  intro acc moves batches
  have hstart : Consistent config [] (new config) := Consistent.empty _ rfl rfl rfl rfl
  have hacc : Consistent config (held moves) acc := hstart.run calls
  have hbatches : batches.flatMap OperationBatch.operations = (drained [] moves).map Prod.fst :=
    hstart.emitted_run calls
  refine ⟨hacc.bytes_eq, hacc.length_le, hacc.bytes_le, ?_, hacc.pending_eq, hacc.first_eq, ?_⟩
  · rw [hacc.first_eq, hacc.pending_eq]
    cases held moves <;> simp
  · rw [hbatches, hacc.pending_eq, ← List.map_append, drained_append_held]

end BatchAccumulator

/-! ## Rejected operations -/

namespace VectorClock

/-- Counting changes the clock, also where the count wraps. -/
theorem increment_ne (clock : VectorClock) (node : NodeId) : clock.increment node ≠ clock := by
  intro hsame
  have hentry : (clock.increment node).clocks[node]? = clock.clocks[node]? := by rw [hsame]
  rw [increment, upsert_updates, if_pos ReflCmp.compare_self] at hentry
  cases hcount : clock.clocks[node]? with
  | none =>
      rw [hcount] at hentry
      cases hentry
  | some count =>
      rw [hcount] at hentry
      have hwrap : count + 1 = count := Option.some.inj hentry
      simp at hwrap

end VectorClock

namespace GattSyncProtocol

theorem queueOperation_of_room {g : GattSyncProtocol} {op : CrdtOperation}
    (hroom : g.batch.hasRoom op = true) : (g.queueOperation op).2 = true := by
  rw [queueOperation, BatchAccumulator.add, if_pos hroom]

/-- Without room the operation is counted in the vector clock and nothing else happens. -/
theorem queueOperation_of_no_room {g : GattSyncProtocol} {op : CrdtOperation}
    (hroom : ¬ g.batch.hasRoom op = true) :
    g.queueOperation op = ({ g with vectorClock := g.vectorClock.increment g.nodeId }, false) := by
  rw [queueOperation, BatchAccumulator.add, if_neg hroom]

/-- A rejected operation changes the protocol, so that none does so only when none is rejected. -/
theorem rejected_unchanged_iff (g : GattSyncProtocol) (op : CrdtOperation) :
    (((g.queueOperation op).2 = false → (g.queueOperation op).1 = g) ↔
        (g.batch.bytesAccumulated + op.size ≤ g.batch.config.maxBytes ∨ g.batch.pending = []) ∧
          g.batch.pending.length < g.batch.config.maxOperations) ∧
      ((g.queueOperation op).2 = false →
        (g.queueOperation op).1 = { g with vectorClock := g.vectorClock.increment g.nodeId } ∧
          (g.queueOperation op).1 ≠ g) := by
  rw [← BatchAccumulator.hasRoom_iff]
  by_cases hroom : g.batch.hasRoom op = true
  · have haccepted := queueOperation_of_room hroom
    exact ⟨iff_of_true (fun h => by rw [haccepted] at h; cases h) hroom,
      fun h => by rw [haccepted] at h; cases h⟩
  · have hchanged : { g with vectorClock := g.vectorClock.increment g.nodeId } ≠ g :=
      fun hsame => g.vectorClock.increment_ne g.nodeId (congrArg vectorClock hsame)
    rw [queueOperation_of_no_room hroom]
    exact ⟨iff_of_false (fun h => hchanged (h rfl)) hroom, fun _ => ⟨rfl, hchanged⟩⟩

/-- The batch holds one operation, and a second one is counted all the same. -/
theorem rejected_operation_counted :
    let config : SyncConfig := { SyncConfig.default with batch := ⟨5000, 512, 1, 1000⟩ }
    let g := ((new 1 config).queueOperation (.incrementCounter 0 1 5)).1
    (g.queueOperation (.incrementCounter 0 1 3)).2 = false ∧
      (g.queueOperation (.incrementCounter 0 1 3)).1 ≠ g := by
  decide

end GattSyncProtocol

end PeatBtle
