import PeatBtle.Data.LoggedRun
import PeatBtle.Sync.Protocol

/-!
# Runs of the sync protocol

Every public entry point that changes the coordinator, and the messages a run
sends to one destination. A call to `prepareSync` that returns no chunk sends
nothing.
-/

namespace PeatBtle.GattSyncProtocol

open Wire

inductive Action where
  | setTime (timeMs : UInt64)
  | setMtu (mtu : Nat)
  | addPeer (peer : NodeId)
  | removePeer (peer : NodeId)
  | queueOperation (op : CrdtOperation)
  | prepareSync (peer : NodeId)
  | nextTxChunk
  | queueChunks (chunks : List SyncChunk)
  | processReceived (chunk : SyncChunk) (peer : NodeId)
  | ackSend
  | reset
  | resetPeer (peer : NodeId)
  | tick

def act (g : GattSyncProtocol) : Action → GattSyncProtocol
  | .setTime timeMs => g.setTime timeMs
  | .setMtu mtu => g.setMtu mtu
  | .addPeer peer => g.addPeer peer
  | .removePeer peer => g.removePeer peer
  | .queueOperation op => (g.queueOperation op).1
  | .prepareSync peer => (g.prepareSync peer).1
  | .nextTxChunk => g.nextTxChunk.1
  | .queueChunks chunks => g.queueChunks chunks
  | .processReceived chunk peer => (g.processReceived chunk peer).1
  | .ackSend => g.ackSend
  | .reset => g.reset
  | .resetPeer peer => g.resetPeer peer
  | .tick => g.tick

def run (g : GattSyncProtocol) (actions : List Action) : GattSyncProtocol :=
  LoggedRun.run act g actions

/-- One prepared batch: what it holds and how it was cut. -/
structure Message where
  id : UInt32
  operations : List CrdtOperation
  mtu : Nat
deriving DecidableEq

namespace Message

def data (m : Message) : Bytes := OperationBatch.encodeOperations m.operations

def cut (m : Message) : CutMessage := ⟨m.data, m.mtu, m.id⟩

def chunks (m : Message) : List SyncChunk := m.cut.chunks

end Message

/-- What a call to `prepareSync` would send. -/
def preparedMessage (g : GattSyncProtocol) (peer : NodeId) : Message :=
  ⟨g.nextMessageId, g.selectOperations peer g.batch.pending, g.config.mtu⟩

theorem selectOperations_nil (g : GattSyncProtocol) (peer : NodeId) :
    g.selectOperations peer [] = [] := by
  simp only [selectOperations, DeltaEncoder.filterForPeer]
  split
  · split <;> rfl
  · rfl

/-- Either nothing is selected and only the accumulator is drained, or what is selected is marked
and cut into chunks. -/
theorem prepareSync_cases (g : GattSyncProtocol) (peer : NodeId) :
    let m := g.preparedMessage peer
    (m.operations = [] ∧ (g.prepareSync peer).2 = [] ∧ (g.prepareSync peer).1.delta = g.delta) ∨
      (m.operations ≠ [] ∧ (g.prepareSync peer).2 = m.chunks ∧
        (g.prepareSync peer).1.delta =
          (g.delta.markSent peer m.operations).recordSent peer m.data.length) := by
  intro m
  unfold prepareSync
  by_cases hpending : g.batch.pending = []
  · have hselect : m.operations = [] := by
      simp only [m, preparedMessage, hpending, selectOperations_nil]
    simp [BatchAccumulator.flush, hpending, hselect]
  · have hflush : (g.batch.flush g.currentTimeMs).2 =
        some ⟨g.batch.pending, g.batch.bytesAccumulated, g.currentTimeMs⟩ := by
      simp [BatchAccumulator.flush, hpending]
    simp only [hflush, List.isEmpty_iff]
    split
    · rename_i hselect
      exact Or.inl ⟨hselect, rfl, rfl⟩
    · rename_i hselect
      exact Or.inr ⟨hselect, rfl, rfl⟩

theorem prepareSync_chunks (g : GattSyncProtocol) (peer : NodeId) :
    (g.prepareSync peer).2 =
      if (g.preparedMessage peer).operations = [] then [] else (g.preparedMessage peer).chunks := by
  rcases g.prepareSync_cases peer with ⟨hnone, hchunks, -⟩ | ⟨hsome, hchunks, -⟩
  · rw [if_pos hnone, hchunks]
  · rw [if_neg hsome, hchunks]

/-- The message one action sends to `dest`, if any. -/
def sentBy (g : GattSyncProtocol) (dest : NodeId) : Action → Option Message
  | .prepareSync peer =>
      if peer = dest ∧ (g.prepareSync peer).2 ≠ [] then some (g.preparedMessage peer) else none
  | _ => none

def messagesTo (dest : NodeId) (g : GattSyncProtocol) (actions : List Action) : List Message :=
  LoggedRun.log act (fun g action => g.sentBy dest action) g actions

/-- The chunks of a sent message are exactly what the call returned. -/
theorem sentBy_eq_some {g : GattSyncProtocol} {dest : NodeId} {action : Action} {m : Message}
    (h : g.sentBy dest action = some m) :
    action = .prepareSync dest ∧ m = g.preparedMessage dest ∧ (g.prepareSync dest).2 = m.chunks ∧
      m.operations ≠ [] ∧ chunkHeaderSize < m.mtu := by
  cases action with
  | prepareSync peer =>
      simp only [sentBy] at h
      split at h
      · rename_i hsent
        obtain ⟨rfl, hne⟩ := hsent
        cases h
        have hchunks := g.prepareSync_chunks peer
        by_cases hops : (g.preparedMessage peer).operations = []
        · rw [if_pos hops] at hchunks
          exact absurd hchunks hne
        · rw [if_neg hops] at hchunks
          refine ⟨rfl, rfl, hchunks, hops, ?_⟩
          rw [hchunks, Message.chunks, Ne, CutMessage.chunks_eq_nil_iff] at hne
          exact Nat.not_le.mp hne
      · cases h
  | _ => cases h

theorem messagesTo_sound {dest : NodeId} {actions : List Action} {g : GattSyncProtocol} {m : Message}
    (h : m ∈ messagesTo dest g actions) : m.operations ≠ [] ∧ chunkHeaderSize < m.mtu := by
  obtain ⟨front, action, back, -, hsent⟩ := LoggedRun.mem_log h
  have hspec := sentBy_eq_some hsent
  exact ⟨hspec.2.2.2.1, hspec.2.2.2.2⟩

end PeatBtle.GattSyncProtocol
