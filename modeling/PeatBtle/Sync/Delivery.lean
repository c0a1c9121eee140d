import PeatBtle.Data.SharedBuffer
import PeatBtle.Sync.ProtocolRun

/-!
# Delivery of queued operations

One accumulator serves all peers, and preparing a sync for any peer drains it. What is
accepted therefore goes to the peer of the next sync, if that peer still needs it, and to
nobody else. The history of a run is that of a shared buffer: the accepted operations are put
in, and each prepared sync reads them and keeps those that its chunks carry.
-/

namespace PeatBtle.GattSyncProtocol

open Wire SharedBuffer

/-- What the chunks of a sync carry. A sync without chunks carries nothing. -/
def carried (g : GattSyncProtocol) (peer : NodeId) : List CrdtOperation :=
  if (g.prepareSync peer).2 = [] then [] else (g.preparedMessage peer).operations

def event (g : GattSyncProtocol) : Action → Option (Event CrdtOperation NodeId)
  | .queueOperation op => if (g.queueOperation op).2 then some (.put op) else none
  | .prepareSync peer => some (.read peer (g.carried peer))
  | _ => none

def history (g : GattSyncProtocol) (actions : List Action) : List (Event CrdtOperation NodeId) :=
  LoggedRun.log act event g actions

def key (op : CrdtOperation) : String := (DeltaEncoder.operationKeyTimestamp op).1

def stamp (op : CrdtOperation) : Timestamp := (DeltaEncoder.operationKeyTimestamp op).2

/-! ## Properties of a run -/

/-- A newer operation with the same key was accepted. -/
def Superseded (log : List (Event CrdtOperation NodeId)) (op : CrdtOperation) : Prop :=
  ∃ newer, .put newer ∈ log ∧ key newer = key op ∧ stamp op < stamp newer

/-- Each time an operation is accepted that nothing supersedes, a later sync for each of the two
peers carries a copy of it. -/
def NothingLost (log : List (Event CrdtOperation NodeId)) (P Q : NodeId) : Prop :=
  ∀ op, ¬ Superseded log op → Reaches log P op ∧ Reaches log Q op

/-- A sync with the peer now would send the operation. -/
def needs (g : GattSyncProtocol) (peer : NodeId) (op : CrdtOperation) : Bool :=
  !g.config.enableDelta ||
    (g.delta.peers[peer]?).all fun state => state.needsSend (key op) (stamp op)

/-- The next sync is for the peer, its chunks have room for a payload, and the peer still needs the
operation then. -/
def NextTo (peer : NodeId) (op : CrdtOperation) : GattSyncProtocol → List Action → Prop
  | _, [] => False
  | g, .prepareSync other :: _ =>
      other = peer ∧ chunkHeaderSize < g.config.mtu ∧ g.needs peer op = true
  | g, action :: actions => NextTo peer op (g.act action) actions

/-- Each time an operation is accepted that nothing supersedes, the next sync is for the peer and
sends it. -/
def QueuedFor (g : GattSyncProtocol) (actions : List Action) (peer : NodeId) : Prop :=
  ∀ front op back, actions = front ++ .queueOperation op :: back →
    ((g.run front).queueOperation op).2 = true → ¬ Superseded (g.history actions) op →
      NextTo peer op (g.run (front ++ [.queueOperation op])) back

/-! ## What one action does -/

section Steps

variable (g : GattSyncProtocol) (peer : NodeId) {op : CrdtOperation}

theorem prepareSync_batch_pending : (g.prepareSync peer).1.batch.pending = [] := by
  unfold prepareSync
  by_cases hpending : g.batch.pending = []
  · simp [BatchAccumulator.flush, hpending]
  · simp only [BatchAccumulator.flush, List.isEmpty_iff, if_neg hpending]
    split <;> rfl

theorem processReceived_batch (chunk : SyncChunk) :
    (g.processReceived chunk peer).1.batch = g.batch := by
  unfold processReceived
  dsimp only
  split
  · rfl
  · split <;> rfl

theorem selectOperations_eq (operations : List CrdtOperation) :
    g.selectOperations peer operations = operations.filter (g.needs peer) := by
  unfold selectOperations needs DeltaEncoder.filterForPeer
  cases hdelta : g.config.enableDelta with
  | false => exact (List.filter_eq_self.mpr fun _ _ => rfl).symm
  | true =>
      cases hstate : g.delta.peers[peer]? with
      | none => exact (List.filter_eq_self.mpr fun _ _ => rfl).symm
      | some state => rfl

theorem preparedMessage_subset (h : op ∈ (g.preparedMessage peer).operations) :
    op ∈ g.batch.pending := by
  rw [preparedMessage, selectOperations_eq] at h
  exact List.mem_of_mem_filter h

/-- Which of the pending operations a sync carries is decided for each operation by itself. -/
theorem carried_eq : g.carried peer =
    g.batch.pending.filter fun op =>
      decide (chunkHeaderSize < g.config.mtu) && g.needs peer op := by
  have hops : (g.preparedMessage peer).operations = g.batch.pending.filter (g.needs peer) :=
    g.selectOperations_eq peer g.batch.pending
  rw [carried, g.prepareSync_chunks peer, hops]
  by_cases hmtu : chunkHeaderSize < g.config.mtu
  · have hchunks : (g.preparedMessage peer).chunks ≠ [] :=
      mt CutMessage.chunks_eq_nil_iff.mp (Nat.not_le.mpr hmtu)
    simp only [hmtu, decide_true, Bool.true_and]
    by_cases hnone : g.batch.pending.filter (g.needs peer) = []
    · rw [if_pos (if_pos hnone), hnone]
    · rw [if_neg (by rwa [if_neg hnone])]
  · have hchunks : (g.preparedMessage peer).chunks = [] :=
      CutMessage.chunks_eq_nil_iff.mpr (Nat.not_lt.mp hmtu)
    simp only [hmtu, decide_false, Bool.false_and, List.filter_false]
    rw [hchunks, ite_self, if_pos rfl]

theorem mem_carried (h : op ∈ g.batch.pending) :
    op ∈ g.carried peer ↔ chunkHeaderSize < g.config.mtu ∧ g.needs peer op = true := by
  rw [carried_eq, List.mem_filter, and_iff_right h, Bool.and_eq_true, decide_eq_true_eq]

/-- The accumulator is the buffer. -/
theorem pending_act (action : Action) :
    (g.act action).batch.pending = (g.event action).toList.foldl fill g.batch.pending := by
  cases action with
  | queueOperation op =>
      simp only [act, event, queueOperation, BatchAccumulator.add]
      split <;> rfl
  | prepareSync peer => exact g.prepareSync_batch_pending peer
  | processReceived chunk peer => exact congrArg (·.pending) (g.processReceived_batch peer chunk)
  | ackSend =>
      simp only [act, ackSend]
      split <;> rfl
  | _ => rfl

end Steps

/-! ## Runs -/

section Runs

variable {node : NodeId} {config : SyncConfig} {actions : List Action} {peer : NodeId}
  {op : CrdtOperation}

theorem history_cons (g : GattSyncProtocol) (action : Action) (actions : List Action) :
    g.history (action :: actions) = (g.event action).toList ++ (g.act action).history actions := rfl

theorem pending_run (node : NodeId) (config : SyncConfig) (actions : List Action) :
    ((new node config).run actions).batch.pending =
      pendingOf ((new node config).history actions) := by
  refine @LoggedRun.invariant _ _ _ act event (fun past g => g.batch.pending = pendingOf past) _
    actions rfl ?_
  intro past g action _ hpending
  rw [pendingOf_append, ← hpending, pending_act]

theorem history_accepted {g : GattSyncProtocol} {front : List Action}
    (h : ((g.run front).queueOperation op).2 = true) (back : List Action) :
    g.history (front ++ .queueOperation op :: back) =
      g.history front ++ .put op :: (g.run (front ++ [.queueOperation op])).history back := by
  have hevent : (g.run front).event (.queueOperation op) = some (.put op) := if_pos h
  have hnext : g.run (front ++ [.queueOperation op]) = (g.run front).act (.queueOperation op) :=
    LoggedRun.run_append ..
  have hrest := (g.run front).history_cons (.queueOperation op) back
  rw [hevent] at hrest
  rw [hnext, history, LoggedRun.log_append]
  exact congrArg _ hrest

/-- A sync empties the buffer, and each peer decides for each operation whether it is sent. -/
theorem empties_history (node : NodeId) (config : SyncConfig) (actions : List Action) :
    Empties ((new node config).history actions) := by
  intro past reader kept later hlog
  obtain ⟨front, action, back, -, rfl, hemit⟩ := LoggedRun.log_split hlog
  cases action with
  | prepareSync peer =>
      obtain ⟨rfl, hkept⟩ := Event.read.inj (Option.some.inj hemit)
      let g := (new node config).run front
      refine ⟨fun op => decide (chunkHeaderSize < g.config.mtu) && g.needs peer op, ?_⟩
      have hpending : g.batch.pending = pendingOf ((new node config).history front) :=
        pending_run node config front
      rw [← hkept, carried_eq]
      exact congrArg (List.filter _) hpending
  | queueOperation op =>
      simp only [event] at hemit
      split at hemit <;> cases hemit
  | _ => cases hemit

/-- A pending operation goes to the peer of the next sync, if that peer still needs it. -/
theorem goesTo_iff {g : GattSyncProtocol} (h : op ∈ g.batch.pending) :
    GoesTo peer op (g.history actions) ↔ NextTo peer op g actions := by
  induction actions generalizing g with
  | nil =>
      refine iff_of_false ?_ id
      rintro ⟨kept, hnone, -⟩
      cases hnone
  | cons action actions ih =>
      have hpending := g.pending_act action
      rw [history_cons]
      cases action with
      | prepareSync other =>
          refine goesTo_read.trans (and_congr_right ?_)
          rintro rfl
          exact g.mem_carried other h
      | queueOperation queued =>
          have hnext : op ∈ (g.act (.queueOperation queued)).batch.pending := by
            rw [hpending, event]
            split
            · exact List.mem_append_left _ h
            · exact h
          refine Iff.trans ?_ (ih hnext)
          rw [event]
          split
          · exact goesTo_put
          · exact Iff.rfl
      | _ => exact ih (hpending.symm ▸ h)

theorem mem_pending_queueOperation {g : GattSyncProtocol} (h : (g.queueOperation op).2 = true) :
    op ∈ (g.act (.queueOperation op)).batch.pending := by
  rw [pending_act, event, if_pos h]
  exact List.mem_append_right _ (List.mem_singleton_self op)

/-- An operation reaches a peer exactly if, each time it is accepted, the next sync is for that peer
and sends it. -/
theorem reaches_history_iff : Reaches ((new node config).history actions) peer op ↔
    ∀ front back, actions = front ++ .queueOperation op :: back →
      (((new node config).run front).queueOperation op).2 = true →
        NextTo peer op ((new node config).run (front ++ [.queueOperation op])) back := by
  rw [reaches_iff (empties_history node config actions)]
  have hnext : ∀ front, (((new node config).run front).queueOperation op).2 = true →
      op ∈ ((new node config).run (front ++ [.queueOperation op])).batch.pending := by
    intro front haccepted
    rw [run, LoggedRun.run_append]
    exact mem_pending_queueOperation haccepted
  constructor
  · rintro hgoes front back rfl haccepted
    exact (goesTo_iff (hnext front haccepted)).mp (hgoes _ _ (history_accepted haccepted back))
  · intro hall past later hlog
    obtain ⟨front, action, back, hactions, -, hemit, hlater⟩ := LoggedRun.log_split_rest hlog
    cases action with
    | queueOperation queued =>
        simp only [event] at hemit
        split at hemit
        · rename_i haccepted
          obtain rfl := Event.put.inj (Option.some.inj hemit)
          rw [hlater]
          exact (goesTo_iff (hnext front haccepted)).mpr (hall front back hactions haccepted)
        · cases hemit
    | prepareSync other => cases hemit
    | _ => cases hemit

/-- Of the accepted operations with a key, the newest is not superseded. -/
theorem exists_not_superseded {log : List (Event CrdtOperation NodeId)} {op : CrdtOperation}
    (h : .put op ∈ log) : ∃ newest, .put newest ∈ log ∧ ¬ Superseded log newest := by
  by_cases hnew : Superseded log op
  · obtain ⟨newer, hput, -, hlt⟩ := hnew
    exact exists_not_superseded hput
  · exact ⟨op, h, hnew⟩
termination_by UInt64.size - (stamp op).toNat
decreasing_by
  have hstamp := UInt64.lt_iff_toNat_lt.mp hlt
  have hbound := (stamp newer).toNat_lt
  simp only [UInt64.size]
  omega

/-- A run loses no operation exactly when, each time one is accepted that nothing supersedes, the
next sync is for both peers and sends it. Of two peers, one is always missed. -/
theorem nothing_lost_iff (node : NodeId) (config : SyncConfig) (actions : List Action)
    (P Q : NodeId) :
    (NothingLost ((new node config).history actions) P Q ↔
      QueuedFor (new node config) actions P ∧ QueuedFor (new node config) actions Q) ∧
    (P ≠ Q → (NothingLost ((new node config).history actions) P Q ↔
      ∀ op, .put op ∉ (new node config).history actions)) := by
  constructor
  · simp only [NothingLost, reaches_history_iff]
    constructor
    · intro h
      exact ⟨fun front op back heq haccepted hnew => (h op hnew).1 front back heq haccepted,
        fun front op back heq haccepted hnew => (h op hnew).2 front back heq haccepted⟩
    · rintro ⟨hP, hQ⟩ op hnew
      exact ⟨fun front back heq haccepted => hP front op back heq haccepted hnew,
        fun front back heq haccepted => hQ front op back heq haccepted hnew⟩
  · intro hPQ
    constructor
    · intro h op hput
      obtain ⟨newest, hnewest, hnew⟩ := exists_not_superseded hput
      exact not_reaches_both (empties_history node config actions) hPQ hnewest (h newest hnew).1
        (h newest hnew).2
    · intro hnone op _
      have hempty := empties_history node config actions
      exact ⟨(reaches_iff hempty).mpr fun past later hlog => absurd (by simp [hlog]) (hnone op),
        (reaches_iff hempty).mpr fun past later hlog => absurd (by simp [hlog]) (hnone op)⟩

end Runs

/-! ## One operation, two peers -/

def healthUpdate : CrdtOperation := .updateHealth 1 (HealthStatus.new 80) 1700000000000

def syncBoth : List Action :=
  [.addPeer 2, .addPeer 3, .queueOperation healthUpdate, .prepareSync 2, .prepareSync 3]

/-- The first sync takes the operation; the second finds nothing. -/
theorem second_peer_misses_operation :
    ¬ NothingLost ((new 1 SyncConfig.default).history syncBoth) 2 3 := by
  have hlog : (new 1 SyncConfig.default).history syncBoth =
      [.put healthUpdate, .read 2 [healthUpdate], .read 3 []] := by decide
  rw [hlog]
  intro h
  have hreaches := (h healthUpdate (by simp [Superseded])).2 [] _ rfl
  exact absurd hreaches (by decide)

/-- The first of the two peers does get it. -/
theorem first_peer_gets_operation :
    NothingLost ((new 1 SyncConfig.default).history syncBoth) 2 2 ∧
      ¬ NothingLost ((new 1 SyncConfig.default).history syncBoth) 2 3 := by
  have hqueued : QueuedFor (new 1 SyncConfig.default) syncBoth 2 := by
    intro front op back heq _ _
    rcases front with _ | ⟨first, _ | ⟨second, _ | ⟨third, front⟩⟩⟩
    · cases heq
    · cases heq
    · cases heq
      exact ⟨rfl, by decide, by decide⟩
    · have hmem : .queueOperation op ∈ syncBoth.drop 3 := by
        rw [heq]
        simp
      simp [syncBoth] at hmem
  refine ⟨(nothing_lost_iff 1 SyncConfig.default syncBoth 2 2).1.mpr ⟨hqueued, hqueued⟩, ?_⟩
  rw [(nothing_lost_iff 1 SyncConfig.default syncBoth 2 3).2 (by decide)]
  exact fun hnone => hnone healthUpdate (by decide)

end PeatBtle.GattSyncProtocol
