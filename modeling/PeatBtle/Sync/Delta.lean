import Mathlib.Data.List.Induction
import PeatBtle.Sync.Crdt.Operation

/-!
# Per-peer delta tracking

For each registered peer the encoder remembers the timestamp last sent under
each key, and an operation is sent again only when its timestamp has grown.
Counter increments carry no timestamp; they are filed under the largest one.
-/

namespace PeatBtle

open Wire MapMerge

structure PeerSyncState where
  lastSent : Map String Timestamp
  lastReceivedTimestamp : Timestamp
  syncCount : UInt32
  bytesSent : UInt64
  bytesReceived : UInt64
deriving DecidableEq

namespace PeerSyncState

def new : PeerSyncState := ⟨∅, 0, 0, 0, 0⟩

def markSent (s : PeerSyncState) (key : String) (timestamp : Timestamp) : PeerSyncState :=
  { s with lastSent := s.lastSent.insert key timestamp }

def lastSentTimestamp (s : PeerSyncState) (key : String) : Option Timestamp := s.lastSent[key]?

def needsSend (s : PeerSyncState) (key : String) (timestamp : Timestamp) : Bool :=
  match s.lastSent[key]? with
  | some last => timestamp > last
  | none => true

def reset (s : PeerSyncState) : PeerSyncState := { s with lastSent := ∅ }

@[simp] theorem lastSent_new (key : String) : new.lastSent[key]? = none := by simp [new]

@[simp] theorem lastSent_reset (s : PeerSyncState) (key : String) :
    s.reset.lastSent[key]? = none := by simp [reset]

theorem lastSent_markSent (s : PeerSyncState) (key other : String) (timestamp : Timestamp) :
    (s.markSent key timestamp).lastSent[other]? =
      if key = other then some timestamp else s.lastSent[other]? :=
  getElem?_insert_eq ..

/-- Marking a list leaves a stamp that was there before or that of one of its members. -/
theorem lastSent_foldl_markSent {α : Type} {keyOf : α → String} {stampOf : α → Timestamp}
    {items : List α} {s : PeerSyncState} {key : String} {stamp : Timestamp}
    (h : (items.foldl (fun s item => s.markSent (keyOf item) (stampOf item)) s).lastSent[key]? =
      some stamp) :
    s.lastSent[key]? = some stamp ∨ ∃ item ∈ items, keyOf item = key ∧ stampOf item = stamp := by
  induction items generalizing s with
  | nil => exact Or.inl h
  | cons item items ih =>
      rcases ih h with hmarked | ⟨later, hmem, hlater⟩
      · rw [lastSent_markSent] at hmarked
        by_cases hkey : keyOf item = key
        · rw [if_pos hkey] at hmarked
          exact Or.inr ⟨item, by simp, hkey, Option.some.inj hmarked⟩
        · rw [if_neg hkey] at hmarked
          exact Or.inl hmarked
      · exact Or.inr ⟨later, List.mem_cons_of_mem _ hmem, hlater⟩

end PeerSyncState

/-! ## Vector clocks -/

structure VectorClock where
  clocks : Map UInt32 UInt64
deriving DecidableEq

namespace VectorClock

def new : VectorClock := ⟨∅⟩

def increment (clock : VectorClock) (node : NodeId) : VectorClock :=
  ⟨upsert 0 (· + ·) clock.clocks (node, 1)⟩

/-- Take the maximum for one node. -/
def update (clock : VectorClock) (node : NodeId) (value : UInt64) : VectorClock :=
  ⟨upsert 0 max clock.clocks (node, value)⟩

def encode (clock : VectorClock) : Bytes :=
  u32ToLe (UInt32.ofNat clock.clocks.size) ++ encodeEntries u64Codec clock.clocks.toList

/-- Unlike the counter, every entry is kept and there is no limit on their number. -/
def decode (data : Bytes) : Option VectorClock :=
  if data.length < 4 then none
  else
    let count := (u32At data 0).toNat
    if data.length < 4 + count * 12 then none
    else some ⟨readEntries u64Codec (fun _ => true) data count 4 ∅⟩

end VectorClock

/-! ## The encoder -/

structure DeltaEncoder where
  nodeId : NodeId
  peers : Map UInt32 PeerSyncState
  currentState : Map String (UInt64 × Timestamp)
deriving DecidableEq

namespace DeltaEncoder

def new (nodeId : NodeId) : DeltaEncoder := ⟨nodeId, ∅, ∅⟩

def addPeer (enc : DeltaEncoder) (peer : NodeId) : DeltaEncoder :=
  { enc with peers := enc.peers.alter peer fun old => some (old.getD PeerSyncState.new) }

def removePeer (enc : DeltaEncoder) (peer : NodeId) : DeltaEncoder :=
  { enc with peers := enc.peers.erase peer }

def getPeerState (enc : DeltaEncoder) (peer : NodeId) : Option PeerSyncState := enc.peers[peer]?

/-- Update a registered peer in place; an unknown peer is left alone. -/
def modifyPeer (enc : DeltaEncoder) (peer : NodeId) (f : PeerSyncState → PeerSyncState) :
    DeltaEncoder :=
  { enc with peers := enc.peers.modify peer f }

def updateState (enc : DeltaEncoder) (key : String) (valueHash : UInt64) (timestamp : Timestamp) :
    DeltaEncoder :=
  { enc with currentState := enc.currentState.insert key (valueHash, timestamp) }

def counterKey (counterId : UInt8) (nodeId : NodeId) : String :=
  "counter:" ++ decimal counterId.toNat ++ ":" ++ nodeId.display

def operationKeyTimestamp : CrdtOperation → String × Timestamp
  | .updatePosition nodeId _ timestamp => ("pos:" ++ nodeId.display, timestamp)
  | .updateHealth nodeId _ timestamp => ("health:" ++ nodeId.display, timestamp)
  | .incrementCounter counterId nodeId _ => (counterKey counterId nodeId, u64Max)
  | .updateRegister key _ timestamp nodeId => ("reg:" ++ key ++ ":" ++ nodeId.display, timestamp)

/-- An unknown peer is sent everything. -/
def filterForPeer (enc : DeltaEncoder) (peer : NodeId) (operations : List CrdtOperation) :
    List CrdtOperation :=
  match enc.peers[peer]? with
  | none => operations
  | some state => operations.filter fun op =>
      state.needsSend (operationKeyTimestamp op).1 (operationKeyTimestamp op).2

def markOperations (state : PeerSyncState) (operations : List CrdtOperation) : PeerSyncState :=
  operations.foldl
    (fun s op => s.markSent (operationKeyTimestamp op).1 (operationKeyTimestamp op).2) state

def markSent (enc : DeltaEncoder) (peer : NodeId) (operations : List CrdtOperation) : DeltaEncoder :=
  enc.modifyPeer peer fun state => markOperations state operations

def recordSent (enc : DeltaEncoder) (peer : NodeId) (bytes : Nat) : DeltaEncoder :=
  enc.modifyPeer peer fun state =>
    { state with
      bytesSent := state.bytesSent + UInt64.ofNat bytes
      syncCount := state.syncCount + 1 }

def recordReceived (enc : DeltaEncoder) (peer : NodeId) (bytes : Nat) (timestamp : Timestamp) :
    DeltaEncoder :=
  enc.modifyPeer peer fun state =>
    { state with
      bytesReceived := state.bytesReceived + UInt64.ofNat bytes
      lastReceivedTimestamp := timestamp }

def resetPeer (enc : DeltaEncoder) (peer : NodeId) : DeltaEncoder :=
  enc.modifyPeer peer PeerSyncState.reset

/-! ## Peer lookups -/

section Peers

variable (enc : DeltaEncoder) (peer other : NodeId)

theorem peers_addPeer : (enc.addPeer peer).peers[other]? =
    if peer = other then some (enc.peers[peer]?.getD PeerSyncState.new) else enc.peers[other]? := by
  simp only [addPeer, getElem?_alter_eq]

theorem peers_removePeer :
    (enc.removePeer peer).peers[other]? = if peer = other then none else enc.peers[other]? := by
  simp only [removePeer, getElem?_erase_eq]

theorem peers_modifyPeer (f : PeerSyncState → PeerSyncState) :
    (enc.modifyPeer peer f).peers[other]? =
      if peer = other then enc.peers[peer]?.map f else enc.peers[other]? := by
  simp only [modifyPeer, getElem?_modify_eq]

end Peers

/-! ## What has been sent -/

section Sent

variable (enc : DeltaEncoder) (peer other : NodeId) (key : String)

/-- The timestamp last sent to a peer under a key. -/
def sentStamp : Option Timestamp := enc.peers[peer]?.bind fun state => state.lastSent[key]?

theorem sentStamp_modifyPeer (f : PeerSyncState → PeerSyncState) :
    (enc.modifyPeer other f).sentStamp peer key =
      if other = peer then enc.peers[peer]?.bind fun state => (f state).lastSent[key]?
      else enc.sentStamp peer key := by
  unfold sentStamp
  rw [peers_modifyPeer]
  split
  · rename_i hother
    rw [hother, Option.bind_map]
    rfl
  · rfl

/-- Updating a peer without touching its table. -/
theorem sentStamp_modifyPeer_of_keeps {f : PeerSyncState → PeerSyncState}
    (hf : ∀ state, (f state).lastSent = state.lastSent) :
    (enc.modifyPeer other f).sentStamp peer key = enc.sentStamp peer key := by
  rw [sentStamp_modifyPeer]
  split
  · simp only [hf, sentStamp]
  · rfl

/-- A new peer has been sent nothing, and registering twice changes nothing. -/
@[simp] theorem sentStamp_addPeer :
    (enc.addPeer other).sentStamp peer key = enc.sentStamp peer key := by
  unfold sentStamp
  rw [peers_addPeer]
  split
  · rename_i hother
    rw [hother]
    cases enc.peers[peer]? with
    | none => exact PeerSyncState.lastSent_new key
    | some state => rfl
  · rfl

theorem sentStamp_removePeer :
    (enc.removePeer other).sentStamp peer key =
      if other = peer then none else enc.sentStamp peer key := by
  unfold sentStamp
  rw [peers_removePeer]
  split <;> rfl

theorem sentStamp_resetPeer :
    (enc.resetPeer other).sentStamp peer key =
      if other = peer then none else enc.sentStamp peer key := by
  rw [resetPeer, sentStamp_modifyPeer]
  split
  · cases enc.peers[peer]? with
    | none => rfl
    | some state => exact PeerSyncState.lastSent_reset state key
  · rfl

end Sent

/-! ## Keys -/

theorem counterKey_inj {c c' : UInt8} {n n' : NodeId} (h : counterKey c n = counterKey c' n') :
    c = c' ∧ n = n' := by
  obtain ⟨hcounter, hnode⟩ := numbered_key_inj h
  exact ⟨UInt8.toNat_inj.mp hcounter, hex08_injective hnode⟩

/-- Only an increment of the same counter by the same node is filed under its key. -/
theorem key_eq_counterKey_iff (op : CrdtOperation) (c : UInt8) (n : NodeId) :
    (operationKeyTimestamp op).1 = counterKey c n ↔ ∃ amount, op = .incrementCounter c n amount := by
  cases op with
  | incrementCounter c' n' amount =>
      constructor
      · intro h
        obtain ⟨rfl, rfl⟩ := counterKey_inj h
        exact ⟨amount, rfl⟩
      · rintro ⟨amount', h⟩
        cases h
        rfl
  | updatePosition nodeId position timestamp =>
      refine iff_of_false (fun h => ?_) (by simp)
      have hhead := congrArg (fun key => key.toList.head?) h
      simp [operationKeyTimestamp, counterKey] at hhead
  | updateHealth nodeId status timestamp =>
      refine iff_of_false (fun h => ?_) (by simp)
      have hhead := congrArg (fun key => key.toList.head?) h
      simp [operationKeyTimestamp, counterKey] at hhead
  | updateRegister key value timestamp nodeId =>
      refine iff_of_false (fun h => ?_) (by simp)
      have hhead := congrArg (fun key => key.toList.head?) h
      simp [operationKeyTimestamp, counterKey] at hhead

/-! ## Histories -/

inductive Action where
  | addPeer (peer : NodeId)
  | removePeer (peer : NodeId)
  | resetPeer (peer : NodeId)
  | markSent (peer : NodeId) (operations : List CrdtOperation)

def act (enc : DeltaEncoder) : Action → DeltaEncoder
  | .addPeer peer => enc.addPeer peer
  | .removePeer peer => enc.removePeer peer
  | .resetPeer peer => enc.resetPeer peer
  | .markSent peer operations => enc.markSent peer operations

def run (nodeId : NodeId) (history : List Action) : DeltaEncoder := history.foldl act (new nodeId)

def isIncrement : CrdtOperation → Bool
  | .incrementCounter .. => true
  | _ => false

/-- The counter and the node of each increment. -/
def increments (operations : List CrdtOperation) : List (UInt8 × NodeId) :=
  operations.filterMap fun
    | .incrementCounter counterId nodeId _ => some (counterId, nodeId)
    | _ => none

/-- How one action changes the increments marked for `peer`; `none` while unregistered. -/
def actMarked (peer : NodeId) (marked : Option (List (UInt8 × NodeId))) :
    Action → Option (List (UInt8 × NodeId))
  | .addPeer other => if other = peer then some (marked.getD []) else marked
  | .removePeer other => if other = peer then none else marked
  | .resetPeer other => if other = peer then marked.map fun _ => [] else marked
  | .markSent other operations =>
      if other = peer then marked.map (· ++ increments operations) else marked

/-- The increments marked as sent to `peer` since it was last registered or reset. -/
def markedIncrements (history : List Action) (peer : NodeId) : Option (List (UInt8 × NodeId)) :=
  history.foldl (actMarked peer) none

theorem mem_increments {operations : List CrdtOperation} {c : UInt8} {n : NodeId} :
    (c, n) ∈ increments operations ↔ ∃ amount, .incrementCounter c n amount ∈ operations := by
  simp only [increments, List.mem_filterMap]
  constructor
  · rintro ⟨op, hmem, hop⟩
    cases op with
    | incrementCounter c' n' amount =>
        cases hop
        exact ⟨amount, hmem⟩
    | _ => cases hop
  · rintro ⟨amount, hmem⟩
    exact ⟨_, hmem, rfl⟩

/-- A peer's table holds the largest timestamp under exactly the marked counter keys. -/
def CountersMarked (marked : List (UInt8 × NodeId)) (state : PeerSyncState) : Prop :=
  ∀ c n, state.lastSent[counterKey c n]? = if (c, n) ∈ marked then some u64Max else none

theorem CountersMarked.markOperations {marked : List (UInt8 × NodeId)} {state : PeerSyncState}
    (h : CountersMarked marked state) (operations : List CrdtOperation) :
    CountersMarked (marked ++ increments operations) (markOperations state operations) := by
  induction operations generalizing marked state with
  | nil => simpa [increments, DeltaEncoder.markOperations] using h
  | cons op operations ih =>
      have hstep : CountersMarked (marked ++ increments [op])
          (state.markSent (operationKeyTimestamp op).1 (operationKeyTimestamp op).2) := by
        intro c n
        rw [PeerSyncState.lastSent_markSent, h c n]
        by_cases hkey : (operationKeyTimestamp op).1 = counterKey c n
        · obtain ⟨amount, rfl⟩ := (key_eq_counterKey_iff op c n).mp hkey
          simp [operationKeyTimestamp, increments]
        · have hnot : (c, n) ∉ increments [op] := by
            rw [mem_increments]
            rintro ⟨amount, hop⟩
            exact hkey ((key_eq_counterKey_iff op c n).mpr ⟨amount, (List.mem_singleton.mp hop).symm⟩)
          simp only [if_neg hkey, List.mem_append, hnot, or_false]
      have hrest := ih hstep
      rwa [List.append_assoc, show increments [op] ++ increments operations =
        increments (op :: operations) from (List.filterMap_append ..).symm] at hrest

/-- The encoder agrees with its history on every peer. -/
def Tracks (peer : NodeId) (marked : Option (List (UInt8 × NodeId))) (enc : DeltaEncoder) : Prop :=
  match marked with
  | none => enc.peers[peer]? = none
  | some sent => ∃ state, enc.peers[peer]? = some state ∧ CountersMarked sent state

/-- A change of one peer's state carries over if it does to its marks what it does to its table. -/
theorem Tracks.modify {peer : NodeId} {marked : Option (List (UInt8 × NodeId))}
    {enc : DeltaEncoder} (h : Tracks peer marked enc) (other : NodeId)
    {f : List (UInt8 × NodeId) → List (UInt8 × NodeId)} {g : PeerSyncState → PeerSyncState}
    (hcarry : ∀ sent state, CountersMarked sent state → CountersMarked (f sent) (g state)) :
    Tracks peer (if other = peer then marked.map f else marked) (enc.modifyPeer other g) := by
  by_cases hpeer : other = peer
  · rw [if_pos hpeer, hpeer]
    cases marked with
    | none =>
        change (enc.modifyPeer peer g).peers[peer]? = none
        rw [peers_modifyPeer, if_pos rfl, show enc.peers[peer]? = none from h]
        rfl
    | some sent =>
        obtain ⟨state, hstate, hcounters⟩ := h
        refine ⟨g state, ?_, hcarry sent state hcounters⟩
        rw [peers_modifyPeer, if_pos rfl, hstate]
        rfl
  · rw [if_neg hpeer]
    have hkept : (enc.modifyPeer other g).peers[peer]? = enc.peers[peer]? := by
      rw [peers_modifyPeer, if_neg hpeer]
    unfold Tracks
    rw [hkept]
    exact h

theorem Tracks.act {peer : NodeId} {marked : Option (List (UInt8 × NodeId))} {enc : DeltaEncoder}
    (h : Tracks peer marked enc) (action : Action) :
    Tracks peer (actMarked peer marked action) (enc.act action) := by
  have hempty : ∀ state : PeerSyncState, (∀ key : String, state.lastSent[key]? = none) →
      CountersMarked [] state := fun state hstate c n => by simp [hstate]
  cases action with
  | addPeer other =>
      by_cases hpeer : other = peer
      · subst hpeer
        cases marked with
        | none =>
            have hnone : enc.peers[other]? = none := h
            simp only [actMarked, if_true, Option.getD_none]
            refine ⟨PeerSyncState.new, ?_, hempty _ (by simp)⟩
            simp [DeltaEncoder.act, peers_addPeer, hnone]
        | some sent =>
            obtain ⟨state, hstate, hcounters⟩ := h
            simp only [actMarked, if_true, Option.getD_some]
            refine ⟨state, ?_, hcounters⟩
            simp [DeltaEncoder.act, peers_addPeer, hstate]
      · simpa [Tracks, actMarked, DeltaEncoder.act, peers_addPeer, hpeer] using h
  | removePeer other =>
      by_cases hpeer : other = peer
      · simp [Tracks, actMarked, DeltaEncoder.act, peers_removePeer, hpeer]
      · simpa [Tracks, actMarked, DeltaEncoder.act, peers_removePeer, hpeer] using h
  | resetPeer other => exact h.modify other fun _ state _ => hempty state.reset (by simp)
  | markSent other operations =>
      exact h.modify other fun _ _ hcounters => hcounters.markOperations operations

theorem tracks_run (nodeId : NodeId) (history : List Action) (peer : NodeId) :
    Tracks peer (markedIncrements history peer) (run nodeId history) := by
  induction history using List.reverseRecOn with
  | nil => simp [Tracks, markedIncrements, run, new]
  | append_singleton history action ih =>
      simp only [markedIncrements, run, List.foldl_append, List.foldl_cons, List.foldl_nil]
      exact ih.act action

/-- Every increment of the input, with its multiplicity and order, is in the output. -/
def KeepsIncrements (enc : DeltaEncoder) (peer : NodeId) (operations : List CrdtOperation) : Prop :=
  (enc.filterForPeer peer operations).filter isIncrement = operations.filter isIncrement

/-- The filter keeps all increments exactly when none of them repeats a counter and node
already marked as sent to the peer. -/
theorem filter_keeps_increments_iff (nodeId : NodeId) (history : List Action) (peer : NodeId)
    (operations : List CrdtOperation) :
    KeepsIncrements (run nodeId history) peer operations ↔
      ∀ sent, markedIncrements history peer = some sent →
        ∀ pair ∈ increments operations, pair ∉ sent := by
  have htrack := tracks_run nodeId history peer
  cases hmarked : markedIncrements history peer with
  | none =>
      rw [hmarked] at htrack
      have hnone : (run nodeId history).peers[peer]? = none := htrack
      simp [KeepsIncrements, filterForPeer, hnone]
  | some sent =>
      rw [hmarked] at htrack
      obtain ⟨state, hstate, hcounters⟩ := htrack
      have hneeds : ∀ c n amount, state.needsSend
          (operationKeyTimestamp (.incrementCounter c n amount)).1
          (operationKeyTimestamp (.incrementCounter c n amount)).2 = !decide ((c, n) ∈ sent) := by
        intro c n amount
        simp only [operationKeyTimestamp, PeerSyncState.needsSend, hcounters c n]
        by_cases hmem : (c, n) ∈ sent <;> simp [hmem]
      simp only [KeepsIncrements, filterForPeer, hstate, List.filter_filter, Option.some.injEq,
        forall_eq']
      constructor
      · intro hkeep pair hpair
        obtain ⟨amount, hmem⟩ := mem_increments.mp hpair
        have hin : CrdtOperation.incrementCounter pair.1 pair.2 amount ∈
            operations.filter isIncrement := List.mem_filter.mpr ⟨hmem, rfl⟩
        rw [← hkeep, List.mem_filter, hneeds] at hin
        simpa [isIncrement] using hin.2
      · intro hfresh
        apply List.filter_congr
        intro op hop
        cases op with
        | incrementCounter c n amount =>
            have hmem : (c, n) ∈ increments operations := mem_increments.mpr ⟨amount, hop⟩
            rw [hneeds]
            simp [isIncrement, hfresh _ hmem]
        | _ => rfl

/-- Two increments of one counter by one node, the first already sent. -/
theorem repeated_increment_dropped :
    ¬ KeepsIncrements
      (run 1 [.addPeer 2, .markSent 2 [.incrementCounter 0 1 5]]) 2 [.incrementCounter 0 1 3] := by
  unfold KeepsIncrements
  decide

end DeltaEncoder

end PeatBtle
