import PeatBtle.Mesh.State

/-!
# Delta sync

A node describes its state as a list of operations. For a tracked peer only the
operations whose timestamp has grown since the last delta are sent; counter
operations carry the count itself as their timestamp, the peripheral that of its
last event, the emergency and its acknowledgements that of the emergency.
-/

namespace PeatBtle

open Wire

namespace PeatMesh

variable {D : Type} (crypto : Crypto)

/-! ## Peer tracking -/

def registerPeerForDelta (m : PeatMesh D) (peer : NodeId) : PeatMesh D :=
  { m with deltaEncoder := m.deltaEncoder.addPeer peer }

def unregisterPeerForDelta (m : PeatMesh D) (peer : NodeId) : PeatMesh D :=
  { m with deltaEncoder := m.deltaEncoder.removePeer peer }

def resetPeerDeltaState (m : PeatMesh D) (peer : NodeId) : PeatMesh D :=
  { m with deltaEncoder := m.deltaEncoder.resetPeer peer }

def recordDeltaSent (m : PeatMesh D) (peer : NodeId) (bytes : Nat) : PeatMesh D :=
  { m with deltaEncoder := m.deltaEncoder.recordSent peer bytes }

def recordDeltaReceived (m : PeatMesh D) (peer : NodeId) (bytes : Nat) (timestamp : UInt64) :
    PeatMesh D :=
  { m with deltaEncoder := m.deltaEncoder.recordReceived peer bytes timestamp }

/-! ## The state as operations -/

/-- The emergency and one acknowledgement for each node that has given it. -/
def emergencyOperations : Option EmergencyEvent → List Operation
  | none => []
  | some e => .setEmergency e.sourceNode e.timestamp e.allNodes ::
      e.ackedNodes.map fun node => .ackEmergency node e.timestamp

def peripheralOperation (p : Peripheral) (default : UInt64) : Operation :=
  .updatePeripheral p ((p.lastEvent.map PeripheralEvent.timestamp).getD default)

/-- Everything but the app documents: the counter entries under a stamp of their count, the
peripheral under that of its last event, and the emergency. -/
def syncOperations (s : DocumentSync) (stamp : UInt64 → UInt64) (default : UInt64) :
    List Operation :=
  (s.counterEntries.map fun entry => .incrementCounter 0 entry.1 entry.2 (stamp entry.2)) ++
    peripheralOperation s.peripheral default :: emergencyOperations s.emergency

/-- The operations of a tracked delta, before filtering. -/
def allOperations (m : PeatMesh D) : List Operation :=
  syncOperations m.documentSync id 1 ++ m.appDocumentDeltaOps.map Operation.app

/-- An unknown peer is sent everything. -/
def operationsForPeer (m : PeatMesh D) (peer : NodeId) : List Operation :=
  match m.deltaEncoder.getPeerState peer with
  | some state => m.allOperations.filter fun op => state.needsSend op.key op.timestamp
  | none => m.allOperations

def markOperations (state : PeerSyncState) (operations : List Operation) : PeerSyncState :=
  operations.foldl (fun s op => s.markSent op.key op.timestamp) state

/-- The delta a peer is due, unless there is nothing new. -/
def deltaForPeer (m : PeatMesh D) (peer : NodeId) (nowMs : UInt64) : Option DeltaDocument :=
  let operations := m.operationsForPeer peer
  if operations.isEmpty then none
  else some (operations.foldl DeltaDocument.addOperation (DeltaDocument.new m.config.nodeId nowMs))

def buildDeltaDocumentForPeer (m : PeatMesh D) (peer : NodeId) (nonce : Nonce) (nowMs : UInt64) :
    PeatMesh D × Option Bytes :=
  match m.deltaForPeer peer nowMs with
  | none => (m, none)
  | some delta =>
      let marked := { m with deltaEncoder :=
        m.deltaEncoder.modifyPeer peer fun state => markOperations state delta.operations }
      let result := m.encryptDocument crypto nonce delta.encode
      (marked.recordDeltaSent peer result.length, some result)

/-- All state, whatever has been sent before. -/
def fullDeltaDocument (m : PeatMesh D) (nowMs : UInt64) : DeltaDocument :=
  (syncOperations m.documentSync (fun _ => nowMs) nowMs ++
      m.appDocumentDeltaOps.map Operation.app).foldl
    DeltaDocument.addOperation (DeltaDocument.new m.config.nodeId nowMs)

def buildFullDeltaDocument (m : PeatMesh D) (nonce : Nonce) (nowMs : UInt64) : Bytes :=
  m.encryptDocument crypto nonce (m.fullDeltaDocument nowMs).encode

/-! ## Processing a delta -/

/-- What is collected while the operations are walked. -/
structure DeltaOutcome where
  counterChanged : Bool
  emergencyChanged : Bool
  isEmergency : Bool
  isAck : Bool
  eventTimestamp : UInt64
  peerPeripheral : Option Peripheral
deriving DecidableEq

def DeltaOutcome.start : DeltaOutcome := ⟨false, false, false, false, 0, none⟩

/-- The low 48 bits of the timestamp identify the document. -/
def applyAppOperation (registry : DocumentRegistry D) (docs : AppDocumentStore D)
    (op : AppOperation) : AppDocumentStore D :=
  let key : DocumentKey := ⟨op.typeId, op.sourceNode, op.timestamp &&& 0x0000FFFFFFFFFFFF⟩
  match docs[key]? with
  | some existing => docs.insert key (registry.applyDeltaOp op.typeId existing op).1
  | none =>
      match registry.decode op.typeId op.payload with
      | some decoded => docs.insert key decoded
      | none => docs

/-- Peripherals and app documents are stored. Counter and emergency operations only set the
flags of the outcome; the document state is left alone. -/
def applyOperation (origin : NodeId) (acc : PeatMesh D × DeltaOutcome) :
    Operation → PeatMesh D × DeltaOutcome
  | .incrementCounter _ nodeId amount _ =>
      let current := acc.1.documentSync.counter.nodeCount nodeId
      (acc.1, { acc.2 with counterChanged := acc.2.counterChanged || decide (amount > current) })
  | .updatePeripheral peripheral timestamp =>
      ({ acc.1 with peerPeripherals := acc.1.peerPeripherals.insert origin peripheral },
        { acc.2 with
          peerPeripheral := some peripheral
          eventTimestamp := max acc.2.eventTimestamp timestamp })
  | .setEmergency _ timestamp _ =>
      (acc.1,
        { acc.2 with isEmergency := true, emergencyChanged := true, eventTimestamp := timestamp })
  | .ackEmergency _ emergencyTimestamp =>
      (acc.1,
        { acc.2 with
          isAck := true
          emergencyChanged := true
          eventTimestamp := max acc.2.eventTimestamp emergencyTimestamp })
  | .clearEmergency emergencyTimestamp =>
      (acc.1,
        { acc.2 with
          emergencyChanged := true
          eventTimestamp := max acc.2.eventTimestamp emergencyTimestamp })
  | .app op =>
      let docs := applyAppOperation acc.1.documentRegistry acc.1.appDocuments op
      ({ acc.1 with appDocuments := docs }, acc.2)

def applyOperations (m : PeatMesh D) (origin : NodeId) (operations : List Operation) :
    PeatMesh D × DeltaOutcome :=
  operations.foldl (applyOperation origin) (m, DeltaOutcome.start)

/-- Malformed deltas and our own are refused. -/
def processDeltaDocumentInternal (m : PeatMesh D) (sourceNode : NodeId) (data : Bytes)
    (nowMs : UInt64) (relay : RelayInfo) : PeatMesh D × Option DataReceivedResult :=
  match DeltaDocument.decode data with
  | none => (m, none)
  | some delta =>
      if delta.originNode = m.config.nodeId then (m, none)
      else
        let applied := m.applyOperations delta.originNode delta.operations
        let outcome := applied.2
        let synced := { applied.1 with
          peerManager := applied.1.peerManager.recordSync sourceNode nowMs }
        (synced.recordDeltaReceived sourceNode data.length nowMs,
          some
            { relay, peripheralFields outcome.peerPeripheral with
              sourceNode := delta.originNode
              isEmergency := outcome.isEmergency
              isAck := outcome.isAck
              counterChanged := outcome.counterChanged
              emergencyChanged := outcome.emergencyChanged
              totalCount := synced.documentSync.totalCount
              eventTimestamp := outcome.eventTimestamp })

end PeatMesh

end PeatBtle
