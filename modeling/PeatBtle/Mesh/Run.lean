import PeatBtle.Data.LoggedRun
import PeatBtle.Mesh.Receive

/-!
# Runs of a mesh node

The remaining entry points that change a node, and runs of all of them. What the
source takes from the clock or the random generator is an argument here.
-/

namespace PeatBtle

open Wire

namespace PeatMesh

variable {D : Type} (crypto : Crypto)

/-! ## Connections -/

def onBleDiscovered (m : PeatMesh D) (identifier : String) (name : Option String) (rssi : Int8)
    (meshId : Option String) (nowMs : UInt64) : PeatMesh D :=
  let found := m.peerManager.onDiscovered identifier name rssi meshId nowMs
  match found.2 with
  | none => { m with peerManager := found.1 }
  | some (nodeId, _) =>
      let graph := m.connectionGraph.onDiscovered nodeId identifier name meshId rssi nowMs
      { m with peerManager := found.1, connectionGraph := graph }

def onBleConnected (m : PeatMesh D) (identifier : String) (nowMs : UInt64) : PeatMesh D :=
  let connected := m.peerManager.onConnected identifier nowMs
  match connected.2 with
  | none => { m with peerManager := connected.1 }
  | some nodeId =>
      let graph := m.connectionGraph.onConnected nodeId nowMs
      ({ m with peerManager := connected.1, connectionGraph := graph }).registerPeerForDelta nodeId

/-- The common end of both ways to lose a connection. -/
def dropConnection (m : PeatMesh D) (nodeId : NodeId) (reason : DisconnectReason)
    (nowMs : UInt64) : PeatMesh D :=
  let graph := (m.connectionGraph.onDisconnected nodeId reason nowMs).removeViaPeer nodeId
  ({ m with connectionGraph := graph }).unregisterPeerForDelta nodeId

def onBleDisconnected (m : PeatMesh D) (identifier : String) (reason : DisconnectReason)
    (nowMs : UInt64) : PeatMesh D :=
  let gone := m.peerManager.onDisconnected identifier
  match gone.2 with
  | none => { m with peerManager := gone.1 }
  | some nodeId => ({ m with peerManager := gone.1 }).dropConnection nodeId reason nowMs

def onPeerDisconnected (m : PeatMesh D) (nodeId : NodeId) (reason : DisconnectReason)
    (nowMs : UInt64) : PeatMesh D :=
  let gone := m.peerManager.onDisconnectedByNodeId nodeId
  if gone.2 then ({ m with peerManager := gone.1 }).dropConnection nodeId reason nowMs
  else { m with peerManager := gone.1 }

def onIncomingConnection (m : PeatMesh D) (identifier : String) (nodeId : NodeId)
    (nowMs : UInt64) : PeatMesh D :=
  (m.registerSource identifier nodeId nowMs).registerPeerForDelta nodeId

/-! ## Local changes -/

def mutate (m : PeatMesh D) (mutation : DocumentSync.Mutation) : PeatMesh D :=
  { m with documentSync := m.documentSync.mutate mutation }

def startEmergencyWithKnownPeers (m : PeatMesh D) (timestamp : UInt64) : PeatMesh D :=
  m.mutate (.startEmergency timestamp (m.peerManager.getPeers.map PeatPeer.nodeId))

/-! ## End-to-end sessions -/

def enablePeerE2ee (m : PeatMesh D) (identitySecret : Key) : PeatMesh D :=
  let sessions := m.peerSessions.getD (PeerSessionManager.new m.config.nodeId identitySecret)
  { m with peerSessions := some sessions }

def disablePeerE2ee (m : PeatMesh D) : PeatMesh D := { m with peerSessions := none }

def initiatePeerE2ee (listing : SessionListing) (m : PeatMesh D) (peer : NodeId)
    (nowMs : UInt64) : PeatMesh D :=
  { m with
    peerSessions := m.peerSessions.map fun s => (s.initiateSession crypto listing peer nowMs).1 }

def sendPeerE2ee (m : PeatMesh D) (peer : NodeId) (nonce : Nonce) (plaintext : Bytes)
    (nowMs : UInt64) : PeatMesh D :=
  let send (s : PeerSessionManager) := (s.encryptForPeer crypto peer nonce plaintext nowMs).1
  { m with peerSessions := m.peerSessions.map send }

def closePeerE2ee (m : PeatMesh D) (peer : NodeId) : PeatMesh D :=
  { m with peerSessions := m.peerSessions.map fun s => s.closeSession peer }

/-! ## Maintenance -/

/-- Stale peers are dropped and overdue ones declared lost, once per interval. -/
def maintain (m : PeatMesh D) (nowMs : UInt64) : PeatMesh D :=
  let now32 := UInt32.ofNat nowMs.toNat
  let interval := UInt32.ofNat m.config.peerConfig.cleanupIntervalMs.toNat
  if now32 - m.lastCleanupMs ≥ interval then
    let swept := (m.connectionGraph.tick nowMs).1
    { m with
      lastCleanupMs := now32
      peerManager := (m.peerManager.cleanupStale nowMs).1
      connectionGraph := swept.cleanupLost m.config.peerConfig.peerTimeoutMs nowMs }
  else m

/-- Whether a broadcast is due; the timer restarts if so. -/
def syncDue (m : PeatMesh D) (nowMs : UInt64) : PeatMesh D × Bool :=
  let now32 := UInt32.ofNat nowMs.toNat
  if now32 - m.lastSyncMs ≥ UInt32.ofNat m.config.syncIntervalMs.toNat then
    ({ m with lastSyncMs := now32 }, true)
  else (m, false)

def tick (m : PeatMesh D) (nonce : Nonce) (nowMs : UInt64) : PeatMesh D × Option Bytes :=
  let due := (m.maintain nowMs).syncDue nowMs
  (due.1, if due.2 && decide (due.1.peerManager.connectedCount > 0) then
    some (due.1.buildDocument crypto nonce) else none)

def tickWithPeerDeltas (m : PeatMesh D) (nonce : Nonce) (nowMs : UInt64) :
    PeatMesh D × List (NodeId × Bytes) :=
  let due := (m.maintain nowMs).syncDue nowMs
  let connected := due.1.peerManager.getPeers.filter PeatPeer.isConnected
  (due.1, if due.2 then connected.map fun p => (p.nodeId, due.1.buildDocument crypto nonce) else [])

/-! ## Runs -/

inductive Action (D : Type) where
  | mutate (mutation : DocumentSync.Mutation)
  | startEmergencyWithKnownPeers (timestamp : UInt64)
  | discovered (identifier : String) (name : Option String) (rssi : Int8) (meshId : Option String)
      (nowMs : UInt64)
  | connected (identifier : String) (nowMs : UInt64)
  | disconnected (identifier : String) (reason : DisconnectReason) (nowMs : UInt64)
  | peerDisconnected (nodeId : NodeId) (reason : DisconnectReason) (nowMs : UInt64)
  | incomingConnection (identifier : String) (nodeId : NodeId) (nowMs : UInt64)
  | dataReceived (identifier : String) (data : Bytes) (nowMs : UInt64)
  | dataReceivedFromNode (nodeId : NodeId) (data : Bytes) (nowMs : UInt64)
  | data (identifier : String) (data : Bytes) (nowMs : UInt64)
  | dataReceivedAnonymous (identifier : String) (data : Bytes) (nowMs : UInt64)
  | relayEnvelope (data : Bytes) (sourcePeer : NodeId) (nowMs : UInt64)
  | markMessageSeen (messageId : MessageId) (origin : NodeId) (nowMs : UInt64)
  | clearSeenCache
  | registerPeerForDelta (peer : NodeId)
  | unregisterPeerForDelta (peer : NodeId)
  | resetPeerDeltaState (peer : NodeId)
  | recordDeltaSent (peer : NodeId) (bytes : Nat)
  | recordDeltaReceived (peer : NodeId) (bytes : Nat) (timestamp : UInt64)
  | buildDelta (peer : NodeId) (nonce : Nonce) (nowMs : UInt64)
  | registerDocumentType (typeId : UInt8) (handler : DocumentHandler D)
  | storeAppDocument (key : DocumentKey) (doc : D)
  | enableEncryption (secret : Key)
  | disableEncryption
  | enableRelay
  | disableRelay
  | enablePeerE2ee (identitySecret : Key)
  | disablePeerE2ee
  | initiatePeerE2ee (listing : SessionListing) (peer : NodeId) (nowMs : UInt64)
  | sendPeerE2ee (peer : NodeId) (nonce : Nonce) (plaintext : Bytes) (nowMs : UInt64)
  | closePeerE2ee (peer : NodeId)
  | cleanupIndirectPeers (nowMs : UInt64)
  | tick (nonce : Nonce) (nowMs : UInt64)
  | tickWithPeerDeltas (nonce : Nonce) (nowMs : UInt64)

def act (m : PeatMesh D) : Action D → PeatMesh D
  | .mutate mutation => m.mutate mutation
  | .startEmergencyWithKnownPeers timestamp => m.startEmergencyWithKnownPeers timestamp
  | .discovered identifier name rssi meshId nowMs =>
      m.onBleDiscovered identifier name rssi meshId nowMs
  | .connected identifier nowMs => m.onBleConnected identifier nowMs
  | .disconnected identifier reason nowMs => m.onBleDisconnected identifier reason nowMs
  | .peerDisconnected nodeId reason nowMs => m.onPeerDisconnected nodeId reason nowMs
  | .incomingConnection identifier nodeId nowMs => m.onIncomingConnection identifier nodeId nowMs
  | .dataReceived identifier data nowMs => (m.onBleDataReceived crypto identifier data nowMs).1
  | .dataReceivedFromNode nodeId data nowMs =>
      (m.onBleDataReceivedFromNode crypto nodeId data nowMs).1
  | .data identifier data nowMs => (m.onBleData crypto identifier data nowMs).1
  | .dataReceivedAnonymous identifier data nowMs =>
      (m.onBleDataReceivedAnonymous crypto identifier data nowMs).1
  | .relayEnvelope data sourcePeer nowMs => (m.processRelayEnvelope data sourcePeer nowMs).1
  | .markMessageSeen messageId origin nowMs => (m.markMessageSeen messageId origin nowMs).1
  | .clearSeenCache => { m with seenCache := m.seenCache.clear }
  | .registerPeerForDelta peer => m.registerPeerForDelta peer
  | .unregisterPeerForDelta peer => m.unregisterPeerForDelta peer
  | .resetPeerDeltaState peer => m.resetPeerDeltaState peer
  | .recordDeltaSent peer bytes => m.recordDeltaSent peer bytes
  | .recordDeltaReceived peer bytes timestamp => m.recordDeltaReceived peer bytes timestamp
  | .buildDelta peer nonce nowMs => (m.buildDeltaDocumentForPeer crypto peer nonce nowMs).1
  | .registerDocumentType typeId handler =>
      { m with documentRegistry := (m.documentRegistry.tryRegister typeId handler).1 }
  | .storeAppDocument key doc => m.storeAppDocument key doc
  | .enableEncryption secret => m.enableEncryption crypto secret
  | .disableEncryption => m.disableEncryption
  | .enableRelay => { m with config := { m.config with enableRelay := true } }
  | .disableRelay => { m with config := { m.config with enableRelay := false } }
  | .enablePeerE2ee identitySecret => m.enablePeerE2ee identitySecret
  | .disablePeerE2ee => m.disablePeerE2ee
  | .initiatePeerE2ee listing peer nowMs => m.initiatePeerE2ee crypto listing peer nowMs
  | .sendPeerE2ee peer nonce plaintext nowMs => m.sendPeerE2ee crypto peer nonce plaintext nowMs
  | .closePeerE2ee peer => m.closePeerE2ee peer
  | .cleanupIndirectPeers nowMs =>
      { m with connectionGraph := m.connectionGraph.cleanupIndirect nowMs }
  | .tick nonce nowMs => (m.tick crypto nonce nowMs).1
  | .tickWithPeerDeltas nonce nowMs => (m.tickWithPeerDeltas crypto nonce nowMs).1

/-- The node that a configuration starts and a sequence of actions leads to. -/
def run (config : PeatMeshConfig) (actions : List (Action D)) : PeatMesh D :=
  LoggedRun.run (act crypto) (new crypto config) actions

/-- A node without encryption that another node has connected to. -/
def plainReceiver : PeatMesh Unit :=
  run .unavailable (PeatMeshConfig.new 0x22222222 "BRAVO-1" "TEST")
    [.incomingConnection "central" 0x11111111 1000]

end PeatMesh

end PeatBtle
