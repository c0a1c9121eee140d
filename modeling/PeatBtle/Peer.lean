import PeatBtle.Basic

/-!
# Peers and the connection graph

What is known about each directly seen peer, and about peers heard of only
through relays together with the direct peers that lead to them.
-/

namespace PeatBtle

open Wire

inductive DisconnectReason where
  | localRequest
  | remoteRequest
  | timeout
  | linkLoss
  | connectionFailed
  | unknown
deriving DecidableEq

structure PeatPeer where
  nodeId : NodeId
  identifier : String
  meshId : Option String
  name : Option String
  rssi : Int8
  isConnected : Bool
  lastSeenMs : UInt64
deriving DecidableEq

namespace PeatPeer

def new (nodeId : NodeId) (identifier : String) (meshId name : Option String) (rssi : Int8) :
    PeatPeer :=
  ⟨nodeId, identifier, meshId, name, rssi, false, 0⟩

def touch (p : PeatPeer) (nowMs : UInt64) : PeatPeer := { p with lastSeenMs := nowMs }

/-- A peer that was never seen is not stale. -/
def isStale (p : PeatPeer) (nowMs timeoutMs : UInt64) : Bool :=
  if p.lastSeenMs = 0 then false else saturatingSub nowMs p.lastSeenMs > timeoutMs

end PeatPeer

/-! ## Direct peers -/

inductive ConnectionState where
  | discovered
  | connecting
  | connected
  | degraded
  | disconnecting
  | disconnected
  | lost
deriving DecidableEq

def ConnectionState.isConnected : ConnectionState → Bool
  | .connected | .degraded => true
  | _ => false

structure PeerConnectionState where
  nodeId : NodeId
  identifier : String
  state : ConnectionState
  discoveredAt : UInt64
  connectedAt : Option UInt64
  disconnectedAt : Option UInt64
  disconnectReason : Option DisconnectReason
  lastRssi : Option Int8
  connectionCount : UInt32
  lastSeenMs : UInt64
  name : Option String
  meshId : Option String
deriving DecidableEq

namespace PeerConnectionState

def newDiscovered (nodeId : NodeId) (identifier : String) (nowMs : UInt64) :
    PeerConnectionState where
  nodeId := nodeId
  identifier := identifier
  state := .discovered
  discoveredAt := nowMs
  connectedAt := none
  disconnectedAt := none
  disconnectReason := none
  lastRssi := none
  connectionCount := 0
  lastSeenMs := nowMs
  name := none
  meshId := none

/-- A peer imported as connected counts as connected once. -/
def fromPeer (peer : PeatPeer) (nowMs : UInt64) : PeerConnectionState where
  nodeId := peer.nodeId
  identifier := peer.identifier
  state := if peer.isConnected then .connected else .discovered
  discoveredAt := nowMs
  connectedAt := if peer.isConnected then some nowMs else none
  disconnectedAt := none
  disconnectReason := none
  lastRssi := some peer.rssi
  connectionCount := if peer.isConnected then 1 else 0
  lastSeenMs := peer.lastSeenMs
  name := peer.name
  meshId := peer.meshId

def setConnecting (p : PeerConnectionState) (nowMs : UInt64) : PeerConnectionState :=
  { p with state := .connecting, lastSeenMs := nowMs }

def setConnected (p : PeerConnectionState) (nowMs : UInt64) : PeerConnectionState :=
  { p with
    state := .connected
    connectedAt := some nowMs
    connectionCount := p.connectionCount + 1
    lastSeenMs := nowMs
    disconnectReason := none }

def setDisconnected (p : PeerConnectionState) (nowMs : UInt64) (reason : DisconnectReason) :
    PeerConnectionState :=
  { p with
    state := .disconnected
    disconnectedAt := some nowMs
    disconnectReason := some reason
    lastSeenMs := nowMs }

/-- A name or mesh identifier that is not announced keeps its last value. -/
def seenAgain (p : PeerConnectionState) (name meshId : Option String) (rssi : Int8)
    (nowMs : UInt64) : PeerConnectionState :=
  { p with
    lastRssi := some rssi
    lastSeenMs := nowMs
    name := name.or p.name
    meshId := meshId.or p.meshId
    state := if p.state = .lost then .disconnected else p.state }

def setLost (p : PeerConnectionState) (nowMs : UInt64) : PeerConnectionState :=
  if p.state = .disconnected then { p with state := .lost, lastSeenMs := nowMs } else p

/-- Whether the state has become degraded is returned as well. -/
def updateRssi (p : PeerConnectionState) (rssi : Int8) (nowMs : UInt64) (degradedThreshold : Int8) :
    PeerConnectionState × Bool :=
  let read := { p with lastRssi := some rssi, lastSeenMs := nowMs }
  if p.state = .connected ∧ rssi < degradedThreshold then ({ read with state := .degraded }, true)
  else if p.state = .degraded ∧ rssi ≥ degradedThreshold then
    ({ read with state := .connected }, false)
  else (read, false)

end PeerConnectionState

/-! ## Indirect peers -/

def maxTrackedDegree : UInt8 := 3

structure IndirectPeer where
  nodeId : NodeId
  minHops : UInt8
  viaPeers : Map NodeId UInt8
  discoveredAt : UInt64
  lastSeenMs : UInt64
  messagesReceived : UInt32
deriving DecidableEq

namespace IndirectPeer

def new (nodeId viaPeer : NodeId) (hopCount : UInt8) (nowMs : UInt64) : IndirectPeer where
  nodeId := nodeId
  minHops := hopCount
  viaPeers := (∅ : Map NodeId UInt8).insert viaPeer hopCount
  discoveredAt := nowMs
  lastSeenMs := nowMs
  messagesReceived := 1

/-- The shortest of the recorded paths. -/
def shortest (viaPeers : Map NodeId UInt8) (default : UInt8) : UInt8 :=
  (viaPeers.toList.map Prod.snd).min?.getD default

def updatePath (p : IndirectPeer) (viaPeer : NodeId) (hopCount : UInt8) (nowMs : UInt64) :
    IndirectPeer :=
  let viaPeers := p.viaPeers.insert viaPeer hopCount
  { p with
    lastSeenMs := nowMs
    messagesReceived := p.messagesReceived + 1
    viaPeers := viaPeers
    minHops := if hopCount < p.minHops then hopCount else shortest viaPeers hopCount }

/-- A peer left without a path is dropped. -/
def removePath (p : IndirectPeer) (viaPeer : NodeId) : Option IndirectPeer :=
  let viaPeers := p.viaPeers.erase viaPeer
  if viaPeers.isEmpty then none
  else some { p with viaPeers := viaPeers, minHops := shortest viaPeers 255 }

def isStale (p : IndirectPeer) (nowMs timeoutMs : UInt64) : Bool :=
  saturatingSub nowMs p.lastSeenMs > timeoutMs

end IndirectPeer

/-! ## The graph -/

structure ConnectionStateGraph where
  peers : Map NodeId PeerConnectionState
  indirectPeers : Map NodeId IndirectPeer
  rssiDegradedThreshold : Int8
  lostTimeoutMs : UInt64
  indirectPeerTimeoutMs : UInt64
deriving DecidableEq

namespace ConnectionStateGraph

def withConfig (rssiDegradedThreshold : Int8) (lostTimeoutMs : UInt64) : ConnectionStateGraph :=
  ⟨∅, ∅, rssiDegradedThreshold, lostTimeoutMs, 120000⟩

def onDiscovered (g : ConnectionStateGraph) (nodeId : NodeId) (identifier : String)
    (name meshId : Option String) (rssi : Int8) (nowMs : UInt64) : ConnectionStateGraph :=
  let old := g.peers[nodeId]?.getD (PeerConnectionState.newDiscovered nodeId identifier nowMs)
  { g with peers := g.peers.insert nodeId (old.seenAgain name meshId rssi nowMs) }

def onConnecting (g : ConnectionStateGraph) (nodeId : NodeId) (nowMs : UInt64) :
    ConnectionStateGraph :=
  { g with peers := g.peers.modify nodeId fun p => p.setConnecting nowMs }

def onConnected (g : ConnectionStateGraph) (nodeId : NodeId) (nowMs : UInt64) :
    ConnectionStateGraph :=
  { g with peers := g.peers.modify nodeId fun p => p.setConnected nowMs }

def onDisconnected (g : ConnectionStateGraph) (nodeId : NodeId) (reason : DisconnectReason)
    (nowMs : UInt64) : ConnectionStateGraph :=
  { g with peers := g.peers.modify nodeId fun p => p.setDisconnected nowMs reason }

def updateRssi (g : ConnectionStateGraph) (nodeId : NodeId) (rssi : Int8) (nowMs : UInt64) :
    ConnectionStateGraph × Bool :=
  let update (p : PeerConnectionState) := p.updateRssi rssi nowMs g.rssiDegradedThreshold
  ({ g with peers := g.peers.modify nodeId fun p => (update p).1 },
    g.peers[nodeId]?.any fun p => (update p).2)

def importPeer (g : ConnectionStateGraph) (peer : PeatPeer) (nowMs : UInt64) :
    ConnectionStateGraph :=
  { g with peers := g.peers.insert peer.nodeId (PeerConnectionState.fromPeer peer nowMs) }

/-- Disconnected for longer than the timeout. -/
def overdue (g : ConnectionStateGraph) (nowMs : UInt64) (p : PeerConnectionState) : Bool :=
  decide (p.state = .disconnected) &&
    p.disconnectedAt.elim false fun since => saturatingSub nowMs since > g.lostTimeoutMs

/-- The graph after the sweep and the peers it declared lost. -/
def tick (g : ConnectionStateGraph) (nowMs : UInt64) : ConnectionStateGraph × List NodeId :=
  ({ g with peers := g.peers.map fun _ p => if g.overdue nowMs p then p.setLost nowMs else p },
    (g.peers.toList.filter fun entry => g.overdue nowMs entry.2).map Prod.fst)

def cleanupLost (g : ConnectionStateGraph) (olderThanMs nowMs : UInt64) : ConnectionStateGraph :=
  { g with peers := g.peers.filter fun _ p =>
      !(decide (p.state = .lost) && decide (saturatingSub nowMs p.lastSeenMs > olderThanMs)) }

/-- A relayed message leads to its origin unless that is a direct peer or too far away. -/
def onRelayReceived (g : ConnectionStateGraph) (sourcePeer originNode : NodeId) (hopCount : UInt8)
    (nowMs : UInt64) : ConnectionStateGraph :=
  if hopCount > maxTrackedDegree then g
  else if originNode ∈ g.peers then g
  else
    let heard := match g.indirectPeers[originNode]? with
      | some existing => existing.updatePath sourcePeer hopCount nowMs
      | none => IndirectPeer.new originNode sourcePeer hopCount nowMs
    { g with indirectPeers := g.indirectPeers.insert originNode heard }

def cleanupIndirect (g : ConnectionStateGraph) (nowMs : UInt64) : ConnectionStateGraph :=
  { g with indirectPeers := g.indirectPeers.filter fun _ p =>
      !p.isStale nowMs g.indirectPeerTimeoutMs }

def removeViaPeer (g : ConnectionStateGraph) (viaPeer : NodeId) : ConnectionStateGraph :=
  { g with indirectPeers := g.indirectPeers.filterMap fun _ p => p.removePath viaPeer }

/-! ## Actions -/

/-- The operations that change a graph, apart from raw access to an entry. -/
inductive Action where
  | discovered (nodeId : NodeId) (identifier : String) (name meshId : Option String) (rssi : Int8)
      (nowMs : UInt64)
  | connecting (nodeId : NodeId) (nowMs : UInt64)
  | connected (nodeId : NodeId) (nowMs : UInt64)
  | disconnected (nodeId : NodeId) (reason : DisconnectReason) (nowMs : UInt64)
  | rssi (nodeId : NodeId) (rssi : Int8) (nowMs : UInt64)
  | imported (peer : PeatPeer) (nowMs : UInt64)
  | tick (nowMs : UInt64)
  | cleanupLost (olderThanMs nowMs : UInt64)
  | relayReceived (sourcePeer originNode : NodeId) (hopCount : UInt8) (nowMs : UInt64)
  | cleanupIndirect (nowMs : UInt64)
  | removeViaPeer (viaPeer : NodeId)
deriving DecidableEq

def act (g : ConnectionStateGraph) : Action → ConnectionStateGraph
  | .discovered nodeId identifier name meshId rssi nowMs =>
      g.onDiscovered nodeId identifier name meshId rssi nowMs
  | .connecting nodeId nowMs => g.onConnecting nodeId nowMs
  | .connected nodeId nowMs => g.onConnected nodeId nowMs
  | .disconnected nodeId reason nowMs => g.onDisconnected nodeId reason nowMs
  | .rssi nodeId rssi nowMs => (g.updateRssi nodeId rssi nowMs).1
  | .imported peer nowMs => g.importPeer peer nowMs
  | .tick nowMs => (g.tick nowMs).1
  | .cleanupLost olderThanMs nowMs => g.cleanupLost olderThanMs nowMs
  | .relayReceived sourcePeer originNode hopCount nowMs =>
      g.onRelayReceived sourcePeer originNode hopCount nowMs
  | .cleanupIndirect nowMs => g.cleanupIndirect nowMs
  | .removeViaPeer viaPeer => g.removeViaPeer viaPeer

end ConnectionStateGraph

end PeatBtle
