import PeatBtle.Data.LastMax
import PeatBtle.Data.MapMerge
import PeatBtle.Discovery.Beacon
import PeatBtle.Topology.Membership

/-!
# The mesh manager

The manager connects to a parent, accepts children, and looks for a new parent when it
has lost the old one. Beside the topology it keeps a record of each neighbour and a
list of the nodes that may become the parent.
-/

namespace PeatBtle

open Std Wire MapMerge

/-! ## Records -/

namespace MeshTopology

inductive ConnectionState where
  | disconnected
  | connecting
  | connected
  | disconnecting
deriving DecidableEq

inductive DisconnectReason where
  | requested
  | timeout
  | remoteDisconnect
  | supervisionTimeout
  | linkLoss
  | localError
  | unknown
deriving DecidableEq

end MeshTopology

structure PeerInfo where
  nodeId : NodeId
  role : PeerRole
  state : MeshTopology.ConnectionState
  hierarchyLevel : HierarchyLevel
  rssi : Option Int8
  connectedAt : Option UInt64
  messagesReceived : UInt32
  messagesSent : UInt32
  failureCount : UInt8
  lastSeenMs : UInt64
deriving DecidableEq

namespace PeerInfo

def new (nodeId : NodeId) (role : PeerRole) (hierarchyLevel : HierarchyLevel) : PeerInfo :=
  ⟨nodeId, role, .disconnected, hierarchyLevel, none, none, 0, 0, 0, 0⟩

def updateRssi (p : PeerInfo) (rssi : Int8) : PeerInfo := { p with rssi := some rssi }

/-- The count stops at 255. -/
def recordFailure (p : PeerInfo) : PeerInfo :=
  { p with failureCount := if p.failureCount = 255 then 255 else p.failureCount + 1 }

end PeerInfo

structure ParentCandidate where
  nodeId : NodeId
  level : HierarchyLevel
  rssi : Int8
  ageMs : UInt64
  failureCount : UInt8
deriving DecidableEq

namespace ParentCandidate

def idealLevel : HierarchyLevel → HierarchyLevel
  | .platform => .squad
  | .squad => .platoon
  | .platoon => .company
  | .company => .company

/-- Signal strength, freshness, failures and level; it fits in 32 bits. -/
def score (c : ParentCandidate) (myLevel : HierarchyLevel) : Int :=
  let freshness :=
    if c.ageMs < 1000 then 20 else if c.ageMs < 3000 then 10 else if c.ageMs < 5000 then 5 else 0
  let preference :=
    if c.level = idealLevel myLevel then 30
    else if c.level.toU8 > myLevel.toU8 then 15
    else 0
  (c.rssi.toInt + 100) * 2 + freshness - c.failureCount.toNat * 15 + preference

end ParentCandidate

structure TopologyConfig where
  maxChildren : UInt8
  maxConnections : UInt8
  minParentRssi : Int8
  maxBeaconAgeMs : UInt64
  maxFailures : UInt8
  rssiHysteresis : UInt8
deriving DecidableEq

def TopologyConfig.default : TopologyConfig := ⟨3, 7, -85, 10000, 3, 6⟩

inductive TopologyEvent where
  | parentConnected (node : NodeId) (level : HierarchyLevel) (rssi : Option Int8)
  | parentDisconnected (node : NodeId) (reason : MeshTopology.DisconnectReason)
  | childConnected (node : NodeId) (level : HierarchyLevel)
  | childDisconnected (node : NodeId) (reason : MeshTopology.DisconnectReason)
  | topologyChanged (childCount peerCount : Nat) (hasParent : Bool)
  | parentFailoverStarted (oldParent : NodeId)
  | parentFailoverCompleted (oldParent : NodeId) (newParent : Option NodeId)
  | connectionQualityChanged (node : NodeId) (rssi : Int8)
deriving DecidableEq

inductive ManagerState where
  | stopped
  | starting
  | running
  | failover
  | stopping
deriving DecidableEq

/-! ## The manager -/

structure MeshManager where
  nodeId : NodeId
  myLevel : HierarchyLevel
  config : TopologyConfig
  topology : MeshTopology
  peers : Map NodeId PeerInfo
  candidates : List ParentCandidate
  state : ManagerState
  currentTimeMs : UInt64

/-- What a call leaves, answers, and tells its listeners. -/
structure Outcome (α : Type) where
  manager : MeshManager
  answer : α
  events : List TopologyEvent

/-- Change the first entry that fits. -/
def updateFirst {α : Type} (test : α → Bool) (f : α → α) : List α → List α
  | [] => []
  | x :: xs => if test x then f x :: xs else x :: updateFirst test f xs

/-- The sum of two 8-bit values, where it is one. -/
def checkedAdd (a b : Int8) : Option Int8 :=
  if -128 ≤ a.toInt + b.toInt ∧ a.toInt + b.toInt ≤ 127 then some (a + b) else none

namespace MeshManager

def new (nodeId : NodeId) (myLevel : HierarchyLevel) (config : TopologyConfig) : MeshManager where
  nodeId := nodeId
  myLevel := myLevel
  config := config
  topology := MeshTopology.new myLevel config.maxChildren config.maxConnections
  peers := ∅
  candidates := []
  state := .stopped
  currentTimeMs := 0

def start (m : MeshManager) : Outcome (Except BleError Unit) :=
  match m.state with
  | .stopped => ⟨{ m with state := .running }, .ok (), []⟩
  | _ => ⟨m, .error (BleError.invalidState "Already started"), []⟩

def stop (m : MeshManager) : Outcome (Except BleError Unit) :=
  let topology := { m.topology with parent := none, children := [], peers := [] }
  ⟨{ m with state := .stopped, topology := topology, peers := ∅, candidates := [] }, .ok (), []⟩

def setTimeMs (m : MeshManager) (timeMs : UInt64) : MeshManager :=
  { m with currentTimeMs := timeMs }

def connectedPeers (m : MeshManager) : List NodeId := m.topology.allConnected

def getPeerInfo (m : MeshManager) (node : NodeId) : Option PeerInfo := m.peers[node]?

/-- The event of `emit_topology_changed`. -/
def topologyChanged (m : MeshManager) : TopologyEvent :=
  .topologyChanged m.topology.children.length m.topology.peers.length m.topology.hasParent

/-- Only a node of a higher level may become the parent. -/
def processBeacon (m : MeshManager) (beacon : PeatBeacon) (rssi : Int8) : MeshManager :=
  if beacon.hierarchyLevel.toU8 > m.myLevel.toU8 then
    let candidate : ParentCandidate :=
      { nodeId := beacon.nodeId
        level := beacon.hierarchyLevel
        rssi := rssi
        ageMs := 0
        failureCount := (m.peers[beacon.nodeId]?.map PeerInfo.failureCount).getD 0 }
    let known := m.candidates.any (·.nodeId = beacon.nodeId)
    { m with
      candidates :=
        if known then
          updateFirst (·.nodeId = beacon.nodeId)
            (fun c => { c with rssi := rssi, ageMs := 0, level := beacon.hierarchyLevel })
            m.candidates
        else m.candidates ++ [candidate] }
  else m

/-- The limits on strength, age and failures. -/
def withinLimits (m : MeshManager) (c : ParentCandidate) : Bool :=
  c.rssi ≥ m.config.minParentRssi && c.ageMs ≤ m.config.maxBeaconAgeMs &&
    c.failureCount < m.config.maxFailures

def selectBestParent (m : MeshManager) : Option ParentCandidate :=
  maxByKey (·.score m.myLevel) (m.candidates.filter m.withinLimits)

def connectParent (m : MeshManager) (node : NodeId) (level : HierarchyLevel) (rssi : Int8) :
    Outcome (Except BleError Unit) :=
  if m.topology.hasParent then ⟨m, .error (BleError.invalidState "Already have a parent"), []⟩
  else
    let set := m.topology.setParent node
    if !set.2 then
      ⟨{ m with topology := set.1 },
        .error (BleError.connectionFailed "Cannot accept connection"), []⟩
    else
      let info := { PeerInfo.new node .parent level with
        state := .connected
        rssi := some rssi
        connectedAt := some m.currentTimeMs
        lastSeenMs := m.currentTimeMs }
      let connected := { m with topology := set.1, peers := m.peers.insert node info }
      ⟨connected, .ok (), [.parentConnected node level (some rssi), connected.topologyChanged]⟩

def disconnectParent (m : MeshManager) (reason : MeshTopology.DisconnectReason) :
    Outcome (Option NodeId) :=
  let cleared := m.topology.clearParent
  match cleared.2 with
  | none => ⟨{ m with topology := cleared.1 }, none, []⟩
  | some parent =>
      let left := { m with topology := cleared.1, peers := m.peers.erase parent }
      ⟨left, some parent, [.parentDisconnected parent reason, left.topologyChanged]⟩

def acceptChild (m : MeshManager) (node : NodeId) (level : HierarchyLevel) :
    Outcome (Except BleError Unit) :=
  let added := m.topology.addChild node
  if !added.2 then
    ⟨{ m with topology := added.1 }, .error (BleError.connectionFailed "Cannot accept child"), []⟩
  else
    let info := { PeerInfo.new node .child level with
      state := .connected
      connectedAt := some m.currentTimeMs
      lastSeenMs := m.currentTimeMs }
    let accepted := { m with topology := added.1, peers := m.peers.insert node info }
    ⟨accepted, .ok (), [.childConnected node level, accepted.topologyChanged]⟩

def removeChild (m : MeshManager) (node : NodeId) (reason : MeshTopology.DisconnectReason) :
    Outcome Bool :=
  let removed := m.topology.removeChild node
  if removed.2 then
    let left := { m with topology := removed.1, peers := m.peers.erase node }
    ⟨left, true, [.childDisconnected node reason, left.topologyChanged]⟩
  else ⟨{ m with topology := removed.1 }, false, []⟩

def startFailover (m : MeshManager) : Outcome (Except BleError Unit) :=
  if m.state ≠ .running then ⟨m, .error (BleError.invalidState "Not running"), []⟩
  else
    let left := m.disconnectParent .linkLoss
    match left.answer with
    | none => ⟨left.manager, .ok (), left.events⟩
    | some oldParent =>
        ⟨{ left.manager with state := .failover }, .ok (),
          left.events ++ [.parentFailoverStarted oldParent]⟩

/-- The old parent is taken to be the first candidate, or node zero. -/
def completeFailover (m : MeshManager) (newParent : Option (NodeId × HierarchyLevel × Int8)) :
    Outcome (Except BleError Unit) :=
  let oldParent := (m.candidates.head?.map ParentCandidate.nodeId).getD 0
  match newParent with
  | some (node, level, rssi) =>
      let connected := m.connectParent node level rssi
      match connected.answer with
      | .error e => ⟨connected.manager, .error e, connected.events⟩
      | .ok () =>
          ⟨{ connected.manager with state := .running }, .ok (),
            connected.events ++ [.parentFailoverCompleted oldParent (some node)]⟩
  | none =>
      ⟨{ m with state := .running }, .ok (), [.parentFailoverCompleted oldParent none]⟩

def updateRssi (m : MeshManager) (node : NodeId) (rssi : Int8) : Outcome Unit :=
  ⟨{ m with peers := m.peers.modify node fun peer =>
      { peer.updateRssi rssi with lastSeenMs := m.currentTimeMs } },
    (), [.connectionQualityChanged node rssi]⟩

def recordFailure (m : MeshManager) (node : NodeId) : MeshManager :=
  { m with
    peers := m.peers.modify node PeerInfo.recordFailure
    candidates := updateFirst (·.nodeId = node)
      (fun c => { c with
        failureCount := if c.failureCount = 255 then 255 else c.failureCount + 1 }) m.candidates }

/-- Twice the greatest age wraps in 64 bits. -/
def ageCandidates (m : MeshManager) (elapsedMs : UInt64) : MeshManager :=
  let aged := m.candidates.map fun c => { c with ageMs := saturatingAdd c.ageMs elapsedMs }
  { m with candidates := aged.filter fun c => c.ageMs ≤ m.config.maxBeaconAgeMs * 2 }

/-- `rssi_hysteresis as i8` keeps the bits. There is no result where the sum overflows. -/
def shouldSwitchParent (m : MeshManager) : Option (Option ParentCandidate) :=
  match m.topology.parent with
  | none => some none
  | some currentParent =>
      match m.peers[currentParent]?.bind PeerInfo.rssi with
      | none => some none
      | some currentRssi =>
          match m.selectBestParent with
          | none => some none
          | some best =>
              (checkedAdd currentRssi m.config.rssiHysteresis.toInt8).map fun bound =>
                if best.rssi > bound then some best else none

/-! ## Runs -/

inductive Action where
  | start
  | stop
  | setTimeMs (timeMs : UInt64)
  | processBeacon (beacon : PeatBeacon) (rssi : Int8)
  | connectParent (node : NodeId) (level : HierarchyLevel) (rssi : Int8)
  | disconnectParent (reason : MeshTopology.DisconnectReason)
  | acceptChild (node : NodeId) (level : HierarchyLevel)
  | removeChild (node : NodeId) (reason : MeshTopology.DisconnectReason)
  | startFailover
  | completeFailover (newParent : Option (NodeId × HierarchyLevel × Int8))
  | updateRssi (node : NodeId) (rssi : Int8)
  | recordFailure (node : NodeId)
  | ageCandidates (elapsedMs : UInt64)
deriving DecidableEq

/-- What an action leaves, and what it tells. -/
def perform (m : MeshManager) : Action → MeshManager × List TopologyEvent
  | .start => (m.start.manager, m.start.events)
  | .stop => (m.stop.manager, m.stop.events)
  | .setTimeMs timeMs => (m.setTimeMs timeMs, [])
  | .processBeacon beacon rssi => (m.processBeacon beacon rssi, [])
  | .connectParent node level rssi =>
      ((m.connectParent node level rssi).manager, (m.connectParent node level rssi).events)
  | .disconnectParent reason =>
      ((m.disconnectParent reason).manager, (m.disconnectParent reason).events)
  | .acceptChild node level =>
      ((m.acceptChild node level).manager, (m.acceptChild node level).events)
  | .removeChild node reason =>
      ((m.removeChild node reason).manager, (m.removeChild node reason).events)
  | .startFailover => (m.startFailover.manager, m.startFailover.events)
  | .completeFailover newParent =>
      ((m.completeFailover newParent).manager, (m.completeFailover newParent).events)
  | .updateRssi node rssi => ((m.updateRssi node rssi).manager, (m.updateRssi node rssi).events)
  | .recordFailure node => (m.recordFailure node, [])
  | .ageCandidates elapsedMs => (m.ageCandidates elapsedMs, [])

def step (m : MeshManager) (action : Action) : MeshManager := (m.perform action).1

/-! ## What the calls do -/

section Calls

variable (m : MeshManager) (node : NodeId) (level : HierarchyLevel) (rssi : Int8)
  (reason : MeshTopology.DisconnectReason)

/-- The record of a node that is connected now. -/
def connectedInfo (role : PeerRole) (rssi : Option Int8) : PeerInfo :=
  { PeerInfo.new node role level with
    state := .connected
    rssi := rssi
    connectedAt := some m.currentTimeMs
    lastSeenMs := m.currentTimeMs }

theorem connectParent_cases :
    (m.connectParent node level rssi).manager = m ∧
        (m.connectParent node level rssi).events = [] ∧
        (∃ e, (m.connectParent node level rssi).answer = .error e) ∧
        ¬ (m.topology.parent = none ∧ m.topology.canAcceptConnection = true) ∨
      ∃ connected : MeshManager, connected = { m with
          topology := { m.topology with parent := some node }
          peers := m.peers.insert node (m.connectedInfo node level .parent (some rssi)) } ∧
        m.connectParent node level rssi = ⟨connected, .ok (),
          [.parentConnected node level (some rssi), connected.topologyChanged]⟩ ∧
        m.topology.parent = none ∧ m.topology.canAcceptConnection = true := by
  unfold connectParent MeshTopology.hasParent MeshTopology.setParent
  cases hparent : m.topology.parent with
  | some parent => exact Or.inl ⟨rfl, rfl, ⟨_, rfl⟩, fun h => by cases h.1⟩
  | none =>
      cases hroom : m.topology.canAcceptConnection with
      | false => exact Or.inl ⟨rfl, rfl, ⟨_, rfl⟩, fun h => by cases h.2⟩
      | true => exact Or.inr ⟨_, rfl, rfl, rfl, rfl⟩

theorem disconnectParent_none (h : m.topology.parent = none) :
    m.disconnectParent reason = ⟨m, none, []⟩ := by
  have hsame : { m with topology := { m.topology with parent := none } } = m := by rw [← h]
  rw [disconnectParent, MeshTopology.clearParent, h]
  exact congrArg (fun manager => (⟨manager, none, []⟩ : Outcome (Option NodeId))) hsame

theorem disconnectParent_some {parent : NodeId} (h : m.topology.parent = some parent) :
    ∃ left : MeshManager, left = { m with
        topology := { m.topology with parent := none }
        peers := m.peers.erase parent } ∧
      m.disconnectParent reason =
        ⟨left, some parent, [.parentDisconnected parent reason, left.topologyChanged]⟩ := by
  refine ⟨_, rfl, ?_⟩
  rw [disconnectParent, MeshTopology.clearParent, h]

theorem acceptChild_cases :
    (m.acceptChild node level).manager = m ∧ (m.acceptChild node level).events = [] ∧
        ¬ (m.topology.canAcceptChild = true ∧ node ∉ m.topology.children) ∨
      ∃ accepted : MeshManager, accepted = { m with
          topology := { m.topology with children := m.topology.children ++ [node] }
          peers := m.peers.insert node (m.connectedInfo node level .child none) } ∧
        m.acceptChild node level = ⟨accepted, .ok (),
          [.childConnected node level, accepted.topologyChanged]⟩ ∧
        m.topology.canAcceptChild = true ∧ node ∉ m.topology.children := by
  unfold acceptChild
  rcases m.topology.addChild_cases node with ⟨heq, hno⟩ | ⟨heq, hyes⟩
  · rw [heq]
    exact Or.inl ⟨rfl, rfl, hno⟩
  · rw [heq]
    exact Or.inr ⟨_, rfl, rfl, hyes⟩

theorem removeChild_cases :
    m.removeChild node reason = ⟨m, false, []⟩ ∧ node ∉ m.topology.children ∨
      ∃ left : MeshManager, left = { m with
          topology := { m.topology with children := m.topology.children.erase node }
          peers := m.peers.erase node } ∧
        m.removeChild node reason =
          ⟨left, true, [.childDisconnected node reason, left.topologyChanged]⟩ ∧
        node ∈ m.topology.children := by
  unfold removeChild
  rcases m.topology.removeChild_cases node with ⟨heq, hmem⟩ | ⟨heq, hmem⟩
  · rw [heq]
    exact Or.inl ⟨rfl, hmem⟩
  · rw [heq]
    exact Or.inr ⟨_, rfl, rfl, hmem⟩

end Calls

end MeshManager

end PeatBtle
