import PeatBtle.Peer

/-!
# Peer manager

The table of known peers, the map from platform identifiers to nodes and the
time of the last sync with each node.
-/

namespace PeatBtle

open Wire MapMerge

structure PeerManagerConfig where
  peerTimeoutMs : UInt64
  cleanupIntervalMs : UInt64
  meshId : String
  maxPeers : Nat
  rssiDegradedThreshold : Int8
  lostTimeoutMs : UInt64
deriving DecidableEq

namespace PeerManagerConfig

def withMeshId (meshId : String) : PeerManagerConfig where
  peerTimeoutMs := 45000
  cleanupIntervalMs := 10000
  meshId := meshId
  maxPeers := 8
  rssiDegradedThreshold := -80
  lostTimeoutMs := 30000

/-- Devices that announce no mesh match any. -/
def matchesMesh (c : PeerManagerConfig) (deviceMeshId : Option String) : Bool :=
  deviceMeshId.elim true fun id => id == c.meshId

end PeerManagerConfig

/-! ## Device names -/

def hexValue (c : Char) : Option Nat :=
  if '0' ≤ c ∧ c ≤ '9' then some (c.toNat - '0'.toNat)
  else if 'A' ≤ c ∧ c ≤ 'F' then some (c.toNat - 'A'.toNat + 10)
  else if 'a' ≤ c ∧ c ≤ 'f' then some (c.toNat - 'a'.toNat + 10)
  else none

/-- `u32::from_str_radix(_, 16)`: a leading plus sign is allowed. -/
def parseHex (chars : List Char) : Option UInt32 :=
  let digits := if chars.head? = some '+' then chars.tail else chars
  if digits.isEmpty then none
  else do
    let value ← digits.foldlM (fun acc c => (hexValue c).map fun d => acc * 16 + d) 0
    if value < 2 ^ 32 then some (UInt32.ofNat value) else none

/-- The eight bytes behind the last hyphen. -/
def parseNodeIdFromName (name : Option String) : Option NodeId := do
  let chars := (← name).toList
  if '-' ∈ chars then
    let hexPart := (chars.reverse.takeWhile (· ≠ '-')).reverse
    if (utf8 (String.ofList hexPart)).length ≠ 8 then none else parseHex hexPart
  else none

/-! ## The manager -/

structure PeerManager where
  config : PeerManagerConfig
  nodeId : NodeId
  peers : Map NodeId PeatPeer
  identifierMap : Map String NodeId
  syncHistory : Map NodeId UInt64
deriving DecidableEq

namespace PeerManager

def new (nodeId : NodeId) (config : PeerManagerConfig) : PeerManager := ⟨config, nodeId, ∅, ∅, ∅⟩

def getNodeId (m : PeerManager) (identifier : String) : Option NodeId := m.identifierMap[identifier]?

def getPeers (m : PeerManager) : List PeatPeer := m.peers.toList.map Prod.snd

def connectedCount (m : PeerManager) : Nat := (m.getPeers.filter PeatPeer.isConnected).length

/-- Whether a node can be tracked: it is already, or there is room for it. -/
def hasRoomFor (m : PeerManager) (peers : Map NodeId PeatPeer) (nodeId : NodeId) : Bool :=
  !(decide (peers.size ≥ m.config.maxPeers) && !peers.contains nodeId)

/-- An identifier that moves to another node drops the old node even when the new one is then
refused for lack of room. -/
def onDiscovered (m : PeerManager) (identifier : String) (name : Option String) (rssi : Int8)
    (meshId : Option String) (nowMs : UInt64) : PeerManager × Option (NodeId × Bool) :=
  if m.config.matchesMesh meshId then
    match parseNodeIdFromName name with
    | none => (m, none)
    | some nodeId =>
        if nodeId = m.nodeId then (m, none)
        else
          let peers := m.identifierMap[identifier]?.elim m.peers fun existing =>
            if existing ≠ nodeId then m.peers.erase existing else m.peers
          if m.hasRoomFor peers nodeId then
            let updated := peers.alter nodeId fun old =>
              let peer := old.getD (PeatPeer.new nodeId identifier meshId name rssi)
              some (({ peer with rssi := rssi, name := name.or peer.name }).touch nowMs)
            ({ m with peers := updated, identifierMap := m.identifierMap.insert identifier nodeId },
              some (nodeId, !peers.contains nodeId))
          else ({ m with peers := peers }, none)
  else (m, none)

def onConnected (m : PeerManager) (identifier : String) (nowMs : UInt64) :
    PeerManager × Option NodeId :=
  match m.getNodeId identifier with
  | none => (m, none)
  | some nodeId =>
      ({ m with peers := m.peers.modify nodeId fun p => ({ p with isConnected := true }).touch nowMs },
        some nodeId)

def disconnect (m : PeerManager) (nodeId : NodeId) : PeerManager :=
  { m with peers := m.peers.modify nodeId fun p => { p with isConnected := false } }

def onDisconnected (m : PeerManager) (identifier : String) : PeerManager × Option NodeId :=
  match m.getNodeId identifier with
  | none => (m, none)
  | some nodeId => (m.disconnect nodeId, some nodeId)

/-- Whether the node was known. -/
def onDisconnectedByNodeId (m : PeerManager) (nodeId : NodeId) : PeerManager × Bool :=
  (m.disconnect nodeId, m.peers.contains nodeId)

/-- Whether the peer is new. A peer that comes back under another identifier gives up the old
one. -/
def onIncomingConnection (m : PeerManager) (identifier : String) (nodeId : NodeId)
    (nowMs : UInt64) : PeerManager × Bool :=
  if nodeId = m.nodeId then (m, false)
  else if m.hasRoomFor m.peers nodeId then
    let peer := m.peers[nodeId]?.getD
      (PeatPeer.new nodeId identifier (some m.config.meshId) none (-70))
    let connected := ({ peer with isConnected := true }).touch nowMs
    let freed := if connected.identifier ≠ identifier then m.identifierMap.erase connected.identifier
      else m.identifierMap
    ({ m with
        peers := m.peers.insert nodeId { connected with identifier := identifier }
        identifierMap := freed.insert identifier nodeId }, !m.peers.contains nodeId)
  else (m, false)

def recordSync (m : PeerManager) (nodeId : NodeId) (nowMs : UInt64) : PeerManager :=
  { m with syncHistory := m.syncHistory.insert nodeId nowMs }

def registerIdentifier (m : PeerManager) (identifier : String) (nodeId : NodeId) : PeerManager :=
  { m with identifierMap := m.identifierMap.insert identifier nodeId }

def removePeer (m : PeerManager) (peer : PeatPeer) (nodeId : NodeId) : PeerManager :=
  { m with
    peers := m.peers.erase nodeId
    identifierMap := m.identifierMap.erase peer.identifier
    syncHistory := m.syncHistory.erase nodeId }

/-- The manager after the sweep and the removed nodes. -/
def cleanupStale (m : PeerManager) (nowMs : UInt64) : PeerManager × List NodeId :=
  let stale := m.peers.toList.filter fun entry => entry.2.isStale nowMs m.config.peerTimeoutMs
  (stale.foldl (fun acc entry => acc.removePeer entry.2 entry.1) m, stale.map Prod.fst)

/-! ## What the sweep takes -/

section Sweep

variable (m : PeerManager) (entries : List (NodeId × PeatPeer))

theorem foldl_removePeer_peers (node : NodeId) :
    (entries.foldl (fun acc entry => acc.removePeer entry.2 entry.1) m).peers[node]? =
      if node ∈ entries.map Prod.fst then none else m.peers[node]? := by
  induction entries generalizing m with
  | nil => simp
  | cons entry entries ih =>
      rw [List.foldl_cons, ih, removePeer]
      dsimp only
      rw [getElem?_erase_eq]
      by_cases hnode : entry.1 = node
      · simp [hnode]
      · rw [if_neg hnode]
        exact if_congr (by simp [Ne.symm hnode]) rfl rfl

theorem foldl_removePeer_identifierMap (identifier : String) :
    (entries.foldl (fun acc entry => acc.removePeer entry.2 entry.1) m).identifierMap[identifier]? =
      if identifier ∈ entries.map fun entry => entry.2.identifier then none
      else m.identifierMap[identifier]? := by
  induction entries generalizing m with
  | nil => simp
  | cons entry entries ih =>
      rw [List.foldl_cons, ih, removePeer]
      dsimp only
      rw [getElem?_erase_eq]
      by_cases hidentifier : entry.2.identifier = identifier
      · simp [hidentifier]
      · rw [if_neg hidentifier]
        exact if_congr (by simp [Ne.symm hidentifier]) rfl rfl

/-- The sweep only takes peers, it changes neither the manager's own data nor adds any. -/
theorem foldl_removePeer_frame :
    let after := entries.foldl (fun acc entry => acc.removePeer entry.2 entry.1) m
    after.config = m.config ∧ after.nodeId = m.nodeId ∧ after.peers.size ≤ m.peers.size := by
  induction entries generalizing m with
  | nil => exact ⟨rfl, rfl, Nat.le_refl _⟩
  | cons entry entries ih =>
      obtain ⟨hconfig, hnode, hsize⟩ := ih (m.removePeer entry.2 entry.1)
      exact ⟨hconfig, hnode, Nat.le_trans hsize Std.ExtTreeMap.size_erase_le⟩

variable (nowMs : UInt64)

def staleEntries : List (NodeId × PeatPeer) :=
  m.peers.toList.filter fun entry => entry.2.isStale nowMs m.config.peerTimeoutMs

theorem mem_staleEntries {node : NodeId} {peer : PeatPeer} :
    (node, peer) ∈ m.staleEntries nowMs ↔
      m.peers[node]? = some peer ∧ peer.isStale nowMs m.config.peerTimeoutMs = true := by
  rw [staleEntries, List.mem_filter, Std.ExtTreeMap.mem_toList_iff_getElem?_eq_some]

/-- Whether the sweep takes the node. -/
def isStale (node : NodeId) : Bool :=
  m.peers[node]?.any fun peer => peer.isStale nowMs m.config.peerTimeoutMs

theorem mem_cleanupStale {node : NodeId} :
    node ∈ (m.cleanupStale nowMs).2 ↔ m.isStale nowMs node = true := by
  change node ∈ (m.staleEntries nowMs).map Prod.fst ↔ _
  rw [List.mem_map, isStale, Option.any_eq_true]
  constructor
  · rintro ⟨⟨node', peer⟩, hentry, rfl⟩
    exact ⟨peer, (m.mem_staleEntries nowMs).mp hentry⟩
  · rintro ⟨peer, hpeer⟩
    exact ⟨(node, peer), (m.mem_staleEntries nowMs).mpr hpeer, rfl⟩

theorem cleanupStale_peers (node : NodeId) :
    (m.cleanupStale nowMs).1.peers[node]? =
      if m.isStale nowMs node then none else m.peers[node]? := by
  change ((m.staleEntries nowMs).foldl _ m).peers[node]? = _
  rw [foldl_removePeer_peers]
  exact if_congr (m.mem_cleanupStale nowMs) rfl rfl

end Sweep

end PeerManager

end PeatBtle
