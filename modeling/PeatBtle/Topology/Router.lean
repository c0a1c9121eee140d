import PeatBtle.Basic

/-!
# Routing by the local view

A node knows its parent, its children and its peers, and chooses the next hops
of a message from them. A received message is routed much like a new one, except
that two of the four directions leave out the node it came from.
-/

namespace PeatBtle

inductive PeerRole where
  | parent
  | child
  | peer
deriving DecidableEq

structure MeshTopology where
  parent : Option NodeId
  children : List NodeId
  peers : List NodeId
  myLevel : HierarchyLevel
  maxChildren : UInt8
  maxConnections : UInt8
deriving DecidableEq

namespace MeshTopology

def allConnected (t : MeshTopology) : List NodeId := t.parent.toList ++ t.children ++ t.peers

def isConnected (t : MeshTopology) (node : NodeId) : Bool :=
  t.parent == some node || t.children.contains node || t.peers.contains node

def getRole (t : MeshTopology) (node : NodeId) : Option PeerRole :=
  if t.parent == some node then some .parent
  else if t.children.contains node then some .child
  else if t.peers.contains node then some .peer
  else none

variable {t : MeshTopology} {node : NodeId}

@[simp] theorem isConnected_iff :
    t.isConnected node = true ↔ t.parent = some node ∨ node ∈ t.children ∨ node ∈ t.peers := by
  simp [isConnected, or_assoc]

theorem mem_allConnected_iff : node ∈ t.allConnected ↔ t.isConnected node = true := by
  rw [isConnected_iff, allConnected, List.mem_append, List.mem_append, Option.mem_toList, or_assoc]

end MeshTopology

inductive RouteDirection where
  | upward
  | downward
  | broadcast
  | targeted (target : NodeId)
deriving DecidableEq

inductive RouteFailure where
  | noParent
  | noChildren
  | targetNotFound
  | noPeers
  | ttlExpired
  | messageTooLarge
deriving DecidableEq

structure RouteDecision where
  nextHops : List NodeId
  localCopy : Bool
  routed : Bool
  failureReason : Option RouteFailure
deriving DecidableEq

namespace RouteDecision

def success (nextHops : List NodeId) (localCopy : Bool) : RouteDecision :=
  ⟨nextHops, localCopy, true, none⟩

def failed (reason : RouteFailure) : RouteDecision := ⟨[], false, false, some reason⟩

def localOnly : RouteDecision := ⟨[], true, true, none⟩

end RouteDecision

structure MeshRouter where
  nodeId : NodeId
  myLevel : HierarchyLevel
deriving DecidableEq

namespace MeshRouter

open RouteDecision

def routeUpward (topology : MeshTopology) : RouteDecision :=
  match topology.parent with
  | some parent => success [parent] true
  | none => failed .noParent

def routeDownward (topology : MeshTopology) : RouteDecision :=
  if topology.children.isEmpty then failed .noChildren else success topology.children true

def routeBroadcast (topology : MeshTopology) : RouteDecision :=
  if topology.allConnected.isEmpty then failed .noPeers else success topology.allConnected true

def routeTargeted (target : NodeId) (topology : MeshTopology) : RouteDecision :=
  if topology.isConnected target then success [target] false
  else
    match topology.parent with
    | some parent => success [parent] false
    | none =>
        if topology.children.isEmpty then failed .targetNotFound
        else success topology.children false

def route (direction : RouteDirection) (topology : MeshTopology) : RouteDecision :=
  match direction with
  | .upward => routeUpward topology
  | .downward => routeDownward topology
  | .broadcast => routeBroadcast topology
  | .targeted target => routeTargeted target topology

def handleReceived (router : MeshRouter) (source : NodeId) (destination : Option NodeId)
    (direction : RouteDirection) (topology : MeshTopology) : RouteDecision :=
  if destination = some router.nodeId then localOnly
  else
    let _sourceRole := topology.getRole source
    match direction with
    | .upward => routeUpward topology
    | .downward =>
        let children := topology.children.filter fun c => c != source
        if children.isEmpty then localOnly else success children true
    | .broadcast => success (topology.allConnected.filter fun n => n != source) true
    | .targeted target =>
        if target = router.nodeId then localOnly else routeTargeted target topology

variable {router : MeshRouter} {source target : NodeId} {destination : Option NodeId}
  {direction : RouteDirection} {topology : MeshTopology}

theorem nextHops_routeUpward : (routeUpward topology).nextHops = topology.parent.toList := by
  unfold routeUpward
  split <;> simp [success, failed, *]

theorem nextHops_routeBroadcast : (routeBroadcast topology).nextHops = topology.allConnected := by
  unfold routeBroadcast
  split
  · exact (List.isEmpty_iff.mp ‹_›).symm
  · rfl

/-- A target in sight is the only hop; else the parent is, and only a root turns to its children. -/
theorem nextHops_routeTargeted :
    (routeTargeted target topology).nextHops =
      if topology.isConnected target then [target]
      else topology.parent.elim topology.children fun parent => [parent] := by
  unfold routeTargeted
  split
  · rfl
  · cases topology.parent with
    | some parent => rfl
    | none =>
        dsimp only
        split
        · exact (List.isEmpty_iff.mp ‹_›).symm
        · rfl

theorem nextHops_handleReceived_self (h : destination = some router.nodeId) :
    (router.handleReceived source destination direction topology).nextHops = [] := by
  rw [handleReceived.eq_def, if_pos h]
  rfl

theorem nextHops_handleReceived_downward (h : destination ≠ some router.nodeId) :
    (router.handleReceived source destination .downward topology).nextHops =
      topology.children.filter fun c => c != source := by
  rw [handleReceived, if_neg h]
  dsimp only
  split
  · exact (List.isEmpty_iff.mp ‹_›).symm
  · rfl

theorem nextHops_handleReceived_broadcast (h : destination ≠ some router.nodeId) :
    (router.handleReceived source destination .broadcast topology).nextHops =
      topology.allConnected.filter fun n => n != source := by
  rw [handleReceived, if_neg h]
  rfl

theorem nextHops_handleReceived_targeted (h : destination ≠ some router.nodeId) :
    (router.handleReceived source destination (.targeted target) topology).nextHops =
      if target = router.nodeId then [] else (routeTargeted target topology).nextHops := by
  rw [handleReceived, if_neg h]
  split <;> rfl

/-! ## Back to the source -/

/-- When a received message is not handed back to the node it came from. -/
def SparesSource (router : MeshRouter) (source : NodeId) (destination : Option NodeId)
    (direction : RouteDirection) (topology : MeshTopology) : Prop :=
  destination = some router.nodeId ∨
    match direction with
    | .upward => topology.parent ≠ some source
    | .downward => True
    | .broadcast => True
    | .targeted target =>
        target = router.nodeId ∨
          if topology.isConnected target then source ≠ target
          else topology.parent ≠ some source ∧ (topology.parent = none → source ∉ topology.children)

theorem source_not_mem_routeTargeted_iff :
    source ∉ (routeTargeted target topology).nextHops ↔
      if topology.isConnected target then source ≠ target
      else topology.parent ≠ some source ∧
        (topology.parent = none → source ∉ topology.children) := by
  rw [nextHops_routeTargeted]
  split
  · rw [List.mem_singleton]
  · cases topology.parent with
    | some parent => simp [eq_comm]
    | none => simp

theorem source_not_mem_iff :
    source ∉ (router.handleReceived source destination direction topology).nextHops ↔
      router.SparesSource source destination direction topology := by
  by_cases hself : destination = some router.nodeId
  · rw [nextHops_handleReceived_self hself]
    exact iff_of_true List.not_mem_nil (Or.inl hself)
  · unfold SparesSource
    rw [or_iff_right hself]
    cases direction with
    | upward =>
        rw [handleReceived, if_neg hself]
        dsimp only
        rw [nextHops_routeUpward, Option.mem_toList]
    | downward =>
        rw [nextHops_handleReceived_downward hself]
        exact iff_of_true (by simp) trivial
    | broadcast =>
        rw [nextHops_handleReceived_broadcast hself]
        exact iff_of_true (by simp) trivial
    | targeted target =>
        rw [nextHops_handleReceived_targeted hself]
        by_cases hus : target = router.nodeId
        · rw [if_pos hus]
          exact iff_of_true List.not_mem_nil (Or.inl hus)
        · rw [if_neg hus, source_not_mem_routeTargeted_iff]
          exact (or_iff_right hus).symm

end MeshRouter

end PeatBtle
