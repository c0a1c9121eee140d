import Mathlib.Data.List.Perm.Basic
import PeatBtle.Data.LoggedRun
import PeatBtle.Topology.Router

/-!
# Roles in the topology

A node joins as the parent, as a child or as a peer. Each role is checked for room and
for the nodes that have it already, and none of them looks at the other two.
-/

namespace PeatBtle

namespace MeshTopology

def new (myLevel : HierarchyLevel) (maxChildren maxConnections : UInt8) : MeshTopology :=
  ⟨none, [], [], myLevel, maxChildren, maxConnections⟩

def hasParent (t : MeshTopology) : Bool := t.parent.isSome

def connectionCount (t : MeshTopology) : Nat :=
  (if t.parent.isSome then 1 else 0) + t.children.length + t.peers.length

def canAcceptConnection (t : MeshTopology) : Bool := t.connectionCount < t.maxConnections.toNat

def canAcceptChild (t : MeshTopology) : Bool :=
  t.children.length < t.maxChildren.toNat && t.canAcceptConnection

def setParent (t : MeshTopology) (node : NodeId) : MeshTopology × Bool :=
  if t.parent.isSome then (t, false)
  else if !t.canAcceptConnection then (t, false)
  else ({ t with parent := some node }, true)

def clearParent (t : MeshTopology) : MeshTopology × Option NodeId :=
  ({ t with parent := none }, t.parent)

def addChild (t : MeshTopology) (node : NodeId) : MeshTopology × Bool :=
  if !t.canAcceptChild then (t, false)
  else if t.children.contains node then (t, false)
  else ({ t with children := t.children ++ [node] }, true)

def removeChild (t : MeshTopology) (node : NodeId) : MeshTopology × Bool :=
  if t.children.contains node then ({ t with children := t.children.erase node }, true)
  else (t, false)

def addPeer (t : MeshTopology) (node : NodeId) : MeshTopology × Bool :=
  if !t.canAcceptConnection then (t, false)
  else if t.peers.contains node then (t, false)
  else ({ t with peers := t.peers ++ [node] }, true)

def removePeer (t : MeshTopology) (node : NodeId) : MeshTopology × Bool :=
  if t.peers.contains node then ({ t with peers := t.peers.erase node }, true) else (t, false)

inductive Action where
  | setParent (node : NodeId)
  | clearParent
  | addChild (node : NodeId)
  | removeChild (node : NodeId)
  | addPeer (node : NodeId)
  | removePeer (node : NodeId)
deriving DecidableEq

def step (t : MeshTopology) : Action → MeshTopology
  | .setParent node => (t.setParent node).1
  | .clearParent => t.clearParent.1
  | .addChild node => (t.addChild node).1
  | .removeChild node => (t.removeChild node).1
  | .addPeer node => (t.addPeer node).1
  | .removePeer node => (t.removePeer node).1

/-- A node that is taken in has no role yet. -/
def TakesStranger (t : MeshTopology) : Action → Prop
  | .setParent node =>
      t.parent = none ∧ t.canAcceptConnection = true → t.isConnected node = false
  | .addChild node => t.canAcceptChild = true ∧ node ∉ t.children → t.isConnected node = false
  | .addPeer node => t.canAcceptConnection = true ∧ node ∉ t.peers → t.isConnected node = false
  | .clearParent | .removeChild _ | .removePeer _ => True

instance (t : MeshTopology) : (action : Action) → Decidable (t.TakesStranger action)
  | .setParent _ | .addChild _ | .addPeer _ => inferInstanceAs (Decidable (_ → _))
  | .clearParent | .removeChild _ | .removePeer _ => inferInstanceAs (Decidable True)

section Operations

variable {t : MeshTopology} {node : NodeId}

/-- What is left where a node is not taken in, and what is added where it is. -/
theorem setParent_cases (t : MeshTopology) (node : NodeId) :
    t.setParent node = (t, false) ∧ ¬ (t.parent = none ∧ t.canAcceptConnection = true) ∨
      t.setParent node = ({ t with parent := some node }, true) ∧ t.parent = none ∧
        t.canAcceptConnection = true := by
  unfold setParent
  cases hparent : t.parent with
  | some parent => exact Or.inl ⟨rfl, fun h => by cases h.1⟩
  | none =>
      cases hroom : t.canAcceptConnection with
      | false => exact Or.inl ⟨rfl, fun h => by cases h.2⟩
      | true => exact Or.inr ⟨rfl, rfl, rfl⟩

theorem addChild_cases (t : MeshTopology) (node : NodeId) :
    t.addChild node = (t, false) ∧ ¬ (t.canAcceptChild = true ∧ node ∉ t.children) ∨
      t.addChild node = ({ t with children := t.children ++ [node] }, true) ∧
        t.canAcceptChild = true ∧ node ∉ t.children := by
  unfold addChild
  cases hroom : t.canAcceptChild with
  | false => exact Or.inl ⟨rfl, fun h => by cases h.1⟩
  | true =>
      by_cases hold : node ∈ t.children
      · exact Or.inl ⟨by simp [hold], fun h => h.2 hold⟩
      · exact Or.inr ⟨by simp [hold], rfl, hold⟩

theorem addPeer_cases (t : MeshTopology) (node : NodeId) :
    t.addPeer node = (t, false) ∧ ¬ (t.canAcceptConnection = true ∧ node ∉ t.peers) ∨
      t.addPeer node = ({ t with peers := t.peers ++ [node] }, true) ∧
        t.canAcceptConnection = true ∧ node ∉ t.peers := by
  unfold addPeer
  cases hroom : t.canAcceptConnection with
  | false => exact Or.inl ⟨rfl, fun h => by cases h.1⟩
  | true =>
      by_cases hold : node ∈ t.peers
      · exact Or.inl ⟨by simp [hold], fun h => h.2 hold⟩
      · exact Or.inr ⟨by simp [hold], rfl, hold⟩

theorem removeChild_cases (t : MeshTopology) (node : NodeId) :
    t.removeChild node = (t, false) ∧ node ∉ t.children ∨
      t.removeChild node = ({ t with children := t.children.erase node }, true) ∧
        node ∈ t.children := by
  unfold removeChild
  by_cases hold : node ∈ t.children
  · exact Or.inr ⟨by simp [hold], hold⟩
  · exact Or.inl ⟨by simp [hold], hold⟩

theorem removePeer_cases (t : MeshTopology) (node : NodeId) :
    t.removePeer node = (t, false) ∧ node ∉ t.peers ∨
      t.removePeer node = ({ t with peers := t.peers.erase node }, true) ∧ node ∈ t.peers := by
  unfold removePeer
  by_cases hold : node ∈ t.peers
  · exact Or.inr ⟨by simp [hold], hold⟩
  · exact Or.inl ⟨by simp [hold], hold⟩

end Operations

theorem connectionCount_eq (t : MeshTopology) : t.connectionCount = t.allConnected.length := by
  rw [connectionCount, allConnected, List.length_append, List.length_append]
  cases t.parent <;> rfl

/-! ## Steps -/

/-- Nobody is taken in, and somebody may be let go. -/
structure Releases (t u : MeshTopology) : Prop where
  connected : u.allConnected.Sublist t.allConnected
  children : u.children.length ≤ t.children.length

/-- One node is taken in, and there was room for it. -/
structure Takes (t : MeshTopology) (node : NodeId) (u : MeshTopology) : Prop where
  connected : u.allConnected.Perm (node :: t.allConnected)
  room : t.connectionCount < t.maxConnections.toNat
  children : u.children.length ≤ t.children.length ∨ u.children.length ≤ t.maxChildren.toNat

section Steps

variable {t : MeshTopology}

theorem releases_refl (t : MeshTopology) : t.Releases t := ⟨List.Sublist.refl _, Nat.le_refl _⟩

theorem takes_setParent {node : NodeId} (hnone : t.parent = none)
    (hroom : t.canAcceptConnection = true) : t.Takes node { t with parent := some node } := by
  refine ⟨?_, of_decide_eq_true hroom, Or.inl (Nat.le_refl _)⟩
  rw [allConnected, allConnected, hnone]
  exact List.Perm.refl _

theorem takes_addChild {node : NodeId} (hroom : t.canAcceptChild = true) :
    t.Takes node { t with children := t.children ++ [node] } := by
  rw [canAcceptChild, Bool.and_eq_true, decide_eq_true_eq] at hroom
  refine ⟨?_, of_decide_eq_true hroom.2, Or.inr ?_⟩
  · rw [allConnected, allConnected]
    simp only [List.append_assoc, List.singleton_append]
    rw [← List.append_assoc, ← List.append_assoc]
    exact List.perm_middle
  · rw [List.length_append, List.length_singleton]
    exact hroom.1

theorem takes_addPeer {node : NodeId} (hroom : t.canAcceptConnection = true) :
    t.Takes node { t with peers := t.peers ++ [node] } := by
  refine ⟨?_, of_decide_eq_true hroom, Or.inl (Nat.le_refl _)⟩
  rw [allConnected, allConnected, ← List.append_assoc]
  exact List.perm_append_singleton node _

theorem isConnected_eq_false_iff {node : NodeId} :
    t.isConnected node = false ↔ node ∉ t.allConnected := by
  rw [mem_allConnected_iff, Bool.not_eq_true]

/-- Where a node is turned away or taken in, it is a stranger if it had no role before. -/
theorem admission_cases {u : MeshTopology} {node : NodeId} {Admits : Prop}
    (h : u = t ∧ ¬ Admits ∨ t.Takes node u ∧ Admits) :
    t.Releases u ∧ (Admits → t.isConnected node = false) ∨
      ∃ node', t.Takes node' u ∧
        ((Admits → t.isConnected node = false) ↔ node' ∉ t.allConnected) := by
  rcases h with ⟨rfl, hno⟩ | ⟨htakes, hyes⟩
  · exact Or.inl ⟨releases_refl u, fun habsurd => absurd habsurd hno⟩
  · exact Or.inr ⟨node, htakes, (forall_prop_of_true hyes).trans isConnected_eq_false_iff⟩

/-- A step lets nodes go or takes one in, and takes it in whatever other role it has. -/
theorem step_cases (t : MeshTopology) (action : Action) :
    t.Releases (t.step action) ∧ t.TakesStranger action ∨
      ∃ node, t.Takes node (t.step action) ∧
        (t.TakesStranger action ↔ node ∉ t.allConnected) := by
  cases action with
  | setParent node =>
      refine admission_cases ?_
      unfold step
      rcases setParent_cases t node with ⟨heq, hno⟩ | ⟨heq, hyes⟩
      · exact Or.inl ⟨congrArg Prod.fst heq, hno⟩
      · simp only [heq]
        exact Or.inr ⟨takes_setParent hyes.1 hyes.2, hyes⟩
  | addChild node =>
      refine admission_cases ?_
      unfold step
      rcases addChild_cases t node with ⟨heq, hno⟩ | ⟨heq, hyes⟩
      · exact Or.inl ⟨congrArg Prod.fst heq, hno⟩
      · simp only [heq]
        exact Or.inr ⟨takes_addChild hyes.1, hyes⟩
  | addPeer node =>
      refine admission_cases ?_
      unfold step
      rcases addPeer_cases t node with ⟨heq, hno⟩ | ⟨heq, hyes⟩
      · exact Or.inl ⟨congrArg Prod.fst heq, hno⟩
      · simp only [heq]
        exact Or.inr ⟨takes_addPeer hyes.1, hyes⟩
  | clearParent =>
      refine Or.inl ⟨⟨?_, Nat.le_refl _⟩, trivial⟩
      exact List.Sublist.append_right (List.Sublist.append_right (List.nil_sublist _) _) _
  | removeChild node =>
      refine Or.inl ⟨?_, trivial⟩
      unfold step
      rcases removeChild_cases t node with ⟨heq, -⟩ | ⟨heq, -⟩
      · simp only [heq]
        exact releases_refl t
      · simp only [heq]
        have hsub : (t.children.erase node).Sublist t.children := List.erase_sublist
        exact ⟨List.Sublist.append_right (List.Sublist.append_left hsub _) _, hsub.length_le⟩
  | removePeer node =>
      refine Or.inl ⟨?_, trivial⟩
      unfold step
      rcases removePeer_cases t node with ⟨heq, -⟩ | ⟨heq, -⟩
      · simp only [heq]
        exact releases_refl t
      · simp only [heq]
        exact ⟨List.Sublist.append_left List.erase_sublist _, Nat.le_refl _⟩

theorem limits_step (t : MeshTopology) (action : Action) :
    (t.step action).maxConnections = t.maxConnections ∧
      (t.step action).maxChildren = t.maxChildren := by
  cases action with
  | setParent node => rcases setParent_cases t node with ⟨heq, -⟩ | ⟨heq, -⟩ <;> simp [step, heq]
  | addChild node => rcases addChild_cases t node with ⟨heq, -⟩ | ⟨heq, -⟩ <;> simp [step, heq]
  | addPeer node => rcases addPeer_cases t node with ⟨heq, -⟩ | ⟨heq, -⟩ <;> simp [step, heq]
  | clearParent => exact ⟨rfl, rfl⟩
  | removeChild node =>
      rcases removeChild_cases t node with ⟨heq, -⟩ | ⟨heq, -⟩ <;> simp [step, heq]
  | removePeer node =>
      rcases removePeer_cases t node with ⟨heq, -⟩ | ⟨heq, -⟩ <;> simp [step, heq]

end Steps

/-! ## Room, and one role for each node -/

/-- There are no more connections, and no more children, than there may be. -/
structure Bounded (t : MeshTopology) : Prop where
  connections : t.connectionCount ≤ t.maxConnections.toNat
  children : t.children.length ≤ t.maxChildren.toNat

theorem bounded_step {t : MeshTopology} (h : t.Bounded) (action : Action) :
    (t.step action).Bounded := by
  have hconnections := h.connections
  have hchildren := h.children
  obtain ⟨hmax, hmaxChildren⟩ := limits_step t action
  rcases step_cases t action with ⟨hreleases, -⟩ | ⟨node, htakes, -⟩
  · have hlength := hreleases.connected.length_le
    have hfewer := hreleases.children
    constructor
    · rw [connectionCount_eq, hmax]
      rw [connectionCount_eq] at hconnections
      omega
    · rw [hmaxChildren]
      omega
  · have hlength := htakes.connected.length_eq
    have hroom := htakes.room
    rw [List.length_cons] at hlength
    constructor
    · rw [connectionCount_eq, hmax]
      rw [connectionCount_eq] at hroom
      omega
    · have hfewer := htakes.children
      rw [hmaxChildren]
      omega

/-- A node that is taken in a second time is there twice. -/
theorem nodup_step_iff {t : MeshTopology} (h : t.allConnected.Nodup) (action : Action) :
    (t.step action).allConnected.Nodup ↔ t.TakesStranger action := by
  rcases step_cases t action with ⟨hreleases, hstranger⟩ | ⟨node, htakes, hiff⟩
  · exact iff_of_true (h.sublist hreleases.connected) hstranger
  · rw [htakes.connected.nodup_iff, List.nodup_cons, and_iff_left h, hiff]

section Runs

variable (myLevel : HierarchyLevel) (maxChildren maxConnections : UInt8) (actions : List Action)

theorem bounded_run :
    (LoggedRun.run step (new myLevel maxChildren maxConnections) actions).Bounded := by
  have hstart : (new myLevel maxChildren maxConnections).Bounded := ⟨Nat.zero_le _, Nat.zero_le _⟩
  exact LoggedRun.run_keeps hstart fun _ action _ hbounded => bounded_step hbounded action

theorem nodup_run_iff :
    (∀ front, front <+: actions →
      (LoggedRun.run step (new myLevel maxChildren maxConnections) front).allConnected.Nodup) ↔
    LoggedRun.Along step TakesStranger (new myLevel maxChildren maxConnections) actions :=
  @LoggedRun.forall_prefix_iff_along_of_step _ _ step (fun t => t.allConnected.Nodup) TakesStranger
    (new myLevel maxChildren maxConnections) actions List.nodup_nil
    fun _ action h => nodup_step_iff h action

end Runs

end MeshTopology

end PeatBtle
