import PeatBtle.Data.RankedLinks
import PeatBtle.Topology.Forwarding
import PeatBtle.Topology.Records

/-!
# Forming a hierarchy

Managers hear each other's beacons, and each takes its parent from its own candidates. Both
ends of a link are told when it is made and when it is lost, and a child that is refused lets
its parent go again. A candidate has a higher level than the node that keeps it, and that is
all that keeps the links free of cycles: `connect_parent` and `accept_child` do not look.
-/

namespace PeatBtle

open LoggedRun

theorem MeshTopology.without_links {t : MeshTopology} (h : t.allConnected = []) :
    { t with parent := none, children := [], peers := [] } = t := by
  rw [allConnected, List.append_eq_nil_iff, List.append_eq_nil_iff,
    Option.toList_eq_nil_iff] at h
  obtain ⟨⟨hparent, hchildren⟩, hpeers⟩ := h
  cases t
  cases hparent
  cases hchildren
  cases hpeers
  rfl

namespace MeshManager

/-! ## One manager -/

/-- With the first parent, or with the one that completes a failover. -/
def connectTo (m : MeshManager) (failover : Bool) (c : ParentCandidate) :
    Outcome (Except BleError Unit) :=
  if failover then m.completeFailover (some (c.nodeId, c.level, c.rssi))
  else m.connectParent c.nodeId c.level c.rssi

/-- The link to the parent is lost, and another parent may be looked for. -/
def letParentGo (m : MeshManager) (failover : Bool) (reason : MeshTopology.DisconnectReason) :
    MeshManager :=
  if failover then m.startFailover.manager else (m.disconnectParent reason).manager

/-- The level and the nodes that may become the parent. -/
structure SameOutlook (m next : MeshManager) : Prop where
  level : next.myLevel = m.myLevel
  candidates : ∀ c ∈ next.candidates, ∃ old ∈ m.candidates, old.nodeId = c.nodeId

namespace SameOutlook

variable {m next last : MeshManager}

theorem refl (m : MeshManager) : m.SameOutlook m := ⟨rfl, fun c hc => ⟨c, hc, rfl⟩⟩

theorem trans (h : m.SameOutlook next) (hlast : next.SameOutlook last) : m.SameOutlook last where
  level := hlast.level.trans h.level
  candidates := by
    intro c hc
    obtain ⟨mid, hmid, hsame⟩ := hlast.candidates c hc
    obtain ⟨old, hold, hids⟩ := h.candidates mid hmid
    exact ⟨old, hold, hids.trans hsame⟩

theorem of_eq (hlevel : next.myLevel = m.myLevel) (hcandidates : next.candidates = m.candidates) :
    m.SameOutlook next := by
  refine ⟨hlevel, fun c hc => ⟨c, ?_, rfl⟩⟩
  rw [← hcandidates]
  exact hc

end SameOutlook

variable {m : MeshManager}

/-- The parent is let go, if there is one. -/
theorem disconnectParent_spec (m : MeshManager) (reason : MeshTopology.DisconnectReason) :
    (m.disconnectParent reason).manager.topology = { m.topology with parent := none } ∧
      m.SameOutlook (m.disconnectParent reason).manager := by
  cases hparent : m.topology.parent with
  | none =>
      rw [m.disconnectParent_none reason hparent, ← hparent]
      exact ⟨rfl, .refl m⟩
  | some parent =>
      obtain ⟨left, rfl, hcall⟩ := m.disconnectParent_some reason hparent
      rw [hcall]
      exact ⟨rfl, .of_eq rfl rfl⟩

/-- The first parent is connected, or nothing is changed. -/
theorem connectTo_cases (m : MeshManager) (failover : Bool) (c : ParentCandidate) :
    (∃ e, (m.connectTo failover c).answer = .error e) ∧ (m.connectTo failover c).manager = m ∨
      (m.connectTo failover c).answer = .ok () ∧ m.topology.parent = none ∧
        (m.connectTo failover c).manager.topology =
          { m.topology with parent := some c.nodeId } ∧
        m.SameOutlook (m.connectTo failover c).manager := by
  have hdirect := m.connectParent_cases c.nodeId c.level c.rssi
  cases failover with
  | false =>
      unfold connectTo
      rw [if_neg Bool.false_ne_true]
      rcases hdirect with ⟨hsame, -, herror, -⟩ | ⟨connected, rfl, hcall, hnone, -⟩
      · exact Or.inl ⟨herror, hsame⟩
      · rw [hcall]
        exact Or.inr ⟨rfl, hnone, rfl, .of_eq rfl rfl⟩
  | true =>
      unfold connectTo completeFailover
      rcases hdirect with ⟨hsame, -, ⟨e, he⟩, -⟩ | ⟨connected, rfl, hcall, hnone, -⟩
      · simp only [he, if_true]
        exact Or.inl ⟨⟨e, rfl⟩, hsame⟩
      · simp only [hcall, if_true]
        exact Or.inr ⟨trivial, hnone, trivial, .of_eq rfl rfl⟩

/-- A failover that starts lets go of the parent, and no other one is there yet. -/
theorem letParentGo_spec (failover : Bool) (reason : MeshTopology.DisconnectReason)
    (hrunning : failover = true → m.state = .running) :
    (m.letParentGo failover reason).topology = { m.topology with parent := none } ∧
      m.SameOutlook (m.letParentGo failover reason) := by
  cases failover with
  | false => exact m.disconnectParent_spec reason
  | true =>
      obtain ⟨htopology, hlook⟩ := m.disconnectParent_spec .linkLoss
      have hstate := hrunning rfl
      unfold letParentGo startFailover
      rw [if_pos rfl, if_neg (not_not.mpr hstate)]
      dsimp only
      split
      · exact ⟨htopology, hlook⟩
      · exact ⟨htopology, hlook.trans (.of_eq rfl rfl)⟩

theorem exists_of_mem_updateFirst {α : Type} {test : α → Bool} {f : α → α} {l : List α} {x : α}
    (hx : x ∈ updateFirst test f l) : ∃ old ∈ l, x = old ∨ x = f old := by
  induction l with
  | nil => cases hx
  | cons y ys ih =>
      rw [updateFirst] at hx
      split at hx
      · rcases List.mem_cons.mp hx with rfl | htail
        · exact ⟨y, List.mem_cons_self, Or.inr rfl⟩
        · exact ⟨x, List.mem_cons_of_mem _ htail, Or.inl rfl⟩
      · rcases List.mem_cons.mp hx with rfl | htail
        · exact ⟨x, List.mem_cons_self, Or.inl rfl⟩
        · obtain ⟨old, hold, hcase⟩ := ih htail
          exact ⟨old, List.mem_cons_of_mem _ hold, hcase⟩

/-- A beacon of a higher level makes its node a candidate, and nothing else does. -/
theorem candidates_processBeacon {beacon : PeatBeacon} {rssi : Int8} {c : ParentCandidate}
    (hc : c ∈ (m.processBeacon beacon rssi).candidates) :
    (∃ old ∈ m.candidates, old.nodeId = c.nodeId) ∨
      c.nodeId = beacon.nodeId ∧ m.myLevel.toU8 < beacon.hierarchyLevel.toU8 := by
  unfold processBeacon at hc
  by_cases hhigher : beacon.hierarchyLevel.toU8 > m.myLevel.toU8
  · rw [if_pos hhigher] at hc
    dsimp only at hc
    split at hc
    · obtain ⟨old, hold, rfl | rfl⟩ := exists_of_mem_updateFirst hc
      · exact Or.inl ⟨c, hold, rfl⟩
      · exact Or.inl ⟨old, hold, rfl⟩
    · rcases List.mem_append.mp hc with hold | hnew
      · exact Or.inl ⟨c, hold, rfl⟩
      · rw [List.mem_singleton.mp hnew]
        exact Or.inr ⟨rfl, hhigher⟩
  · rw [if_neg hhigher] at hc
    exact Or.inl ⟨c, hc, rfl⟩

/-- What a node does alone, beside hearing a beacon. -/
theorem sameOutlook_step {action : Action} (hquiet : action.leavesNeighbours = true)
    (hno : ∀ beacon rssi, action ≠ .processBeacon beacon rssi) :
    m.SameOutlook (m.step action) := by
  cases action with
  | start =>
      show m.SameOutlook m.start.manager
      unfold start
      split <;> exact .of_eq rfl rfl
  | processBeacon beacon rssi => exact absurd rfl (hno beacon rssi)
  | completeFailover newParent =>
      cases newParent with
      | none => exact .of_eq rfl rfl
      | some newParent => cases hquiet
  | recordFailure node =>
      refine ⟨rfl, fun c hc => ?_⟩
      obtain ⟨old, hold, rfl | rfl⟩ := exists_of_mem_updateFirst hc
      · exact ⟨c, hold, rfl⟩
      · exact ⟨old, hold, rfl⟩
  | ageCandidates elapsedMs =>
      refine ⟨rfl, fun c hc => ?_⟩
      obtain ⟨old, hold, rfl⟩ := List.mem_map.mp (List.mem_filter.mp hc).1
      exact ⟨old, hold, rfl⟩
  | setTimeMs timeMs => exact .of_eq rfl rfl
  | updateRssi node rssi => exact .of_eq rfl rfl
  | stop => cases hquiet
  | connectParent node level rssi => cases hquiet
  | disconnectParent reason => cases hquiet
  | acceptChild node level => cases hquiet
  | removeChild node reason => cases hquiet
  | startFailover => cases hquiet

/-- A child is taken in, or the call fails and changes nothing. -/
theorem acceptChild_spec (m : MeshManager) (node : NodeId) (level : HierarchyLevel) :
    (∃ e, (m.acceptChild node level).answer = .error e) ∧
        (m.acceptChild node level).manager = m ∨
      (m.acceptChild node level).answer = .ok () ∧
        (m.acceptChild node level).manager.topology =
          { m.topology with children := m.topology.children ++ [node] } ∧
        m.SameOutlook (m.acceptChild node level).manager := by
  unfold acceptChild
  rcases m.topology.addChild_cases node with ⟨heq, -⟩ | ⟨heq, -⟩
  · rw [heq]
    exact Or.inl ⟨⟨_, rfl⟩, rfl⟩
  · rw [heq]
    exact Or.inr ⟨rfl, rfl, .of_eq rfl rfl⟩

theorem removeChild_spec (m : MeshManager) (node : NodeId)
    (reason : MeshTopology.DisconnectReason) :
    (m.removeChild node reason).manager.topology =
        { m.topology with children := m.topology.children.erase node } ∧
      m.SameOutlook (m.removeChild node reason).manager := by
  rcases m.removeChild_cases node reason with ⟨hcall, hnot⟩ | ⟨left, rfl, hcall, -⟩
  · rw [hcall, List.erase_of_not_mem hnot]
    exact ⟨rfl, .refl m⟩
  · rw [hcall]
    exact ⟨rfl, .of_eq rfl rfl⟩

end MeshManager

/-! ## All managers -/

/-- The manager of each node. -/
abbrev Hierarchy := NodeId → MeshManager

namespace Hierarchy

open Function

inductive Act where
  | alone (node : NodeId) (action : MeshManager.Action)
  | connect (node : NodeId) (failover : Bool) (candidate : ParentCandidate)
  | disconnect (node : NodeId) (failover : Bool)
      (reason atParent : MeshTopology.DisconnectReason)

def step (s : Hierarchy) : Act → Hierarchy
  | .alone node action => update s node ((s node).step action)
  | .connect node failover candidate =>
      let connected := (s node).connectTo failover candidate
      let asking := update s node connected.manager
      match connected.answer with
      | .error _ => asking
      | .ok () =>
          let asked := (asking candidate.nodeId).acceptChild node (s node).myLevel
          let told := update asking candidate.nodeId asked.manager
          match asked.answer with
          | .ok () => told
          | .error _ =>
              update told node ((told node).disconnectParent .remoteDisconnect).manager
  | .disconnect node failover reason atParent =>
      match (s node).topology.parent with
      | none => s
      | some parent =>
          let left := update s node ((s node).letParentGo failover reason)
          update left parent ((left parent).removeChild node atParent).manager

/-- Beacons tell the truth, a parent is taken from the candidates, a failover is started by a
manager that runs, and one that stops has no links. -/
def Allowed (members : Finset NodeId) (level : NodeId → HierarchyLevel) (s : Hierarchy) :
    Act → Prop
  | .alone node action =>
      node ∈ members ∧
        match action with
        | .processBeacon beacon _ =>
            beacon.nodeId ∈ members ∧ beacon.hierarchyLevel = level beacon.nodeId
        | .stop => (s node).topology.allConnected = []
        | action => action.leavesNeighbours = true
  | .connect node _ candidate => node ∈ members ∧ candidate ∈ (s node).candidates
  | .disconnect node failover _ _ => node ∈ members ∧ (failover = true → (s node).state = .running)

instance (members : Finset NodeId) (level : NodeId → HierarchyLevel) (s : Hierarchy) :
    (act : Act) → Decidable (Allowed members level s act)
  | .alone _ (.processBeacon _ _) => inferInstanceAs (Decidable (_ ∧ _ ∧ _))
  | .alone _ .stop => inferInstanceAs (Decidable (_ ∧ _ = []))
  | .alone _ .start | .alone _ (.setTimeMs _) | .alone _ (.connectParent _ _ _)
  | .alone _ (.disconnectParent _) | .alone _ (.acceptChild _ _) | .alone _ (.removeChild _ _)
  | .alone _ .startFailover | .alone _ (.completeFailover _) | .alone _ (.updateRssi _ _)
  | .alone _ (.recordFailure _) | .alone _ (.ageCandidates _) =>
      inferInstanceAs (Decidable (_ ∧ _ = true))
  | .connect _ _ _ => inferInstanceAs (Decidable (_ ∧ _ ∈ _))
  | .disconnect _ _ _ _ => inferInstanceAs (Decidable (_ ∧ (_ → _)))

def start (level : NodeId → HierarchyLevel) (config : NodeId → TopologyConfig) : Hierarchy :=
  fun v => MeshManager.new v (level v) (config v)

/-! ## Links -/

/-- A node has joined below another. -/
def joined (t : NodeId → MeshTopology) (child parent : NodeId) (v : NodeId) : MeshTopology :=
  { t v with
    parent := if v = child then some parent else (t v).parent
    children := if v = parent then (t v).children ++ [child] else (t v).children }

/-- A node has left the one above it. -/
def parted (t : NodeId → MeshTopology) (child parent : NodeId) (v : NodeId) : MeshTopology :=
  { t v with
    parent := if v = child then none else (t v).parent
    children := if v = parent then (t v).children.erase child else (t v).children }

section Fields

variable (t : NodeId → MeshTopology) (child parent v : NodeId)

theorem parent_joined :
    (joined t child parent v).parent = if v = child then some parent else (t v).parent := rfl

theorem children_joined : (joined t child parent v).children =
    if v = parent then (t v).children ++ [child] else (t v).children := rfl

theorem parent_parted :
    (parted t child parent v).parent = if v = child then none else (t v).parent := rfl

theorem children_parted : (parted t child parent v).children =
    if v = parent then (t v).children.erase child else (t v).children := rfl

end Fields

/-- Parents have higher levels, and both ends of every link know it. -/
structure Linked (members : Finset NodeId) (level : NodeId → HierarchyLevel)
    (t : NodeId → MeshTopology) : Prop where
  parent : ∀ v ∈ members, ∀ p, (t v).parent = some p →
    p ∈ members ∧ (level v).toU8 < (level p).toU8
  children : ∀ v ∈ members, ∀ c, c ∈ (t v).children ↔ c ∈ members ∧ (t c).parent = some v
  nodup : ∀ v ∈ members, (t v).children.Nodup
  peers : ∀ v, (t v).peers = []

variable {members : Finset NodeId} {level : NodeId → HierarchyLevel} {t : NodeId → MeshTopology}
  {child parent : NodeId}

theorem Linked.joined (h : Linked members level t) (hchild : child ∈ members)
    (hparent : parent ∈ members) (hlevel : (level child).toU8 < (level parent).toU8)
    (hnone : (t child).parent = none) : Linked members level (joined t child parent) := by
  have hnot : ∀ v ∈ members, child ∉ (t v).children := by
    intro v hv hin
    rw [((h.children v hv child).mp hin).2] at hnone
    cases hnone
  constructor
  case parent =>
    intro v hv p hp
    rw [parent_joined] at hp
    split at hp
    case isTrue heq =>
      subst heq
      cases hp
      exact ⟨hparent, hlevel⟩
    case isFalse => exact h.parent v hv p hp
  case children =>
    intro v hv c
    have hold := h.children v hv c
    rw [children_joined, parent_joined]
    by_cases hnew : c = child
    · subst hnew
      rw [if_pos rfl, and_iff_right hchild, Option.some_inj]
      split
      case isTrue heq => exact iff_of_true (by simp) heq.symm
      case isFalse hne => exact iff_of_false (hnot v hv) (Ne.symm hne)
    · rw [if_neg hnew, ← hold]
      split
      case isTrue => simp [hnew]
      case isFalse => rfl
  case nodup =>
    intro v hv
    rw [children_joined]
    split
    case isTrue =>
      rw [← List.concat_eq_append]
      exact (h.nodup v hv).concat (hnot v hv)
    case isFalse => exact h.nodup v hv
  case peers => exact h.peers

theorem Linked.parted (h : Linked members level t) (hlink : (t child).parent = some parent) :
    Linked members level (parted t child parent) := by
  constructor
  case parent =>
    intro v hv p hp
    rw [parent_parted] at hp
    split at hp
    case isTrue => cases hp
    case isFalse => exact h.parent v hv p hp
  case children =>
    intro v hv c
    have hold := h.children v hv c
    rw [children_parted, parent_parted]
    by_cases hleft : c = child
    · subst hleft
      rw [if_pos rfl]
      refine iff_of_false ?_ fun hnone => by cases hnone.2
      split
      case isTrue => exact (h.nodup v hv).not_mem_erase
      case isFalse hne =>
        exact fun hin => hne (Option.some.inj ((hold.mp hin).2.symm.trans hlink))
    · rw [if_neg hleft, ← hold]
      split
      case isTrue => exact List.mem_erase_of_ne hleft
      case isFalse => rfl
  case nodup =>
    intro v hv
    rw [children_parted]
    split
    case isTrue => exact (h.nodup v hv).erase child
    case isFalse => exact h.nodup v hv
  case peers => exact h.peers

/-- The links as a forest. -/
def Linked.toRankedLinks (h : Linked members level t) : RankedLinks NodeId where
  nodes := members
  parent := fun v => (t v).parent
  children := fun v => (t v).children
  rank := fun v => (level v).toU8.toNat
  parent_mem := fun v hv p hp => (h.parent v hv p hp).1
  rank_lt := fun v hv p hp => UInt8.lt_iff_toNat_lt.mp (h.parent v hv p hp).2
  mem_children := h.children
  children_nodup := h.nodup

/-! ## Steps -/

def topologies (s : Hierarchy) : NodeId → MeshTopology := fun v => (s v).topology

/-- What holds of every hierarchy that forms. -/
structure Formed (members : Finset NodeId) (level : NodeId → HierarchyLevel) (s : Hierarchy) :
    Prop where
  levels : ∀ v, (s v).myLevel = level v
  candidates : ∀ v ∈ members, ∀ c ∈ (s v).candidates,
    c.nodeId ∈ members ∧ (level v).toU8 < (level c.nodeId).toU8
  linked : Linked members level (topologies s)

/-- Nothing is linked anew or parted, or one node has joined or has left. -/
inductive Relinked (members : Finset NodeId) (level : NodeId → HierarchyLevel)
    (t : NodeId → MeshTopology) : (NodeId → MeshTopology) → Prop where
  | same : Relinked members level t t
  | joined {child parent : NodeId} (hchild : child ∈ members) (hparent : parent ∈ members)
      (hlevel : (level child).toU8 < (level parent).toU8) (hnone : (t child).parent = none) :
      Relinked members level t (joined t child parent)
  | parted {child parent : NodeId} (hlink : (t child).parent = some parent) :
      Relinked members level t (parted t child parent)

theorem Linked.of_relinked {t' : NodeId → MeshTopology} (h : Linked members level t)
    (hstep : Relinked members level t t') : Linked members level t' := by
  cases hstep with
  | same => exact h
  | joined hchild hparent hlevel hnone => exact h.joined hchild hparent hlevel hnone
  | parted hlink => exact h.parted hlink

variable {s : Hierarchy} {node : NodeId}

theorem topologies_update (m : MeshManager) :
    topologies (update s node m) = update (topologies s) node m.topology :=
  comp_update MeshManager.topology s node m

theorem topologies_of_same {m : MeshManager} (h : m.topology = (s node).topology) :
    topologies (update s node m) = topologies s := by
  rw [topologies_update, h]
  exact update_eq_self node (topologies s)

theorem topologies_alone {action : MeshManager.Action}
    (hact : Allowed members level s (.alone node action)) :
    topologies (s.step (.alone node action)) = topologies s := by
  refine topologies_of_same ?_
  obtain ⟨-, hcase⟩ := hact
  cases action with
  | stop => exact MeshTopology.without_links hcase
  | processBeacon beacon rssi => exact (MeshManager.sameNeighbours_step rfl).topology
  | _ => exact (MeshManager.sameNeighbours_step hcase).topology

/-- A step of one manager keeps the outlook of all. -/
theorem sameOutlook_update {s' : Hierarchy} {m : MeshManager}
    (h : ∀ v, (s v).SameOutlook (s' v)) (hnode : (s' node).SameOutlook m) :
    ∀ v, (s v).SameOutlook (update s' node m v) := by
  intro v
  rw [update_apply]
  split
  case isTrue heq =>
    subst heq
    exact (h v).trans hnode
  case isFalse => exact h v

/-- Both ends of a link agree on a child that has joined. -/
theorem update_joined (hne : parent ≠ child) (hnone : (t child).parent = none) :
    update (update t child { t child with parent := some parent }) parent
      { t parent with children := (t parent).children ++ [child] } = joined t child parent := by
  funext v
  rw [update_apply, update_apply]
  by_cases hparent : v = parent
  · subst hparent
    rw [if_pos rfl]
    simp [Hierarchy.joined, hne]
  · rw [if_neg hparent]
    by_cases hchild : v = child
    · subst hchild
      simp [Hierarchy.joined, hparent]
    · simp [Hierarchy.joined, hchild, hparent]

theorem update_parted (hne : parent ≠ child) :
    update (update t child { t child with parent := none }) parent
      { t parent with children := (t parent).children.erase child } = parted t child parent := by
  funext v
  rw [update_apply, update_apply]
  by_cases hparent : v = parent
  · subst hparent
    simp [Hierarchy.parted, hne]
  · by_cases hchild : v = child
    · subst hchild
      simp [Hierarchy.parted, hparent]
    · simp [Hierarchy.parted, hchild, hparent]

theorem relinked_connect (h : Formed members level s) {failover : Bool}
    {candidate : ParentCandidate} (hact : Allowed members level s (.connect node failover candidate)) :
    Relinked members level (topologies s) (topologies (s.step (.connect node failover candidate))) ∧
      ∀ v, (s v).SameOutlook (s.step (.connect node failover candidate) v) := by
  obtain ⟨hnode, hcandidate⟩ := hact
  obtain ⟨hparent, hlevel⟩ := h.candidates node hnode candidate hcandidate
  have hne : candidate.nodeId ≠ node := by
    intro heq
    rw [heq] at hlevel
    exact absurd hlevel (UInt8.lt_irrefl _)
  have hrefl : ∀ v, (s v).SameOutlook (s v) := fun v => .refl (s v)
  unfold step
  dsimp only
  rcases (s node).connectTo_cases failover candidate with
    ⟨⟨e, he⟩, hsame⟩ | ⟨hok, hnone, htopology, hlook⟩
  · -- The call fails at the child.
    rw [he, hsame, update_eq_self]
    exact ⟨.same, hrefl⟩
  · have hasking := sameOutlook_update hrefl hlook
    rw [hok, update_of_ne hne]
    dsimp only
    rcases (s candidate.nodeId).acceptChild_spec node (s node).myLevel with
      ⟨⟨e, he⟩, hsame⟩ | ⟨haccepted, htaken, htakenlook⟩
    · -- The parent refuses, and the child lets it go.
      set connected := ((s node).connectTo failover candidate).manager
      have huntold : update (update s node connected) candidate.nodeId (s candidate.nodeId) =
          update s node connected := by
        rw [update_eq_self_iff, update_of_ne hne]
      rw [he, hsame, huntold, update_self]
      dsimp only
      rw [update_idem]
      obtain ⟨hgone, hgonelook⟩ := connected.disconnectParent_spec .remoteDisconnect
      have hback : (connected.disconnectParent .remoteDisconnect).manager.topology =
          (s node).topology := by
        rw [hgone, htopology, ← hnone]
      refine ⟨?_, sameOutlook_update hrefl (hlook.trans hgonelook)⟩
      rw [topologies_of_same hback]
      exact .same
    · rw [haccepted]
      dsimp only
      refine ⟨?_, sameOutlook_update hasking (by rwa [update_of_ne hne])⟩
      rw [topologies_update, topologies_update, htopology, htaken]
      have hjoins : Relinked members level (topologies s) _ :=
        .joined hnode hparent hlevel hnone
      rw [← update_joined hne hnone] at hjoins
      exact hjoins

theorem relinked_disconnect (h : Formed members level s) {failover : Bool}
    {reason atParent : MeshTopology.DisconnectReason}
    (hact : Allowed members level s (.disconnect node failover reason atParent)) :
    Relinked members level (topologies s)
        (topologies (s.step (.disconnect node failover reason atParent))) ∧
      ∀ v, (s v).SameOutlook (s.step (.disconnect node failover reason atParent) v) := by
  obtain ⟨hnode, hrunning⟩ := hact
  have hrefl : ∀ v, (s v).SameOutlook (s v) := fun v => .refl (s v)
  unfold step
  dsimp only
  cases hlink : (s node).topology.parent with
  | none => exact ⟨.same, hrefl⟩
  | some parent =>
      obtain ⟨-, hlevel⟩ := h.linked.parent node hnode parent hlink
      have hne : parent ≠ node := by
        rintro rfl
        exact absurd hlevel (UInt8.lt_irrefl _)
      obtain ⟨hgone, hlook⟩ := MeshManager.letParentGo_spec failover reason hrunning
      obtain ⟨hremoved, hremovedlook⟩ := (s parent).removeChild_spec node atParent
      dsimp only
      rw [update_of_ne hne]
      refine ⟨?_, sameOutlook_update (sameOutlook_update hrefl hlook) (by rwa [update_of_ne hne])⟩
      have hparts : Relinked members level (topologies s) _ := .parted hlink
      rw [topologies_update, topologies_update, hgone, hremoved]
      rw [← update_parted hne] at hparts
      exact hparts

/-- Where nobody finds a new candidate only the links may change. -/
theorem Formed.of_relinked {s' : Hierarchy} (h : Formed members level s)
    (hlinks : Relinked members level (topologies s) (topologies s'))
    (hlook : ∀ v, (s v).SameOutlook (s' v)) : Formed members level s' where
  levels := fun v => (hlook v).level.trans (h.levels v)
  candidates := by
    intro v hv c hc
    obtain ⟨old, hold, hsame⟩ := (hlook v).candidates c hc
    rw [← hsame]
    exact h.candidates v hv old hold
  linked := h.linked.of_relinked hlinks

theorem formed_beacon (h : Formed members level s) {beacon : PeatBeacon} {rssi : Int8}
    (hact : Allowed members level s (.alone node (.processBeacon beacon rssi))) :
    Formed members level (s.step (.alone node (.processBeacon beacon rssi))) where
  levels := by
    intro v
    show (update s node ((s node).processBeacon beacon rssi) v).myLevel = level v
    rw [update_apply]
    split
    case isTrue heq =>
      subst heq
      unfold MeshManager.processBeacon
      split <;> exact h.levels v
    case isFalse => exact h.levels v
  candidates := by
    intro v hv c hc
    obtain ⟨hnode, hmember, htrue⟩ := hact
    change c ∈ (update s node ((s node).processBeacon beacon rssi) v).candidates at hc
    rw [update_apply] at hc
    split at hc
    case isTrue heq =>
      subst heq
      rcases MeshManager.candidates_processBeacon hc with ⟨old, hold, hsame⟩ | ⟨hsame, hhigher⟩
      · rw [← hsame]
        exact h.candidates v hv old hold
      · rw [h.levels, htrue] at hhigher
        rw [hsame]
        exact ⟨hmember, hhigher⟩
    case isFalse => exact h.candidates v hv c hc
  linked := by
    rw [topologies_alone hact]
    exact h.linked

/-- An act changes one link at most, and only a true beacon of a higher level adds a candidate. -/
theorem formed_step (h : Formed members level s) {act : Act} (hact : Allowed members level s act) :
    Formed members level (s.step act) := by
  cases act with
  | connect node failover candidate =>
      obtain ⟨hlinks, hlook⟩ := relinked_connect h hact
      exact h.of_relinked hlinks hlook
  | disconnect node failover reason atParent =>
      obtain ⟨hlinks, hlook⟩ := relinked_disconnect h hact
      exact h.of_relinked hlinks hlook
  | alone node action =>
      have hlinks : Relinked members level (topologies s)
          (topologies (s.step (.alone node action))) := by
        rw [topologies_alone hact]
        exact .same
      have hrefl : ∀ v, (s v).SameOutlook (s v) := fun v => .refl (s v)
      cases action with
      | processBeacon beacon rssi => exact formed_beacon h hact
      | stop =>
          refine h.of_relinked hlinks (sameOutlook_update hrefl ⟨rfl, fun c hc => ?_⟩)
          cases hc
      | _ =>
          refine h.of_relinked hlinks (sameOutlook_update hrefl ?_)
          exact MeshManager.sameOutlook_step hact.2 fun _ _ heq => by cases heq

/-! ## Runs -/

theorem formed_start (config : NodeId → TopologyConfig) :
    Formed members level (start level config) where
  levels := fun _ => rfl
  candidates := fun _ _ c hc => by cases hc
  linked := by
    refine ⟨fun v _ p hp => ?_, fun v _ c => ?_, fun _ _ => List.nodup_nil, fun _ => rfl⟩
    · cases hp
    · refine iff_of_false (by simp [topologies, start, MeshManager.new, MeshTopology.new]) ?_
      rintro ⟨-, hp⟩
      cases hp

theorem formed_run {config : NodeId → TopologyConfig} {acts : List Act}
    (hallowed : Along step (Allowed members level) (start level config) acts) :
    Formed members level (run step (start level config) acts) :=
  run_keeps_of_good (formed_start config) hallowed fun _ _ hact h => formed_step h hact

theorem rank_le (v : NodeId) : (level v).toU8.toNat ≤ 3 := by
  cases level v <;> decide

/-- However nodes join, leave and look for other parents, every member is in a tree of links that
both ends know, and no way up has more than four nodes. -/
theorem forms_trees (members : Finset NodeId) (level : NodeId → HierarchyLevel)
    (config : NodeId → TopologyConfig) (acts : List Act)
    (hallowed : Along step (Allowed members level) (start level config) acts) :
    ∀ v ∈ members, ∃ tree : LinkedTree NodeId, v ∈ tree.nodes ∧ tree.nodes ⊆ members ∧
      Agrees (topologies (run step (start level config) acts)) tree ∧
      ∀ way : List NodeId, way.IsChain tree.Up → (∀ w ∈ way, w ∈ tree.nodes) → way.length ≤ 4 := by
  intro v hv
  have hformed := formed_run hallowed
  let links := hformed.linked.toRankedLinks
  obtain ⟨tree, hin, hsubset, hparent, hchildren⟩ := RankedLinks.exists_tree (l := links) hv
  refine ⟨tree, hin, hsubset, ⟨?_, ?_, ?_⟩, ?_⟩
  · intro w _
    rw [hparent]
    rfl
  · intro w _
    rw [hchildren]
    rfl
  · exact fun w _ => hformed.linked.peers w
  · intro way hway hnodes
    have hup : way.IsChain links.Up := by
      refine hway.imp fun c p hcp => ?_
      rw [LinkedTree.Up, hparent] at hcp
      exact hcp
    exact RankedLinks.length_le_of_isChain (fun w _ => rank_le w) hup
      fun w hw => hsubset (hnodes w hw)

/-- Node 2 is a squad leader, and node 1 is not. -/
def pairLevel (v : NodeId) : HierarchyLevel := if v = 2 then .squad else .platform

/-- Node 1 hears of node 2, joins it, loses it, and comes back. -/
def comings : List Act :=
  let candidate : ParentCandidate := ⟨2, .squad, -60, 0, 0⟩
  [.alone 1 .start, .alone 1 (.processBeacon { PeatBeacon.new 2 with hierarchyLevel := .squad } (-60)),
    .connect 1 false candidate, .disconnect 1 true .linkLoss .timeout, .connect 1 true candidate]

theorem forms_trees_pair :
    ∃ tree : LinkedTree NodeId, 1 ∈ tree.nodes ∧ tree.nodes ⊆ {1, 2} ∧
      Agrees (topologies (run step (start pairLevel fun _ => .default) comings)) tree ∧
      ∀ way : List NodeId, way.IsChain tree.Up → (∀ w ∈ way, w ∈ tree.nodes) → way.length ≤ 4 :=
  forms_trees {1, 2} pairLevel (fun _ => .default) comings (by decide) 1 (by decide)

/-- Node 1 has come back. -/
example : (topologies (run step (start pairLevel fun _ => .default) comings) 1).parent = some 2 := by
  decide

end Hierarchy

end PeatBtle
