import PeatBtle.Topology.Manager

/-!
# One record for each neighbour

The record of a neighbour is kept under its id alone, so a node with two roles has one
record for both. What an operation does to the records and to the roles it does to one
node, and the two are compared there.
-/

namespace PeatBtle

open Wire MapMerge

namespace MeshTopology

variable {t : MeshTopology} {node : NodeId}

theorem getRole_eq_none_iff : t.getRole node = none ↔ node ∉ t.allConnected := by
  rw [mem_allConnected_iff, isConnected, getRole]
  cases t.parent == some node with
  | true => simp
  | false =>
      cases t.children.contains node with
      | true => simp
      | false => cases t.peers.contains node <;> simp

theorem getRole_congr {u : MeshTopology} (hparent : t.parent = some node ↔ u.parent = some node)
    (hchildren : node ∈ t.children ↔ node ∈ u.children) (hpeers : t.peers = u.peers) :
    t.getRole node = u.getRole node := by
  simp only [getRole, beq_iff_eq, List.contains_iff_mem, hparent, hchildren, hpeers]

theorem getRole_of_parent (h : t.parent = some node) : t.getRole node = some .parent := by
  rw [getRole, h, beq_self_eq_true, if_pos rfl]

section NoPeers

variable (hpeers : t.peers = [])
include hpeers

theorem getRole_of_no_peers : t.getRole node =
    if t.parent = some node then some .parent
    else if node ∈ t.children then some .child else none := by
  simp only [getRole, beq_iff_eq, List.contains_iff_mem, hpeers, List.not_mem_nil, if_false]

/-- The parent is looked for first. -/
theorem getRole_addChild_iff :
    some .child = { t with children := t.children ++ [node] }.getRole node ↔
      t.parent ≠ some node := by
  rw [getRole_of_no_peers (by exact hpeers)]
  by_cases hparent : t.parent = some node <;> simp [hparent]

theorem getRole_removeChild_iff (hchildren : t.children.Nodup) :
    none = { t with children := t.children.erase node }.getRole node ↔
      t.parent ≠ some node := by
  have hgone : node ∉ t.children.erase node := hchildren.not_mem_erase
  rw [getRole_of_no_peers (by exact hpeers)]
  by_cases hparent : t.parent = some node <;> simp [hparent, hgone]

theorem getRole_clearParent_iff :
    none = { t with parent := none }.getRole node ↔ node ∉ t.children := by
  rw [getRole_of_no_peers (by exact hpeers)]
  by_cases hchild : node ∈ t.children <;> simp [hchild]

end NoPeers

end MeshTopology

namespace MeshManager

/-- There are records of the neighbours and of no other node, and each of them has the role that
the node has. -/
structure Recorded (m : MeshManager) : Prop where
  known : ∀ node, (m.getPeerInfo node).isSome = true ↔ node ∈ m.connectedPeers
  role : ∀ node info, m.getPeerInfo node = some info → m.topology.getRole node = some info.role

/-- Nothing is done to a node with two roles. -/
def KeepsRecords (m : MeshManager) : Action → Prop
  | .acceptChild node _ =>
      m.topology.canAcceptChild = true ∧ node ∉ m.topology.children →
        m.topology.parent ≠ some node
  | .removeChild node _ => node ∈ m.topology.children → m.topology.parent ≠ some node
  | .disconnectParent _ => ∀ parent ∈ m.topology.parent, parent ∉ m.topology.children
  | .startFailover =>
      m.state = .running → ∀ parent ∈ m.topology.parent, parent ∉ m.topology.children
  | _ => True

instance (m : MeshManager) : (action : Action) → Decidable (m.KeepsRecords action)
  | .acceptChild _ _ | .removeChild _ _ => inferInstanceAs (Decidable (_ → _))
  | .disconnectParent _ => inferInstanceAs (Decidable (∀ parent ∈ m.topology.parent, _))
  | .startFailover =>
      inferInstanceAs (Decidable (_ → ∀ parent ∈ m.topology.parent, _))
  | .start | .stop | .setTimeMs _ | .processBeacon _ _ | .connectParent _ _ _
  | .completeFailover _ | .updateRssi _ _ | .recordFailure _ | .ageCandidates _ =>
      inferInstanceAs (Decidable True)

/-- The manager has no peers of its own level, and no child twice. -/
structure Simple (m : MeshManager) : Prop where
  children : m.topology.children.Nodup
  peers : m.topology.peers = []

variable {m : MeshManager}

theorem recorded_iff :
    m.Recorded ↔ ∀ node, (m.peers[node]?).map PeerInfo.role = m.topology.getRole node := by
  constructor
  · rintro ⟨hknown, hrole⟩ node
    cases hinfo : m.peers[node]? with
    | some info => exact (hrole node info hinfo).symm
    | none =>
        symm
        rw [Option.map_none, MeshTopology.getRole_eq_none_iff]
        intro hmem
        have hsome := (hknown node).mpr hmem
        rw [getPeerInfo, hinfo] at hsome
        exact absurd hsome Bool.false_ne_true
  · intro h
    constructor
    · intro node
      have hiff := not_congr (@MeshTopology.getRole_eq_none_iff m.topology node)
      rw [not_not, ← h node, Option.map_eq_none_iff] at hiff
      exact Option.isSome_iff_ne_none.trans hiff
    · intro node info hinfo
      rw [← h node, show m.peers[node]? = some info from hinfo, Option.map_some]

/-! ## One node at a time -/

/-- If the records and the roles of the other nodes are left, then what is new is compared at one
node. -/
theorem recorded_iff_at {next : MeshManager} {node : NodeId} {record : Option PeerRole}
    (h : m.Recorded) (hrecord : (next.peers[node]?).map PeerInfo.role = record)
    (hrecords : ∀ other, other ≠ node → next.peers[other]? = m.peers[other]?)
    (hroles : ∀ other, other ≠ node →
      next.topology.getRole other = m.topology.getRole other) :
    next.Recorded ↔ record = next.topology.getRole node := by
  rw [recorded_iff, ← hrecord]
  refine ⟨fun hall => hall node, fun hat other => ?_⟩
  by_cases hother : other = node
  · rw [hother]
    exact hat
  · rw [hrecords other hother, hroles other hother]
    exact recorded_iff.mp h other

theorem recorded_insert_iff {next : MeshManager} {node : NodeId} {info : PeerInfo}
    (h : m.Recorded) (hpeers : next.peers = m.peers.insert node info)
    (hroles : ∀ other, other ≠ node →
      next.topology.getRole other = m.topology.getRole other) :
    next.Recorded ↔ some info.role = next.topology.getRole node := by
  refine recorded_iff_at h ?_ ?_ hroles
  · rw [hpeers, getElem?_insert_eq, if_pos rfl, Option.map_some]
  · intro other hother
    rw [hpeers, getElem?_insert_eq, if_neg (Ne.symm hother)]

theorem recorded_erase_iff {next : MeshManager} {node : NodeId} (h : m.Recorded)
    (hpeers : next.peers = m.peers.erase node)
    (hroles : ∀ other, other ≠ node →
      next.topology.getRole other = m.topology.getRole other) :
    next.Recorded ↔ none = next.topology.getRole node := by
  refine recorded_iff_at h ?_ ?_ hroles
  · rw [hpeers, getElem?_erase_eq, if_pos rfl, Option.map_none]
  · intro other hother
    rw [hpeers, getElem?_erase_eq, if_neg (Ne.symm hother)]

section Calls

variable (node : NodeId) (level : HierarchyLevel) (rssi : Int8)
  (reason : MeshTopology.DisconnectReason)

theorem recorded_connectParent (h : m.Recorded) :
    (m.connectParent node level rssi).manager.Recorded := by
  rcases m.connectParent_cases node level rssi with
    ⟨hsame, -⟩ | ⟨connected, hconnected, hcall, hnone, -⟩
  · rw [hsame]
    exact h
  · have hrecords : connected.peers =
        m.peers.insert node (m.connectedInfo node level .parent (some rssi)) := by
      rw [hconnected]
    have hrole : connected.topology.getRole node = some .parent := by
      rw [hconnected]
      exact MeshTopology.getRole_of_parent rfl
    rw [hcall]
    refine (recorded_insert_iff h hrecords ?_).mpr hrole.symm
    intro other hother
    rw [hconnected]
    refine MeshTopology.getRole_congr ?_ Iff.rfl rfl
    rw [hnone, Option.some.injEq]
    exact iff_of_false (Ne.symm hother) (Option.some_ne_none other).symm

theorem recorded_acceptChild_iff (hpeers : m.topology.peers = []) (h : m.Recorded) :
    (m.acceptChild node level).manager.Recorded ↔
      (m.topology.canAcceptChild = true ∧ node ∉ m.topology.children →
        m.topology.parent ≠ some node) := by
  rcases m.acceptChild_cases node level with
    ⟨hsame, -, hno⟩ | ⟨accepted, haccepted, hcall, hyes⟩
  · rw [hsame]
    exact iff_of_true h fun habsurd => absurd habsurd hno
  · have hrecords : accepted.peers =
        m.peers.insert node (m.connectedInfo node level .child none) := by rw [haccepted]
    have hiff : accepted.Recorded ↔ some .child = accepted.topology.getRole node := by
      refine recorded_insert_iff h hrecords fun other hother => ?_
      rw [haccepted]
      exact MeshTopology.getRole_congr Iff.rfl (by simp [hother]) rfl
    rw [hcall, forall_prop_of_true hyes, ← MeshTopology.getRole_addChild_iff hpeers]
    rw [haccepted] at hiff ⊢
    exact hiff

/-- The record goes, and a parent stays. -/
theorem recorded_removeChild_iff (hsimple : m.Simple) (h : m.Recorded) :
    (m.removeChild node reason).manager.Recorded ↔
      (node ∈ m.topology.children → m.topology.parent ≠ some node) := by
  rcases m.removeChild_cases node reason with ⟨hcall, hno⟩ | ⟨left, hleft, hcall, hmem⟩
  · rw [hcall]
    exact iff_of_true h fun habsurd => absurd habsurd hno
  · have hrecords : left.peers = m.peers.erase node := by rw [hleft]
    have hiff : left.Recorded ↔ none = left.topology.getRole node := by
      refine recorded_erase_iff h hrecords fun other hother => ?_
      rw [hleft]
      exact MeshTopology.getRole_congr Iff.rfl (List.mem_erase_of_ne hother) rfl
    rw [hcall, forall_prop_of_true hmem,
      ← MeshTopology.getRole_removeChild_iff hsimple.peers hsimple.children]
    rw [hleft] at hiff ⊢
    exact hiff

/-- The record goes, and a child stays. -/
theorem recorded_disconnectParent_iff (hpeers : m.topology.peers = []) (h : m.Recorded) :
    (m.disconnectParent reason).manager.Recorded ↔
      ∀ parent ∈ m.topology.parent, parent ∉ m.topology.children := by
  cases hparent : m.topology.parent with
  | none =>
      rw [m.disconnectParent_none reason hparent]
      exact iff_of_true h fun parent habsurd => absurd habsurd (Option.not_mem_none parent)
  | some parent =>
      obtain ⟨left, hleft, hcall⟩ := m.disconnectParent_some reason hparent
      have hrecords : left.peers = m.peers.erase parent := by rw [hleft]
      have hiff : left.Recorded ↔ none = left.topology.getRole parent := by
        refine recorded_erase_iff h hrecords fun other hother => ?_
        rw [hleft]
        refine MeshTopology.getRole_congr ?_ Iff.rfl rfl
        rw [hparent, Option.some.injEq]
        exact iff_of_false (Option.some_ne_none other).symm (Ne.symm hother)
      simp only [hcall, Option.mem_def, Option.some.injEq, forall_eq']
      rw [← MeshTopology.getRole_clearParent_iff hpeers]
      rw [hleft] at hiff ⊢
      exact hiff

end Calls

/-! ## Steps and runs -/

/-- The same neighbours in the same roles, and records with the same roles. -/
structure SameNeighbours (m next : MeshManager) : Prop where
  topology : next.topology = m.topology
  roles : ∀ node : NodeId,
    (next.peers[node]?).map PeerInfo.role = (m.peers[node]?).map PeerInfo.role

theorem SameNeighbours.recorded_iff {next : MeshManager} (h : m.SameNeighbours next) :
    next.Recorded ↔ m.Recorded := by
  rw [MeshManager.recorded_iff, MeshManager.recorded_iff, h.topology]
  exact forall_congr' fun node => by rw [h.roles node]

theorem SameNeighbours.simple {next : MeshManager} (h : m.SameNeighbours next)
    (hsimple : m.Simple) : next.Simple := by
  obtain ⟨hchildren, hpeers⟩ := hsimple
  rw [← h.topology] at hchildren hpeers
  exact ⟨hchildren, hpeers⟩

/-- A change of a record that leaves its role. -/
theorem role_modify {f : PeerInfo → PeerInfo} (hf : ∀ info, (f info).role = info.role)
    (peers : Map NodeId PeerInfo) (node other : NodeId) :
    ((peers.modify node f)[other]?).map PeerInfo.role = (peers[other]?).map PeerInfo.role := by
  rw [getElem?_modify_eq]
  split
  case isTrue heq =>
    rw [heq, Option.map_map]
    exact congrArg (fun role => Option.map role peers[other]?) (funext hf)
  case isFalse => rfl

/-- The actions that connect and disconnect nobody. -/
def Action.leavesNeighbours : Action → Bool
  | .start | .setTimeMs _ | .processBeacon _ _ | .completeFailover none | .updateRssi _ _
  | .recordFailure _ | .ageCandidates _ => true
  | .stop | .connectParent _ _ _ | .disconnectParent _ | .acceptChild _ _ | .removeChild _ _
  | .startFailover | .completeFailover (some _) => false

theorem sameNeighbours_step {action : Action} (h : action.leavesNeighbours = true) :
    m.SameNeighbours (m.step action) := by
  cases action with
  | start =>
      show m.SameNeighbours m.start.manager
      unfold start
      split <;> exact ⟨rfl, fun _ => rfl⟩
  | processBeacon beacon rssi =>
      show m.SameNeighbours (m.processBeacon beacon rssi)
      unfold processBeacon
      split <;> exact ⟨rfl, fun _ => rfl⟩
  | completeFailover newParent =>
      cases newParent with
      | none => exact ⟨rfl, fun _ => rfl⟩
      | some newParent => cases h
  | updateRssi node rssi => exact ⟨rfl, role_modify (by exact fun _ => rfl) m.peers node⟩
  | recordFailure node => exact ⟨rfl, role_modify (by exact fun _ => rfl) m.peers node⟩
  | setTimeMs timeMs => exact ⟨rfl, fun _ => rfl⟩
  | ageCandidates elapsedMs => exact ⟨rfl, fun _ => rfl⟩
  | stop => cases h
  | connectParent node level rssi => cases h
  | disconnectParent reason => cases h
  | acceptChild node level => cases h
  | removeChild node reason => cases h
  | startFailover => cases h

theorem sameNeighbours_startFailover (m : MeshManager) :
    SameNeighbours (if m.state = .running then (m.disconnectParent .linkLoss).manager else m)
      m.startFailover.manager := by
  unfold startFailover
  by_cases hrunning : m.state = .running
  · rw [if_pos hrunning, if_neg (not_not.mpr hrunning)]
    dsimp only
    split <;> exact ⟨rfl, fun _ => rfl⟩
  · rw [if_neg hrunning, if_pos hrunning]
    exact ⟨rfl, fun _ => rfl⟩

theorem sameNeighbours_completeFailover (m : MeshManager) (node : NodeId)
    (level : HierarchyLevel) (rssi : Int8) :
    SameNeighbours (m.connectParent node level rssi).manager
      (m.completeFailover (some (node, level, rssi))).manager := by
  unfold completeFailover
  dsimp only
  split <;> exact ⟨rfl, fun _ => rfl⟩

theorem recorded_step_iff (hsimple : m.Simple) (h : m.Recorded) (action : Action) :
    (m.step action).Recorded ↔ m.KeepsRecords action := by
  have hleaves : action.leavesNeighbours = true → (m.step action).Recorded :=
    fun hquiet => (sameNeighbours_step hquiet).recorded_iff.mpr h
  cases action with
  | start => exact iff_of_true (hleaves rfl) trivial
  | setTimeMs timeMs => exact iff_of_true (hleaves rfl) trivial
  | processBeacon beacon rssi => exact iff_of_true (hleaves rfl) trivial
  | updateRssi node rssi => exact iff_of_true (hleaves rfl) trivial
  | recordFailure node => exact iff_of_true (hleaves rfl) trivial
  | ageCandidates elapsedMs => exact iff_of_true (hleaves rfl) trivial
  | stop =>
      refine iff_of_true (recorded_iff.mpr fun node => ?_) trivial
      rfl
  | connectParent node level rssi =>
      exact iff_of_true (recorded_connectParent node level rssi h) trivial
  | disconnectParent reason => exact recorded_disconnectParent_iff reason hsimple.peers h
  | acceptChild node level => exact recorded_acceptChild_iff node level hsimple.peers h
  | removeChild node reason => exact recorded_removeChild_iff node reason hsimple h
  | startFailover =>
      refine (sameNeighbours_startFailover m).recorded_iff.trans ?_
      unfold KeepsRecords
      by_cases hrunning : m.state = .running
      · rw [if_pos hrunning, forall_prop_of_true hrunning]
        exact recorded_disconnectParent_iff .linkLoss hsimple.peers h
      · rw [if_neg hrunning]
        exact iff_of_true h fun habsurd => absurd habsurd hrunning
  | completeFailover newParent =>
      refine iff_of_true ?_ trivial
      cases newParent with
      | none => exact hleaves rfl
      | some newParent =>
          have hsame := sameNeighbours_completeFailover m newParent.1 newParent.2.1 newParent.2.2
          exact hsame.recorded_iff.mpr (recorded_connectParent _ _ _ h)

theorem simple_connectParent (h : m.Simple) (node : NodeId) (level : HierarchyLevel)
    (rssi : Int8) : (m.connectParent node level rssi).manager.Simple := by
  rcases m.connectParent_cases node level rssi with ⟨hsame, -⟩ | ⟨connected, rfl, hcall, -⟩
  · rw [hsame]
    exact h
  · rw [hcall]
    exact ⟨h.children, h.peers⟩

theorem simple_disconnectParent (h : m.Simple) (reason : MeshTopology.DisconnectReason) :
    (m.disconnectParent reason).manager.Simple := by
  cases hparent : m.topology.parent with
  | none =>
      rw [m.disconnectParent_none reason hparent]
      exact h
  | some parent =>
      obtain ⟨left, rfl, hcall⟩ := m.disconnectParent_some reason hparent
      rw [hcall]
      exact ⟨h.children, h.peers⟩

theorem simple_acceptChild (h : m.Simple) (node : NodeId) (level : HierarchyLevel) :
    (m.acceptChild node level).manager.Simple := by
  rcases m.acceptChild_cases node level with ⟨hsame, -⟩ | ⟨accepted, rfl, hcall, -, hnew⟩
  · rw [hsame]
    exact h
  · rw [hcall]
    refine ⟨?_, h.peers⟩
    show (m.topology.children ++ [node]).Nodup
    rw [← List.concat_eq_append]
    exact h.children.concat hnew

theorem simple_removeChild (h : m.Simple) (node : NodeId)
    (reason : MeshTopology.DisconnectReason) : (m.removeChild node reason).manager.Simple := by
  rcases m.removeChild_cases node reason with ⟨hcall, -⟩ | ⟨left, rfl, hcall, -⟩
  · rw [hcall]
    exact h
  · rw [hcall]
    exact ⟨h.children.erase node, h.peers⟩

theorem simple_step (h : m.Simple) (action : Action) : (m.step action).Simple := by
  have hleaves : action.leavesNeighbours = true → (m.step action).Simple :=
    fun hquiet => (sameNeighbours_step hquiet).simple h
  cases action with
  | start => exact hleaves rfl
  | setTimeMs timeMs => exact hleaves rfl
  | processBeacon beacon rssi => exact hleaves rfl
  | updateRssi node rssi => exact hleaves rfl
  | recordFailure node => exact hleaves rfl
  | ageCandidates elapsedMs => exact hleaves rfl
  | stop => exact ⟨List.nodup_nil, rfl⟩
  | connectParent node level rssi => exact simple_connectParent h node level rssi
  | disconnectParent reason => exact simple_disconnectParent h reason
  | acceptChild node level => exact simple_acceptChild h node level
  | removeChild node reason => exact simple_removeChild h node reason
  | startFailover =>
      refine (sameNeighbours_startFailover m).simple ?_
      split
      · exact simple_disconnectParent h .linkLoss
      · exact h
  | completeFailover newParent =>
      cases newParent with
      | none => exact hleaves rfl
      | some newParent =>
          have hsame := sameNeighbours_completeFailover m newParent.1 newParent.2.1 newParent.2.2
          exact hsame.simple (simple_connectParent h _ _ _)

section Runs

variable (nodeId : NodeId) (level : HierarchyLevel) (config : TopologyConfig)
  (actions : List Action)

theorem simple_new : (new nodeId level config).Simple := ⟨List.nodup_nil, rfl⟩

theorem recorded_new : (new nodeId level config).Recorded := recorded_iff.mpr fun _ => rfl

theorem recorded_run_iff :
    (∀ front, front <+: actions →
      (LoggedRun.run step (new nodeId level config) front).Recorded) ↔
    LoggedRun.Along step KeepsRecords (new nodeId level config) actions :=
  LoggedRun.forall_prefix_iff_along (simple_new nodeId level config)
    (recorded_new nodeId level config) (fun _ action h => simple_step h action)
    fun _ action hsimple h => recorded_step_iff hsimple h action

end Runs

/-- There is room for every neighbour in every run. They have one role each, and each record has
the role of its node, as long as no node is given two roles. -/
theorem one_role_one_record_iff (myLevel : HierarchyLevel) (maxChildren maxConnections : UInt8)
    (changes : List MeshTopology.Action) (nodeId : NodeId) (config : TopologyConfig)
    (actions : List Action) :
    let topology := MeshTopology.new myLevel maxChildren maxConnections
    let manager := new nodeId myLevel config
    (LoggedRun.run MeshTopology.step topology changes).Bounded ∧
    ((∀ front, front <+: changes →
      (LoggedRun.run MeshTopology.step topology front).allConnected.Nodup) ↔
      LoggedRun.Along MeshTopology.step MeshTopology.TakesStranger topology changes) ∧
    ((∀ front, front <+: actions → (LoggedRun.run step manager front).Recorded) ↔
      LoggedRun.Along step KeepsRecords manager actions) :=
  ⟨MeshTopology.bounded_run myLevel maxChildren maxConnections changes,
    MeshTopology.nodup_run_iff myLevel maxChildren maxConnections changes,
    recorded_run_iff nodeId myLevel config actions⟩

/-- The parent is accepted as a child, and then it is there twice and its record says child. -/
theorem parent_accepted_as_child :
    ¬ (LoggedRun.run MeshTopology.step (MeshTopology.new .squad 3 7)
        [.setParent 5, .addChild 5]).allConnected.Nodup ∧
    ¬ (LoggedRun.run step (new 1 .squad .default)
        [.connectParent 5 .platoon (-60), .acceptChild 5 .platoon]).Recorded := by
  constructor
  · decide
  · have hrecorded : ((new 1 .squad .default).step (.connectParent 5 .platoon (-60))).Recorded :=
      recorded_connectParent 5 .platoon (-60) (recorded_new 1 .squad .default)
    have hsimple := simple_step (simple_new 1 .squad .default) (.connectParent 5 .platoon (-60))
    refine fun h => absurd ((recorded_step_iff hsimple hrecorded _).mp h) ?_
    decide

end MeshManager

end PeatBtle
