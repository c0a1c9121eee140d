import PeatBtle.Mesh.Presence
import PeatBtle.PeerTable

/-!
# Who is connected

The peer table and the connection graph each say which peers are connected. They
stay in agreement as long as no peer leaves the table while it is connected, and
none comes into one of them alone.
-/

namespace PeatBtle

open Wire MapMerge

/-! ## In the table -/

namespace PeerManager

section Table

variable (m : PeerManager)

def isConnectedAt (node : NodeId) : Bool := m.peers[node]?.any PeatPeer.isConnected

def isTracked (node : NodeId) : Bool := m.peers.contains node

/-- The node that a discovery puts out of the table, because its identifier now belongs to
another. -/
def displacedBy (identifier : String) (name meshId : Option String) : Option NodeId :=
  if m.config.matchesMesh meshId then
    (parseNodeIdFromName name).bind fun node =>
      if node = m.nodeId then none
      else m.identifierMap[identifier]?.filter fun existing => decide (existing ≠ node)
  else none

/-- Whether an incoming connection is taken in. -/
def accepts (node : NodeId) : Bool := decide (node ≠ m.nodeId) && m.hasRoomFor m.peers node

theorem displaced_lookup (identifier : String) (node other : NodeId) :
    (m.displaced identifier node)[other]? =
      if m.identifierMap[identifier]?.filter (fun existing => decide (existing ≠ node)) = some other
        then none else m.peers[other]? := by
  by_cases hstays : ∀ existing ∈ m.identifierMap[identifier]?, existing = node
  · rw [displaced_of_stays hstays, if_neg]
    intro hgone
    obtain ⟨hknown, hmoves⟩ := Option.filter_eq_some_iff.mp hgone
    exact of_decide_eq_true hmoves (hstays other hknown)
  · obtain ⟨existing, hknown, hmoves⟩ := not_forall₂.mp hstays
    have hgone : m.identifierMap[identifier]?.filter (fun known => decide (known ≠ node)) =
        some existing := Option.filter_eq_some_iff.mpr ⟨hknown, decide_eq_true hmoves⟩
    rw [displaced_of_moves hknown hmoves, hgone, getElem?_erase_eq]
    exact if_congr Option.some_inj.symm rfl rfl

theorem displacedBy_accepted {identifier : String} {name meshId : Option String} {node : NodeId}
    (hmesh : m.config.matchesMesh meshId = true) (hname : parseNodeIdFromName name = some node)
    (hother : node ≠ m.nodeId) :
    m.displacedBy identifier name meshId =
      m.identifierMap[identifier]?.filter fun existing => decide (existing ≠ node) := by
  rw [displacedBy, if_pos hmesh, hname, Option.bind_some, if_neg hother]

theorem displacedBy_ignored {identifier : String} {name meshId : Option String}
    (h : ¬ (m.config.matchesMesh meshId = true ∧
      ∃ node, parseNodeIdFromName name = some node ∧ node ≠ m.nodeId)) :
    m.displacedBy identifier name meshId = none := by
  unfold displacedBy
  split
  · rename_i hmesh
    rw [Option.bind_eq_none_iff]
    intro node hname
    split
    · rfl
    · rename_i hother
      exact absurd ⟨hmesh, node, hname, hother⟩ h
  · rfl

/-- Whether a record is connected survives what a discovery does to it. -/
theorem isConnectedAt_onDiscovered (identifier : String) (name : Option String) (rssi : Int8)
    (meshId : Option String) (nowMs : UInt64) (other : NodeId) :
    (m.onDiscovered identifier name rssi meshId nowMs).1.isConnectedAt other =
      if m.displacedBy identifier name meshId = some other then false
      else m.isConnectedAt other := by
  by_cases haccepted : m.config.matchesMesh meshId = true ∧
      ∃ node, parseNodeIdFromName name = some node ∧ node ≠ m.nodeId
  · obtain ⟨hmesh, node, hname, hother⟩ := haccepted
    have hstays : ((m.displaced identifier node)[other]?).any PeatPeer.isConnected =
        if m.displacedBy identifier name meshId = some other then false
        else m.isConnectedAt other := by
      rw [displaced_lookup, m.displacedBy_accepted hmesh hname hother]
      split
      · rfl
      · rfl
    rw [m.onDiscovered_eq hmesh hname hother, ← hstays]
    split
    · unfold isConnectedAt
      dsimp only
      rw [getElem?_alter_eq]
      by_cases hnode : node = other
      · rw [if_pos hnode, hnode]
        cases (m.displaced identifier other)[other]? with
        | none => rfl
        | some peer => rfl
      · rw [if_neg hnode]
    · rfl
  · rw [m.onDiscovered_ignored haccepted, m.displacedBy_ignored haccepted, if_neg (by simp)]

theorem isConnectedAt_onConnected {identifier : String} {node : NodeId}
    (hknown : m.getNodeId identifier = some node) (nowMs : UInt64) (other : NodeId) :
    (m.onConnected identifier nowMs).1.isConnectedAt other =
      if other = node then m.isTracked node else m.isConnectedAt other := by
  unfold onConnected
  rw [hknown, ← Bool.true_and (m.isTracked node)]
  exact any_getElem?_modify m.peers node other _ fun _ => rfl

theorem isConnectedAt_disconnect (node other : NodeId) :
    (m.disconnect node).isConnectedAt other =
      if other = node then false else m.isConnectedAt other := by
  rw [← Bool.false_and (m.isTracked node)]
  exact any_getElem?_modify m.peers node other _ fun _ => rfl

theorem isConnectedAt_onIncomingConnection (identifier : String) (node : NodeId) (nowMs : UInt64)
    (other : NodeId) :
    (m.onIncomingConnection identifier node nowMs).1.isConnectedAt other =
      if other = node ∧ m.accepts node = true then true else m.isConnectedAt other := by
  unfold onIncomingConnection accepts
  by_cases hself : node = m.nodeId
  · simp [hself]
  · rw [if_neg hself]
    by_cases hroom : m.hasRoomFor m.peers node = true
    · rw [if_pos hroom]
      unfold isConnectedAt
      dsimp only
      rw [getElem?_insert_eq]
      by_cases hnode : node = other
      · simp [hnode.symm, hself, hroom, PeatPeer.touch]
      · simp [hnode, Ne.symm hnode]
    · rw [if_neg hroom, if_neg (by simp [hroom])]

theorem isConnectedAt_cleanupStale (nowMs : UInt64) (other : NodeId) :
    (m.cleanupStale nowMs).1.isConnectedAt other =
      if m.isStale nowMs other then false else m.isConnectedAt other := by
  unfold isConnectedAt
  rw [cleanupStale_peers]
  split
  · rfl
  · rfl

end Table

end PeerManager

/-! ## In the graph -/

/-- A lost peer that is seen again is still disconnected. -/
theorem PeerConnectionState.isConnected_seenAgain (p : PeerConnectionState)
    (name meshId : Option String) (rssi : Int8) (nowMs : UInt64) :
    (p.seenAgain name meshId rssi nowMs).state.isConnected = p.state.isConnected := by
  unfold seenAgain
  dsimp only
  split
  · rename_i hlost
    rw [hlost]
    rfl
  · rfl

namespace ConnectionStateGraph

section Graph

variable (g : ConnectionStateGraph) (node other : NodeId)

def isConnectedAt (node : NodeId) : Bool := g.peers[node]?.any fun p => p.state.isConnected

def isKnown (node : NodeId) : Bool := g.peers.contains node

theorem isConnectedAt_onDiscovered (identifier : String) (name meshId : Option String)
    (rssi : Int8) (nowMs : UInt64) :
    (g.onDiscovered node identifier name meshId rssi nowMs).isConnectedAt other =
      g.isConnectedAt other := by
  unfold isConnectedAt onDiscovered
  dsimp only
  rw [getElem?_insert_eq]
  split
  · rename_i hnode
    subst hnode
    rw [Option.any_some, PeerConnectionState.isConnected_seenAgain]
    cases g.peers[node]? with
    | none => rfl
    | some p => rfl
  · rfl

theorem isKnown_onDiscovered (identifier : String) (name meshId : Option String) (rssi : Int8)
    (nowMs : UInt64) :
    (g.onDiscovered node identifier name meshId rssi nowMs).isKnown node = true :=
  Std.ExtTreeMap.contains_insert_self

theorem isConnectedAt_onConnected (nowMs : UInt64) :
    (g.onConnected node nowMs).isConnectedAt other =
      if other = node then g.isKnown node else g.isConnectedAt other := by
  rw [← Bool.true_and (g.isKnown node)]
  exact any_getElem?_modify g.peers node other _ fun _ => rfl

theorem isConnectedAt_onDisconnected (reason : DisconnectReason) (nowMs : UInt64) :
    (g.onDisconnected node reason nowMs).isConnectedAt other =
      if other = node then false else g.isConnectedAt other := by
  rw [← Bool.false_and (g.isKnown node)]
  exact any_getElem?_modify g.peers node other _ fun _ => rfl

/-- Maintenance deals with disconnected and lost peers only. -/
theorem isConnectedAt_tick_cleanupLost (olderThanMs nowMs : UInt64) :
    ((g.tick nowMs).1.cleanupLost olderThanMs nowMs).isConnectedAt other =
      g.isConnectedAt other := by
  unfold isConnectedAt tick cleanupLost
  dsimp only
  rw [Std.ExtTreeMap.getElem?_filter', Std.ExtTreeMap.getElem?_map]
  cases g.peers[other]? with
  | none => rfl
  | some p =>
      rw [Option.map_some, Option.filter_some]
      by_cases hoverdue : g.overdue nowMs p = true
      · -- only a disconnected peer is overdue, and it becomes a lost one
        have hstate : p.state = .disconnected :=
          of_decide_eq_true (Bool.and_eq_true_iff.mp hoverdue).1
        rw [if_pos hoverdue, Option.any_some, PeerConnectionState.setLost, if_pos hstate, hstate]
        split
        · rfl
        · rfl
      · rw [if_neg hoverdue]
        split
        · rfl
        · rename_i hremoved
          rw [Bool.not_eq_true, Bool.not_eq_false', Bool.and_eq_true, decide_eq_true_eq]
            at hremoved
          rw [Option.any_some, hremoved.1]
          rfl

end Graph

end ConnectionStateGraph

/-! ## In both -/

namespace PeatMesh

variable {D : Type} (crypto : Crypto)

/-- The two records name the same connected peers. -/
def ConnectionsAgree (m : PeatMesh D) : Prop :=
  ∀ node, m.peerManager.isConnectedAt node = m.connectionGraph.isConnectedAt node

/-- The node that the observers are told has connected. -/
def announcesConnected (m : PeatMesh D) : Action D → Option NodeId
  | .connected identifier _ => m.peerManager.getNodeId identifier
  | .incomingConnection _ node _ => some node
  | _ => none

/-- A node that is announced is connected in the table afterwards. -/
def AnnouncesConnected (m : PeatMesh D) (action : Action D) : Prop :=
  ∀ node ∈ m.announcesConnected action,
    (m.act crypto action).peerManager.isConnectedAt node = true

/-- No peer leaves the table while it is connected, and a peer that connects is taken into the
table and known to the graph. -/
def KeepsAgreement (m : PeatMesh D) : Action D → Prop
  | .discovered identifier name _ meshId _ =>
      ∀ gone ∈ m.peerManager.displacedBy identifier name meshId,
        m.peerManager.isConnectedAt gone = false
  | .connected identifier _ => ∀ node ∈ m.peerManager.getNodeId identifier,
      m.peerManager.isTracked node = true ∧ m.connectionGraph.isKnown node = true
  | .incomingConnection _ node _ =>
      if m.peerManager.accepts node then
        m.peerManager.isTracked node = true → m.connectionGraph.isKnown node = true
      else m.peerManager.isConnectedAt node = true
  | .data _ data _ => ∀ author ∈ m.directAuthor crypto data,
      if m.peerManager.accepts author then
        m.peerManager.isTracked author = true → m.connectionGraph.isKnown author = true
      else m.connectionGraph.isKnown author = true → m.peerManager.isConnectedAt author = true
  | .tick _ nowMs | .tickWithPeerDeltas _ nowMs => m.cleanupDue nowMs = true →
      ∀ entry ∈ m.peerManager.peers.toList,
        entry.2.isStale nowMs m.peerManager.config.peerTimeoutMs = true →
          entry.2.isConnected = false
  | _ => True

section Transfer

variable {m after : PeatMesh D} (h : SamePeers m after)
include h

theorem SamePeers.table_eq : after.peerManager.isConnectedAt = m.peerManager.isConnectedAt := by
  funext node
  rw [PeerManager.isConnectedAt, PeerManager.isConnectedAt, h.peers]

theorem SamePeers.graph_eq :
    after.connectionGraph.isConnectedAt = m.connectionGraph.isConnectedAt := by
  funext node
  rw [ConnectionStateGraph.isConnectedAt, ConnectionStateGraph.isConnectedAt, h.graph]

theorem SamePeers.connectionsAgree_iff : after.ConnectionsAgree ↔ m.ConnectionsAgree := by
  unfold ConnectionsAgree
  rw [h.table_eq, h.graph_eq]

theorem SamePeers.accepts_eq : after.peerManager.accepts = m.peerManager.accepts := by
  funext node
  simp only [PeerManager.accepts, PeerManager.hasRoomFor, h.nodeId, h.config, h.peers]

theorem SamePeers.isTracked_eq : after.peerManager.isTracked = m.peerManager.isTracked := by
  funext node
  rw [PeerManager.isTracked, PeerManager.isTracked, h.peers]

theorem SamePeers.isKnown_eq : after.connectionGraph.isKnown = m.connectionGraph.isKnown := by
  funext node
  rw [ConnectionStateGraph.isKnown, ConnectionStateGraph.isKnown, h.graph]

end Transfer

section Steps

variable {m : PeatMesh D}

theorem isKnown_of_isConnectedAt {g : ConnectionStateGraph} {node : NodeId}
    (h : g.isConnectedAt node = true) : g.isKnown node = true := by
  obtain ⟨p, hp, -⟩ := (Option.any_eq_true ..).mp h
  rw [ConnectionStateGraph.isKnown, Std.ExtTreeMap.contains_eq_isSome_getElem?, hp]
  rfl

/-- An agreement that can only break at one node is one there. -/
theorem connectionsAgree_iff_at (hagree : m.ConnectionsAgree) (node : NodeId) {after : PeatMesh D}
    {table graph : Bool}
    (htable : ∀ other, after.peerManager.isConnectedAt other =
      if other = node then table else m.peerManager.isConnectedAt other)
    (hgraph : ∀ other, after.connectionGraph.isConnectedAt other =
      if other = node then graph else m.connectionGraph.isConnectedAt other) :
    after.ConnectionsAgree ↔ table = graph := by
  constructor
  · intro hafter
    have hnode := hafter node
    rwa [htable, hgraph, if_pos rfl, if_pos rfl] at hnode
  · intro heq other
    rw [htable, hgraph]
    split
    · exact heq
    · exact hagree other

theorem forall_mem_some {node : NodeId} {P : NodeId → Prop} :
    (∀ other ∈ some node, P other) ↔ P node :=
  ⟨fun h => h node rfl, fun h _ hother => Option.some.inj hother ▸ h⟩

theorem incoming_isNew (manager : PeerManager) (identifier : String) (node : NodeId)
    (nowMs : UInt64) :
    (manager.onIncomingConnection identifier node nowMs).2 =
      (manager.accepts node && !manager.isTracked node) := by
  unfold PeerManager.onIncomingConnection PeerManager.accepts PeerManager.isTracked
  by_cases hself : node = manager.nodeId
  · simp [hself]
  · by_cases hroom : manager.hasRoomFor manager.peers node = true
    · simp [hself, hroom]
    · simp [hself, hroom]

theorem graph_registerSource (identifier : String) (node other : NodeId) (nowMs : UInt64) :
    (m.registerSource identifier node nowMs).connectionGraph.isConnectedAt other =
      if other = node then (m.peerManager.accepts node && !m.peerManager.isTracked node) ||
        m.connectionGraph.isKnown node else m.connectionGraph.isConnectedAt other := by
  unfold registerSource
  dsimp only
  rw [incoming_isNew, ConnectionStateGraph.isConnectedAt_onConnected]
  cases m.peerManager.accepts node && !m.peerManager.isTracked node with
  | true =>
      rw [if_pos rfl, ConnectionStateGraph.isKnown_onDiscovered, Bool.true_or,
        ConnectionStateGraph.isConnectedAt_onDiscovered]
  | false => rw [if_neg Bool.false_ne_true, Bool.false_or]

theorem table_registerSource (identifier : String) (node other : NodeId) (nowMs : UInt64) :
    (m.registerSource identifier node nowMs).peerManager.isConnectedAt other =
      if other = node then m.peerManager.accepts node || m.peerManager.isConnectedAt node
      else m.peerManager.isConnectedAt other := by
  refine (m.peerManager.isConnectedAt_onIncomingConnection identifier node nowMs other).trans ?_
  by_cases hnode : other = node
  · subst hnode
    cases m.peerManager.accepts other with
    | true => rw [if_pos ⟨rfl, rfl⟩, if_pos rfl, Bool.true_or]
    | false => rw [if_neg (fun hboth => Bool.false_ne_true hboth.2), if_pos rfl, Bool.false_or]
  · rw [if_neg (fun hboth => hnode hboth.1), if_neg hnode]

theorem agree_registerSource (hagree : m.ConnectionsAgree) (identifier : String) (node : NodeId)
    (nowMs : UInt64) :
    (m.registerSource identifier node nowMs).ConnectionsAgree ↔
      if m.peerManager.accepts node then
        m.peerManager.isTracked node = true → m.connectionGraph.isKnown node = true
      else m.connectionGraph.isKnown node = true → m.peerManager.isConnectedAt node = true := by
  rw [connectionsAgree_iff_at hagree node
    (fun other => table_registerSource identifier node other nowMs)
    (fun other => graph_registerSource identifier node other nowMs)]
  have hknown : m.peerManager.isConnectedAt node = true → m.connectionGraph.isKnown node = true :=
    fun h => isKnown_of_isConnectedAt ((hagree node).symm.trans h)
  cases m.peerManager.accepts node with
  | true =>
      rw [Bool.true_or, Bool.true_and, if_pos rfl]
      cases m.peerManager.isTracked node with
      | true =>
          rw [Bool.not_true, Bool.false_or]
          exact ⟨fun heq _ => heq.symm, fun h => (h rfl).symm⟩
      | false => exact iff_of_true rfl fun h => absurd h Bool.false_ne_true
  | false =>
      rw [Bool.false_or, Bool.false_and, Bool.false_or, if_neg Bool.false_ne_true]
      constructor
      · intro heq h
        rw [heq, h]
      · intro h
        exact Bool.eq_iff_iff.mpr ⟨hknown, h⟩

theorem agree_onBleDiscovered (hagree : m.ConnectionsAgree) (identifier : String)
    (name : Option String) (rssi : Int8) (meshId : Option String) (nowMs : UInt64) :
    (m.onBleDiscovered identifier name rssi meshId nowMs).ConnectionsAgree ↔
      ∀ gone ∈ m.peerManager.displacedBy identifier name meshId,
        m.peerManager.isConnectedAt gone = false := by
  have htable : ∀ other,
      (m.onBleDiscovered identifier name rssi meshId nowMs).peerManager.isConnectedAt other =
        if m.peerManager.displacedBy identifier name meshId = some other then false
        else m.peerManager.isConnectedAt other := by
    intro other
    rw [peerManager_onBleDiscovered]
    exact m.peerManager.isConnectedAt_onDiscovered identifier name rssi meshId nowMs other
  have hgraph : ∀ other,
      (m.onBleDiscovered identifier name rssi meshId nowMs).connectionGraph.isConnectedAt other =
        m.connectionGraph.isConnectedAt other := by
    intro other
    unfold onBleDiscovered
    dsimp only
    split
    · rfl
    · exact ConnectionStateGraph.isConnectedAt_onDiscovered ..
  cases hgone : m.peerManager.displacedBy identifier name meshId with
  | none =>
      refine iff_of_true (fun other => ?_) (fun gone hnone => nomatch hnone)
      rw [htable, hgraph, hgone, if_neg (by simp)]
      exact hagree other
  | some gone =>
      rw [forall_mem_some, hagree gone, eq_comm]
      refine connectionsAgree_iff_at hagree gone (fun other => ?_) (fun other => ?_)
      · rw [htable, hgone]
        exact if_congr (by rw [Option.some.injEq, eq_comm]) rfl rfl
      · rw [hgraph]
        split
        · rename_i hother
          rw [hother]
        · rfl

section Connected

variable {identifier : String} {node : NodeId}
  (hknown : m.peerManager.getNodeId identifier = some node) (nowMs : UInt64)
include hknown

theorem onBleConnected_eq : m.onBleConnected identifier nowMs =
    ({ m with
        peerManager := (m.peerManager.onConnected identifier nowMs).1
        connectionGraph := m.connectionGraph.onConnected node nowMs } :
      PeatMesh D).registerPeerForDelta node := by
  unfold onBleConnected PeerManager.onConnected
  rw [hknown]

theorem table_onBleConnected (other : NodeId) :
    (m.onBleConnected identifier nowMs).peerManager.isConnectedAt other =
      if other = node then m.peerManager.isTracked node
      else m.peerManager.isConnectedAt other := by
  rw [onBleConnected_eq hknown]
  exact m.peerManager.isConnectedAt_onConnected hknown nowMs other

theorem agree_onBleConnected (hagree : m.ConnectionsAgree) :
    (m.onBleConnected identifier nowMs).ConnectionsAgree ↔
      m.peerManager.isTracked node = m.connectionGraph.isKnown node := by
  refine connectionsAgree_iff_at hagree node (table_onBleConnected hknown nowMs) (fun other => ?_)
  rw [onBleConnected_eq hknown]
  exact m.connectionGraph.isConnectedAt_onConnected node other nowMs

end Connected

/-- A node that is gone is gone from both. -/
theorem agree_dropConnection (hagree : m.ConnectionsAgree) {manager : PeerManager} (node : NodeId)
    (hmanager : manager = m.peerManager.disconnect node) (reason : DisconnectReason)
    (nowMs : UInt64) :
    (({ m with peerManager := manager } : PeatMesh D).dropConnection node reason
      nowMs).ConnectionsAgree := by
  subst hmanager
  refine (connectionsAgree_iff_at hagree node (fun other => ?_) (fun other => ?_)).mpr (Eq.refl false)
  · exact m.peerManager.isConnectedAt_disconnect node other
  · exact m.connectionGraph.isConnectedAt_onDisconnected node other reason nowMs

theorem agree_onBleDisconnected (hagree : m.ConnectionsAgree) (identifier : String)
    (reason : DisconnectReason) (nowMs : UInt64) :
    (m.onBleDisconnected identifier reason nowMs).ConnectionsAgree := by
  unfold onBleDisconnected PeerManager.onDisconnected
  cases m.peerManager.getNodeId identifier with
  | none => exact hagree
  | some node => exact agree_dropConnection hagree node rfl reason nowMs

theorem agree_onPeerDisconnected (hagree : m.ConnectionsAgree) (node : NodeId)
    (reason : DisconnectReason) (nowMs : UInt64) :
    (m.onPeerDisconnected node reason nowMs).ConnectionsAgree := by
  unfold onPeerDisconnected
  dsimp only
  split
  · exact agree_dropConnection hagree node rfl reason nowMs
  · -- the node is not in the table, so it is connected in neither
    rename_i hunknown
    intro other
    refine Eq.trans ?_ (hagree other)
    refine (m.peerManager.isConnectedAt_disconnect node other).trans ?_
    split
    · rename_i hother
      subst hother
      have hgone : m.peerManager.peers[other]? = none := by
        rw [← Option.not_isSome_iff_eq_none, ← Std.ExtTreeMap.contains_eq_isSome_getElem?]
        exact hunknown
      rw [PeerManager.isConnectedAt, hgone]
      rfl
    · rfl

theorem agree_maintain (hagree : m.ConnectionsAgree) (nowMs : UInt64) :
    ((m.maintain nowMs).syncDue nowMs).1.ConnectionsAgree ↔ (m.cleanupDue nowMs = true →
      ∀ entry ∈ m.peerManager.peers.toList,
        entry.2.isStale nowMs m.peerManager.config.peerTimeoutMs = true →
          entry.2.isConnected = false) := by
  rw [((m.maintain nowMs).samePeers_syncDue nowMs).connectionsAgree_iff]
  cases hdue : m.cleanupDue nowMs with
  | false =>
      rw [m.maintain_of_not_due nowMs hdue]
      exact iff_of_true hagree fun h => nomatch h
  | true =>
      rw [m.maintain_of_due nowMs hdue]
      refine Iff.trans ?_ (forall_prop_of_true rfl).symm
      have hgraph (node) := m.connectionGraph.isConnectedAt_tick_cleanupLost node
        m.config.peerConfig.peerTimeoutMs nowMs
      constructor
      · rintro hafter ⟨node, peer⟩ hentry hstale
        have hpeer := Std.ExtTreeMap.mem_toList_iff_getElem?_eq_some.mp hentry
        have hswept := (m.peerManager.isConnectedAt_cleanupStale nowMs node).symm.trans
          ((hafter node).trans ((hgraph node).trans (hagree node).symm))
        rw [PeerManager.isStale, PeerManager.isConnectedAt, hpeer, Option.any_some,
          Option.any_some, if_pos hstale] at hswept
        exact hswept.symm
      · intro hall node
        refine (m.peerManager.isConnectedAt_cleanupStale nowMs node).trans (Eq.trans ?_
          ((hagree node).trans (hgraph node).symm))
        split
        · rename_i hstale
          obtain ⟨peer, hpeer, hpeerStale⟩ := (Option.any_eq_true ..).mp hstale
          rw [PeerManager.isConnectedAt, hpeer, Option.any_some]
          exact (hall (node, peer) (Std.ExtTreeMap.mem_toList_iff_getElem?_eq_some.mpr hpeer)
            hpeerStale).symm
        · rfl

theorem agree_connected (hagree : m.ConnectionsAgree) (identifier : String) (nowMs : UInt64) :
    (m.act crypto (.connected identifier nowMs)).ConnectionsAgree ∧
        m.AnnouncesConnected crypto (.connected identifier nowMs) ↔
      m.KeepsAgreement crypto (.connected identifier nowMs) := by
  change (m.onBleConnected identifier nowMs).ConnectionsAgree ∧
      (∀ node ∈ m.peerManager.getNodeId identifier,
        (m.onBleConnected identifier nowMs).peerManager.isConnectedAt node = true) ↔
    ∀ node ∈ m.peerManager.getNodeId identifier,
      m.peerManager.isTracked node = true ∧ m.connectionGraph.isKnown node = true
  cases hknown : m.peerManager.getNodeId identifier with
  | none =>
      refine iff_of_true ⟨?_, fun _ hnone => nomatch hnone⟩ fun _ hnone => nomatch hnone
      unfold onBleConnected PeerManager.onConnected
      rw [hknown]
      exact hagree
  | some node =>
      rw [forall_mem_some, forall_mem_some, table_onBleConnected hknown, if_pos rfl,
        agree_onBleConnected hknown nowMs hagree]
      constructor
      · rintro ⟨heq, htracked⟩
        exact ⟨htracked, heq.symm.trans htracked⟩
      · rintro ⟨htracked, hnode⟩
        exact ⟨htracked.trans hnode.symm, htracked⟩

theorem agree_incomingConnection (hagree : m.ConnectionsAgree) (identifier : String)
    (node : NodeId) (nowMs : UInt64) :
    (m.act crypto (.incomingConnection identifier node nowMs)).ConnectionsAgree ∧
        m.AnnouncesConnected crypto (.incomingConnection identifier node nowMs) ↔
      m.KeepsAgreement crypto (.incomingConnection identifier node nowMs) := by
  change (m.registerSource identifier node nowMs).ConnectionsAgree ∧
      (∀ other ∈ some node,
        (m.registerSource identifier node nowMs).peerManager.isConnectedAt other = true) ↔
    if m.peerManager.accepts node then
      m.peerManager.isTracked node = true → m.connectionGraph.isKnown node = true
    else m.peerManager.isConnectedAt node = true
  rw [forall_mem_some, agree_registerSource hagree, table_registerSource, if_pos rfl]
  cases m.peerManager.accepts node with
  | true => exact and_iff_left (Bool.true_or _)
  | false =>
      rw [if_neg Bool.false_ne_true, if_neg Bool.false_ne_true, Bool.false_or]
      exact ⟨And.right, fun h => ⟨fun _ => h, h⟩⟩

theorem agree_data (hagree : m.ConnectionsAgree) (identifier : String) (data : Bytes)
    (nowMs : UInt64) :
    (m.onBleData crypto identifier data nowMs).1.ConnectionsAgree ↔
      m.KeepsAgreement crypto (.data identifier data nowMs) := by
  unfold KeepsAgreement
  dsimp only
  rcases m.onBleData_cases crypto identifier nowMs data with
    ⟨hauthor, hsame⟩ | ⟨author, base, hauthor, hbase, hregistered⟩
  · rw [hauthor]
    exact iff_of_true (hsame.connectionsAgree_iff.mpr hagree) fun _ hnone => nomatch hnone
  · rw [hauthor, forall_mem_some, hregistered,
      agree_registerSource (hbase.connectionsAgree_iff.mpr hagree), hbase.accepts_eq,
      hbase.isTracked_eq, hbase.isKnown_eq, hbase.table_eq]

/-- An action keeps the agreement and announces truly exactly if it meets its condition. -/
theorem agree_act (hagree : m.ConnectionsAgree) (action : Action D) :
    (m.act crypto action).ConnectionsAgree ∧ m.AnnouncesConnected crypto action ↔
      m.KeepsAgreement crypto action := by
  have hsilent : m.announcesConnected action = none → m.AnnouncesConnected crypto action := by
    intro hnone node hnode
    rw [hnone] at hnode
    cases hnode
  cases hquiet : isQuiet action with
  | true =>
      have hsame := samePeers_act crypto hquiet m
      refine iff_of_true ⟨hsame.connectionsAgree_iff.mpr hagree, hsilent ?_⟩ ?_
      · cases action <;> first | rfl | cases hquiet
      · cases action <;> trivial
  | false =>
      cases action with
      | discovered identifier name rssi meshId nowMs =>
          exact (and_iff_left (hsilent rfl)).trans (agree_onBleDiscovered hagree ..)
      | connected identifier nowMs => exact agree_connected crypto hagree identifier nowMs
      | disconnected identifier reason nowMs =>
          have hafter := agree_onBleDisconnected hagree identifier reason nowMs
          exact iff_of_true ⟨hafter, hsilent rfl⟩ trivial
      | peerDisconnected node reason nowMs =>
          have hafter := agree_onPeerDisconnected hagree node reason nowMs
          exact iff_of_true ⟨hafter, hsilent rfl⟩ trivial
      | incomingConnection identifier node nowMs =>
          exact agree_incomingConnection crypto hagree identifier node nowMs
      | data identifier data nowMs =>
          exact (and_iff_left (hsilent rfl)).trans (agree_data crypto hagree identifier data nowMs)
      | tick nonce nowMs =>
          exact (and_iff_left (hsilent rfl)).trans (agree_maintain hagree nowMs)
      | tickWithPeerDeltas nonce nowMs =>
          exact (and_iff_left (hsilent rfl)).trans (agree_maintain hagree nowMs)
      | _ => cases hquiet

end Steps

/-- All along a run the two records agree and announcements are true exactly if every action
meets its condition. -/
theorem agree_iff_keepsAgreement (config : PeatMeshConfig) (actions : List (Action D)) :
    (∀ front, front <+: actions → (run crypto config front).ConnectionsAgree) ∧
        LoggedRun.Along (act crypto) (AnnouncesConnected crypto) (new crypto config) actions ↔
      LoggedRun.Along (act crypto) (KeepsAgreement crypto) (new crypto config) actions := by
  have hstart : (new crypto config : PeatMesh D).ConnectionsAgree := by
    intro node
    change (∅ : Map NodeId PeatPeer)[node]?.any PeatPeer.isConnected =
      (∅ : Map NodeId PeerConnectionState)[node]?.any fun p => p.state.isConnected
    rw [Std.ExtTreeMap.getElem?_empty, Std.ExtTreeMap.getElem?_empty]
    rfl
  exact @LoggedRun.forall_step_iff_along _ _ (act crypto) (fun _ => True) ConnectionsAgree
    (AnnouncesConnected crypto) (KeepsAgreement crypto) (new crypto config) actions trivial hstart
    (fun _ _ _ => trivial) (fun _ action _ hagree => agree_act crypto hagree action)

/-- A peer falls silent while it is connected. -/
def abandoned : PeatMesh Unit :=
  run .unavailable (PeatMeshConfig.new 0x22222222 "BRAVO-1" "TEST")
    [.incomingConnection "central" 0x11111111 1000, .tick (Vector.replicate 12 0) 101000]

/-- A node that takes in no peers. -/
def crowded : PeatMesh Unit :=
  run .unavailable
    { PeatMeshConfig.new 0x22222222 "BRAVO-1" "TEST" with
      peerConfig := { PeerManagerConfig.withMeshId "TEST" with maxPeers := 0 } } []

/-- The sweep takes the silent peer out of the table and leaves it connected in the graph. A
connection that is refused is announced all the same. -/
theorem abandoned_not_agree :
    abandoned.peerManager.isConnectedAt 0x11111111 = false ∧
      abandoned.connectionGraph.isConnectedAt 0x11111111 = true ∧
      ¬ abandoned.ConnectionsAgree ∧
      ¬ crowded.AnnouncesConnected .unavailable (.incomingConnection "central" 0x11111111 1000) := by
  have htable : abandoned.peerManager.isConnectedAt 0x11111111 = false := by decide +kernel
  have hgraph : abandoned.connectionGraph.isConnectedAt 0x11111111 = true := by decide +kernel
  refine ⟨htable, hgraph, fun hagree => ?_, fun hannounced => ?_⟩
  · have hnode := hagree 0x11111111
    rw [htable, hgraph] at hnode
    cases hnode
  · have hrefused : (crowded.act .unavailable
        (.incomingConnection "central" 0x11111111 1000)).peerManager.isConnectedAt 0x11111111 =
          false := by decide +kernel
    rw [hannounced 0x11111111 rfl] at hrefused
    cases hrefused

end PeatMesh

end PeatBtle
