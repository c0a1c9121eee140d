import PeatBtle.Mesh.Agreement

/-!
# Silent and active peers

The sweep goes by the time a peer was last seen. Advertisements, connections and
direct documents under an unknown identifier set it, documents from a known peer
do not.
-/

namespace PeatBtle

open Wire MapMerge

/-! ## When a peer was last seen -/

namespace PeerManager

/-- Every peer left was last seen when it was before, but for one that is seen now. -/
def SeenAs (sighting : Option (NodeId × UInt64)) (m after : PeerManager) : Prop :=
  ∀ (node : NodeId) (peer : PeatPeer), after.peers[node]? = some peer →
    sighting = some (node, peer.lastSeenMs) ∨
      ((∀ t, sighting ≠ some (node, t)) ∧
        ∃ old, m.peers[node]? = some old ∧ old.lastSeenMs = peer.lastSeenMs)

section Seen

variable {m after : PeerManager}

theorem seenAs_of_kept
    (h : ∀ (node : NodeId) (peer : PeatPeer), after.peers[node]? = some peer →
      ∃ old, m.peers[node]? = some old ∧ old.lastSeenMs = peer.lastSeenMs) :
    SeenAs none m after :=
  fun node peer hpeer => Or.inr ⟨fun _ => nofun, h node peer hpeer⟩

theorem seenAs_of_eq (h : after.peers = m.peers) : SeenAs none m after :=
  seenAs_of_kept fun _ peer hpeer => ⟨peer, h ▸ hpeer, rfl⟩

/-- One peer is seen, the others are kept or dropped. -/
theorem seenAs_of_touched {node : NodeId} {nowMs : UInt64}
    (hself : ∀ peer, after.peers[node]? = some peer → peer.lastSeenMs = nowMs)
    (hothers : ∀ (other : NodeId) (peer : PeatPeer), node ≠ other →
      after.peers[other]? = some peer → m.peers[other]? = some peer) :
    SeenAs (some (node, nowMs)) m after := by
  intro other peer hpeer
  by_cases hnode : node = other
  · subst hnode
    exact Or.inl (by rw [hself peer hpeer])
  · refine Or.inr ⟨fun t heq => hnode (Prod.mk.inj (Option.some.inj heq)).1, ?_⟩
    exact ⟨peer, hothers other peer hnode hpeer, rfl⟩

theorem displaced_some {identifier : String} {node other : NodeId} {peer : PeatPeer}
    (h : (m.displaced identifier node)[other]? = some peer) : m.peers[other]? = some peer := by
  rw [displaced_lookup] at h
  split at h
  · cases h
  · exact h

theorem seenAs_onDiscovered (identifier : String) (name : Option String) (rssi : Int8)
    (meshId : Option String) (nowMs : UInt64) :
    SeenAs ((m.onDiscovered identifier name rssi meshId nowMs).2.map fun found => (found.1, nowMs))
      m (m.onDiscovered identifier name rssi meshId nowMs).1 := by
  by_cases haccepted : m.config.matchesMesh meshId = true ∧
      ∃ node, parseNodeIdFromName name = some node ∧ node ≠ m.nodeId
  · obtain ⟨hmesh, node, hname, hother⟩ := haccepted
    rw [m.onDiscovered_eq hmesh hname hother, m.onDiscovered_found hmesh hname hother]
    by_cases hroom : m.hasRoomFor (m.displaced identifier node) node = true
    · rw [if_pos hroom, if_pos hroom]
      refine seenAs_of_touched ?_ ?_
      · intro peer hpeer
        dsimp only at hpeer
        rw [getElem?_alter_eq, if_pos rfl] at hpeer
        rw [← Option.some.inj hpeer]
        rfl
      · intro other peer hnode hpeer
        dsimp only at hpeer
        rw [getElem?_alter_eq, if_neg hnode] at hpeer
        exact displaced_some hpeer
    · rw [if_neg hroom, if_neg hroom]
      exact seenAs_of_kept fun other peer hpeer => ⟨peer, displaced_some hpeer, rfl⟩
  · rw [m.onDiscovered_ignored haccepted]
    exact seenAs_of_eq rfl

theorem seenAs_onConnected (identifier : String) (nowMs : UInt64) :
    SeenAs ((m.getNodeId identifier).map fun node => (node, nowMs)) m
      (m.onConnected identifier nowMs).1 := by
  unfold onConnected
  cases m.getNodeId identifier with
  | none => exact seenAs_of_eq rfl
  | some node =>
      refine seenAs_of_touched ?_ ?_
      · intro peer hpeer
        dsimp only at hpeer
        rw [getElem?_modify_eq, if_pos rfl] at hpeer
        obtain ⟨old, -, rfl⟩ := Option.map_eq_some_iff.mp hpeer
        rfl
      · intro other peer hother hpeer
        dsimp only at hpeer
        rwa [getElem?_modify_eq, if_neg hother] at hpeer

theorem seenAs_disconnect (node : NodeId) : SeenAs none m (m.disconnect node) := by
  refine seenAs_of_kept fun other peer hpeer => ?_
  unfold disconnect at hpeer
  dsimp only at hpeer
  rw [getElem?_modify_eq] at hpeer
  split at hpeer
  · rename_i hnode
    obtain ⟨old, hold, rfl⟩ := Option.map_eq_some_iff.mp hpeer
    exact ⟨old, hnode ▸ hold, rfl⟩
  · exact ⟨peer, hpeer, rfl⟩

theorem seenAs_onIncomingConnection (identifier : String) (node : NodeId) (nowMs : UInt64) :
    SeenAs (if m.accepts node then some (node, nowMs) else none) m
      (m.onIncomingConnection identifier node nowMs).1 := by
  unfold onIncomingConnection accepts
  by_cases hself : node = m.nodeId
  · rw [if_pos hself, if_neg (by simp [hself])]
    exact seenAs_of_eq rfl
  · rw [if_neg hself]
    by_cases hroom : m.hasRoomFor m.peers node = true
    · rw [if_pos hroom, if_pos (by simp [hself, hroom])]
      refine seenAs_of_touched ?_ ?_
      · intro peer hpeer
        dsimp only at hpeer
        rw [getElem?_insert_eq, if_pos rfl] at hpeer
        rw [← Option.some.inj hpeer]
        rfl
      · intro other peer hother hpeer
        dsimp only at hpeer
        rwa [getElem?_insert_eq, if_neg hother] at hpeer
    · rw [if_neg hroom, if_neg (by simp [hroom])]
      exact seenAs_of_eq rfl

theorem seenAs_cleanupStale (nowMs : UInt64) : SeenAs none m (m.cleanupStale nowMs).1 := by
  refine seenAs_of_kept fun node peer hpeer => ?_
  rw [cleanupStale_peers] at hpeer
  split at hpeer
  · cases hpeer
  · exact ⟨peer, hpeer, rfl⟩

end Seen

end PeerManager

/-! ## What the graph says of connected peers -/

/-- Neither disconnected nor lost. -/
def PeerConnectionState.Standing (p : PeerConnectionState) : Prop :=
  p.state ≠ .disconnected ∧ p.state ≠ .lost

theorem PeerConnectionState.Standing.seenAgain {p : PeerConnectionState} (h : p.Standing)
    (name meshId : Option String) (rssi : Int8) (nowMs : UInt64) :
    (p.seenAgain name meshId rssi nowMs).Standing := by
  unfold Standing PeerConnectionState.seenAgain
  rw [if_neg h.2]
  exact h

theorem PeerConnectionState.standing_setConnected (p : PeerConnectionState) (nowMs : UInt64) :
    (p.setConnected nowMs).Standing := ⟨by simp [setConnected], by simp [setConnected]⟩

namespace ConnectionStateGraph

variable {g : ConnectionStateGraph} {node other : NodeId} {p : PeerConnectionState}

theorem standing_onConnected {nowMs : UInt64}
    (h : (g.onConnected node nowMs).peers[node]? = some p) : p.Standing := by
  unfold onConnected at h
  dsimp only at h
  rw [getElem?_modify_eq, if_pos rfl] at h
  obtain ⟨old, -, rfl⟩ := Option.map_eq_some_iff.mp h
  exact old.standing_setConnected nowMs

theorem peers_onConnected_of_ne {nowMs : UInt64} (hother : node ≠ other) :
    (g.onConnected node nowMs).peers[other]? = g.peers[other]? := by
  unfold onConnected
  dsimp only
  rw [getElem?_modify_eq, if_neg hother]

theorem peers_onDiscovered_of_ne {identifier : String} {name meshId : Option String} {rssi : Int8}
    {nowMs : UInt64} (hother : node ≠ other) :
    (g.onDiscovered node identifier name meshId rssi nowMs).peers[other]? = g.peers[other]? := by
  unfold onDiscovered
  dsimp only
  rw [getElem?_insert_eq, if_neg hother]

theorem standing_onDiscovered {identifier : String} {name meshId : Option String} {rssi : Int8}
    {nowMs : UInt64} (hbefore : ∀ old ∈ g.peers[node]?, old.Standing)
    (h : (g.onDiscovered node identifier name meshId rssi nowMs).peers[node]? = some p) :
    p.Standing := by
  unfold onDiscovered at h
  dsimp only at h
  rw [getElem?_insert_eq, if_pos rfl] at h
  rw [← Option.some.inj h]
  cases hold : g.peers[node]? with
  | none =>
      refine PeerConnectionState.Standing.seenAgain ?_ name meshId rssi nowMs
      exact ⟨by simp [PeerConnectionState.newDiscovered], by simp [PeerConnectionState.newDiscovered]⟩
  | some old => exact (hbefore old hold).seenAgain name meshId rssi nowMs

theorem not_overdue (h : p.Standing) (nowMs : UInt64) : g.overdue nowMs p = false := by
  unfold overdue
  rw [decide_eq_false h.1, Bool.false_and]

/-- Maintenance leaves a standing peer as it is. -/
theorem standing_tick_cleanupLost {olderThanMs nowMs : UInt64}
    (hbefore : ∀ old ∈ g.peers[node]?, old.Standing)
    (h : ((g.tick nowMs).1.cleanupLost olderThanMs nowMs).peers[node]? = some p) : p.Standing := by
  unfold tick cleanupLost at h
  dsimp only at h
  rw [Std.ExtTreeMap.getElem?_filter', Std.ExtTreeMap.getElem?_map] at h
  have hkept := Option.eq_some_of_filter_eq_some h
  obtain ⟨old, hold, heq⟩ := Option.map_eq_some_iff.mp hkept
  rw [if_neg (by rw [not_overdue (hbefore old hold) nowMs]; exact Bool.false_ne_true)] at heq
  rw [← heq]
  exact hbefore old hold

/-- A standing peer is not declared lost. -/
theorem not_mem_tick (nowMs : UInt64) (hbefore : ∀ old ∈ g.peers[node]?, old.Standing) :
    node ∉ (g.tick nowMs).2 := by
  intro hmem
  obtain ⟨⟨lost, old⟩, hentry, rfl⟩ := List.mem_map.mp hmem
  obtain ⟨hlisted, hoverdue⟩ := List.mem_filter.mp hentry
  have hold := Std.ExtTreeMap.mem_toList_iff_getElem?_eq_some.mp hlisted
  rw [not_overdue (hbefore old hold) nowMs] at hoverdue
  cases hoverdue

end ConnectionStateGraph

namespace PeatMesh

variable {D : Type} (crypto : Crypto)

/-- No peer that is connected in the table counts as disconnected or lost in the graph. -/
def Upright (m : PeatMesh D) : Prop :=
  ∀ node, m.peerManager.isConnectedAt node = true → ∀ p ∈ m.connectionGraph.peers[node]?, p.Standing

section Upright

variable {m after : PeatMesh D}

theorem SamePeers.upright (hsame : SamePeers m after) (h : m.Upright) : after.Upright := by
  intro node hconnected p hp
  rw [hsame.table_eq] at hconnected
  rw [hsame.graph] at hp
  exact h node hconnected p hp

/-- What happens to one node only has to be right for it. -/
theorem Upright.of_at (h : m.Upright) (node : NodeId)
    (htable : ∀ other, node ≠ other → after.peerManager.isConnectedAt other = true →
      m.peerManager.isConnectedAt other = true)
    (hgraph : ∀ other, node ≠ other →
      after.connectionGraph.peers[other]? = m.connectionGraph.peers[other]?)
    (hself : after.peerManager.isConnectedAt node = true →
      ∀ p ∈ after.connectionGraph.peers[node]?, p.Standing) : after.Upright := by
  intro other hconnected p hp
  by_cases hnode : node = other
  · subst hnode
    exact hself hconnected p hp
  · rw [hgraph other hnode] at hp
    exact h other (htable other hnode hconnected) p hp

theorem Upright.registerSource (h : m.Upright) (identifier : String) (node : NodeId)
    (nowMs : UInt64) : (m.registerSource identifier node nowMs).Upright := by
  refine h.of_at node ?_ ?_ ?_
  · intro other hnode hconnected
    rwa [table_registerSource, if_neg (Ne.symm hnode)] at hconnected
  · intro other hnode
    unfold PeatMesh.registerSource
    dsimp only
    rw [ConnectionStateGraph.peers_onConnected_of_ne hnode]
    split
    · exact ConnectionStateGraph.peers_onDiscovered_of_ne hnode
    · rfl
  · intro _ p hp
    exact ConnectionStateGraph.standing_onConnected hp

theorem Upright.onBleDiscovered (h : m.Upright) (identifier : String) (name : Option String)
    (rssi : Int8) (meshId : Option String) (nowMs : UInt64) :
    (m.onBleDiscovered identifier name rssi meshId nowMs).Upright := by
  have hfewer : ∀ other,
      (m.peerManager.onDiscovered identifier name rssi meshId nowMs).1.isConnectedAt other = true →
        m.peerManager.isConnectedAt other = true := by
    intro other hconnected
    rw [PeerManager.isConnectedAt_onDiscovered] at hconnected
    split at hconnected
    · cases hconnected
    · exact hconnected
  unfold PeatMesh.onBleDiscovered
  dsimp only
  split
  · exact fun other hconnected p hp => h other (hfewer other hconnected) p hp
  · rename_i node _ _
    refine h.of_at node (fun other _ => hfewer other)
      (fun other hnode => ConnectionStateGraph.peers_onDiscovered_of_ne hnode) ?_
    intro hconnected p hp
    exact ConnectionStateGraph.standing_onDiscovered (h node (hfewer node hconnected)) hp

theorem Upright.onBleConnected (h : m.Upright) (identifier : String) (nowMs : UInt64) :
    (m.onBleConnected identifier nowMs).Upright := by
  cases hknown : m.peerManager.getNodeId identifier with
  | none =>
      unfold PeatMesh.onBleConnected PeerManager.onConnected
      rw [hknown]
      exact h
  | some node =>
      refine h.of_at node ?_ ?_ ?_
      · intro other hnode hconnected
        rwa [table_onBleConnected hknown, if_neg (Ne.symm hnode)] at hconnected
      · intro other hnode
        rw [onBleConnected_eq hknown]
        exact ConnectionStateGraph.peers_onConnected_of_ne hnode
      · intro _ p hp
        rw [onBleConnected_eq hknown] at hp
        exact ConnectionStateGraph.standing_onConnected hp

theorem Upright.dropConnection (h : m.Upright) {manager : PeerManager} (node : NodeId)
    (hmanager : manager = m.peerManager.disconnect node) (reason : DisconnectReason)
    (nowMs : UInt64) :
    (({ m with peerManager := manager } : PeatMesh D).dropConnection node reason nowMs).Upright := by
  subst hmanager
  have htable := m.peerManager.isConnectedAt_disconnect node
  refine h.of_at node ?_ ?_ ?_
  · intro other hnode hconnected
    exact (if_neg (Ne.symm hnode)).symm.trans ((htable other).symm.trans hconnected)
  · intro other hnode
    change (m.connectionGraph.peers.modify node _)[other]? = _
    rw [getElem?_modify_eq, if_neg hnode]
  · intro hconnected
    have hgone := (htable node).symm.trans hconnected
    rw [if_pos rfl] at hgone
    cases hgone

theorem Upright.onBleDisconnected (h : m.Upright) (identifier : String)
    (reason : DisconnectReason) (nowMs : UInt64) :
    (m.onBleDisconnected identifier reason nowMs).Upright := by
  unfold PeatMesh.onBleDisconnected PeerManager.onDisconnected
  cases m.peerManager.getNodeId identifier with
  | none => exact h
  | some node => exact h.dropConnection node rfl reason nowMs

theorem Upright.onPeerDisconnected (h : m.Upright) (node : NodeId) (reason : DisconnectReason)
    (nowMs : UInt64) : (m.onPeerDisconnected node reason nowMs).Upright := by
  unfold PeatMesh.onPeerDisconnected
  dsimp only
  split
  · exact h.dropConnection node rfl reason nowMs
  · intro other hconnected p hp
    have hafter := (m.peerManager.isConnectedAt_disconnect node other).symm.trans hconnected
    split at hafter
    · cases hafter
    · exact h other hafter p hp

theorem Upright.onBleData (h : m.Upright) (identifier : String) (data : Bytes) (nowMs : UInt64) :
    (m.onBleData crypto identifier data nowMs).1.Upright := by
  rcases m.onBleData_cases crypto identifier nowMs data with
    ⟨-, hsame⟩ | ⟨author, base, -, hbase, hregistered⟩
  · exact hsame.upright h
  · rw [hregistered]
    exact (hbase.upright h).registerSource identifier author nowMs

theorem Upright.maintain (h : m.Upright) (nowMs : UInt64) :
    ((m.maintain nowMs).syncDue nowMs).1.Upright := by
  refine ((m.maintain nowMs).samePeers_syncDue nowMs).upright ?_
  cases hdue : m.cleanupDue nowMs with
  | false => rwa [m.maintain_of_not_due nowMs hdue]
  | true =>
      rw [m.maintain_of_due nowMs hdue]
      intro node hconnected p hp
      have hswept := (m.peerManager.isConnectedAt_cleanupStale nowMs node).symm.trans hconnected
      split at hswept
      · cases hswept
      · exact ConnectionStateGraph.standing_tick_cleanupLost (h node hswept) hp

/-- Whatever a node goes through, its connected peers stand in the graph. -/
theorem Upright.act (h : m.Upright) (action : Action D) : (m.act crypto action).Upright := by
  cases hquiet : isQuiet action with
  | true => exact (samePeers_act crypto hquiet m).upright h
  | false =>
      cases action with
      | discovered identifier name rssi meshId nowMs =>
          exact h.onBleDiscovered identifier name rssi meshId nowMs
      | connected identifier nowMs => exact h.onBleConnected identifier nowMs
      | disconnected identifier reason nowMs => exact h.onBleDisconnected identifier reason nowMs
      | peerDisconnected node reason nowMs => exact h.onPeerDisconnected node reason nowMs
      | incomingConnection identifier node nowMs => exact h.registerSource identifier node nowMs
      | data identifier data nowMs => exact h.onBleData crypto identifier data nowMs
      | tick nonce nowMs => exact h.maintain nowMs
      | tickWithPeerDeltas nonce nowMs => exact h.maintain nowMs
      | _ => cases hquiet

end Upright

/-! ## The tick and the active peers -/

/-- The nodes that the observers are told are lost. -/
def lostPeers (m : PeatMesh D) (nowMs : UInt64) : List NodeId :=
  if m.cleanupDue nowMs then
    let removed := (m.peerManager.cleanupStale nowMs).2
    removed ++ (m.connectionGraph.tick nowMs).2.filter fun node => !removed.contains node
  else []

/-- A tick's clock. -/
def tickedAt : Action D → Option UInt64
  | .tick _ nowMs | .tickWithPeerDeltas _ nowMs => some nowMs
  | _ => none

/-- The peer that an action has seen, as the table goes by it. -/
def sighting (m : PeatMesh D) : Action D → Option (NodeId × UInt64)
  | .discovered identifier name rssi meshId nowMs =>
      (m.peerManager.onDiscovered identifier name rssi meshId nowMs).2.map fun found =>
        (found.1, nowMs)
  | .connected identifier nowMs => (m.peerManager.getNodeId identifier).map fun node => (node, nowMs)
  | .incomingConnection _ node nowMs =>
      if m.peerManager.accepts node then some (node, nowMs) else none
  | .data _ data nowMs => (m.directAuthor crypto data).bind fun author =>
      if m.peerManager.accepts author then some (author, nowMs) else none
  | _ => none

/-- The peer that an accepted document came from. -/
def delivery (m : PeatMesh D) : Action D → Option (NodeId × UInt64)
  | .dataReceived identifier data nowMs =>
      if (m.onBleDataReceived crypto identifier data nowMs).2.isSome then
        (m.peerManager.getNodeId identifier).map fun node => (node, nowMs)
      else none
  | .dataReceivedFromNode node data nowMs =>
      if (m.onBleDataReceivedFromNode crypto node data nowMs).2.isSome then some (node, nowMs)
      else none
  | _ => none

theorem peers_maintain (m : PeatMesh D) (nowMs : UInt64) :
    ((m.maintain nowMs).syncDue nowMs).1.peerManager.peers =
      if m.cleanupDue nowMs then (m.peerManager.cleanupStale nowMs).1.peers
      else m.peerManager.peers := by
  rw [((m.maintain nowMs).samePeers_syncDue nowMs).peers]
  cases hdue : m.cleanupDue nowMs with
  | true => rw [m.maintain_of_due nowMs hdue, if_pos rfl]
  | false => rw [m.maintain_of_not_due nowMs hdue, if_neg Bool.false_ne_true]

theorem seenAs_maintain (m : PeatMesh D) (nowMs : UInt64) :
    PeerManager.SeenAs none m.peerManager ((m.maintain nowMs).syncDue nowMs).1.peerManager := by
  unfold PeerManager.SeenAs
  rw [peers_maintain]
  split
  · exact PeerManager.seenAs_cleanupStale nowMs
  · exact PeerManager.seenAs_of_eq rfl

theorem seenAs_onBleDisconnected (m : PeatMesh D) (identifier : String)
    (reason : DisconnectReason) (nowMs : UInt64) :
    PeerManager.SeenAs none m.peerManager
      (m.onBleDisconnected identifier reason nowMs).peerManager := by
  unfold onBleDisconnected PeerManager.onDisconnected
  cases m.peerManager.getNodeId identifier with
  | none => exact PeerManager.seenAs_of_eq rfl
  | some node => exact PeerManager.seenAs_disconnect node

theorem seenAs_onPeerDisconnected (m : PeatMesh D) (node : NodeId) (reason : DisconnectReason)
    (nowMs : UInt64) :
    PeerManager.SeenAs none m.peerManager
      (m.onPeerDisconnected node reason nowMs).peerManager := by
  unfold onPeerDisconnected
  dsimp only
  split
  · exact PeerManager.seenAs_disconnect node
  · exact PeerManager.seenAs_disconnect node

theorem seenAs_onBleData (m : PeatMesh D) (identifier : String) (data : Bytes) (nowMs : UInt64) :
    PeerManager.SeenAs (m.sighting crypto (.data identifier data nowMs)) m.peerManager
      (m.onBleData crypto identifier data nowMs).1.peerManager := by
  unfold sighting
  dsimp only
  rcases m.onBleData_cases crypto identifier nowMs data with
    ⟨hauthor, hsame⟩ | ⟨author, base, hauthor, hbase, hregistered⟩
  · rw [hauthor]
    exact PeerManager.seenAs_of_eq hsame.peers
  · rw [hauthor, hregistered, Option.bind_some, ← hbase.accepts_eq]
    unfold PeerManager.SeenAs
    rw [← hbase.peers]
    exact PeerManager.seenAs_onIncomingConnection identifier author nowMs

/-- Only sightings change when a peer was last seen. -/
theorem seenAs_act (m : PeatMesh D) (action : Action D) :
    PeerManager.SeenAs (m.sighting crypto action) m.peerManager
      (m.act crypto action).peerManager := by
  cases hquiet : isQuiet action with
  | true =>
      have hnone : m.sighting crypto action = none := by
        cases action <;> first | rfl | cases hquiet
      rw [hnone]
      exact PeerManager.seenAs_of_eq (samePeers_act crypto hquiet m).peers
  | false =>
      cases action with
      | discovered identifier name rssi meshId nowMs =>
          unfold sighting act
          dsimp only
          rw [peerManager_onBleDiscovered]
          exact PeerManager.seenAs_onDiscovered identifier name rssi meshId nowMs
      | connected identifier nowMs =>
          unfold sighting act
          dsimp only
          rw [peerManager_onBleConnected]
          exact PeerManager.seenAs_onConnected identifier nowMs
      | disconnected identifier reason nowMs =>
          exact m.seenAs_onBleDisconnected identifier reason nowMs
      | peerDisconnected node reason nowMs => exact m.seenAs_onPeerDisconnected node reason nowMs
      | incomingConnection identifier node nowMs =>
          exact PeerManager.seenAs_onIncomingConnection identifier node nowMs
      | data identifier data nowMs => exact m.seenAs_onBleData crypto identifier data nowMs
      | tick nonce nowMs => exact m.seenAs_maintain nowMs
      | tickWithPeerDeltas nonce nowMs => exact m.seenAs_maintain nowMs
      | _ => cases hquiet

/-- A node with the times at which each peer was last seen and last had a document accepted. -/
structure Journal (D : Type) where
  mesh : PeatMesh D
  seenAt : NodeId → Option UInt64
  acceptedAt : NodeId → Option UInt64

namespace Journal

def start (config : PeatMeshConfig) : Journal D :=
  ⟨PeatMesh.new crypto config, fun _ => none, fun _ => none⟩

def note (times : NodeId → Option UInt64) : Option (NodeId × UInt64) → NodeId → Option UInt64
  | some (node, nowMs), other => if other = node then some nowMs else times other
  | none, other => times other

def step (j : Journal D) (action : Action D) : Journal D where
  mesh := j.mesh.act crypto action
  seenAt := note j.seenAt (j.mesh.sighting crypto action)
  acceptedAt := note j.acceptedAt (j.mesh.delivery crypto action)

/-- Whether a time lies within the peer timeout. -/
def recent (j : Journal D) (nowMs time : UInt64) : Bool :=
  saturatingSub nowMs time ≤ j.mesh.peerManager.config.peerTimeoutMs

/-- A connected peer a document of which was accepted within the timeout. -/
def Active (j : Journal D) (nowMs : UInt64) (node : NodeId) : Prop :=
  j.mesh.peerManager.isConnectedAt node = true ∧
    ∃ time, j.acceptedAt node = some time ∧ j.recent nowMs time = true

/-- A tick leaves every active peer in the table and declares none lost. -/
def SparesActive (j : Journal D) (action : Action D) : Prop :=
  ∀ nowMs ∈ tickedAt action, ∀ node, j.Active nowMs node →
    (j.mesh.act crypto action).peerManager.isTracked node = true ∧
      node ∉ j.mesh.lostPeers nowMs

/-- When a tick sweeps, every active peer has also been advertised, connected or heard under an
unknown identifier within the timeout, or at time zero. -/
def SeenRecently (j : Journal D) (action : Action D) : Prop :=
  ∀ nowMs ∈ tickedAt action, j.mesh.cleanupDue nowMs = true → ∀ node, j.Active nowMs node →
    ∃ time, j.seenAt node = some time ∧ (time = 0 ∨ j.recent nowMs time = true)

/-- The journal agrees with the table. -/
structure Sound (j : Journal D) : Prop where
  upright : j.mesh.Upright
  seen : ∀ (node : NodeId) (peer : PeatPeer), j.mesh.peerManager.peers[node]? = some peer →
    j.seenAt node = some peer.lastSeenMs

variable {crypto} {j : Journal D}

theorem Sound.step (h : j.Sound) (action : Action D) : (j.step crypto action).Sound := by
  refine ⟨h.upright.act crypto action, fun node peer hpeer => ?_⟩
  have hseen := seenAs_act crypto j.mesh action node peer hpeer
  change note j.seenAt (j.mesh.sighting crypto action) node = _
  rcases hseen with hsighted | ⟨hother, old, hold, heq⟩
  · rw [hsighted, note, if_pos rfl]
  · rw [← heq, ← h.seen node old hold]
    cases hsighting : j.mesh.sighting crypto action with
    | none => rfl
    | some pair =>
        obtain ⟨seen, nowMs⟩ := pair
        rw [hsighting] at hother
        rw [note, if_neg]
        rintro rfl
        exact hother nowMs rfl

theorem isStale_eq_false_iff (peer : PeatPeer) (nowMs timeoutMs : UInt64) :
    peer.isStale nowMs timeoutMs = false ↔
      peer.lastSeenMs = 0 ∨ saturatingSub nowMs peer.lastSeenMs ≤ timeoutMs := by
  unfold PeatPeer.isStale
  split
  · rename_i hzero
    exact iff_of_true rfl (Or.inl hzero)
  · rename_i hseen
    rw [decide_eq_false_iff_not, or_iff_right hseen, UInt64.not_lt]

theorem Sound.recent_iff (h : j.Sound) {nowMs : UInt64} {node : NodeId}
    (hconnected : j.mesh.peerManager.isConnectedAt node = true) :
    (∃ time, j.seenAt node = some time ∧ (time = 0 ∨ j.recent nowMs time = true)) ↔
      j.mesh.peerManager.isStale nowMs node = false := by
  obtain ⟨peer, hpeer, -⟩ := (Option.any_eq_true ..).mp hconnected
  rw [PeerManager.isStale, hpeer, Option.any_some, isStale_eq_false_iff, h.seen node peer hpeer]
  unfold recent
  constructor
  · rintro ⟨time, htime, hrecent⟩
    obtain rfl := Option.some.inj htime
    exact hrecent.imp_right of_decide_eq_true
  · intro hrecent
    exact ⟨peer.lastSeenMs, rfl, hrecent.imp_right fun hle => decide_eq_true hle⟩

/-- A tick keeps a connected peer in the table unless it sweeps and finds the peer stale. -/
theorem isTracked_maintain {m : PeatMesh D} {nowMs : UInt64} {node : NodeId}
    (hconnected : m.peerManager.isConnectedAt node = true) :
    ((m.maintain nowMs).syncDue nowMs).1.peerManager.isTracked node = true ↔
      (m.cleanupDue nowMs = true → m.peerManager.isStale nowMs node = false) := by
  obtain ⟨peer, hpeer, -⟩ := (Option.any_eq_true ..).mp hconnected
  rw [PeerManager.isTracked, Std.ExtTreeMap.contains_eq_isSome_getElem?, peers_maintain]
  cases m.cleanupDue nowMs with
  | false =>
      rw [if_neg Bool.false_ne_true, hpeer]
      exact iff_of_true rfl fun h => absurd h Bool.false_ne_true
  | true =>
      rw [if_pos rfl, PeerManager.cleanupStale_peers, hpeer, forall_prop_of_true rfl]
      cases m.peerManager.isStale nowMs node with
      | true => exact iff_of_false Bool.false_ne_true Bool.noConfusion
      | false => exact iff_of_true rfl rfl

/-- A connected peer is declared lost only by a sweep that finds it stale. -/
theorem mem_lostPeers {m : PeatMesh D} (hupright : m.Upright) {nowMs : UInt64} {node : NodeId}
    (hconnected : m.peerManager.isConnectedAt node = true) (hlost : node ∈ m.lostPeers nowMs) :
    m.cleanupDue nowMs = true ∧ m.peerManager.isStale nowMs node = true := by
  unfold lostPeers at hlost
  split at hlost
  · rename_i hdue
    rcases List.mem_append.mp hlost with hremoved | hgraph
    · exact ⟨hdue, (m.peerManager.mem_cleanupStale nowMs).mp hremoved⟩
    · -- the graph only gives up peers that it counts as disconnected
      exact absurd (List.mem_filter.mp hgraph).1
        (ConnectionStateGraph.not_mem_tick nowMs (hupright node hconnected))
  · cases hlost

/-- An active peer is spared by a sweep exactly if it was seen within the timeout. -/
theorem Sound.spared_iff (h : j.Sound) {nowMs : UInt64} {node : NodeId}
    (hactive : j.Active nowMs node) :
    (((j.mesh.maintain nowMs).syncDue nowMs).1.peerManager.isTracked node = true ∧
        node ∉ j.mesh.lostPeers nowMs) ↔
      (j.mesh.cleanupDue nowMs = true →
        ∃ time, j.seenAt node = some time ∧ (time = 0 ∨ j.recent nowMs time = true)) := by
  rw [h.recent_iff hactive.1, isTracked_maintain hactive.1]
  refine and_iff_left_of_imp fun hkept hlost => ?_
  obtain ⟨hdue, hstale⟩ := mem_lostPeers h.upright hactive.1 hlost
  rw [hkept hdue] at hstale
  cases hstale

theorem Sound.sparesActive_iff (h : j.Sound) (action : Action D) :
    j.SparesActive crypto action ↔ j.SeenRecently action := by
  have hmaintained : ∀ nowMs ∈ tickedAt action, (j.mesh.act crypto action).peerManager =
      ((j.mesh.maintain nowMs).syncDue nowMs).1.peerManager := by
    cases action with
    | tick nonce nowMs => rintro _ ⟨rfl⟩; rfl
    | tickWithPeerDeltas nonce nowMs => rintro _ ⟨rfl⟩; rfl
    | _ => exact fun _ hnone => nomatch hnone
  unfold SparesActive SeenRecently
  constructor
  · intro hspares nowMs htick hdue node hactive
    have hspared := hspares nowMs htick node hactive
    rw [hmaintained nowMs htick] at hspared
    exact (h.spared_iff hactive).mp hspared hdue
  · intro hseen nowMs htick node hactive
    rw [hmaintained nowMs htick]
    exact (h.spared_iff hactive).mpr fun hdue => hseen nowMs htick hdue node hactive

/-- In a run every tick spares the active peers exactly if, whenever it sweeps, each of them has
also been seen within the timeout. -/
theorem sparesActive_iff_seenRecently (crypto : Crypto) (config : PeatMeshConfig)
    (actions : List (Action D)) :
    LoggedRun.Along (step crypto) (SparesActive crypto) (start crypto config) actions ↔
      LoggedRun.Along (step crypto) SeenRecently (start crypto config) actions := by
  have hstart : (start crypto config : Journal D).Sound := by
    constructor
    · intro node hconnected
      change (∅ : Map NodeId PeatPeer)[node]?.any PeatPeer.isConnected = true at hconnected
      rw [Std.ExtTreeMap.getElem?_empty] at hconnected
      cases hconnected
    · intro node peer hpeer
      exact absurd hpeer getElem?_empty_ne_some
  exact LoggedRun.along_congr hstart (fun _ action h => h.step action)
    (fun _ action h => h.sparesActive_iff action)

/-- A peer connects and a while later sends a document. -/
def talking : Journal Unit :=
  LoggedRun.run (step .unavailable)
    (start .unavailable (PeatMeshConfig.new 0x22222222 "BRAVO-1" "TEST"))
    [.incomingConnection "central" 0x11111111 1000,
      .dataReceivedFromNode 0x11111111 (PeatDocument.new 0x11111111).incrementCounter.encode 45000]

/-- Five seconds after the document the peer is swept out, for it connected too long ago. -/
theorem talking_not_spared :
    let mesh := talking.mesh.act .unavailable (.tick (Vector.replicate 12 0) 50000)
    talking.Active 50000 0x11111111 ∧ mesh.peerManager.isTracked 0x11111111 = false ∧
      0x11111111 ∈ talking.mesh.lostPeers 50000 ∧
      ¬ talking.SparesActive .unavailable (.tick (Vector.replicate 12 0) 50000) := by
  have hactive : talking.Active 50000 0x11111111 :=
    ⟨by decide +kernel, 45000, by decide +kernel, by decide +kernel⟩
  have hgone : (talking.mesh.act .unavailable
      (.tick (Vector.replicate 12 0) 50000)).peerManager.isTracked 0x11111111 = false := by
    decide +kernel
  refine ⟨hactive, hgone, by decide +kernel, fun hspares => ?_⟩
  rw [(hspares 50000 rfl 0x11111111 hactive).1] at hgone
  cases hgone

end Journal

end PeatMesh

end PeatBtle
