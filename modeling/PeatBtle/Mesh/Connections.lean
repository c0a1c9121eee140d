import PeatBtle.Mesh.Staleness

/-!
# Counting connections

The graph counts the connections of every peer it tracks. A document that comes
straight from its author takes the same path as a connection does, whether the
author is connected or not.
-/

namespace PeatBtle

open Std Wire MapMerge

/-! ## In the graph -/

namespace ConnectionStateGraph

def stateAt (g : ConnectionStateGraph) (node : NodeId) : Option ConnectionState :=
  g.peers[node]?.map PeerConnectionState.state

/-- How often a tracked peer has connected, and whether it is connected. -/
def link (g : ConnectionStateGraph) (node : NodeId) : Option (UInt32 × Bool) :=
  g.peers[node]?.map fun p => (p.connectionCount, p.state.isConnected)

/-- The count of a peer, none for one that is not tracked. -/
def counted (g : ConnectionStateGraph) (node : NodeId) : UInt32 := (g.link node).elim 0 Prod.fst

/-- How often a peer has connected since it is tracked, from how often it had before a step. -/
def recount (before after : ConnectionStateGraph) (node : NodeId) (connects : Nat) : Nat :=
  match after.link node with
  | none => 0
  | some (_, false) => connects
  | some (_, true) => if before.isConnectedAt node then connects else connects + 1

/-- What a step that connects no peer may do to one. -/
def CalmAt (before after : ConnectionStateGraph) (node : NodeId) : Prop :=
  ∀ l ∈ after.link node,
    l.1 = before.counted node ∧ (l.2 = true → before.isConnectedAt node = true)

section Links

variable (g : ConnectionStateGraph) (node other : NodeId)

theorem isConnectedAt_eq_link : g.isConnectedAt node = (g.link node).any Prod.snd := by
  unfold isConnectedAt link
  cases g.peers[node]? <;> rfl

theorem counted_of_link {g : ConnectionStateGraph} {node : NodeId} {l : UInt32 × Bool}
    (h : g.link node = some l) : g.counted node = l.1 := by
  rw [counted, h]
  rfl

theorem isConnectedAt_of_degraded {g : ConnectionStateGraph} {node : NodeId}
    (h : g.stateAt node = some .degraded) : g.isConnectedAt node = true := by
  obtain ⟨p, hp, hstate⟩ := Option.map_eq_some_iff.mp h
  rw [isConnectedAt, hp, Option.any_some, hstate]
  rfl

theorem link_eq_of_peers {g after : ConnectionStateGraph} {node : NodeId}
    (h : after.peers[node]? = g.peers[node]?) : after.link node = g.link node := by
  rw [link, link, h]

theorem stateAt_eq_of_peers {g after : ConnectionStateGraph} {node : NodeId}
    (h : after.peers[node]? = g.peers[node]?) : after.stateAt node = g.stateAt node := by
  rw [stateAt, stateAt, h]

theorem calmAt_of_link_eq {g after : ConnectionStateGraph} {node : NodeId}
    (h : after.link node = g.link node) : CalmAt g after node := by
  intro l hl
  rw [h] at hl
  refine ⟨(counted_of_link hl).symm, fun hconnected => ?_⟩
  rw [isConnectedAt_eq_link, hl]
  exact hconnected

theorem link_modify (f : PeerConnectionState → PeerConnectionState) :
    ((g.peers.modify node f)[other]?).map (fun p => (p.connectionCount, p.state.isConnected)) =
      if node = other then
        g.peers[node]?.map fun p => ((f p).connectionCount, (f p).state.isConnected)
      else g.link other := by
  rw [getElem?_modify_eq]
  split
  · rw [Option.map_map]
    rfl
  · rfl

theorem link_onConnected (nowMs : UInt64) :
    (g.onConnected node nowMs).link node = (g.link node).map fun l => (l.1 + 1, true) := by
  refine (link_modify g node node _).trans ?_
  unfold link
  rw [if_pos rfl, Option.map_map]
  rfl

theorem calmAt_onDisconnected (reason : DisconnectReason) (nowMs : UInt64) :
    CalmAt g (g.onDisconnected node reason nowMs) other := by
  have hlink := link_modify g node other fun p => p.setDisconnected nowMs reason
  by_cases hnode : node = other
  · subst hnode
    rw [if_pos rfl] at hlink
    intro l hl
    obtain ⟨p, hp, rfl⟩ := Option.map_eq_some_iff.mp (hlink.symm.trans hl)
    refine ⟨?_, fun hconnected => nomatch hconnected⟩
    rw [counted, link, hp]
    rfl
  · rw [if_neg hnode] at hlink
    exact calmAt_of_link_eq hlink

theorem link_updateRssi (rssi : Int8) (nowMs : UInt64) :
    (g.updateRssi node rssi nowMs).1.link other = g.link other := by
  have hsame : ∀ p : PeerConnectionState,
      ((p.updateRssi rssi nowMs g.rssiDegradedThreshold).1.connectionCount,
        (p.updateRssi rssi nowMs g.rssiDegradedThreshold).1.state.isConnected) =
      (p.connectionCount, p.state.isConnected) := by
    intro p
    unfold PeerConnectionState.updateRssi
    dsimp only
    split
    · rename_i hworse
      rw [hworse.1]
      rfl
    · split
      · rename_i hbetter
        rw [hbetter.1]
        rfl
      · rfl
  refine (link_modify g node other _).trans ?_
  simp only [hsame]
  split
  · rename_i hself
    rw [← hself, link]
  · rfl

theorem link_onDiscovered (identifier : String) (name meshId : Option String) (rssi : Int8)
    (nowMs : UInt64) : (g.onDiscovered node identifier name meshId rssi nowMs).link node =
      some ((g.link node).getD (0, false)) := by
  unfold link onDiscovered
  dsimp only
  rw [getElem?_insert_eq, if_pos rfl, Option.map_some, PeerConnectionState.isConnected_seenAgain]
  cases g.peers[node]? with
  | none => rfl
  | some p => rfl

theorem calmAt_onDiscovered (identifier : String) (name meshId : Option String) (rssi : Int8)
    (nowMs : UInt64) : CalmAt g (g.onDiscovered node identifier name meshId rssi nowMs) other := by
  by_cases hnode : node = other
  · subst hnode
    intro l hl
    rw [link_onDiscovered, Option.mem_some_iff] at hl
    subst hl
    rw [counted, isConnectedAt_eq_link]
    cases g.link node with
    | none => exact ⟨rfl, fun hconnected => nomatch hconnected⟩
    | some l => exact ⟨rfl, fun hconnected => hconnected⟩
  · exact calmAt_of_link_eq (link_eq_of_peers (peers_onDiscovered_of_ne hnode))

theorem calmAt_tick_cleanupLost (olderThanMs nowMs : UInt64) :
    CalmAt g ((g.tick nowMs).1.cleanupLost olderThanMs nowMs) other := by
  intro l hl
  have hconnected := g.isConnectedAt_tick_cleanupLost other olderThanMs nowMs
  refine ⟨?_, fun hl' => ?_⟩
  · obtain ⟨p, hp, rfl⟩ := Option.map_eq_some_iff.mp hl
    obtain ⟨hswept, -⟩ := Option.filter_eq_some_iff.mp
      ((ExtTreeMap.getElem?_filter' ..).symm.trans hp)
    obtain ⟨old, hold, rfl⟩ := Option.map_eq_some_iff.mp
      ((ExtTreeMap.getElem?_map ..).symm.trans hswept)
    rw [counted, link, hold]
    unfold PeerConnectionState.setLost
    split
    · split
      · rfl
      · rfl
    · rfl
  · rw [← hconnected, isConnectedAt_eq_link, hl]
    exact hl'

end Links

/-- What a step that connects a peer does to it, if it is tracked or becomes so. -/
structure Connects (before after : ConnectionStateGraph) (node : NodeId) : Prop where
  tracked : before.link node ≠ none → after.link node ≠ none
  link : ∀ l ∈ after.link node, l = (before.counted node + 1, true)
  others : ∀ other, other ≠ node → after.peers[other]? = before.peers[other]?

theorem connects_onConnected (g : ConnectionStateGraph) (node : NodeId) (nowMs : UInt64) :
    g.Connects (g.onConnected node nowMs) node where
  tracked := by
    rw [link_onConnected]
    exact fun htracked hnone => htracked (Option.map_eq_none_iff.mp hnone)
  link l hl := by
    rw [link_onConnected] at hl
    obtain ⟨old, hold, rfl⟩ := Option.map_eq_some_iff.mp hl
    rw [counted_of_link hold]
  others _ hother := peers_onConnected_of_ne (Ne.symm hother)

theorem Connects.of_peers_eq {g base after : ConnectionStateGraph} {node : NodeId}
    (hsame : base.peers = g.peers) (h : base.Connects after node) : g.Connects after node := by
  have hlink : base.link node = g.link node := link_eq_of_peers (by rw [hsame])
  have hcounted : base.counted node = g.counted node := by rw [counted, counted, hlink]
  exact ⟨hlink ▸ h.tracked, hcounted ▸ h.link, hsame ▸ h.others⟩

/-- A peer that is discovered first is connected for the first time, or once more. -/
theorem connects_onDiscovered (g : ConnectionStateGraph) (node : NodeId) (identifier : String)
    (name meshId : Option String) (rssi : Int8) (nowMs : UInt64) :
    g.Connects ((g.onDiscovered node identifier name meshId rssi nowMs).onConnected node nowMs)
      node where
  tracked _ := by
    rw [link_onConnected, link_onDiscovered]
    exact Option.some_ne_none _
  link l hl := by
    rw [link_onConnected, link_onDiscovered, Option.map_some, Option.mem_some_iff] at hl
    rw [← hl, counted]
    cases g.link node <;> rfl
  others _ hother := (peers_onConnected_of_ne (Ne.symm hother)).trans
    (peers_onDiscovered_of_ne (Ne.symm hother))

theorem toNat_add_one_ne (count : UInt32) : (count + 1).toNat ≠ count.toNat := by
  rw [UInt32.toNat_add]
  have hbound := count.toNat_lt
  change (count.toNat + 1) % 2 ^ 32 ≠ count.toNat
  omega

theorem toNat_add_one_iff (count : UInt32) :
    (count + 1).toNat = count.toNat + 1 ↔ count ≠ 0xFFFFFFFF := by
  rw [UInt32.toNat_add, ne_eq, ← UInt32.toNat_inj]
  have hbound := count.toNat_lt
  change (count.toNat + 1) % 2 ^ 32 = count.toNat + 1 ↔ ¬ count.toNat = 4294967295
  omega

section Recounts

variable {before after : ConnectionStateGraph} {node : NodeId} {connects : Nat}

theorem recount_of_calmAt (hcalm : CalmAt before after node)
    (hcount : (before.counted node).toNat = connects) :
    (after.counted node).toNat = recount before after node connects := by
  unfold recount
  cases hlink : after.link node with
  | none =>
      rw [counted, hlink]
      rfl
  | some l =>
      obtain ⟨count, connected⟩ := l
      obtain ⟨hkept, honly⟩ := hcalm _ hlink
      have hafter : (after.counted node).toNat = connects := by
        rw [counted_of_link hlink, hkept, hcount]
      cases connected with
      | false => exact hafter
      | true => exact hafter.trans (if_pos (honly rfl)).symm

/-- The count stays right exactly if the peer was not connected, and there is room to count. -/
theorem recount_of_connects (hconnects : before.Connects after node)
    (hcount : (before.counted node).toNat = connects) :
    (after.counted node).toNat = recount before after node connects ↔
      before.isConnectedAt node = false ∧ before.counted node ≠ 0xFFFFFFFF := by
  cases hlink : after.link node with
  | none =>
      have huntracked : before.link node = none :=
        not_not.mp fun htracked => hconnects.tracked htracked hlink
      refine iff_of_true ?_ ⟨?_, ?_⟩
      · rw [counted, recount, hlink]
        rfl
      · rw [isConnectedAt_eq_link, huntracked]
        rfl
      · rw [counted, huntracked]
        exact fun h => nomatch h
  | some l =>
      rw [counted_of_link hlink, recount, hlink, hconnects.link l hlink]
      dsimp only
      cases before.isConnectedAt node with
      | true =>
          refine iff_of_false ?_ fun h => nomatch h.1
          rw [if_pos rfl, ← hcount]
          exact toNat_add_one_ne _
      | false =>
          rw [if_neg Bool.false_ne_true, ← hcount, toNat_add_one_iff]
          exact (and_iff_right rfl).symm

end Recounts

end ConnectionStateGraph

/-! ## In the mesh -/

/-- What happens to a node: a callback, or a reading of the signal of one of its peers. -/
inductive LinkEvent (D : Type) where
  | callback (action : PeatMesh.Action D)
  | rssi (node : NodeId) (rssi : Int8) (nowMs : UInt64)

namespace PeatMesh

variable {D : Type} (crypto : Crypto)

def occur (m : PeatMesh D) : LinkEvent D → PeatMesh D
  | .callback action => m.act crypto action
  | .rssi node rssi nowMs =>
      { m with connectionGraph := (m.connectionGraph.updateRssi node rssi nowMs).1 }

/-- The peer that a callback connects, if the graph tracks it. -/
def connectsPeer (m : PeatMesh D) : Action D → Option NodeId
  | .connected identifier _ => m.peerManager.getNodeId identifier
  | .incomingConnection _ node _ => some node
  | .data _ data _ => m.directAuthor crypto data
  | _ => none

def receivesData : Action D → Bool
  | .dataReceived .. | .dataReceivedFromNode .. | .data .. | .dataReceivedAnonymous ..
  | .relayEnvelope .. => true
  | _ => false

section Effect

variable (m : PeatMesh D)

theorem connects_registerSource (identifier : String) (node : NodeId) (nowMs : UInt64) :
    m.connectionGraph.Connects (m.registerSource identifier node nowMs).connectionGraph node := by
  unfold registerSource
  dsimp only
  split
  · exact ConnectionStateGraph.connects_onDiscovered ..
  · exact ConnectionStateGraph.connects_onConnected ..

theorem calmAt_dropConnection (node other : NodeId) (reason : DisconnectReason) (nowMs : UInt64) :
    m.connectionGraph.CalmAt (m.dropConnection node reason nowMs).connectionGraph other :=
  m.connectionGraph.calmAt_onDisconnected node other reason nowMs

theorem calmAt_maintain (node : NodeId) (nowMs : UInt64) :
    m.connectionGraph.CalmAt ((m.maintain nowMs).syncDue nowMs).1.connectionGraph node := by
  have hsync := (m.maintain nowMs).samePeers_syncDue nowMs
  have hlink : ((m.maintain nowMs).syncDue nowMs).1.connectionGraph.link node =
      (m.maintain nowMs).connectionGraph.link node :=
    ConnectionStateGraph.link_eq_of_peers (by rw [hsync.graph])
  unfold ConnectionStateGraph.CalmAt
  rw [hlink]
  cases hdue : m.cleanupDue nowMs with
  | false =>
      rw [m.maintain_of_not_due nowMs hdue]
      exact ConnectionStateGraph.calmAt_of_link_eq rfl
  | true =>
      rw [m.maintain_of_due nowMs hdue]
      exact m.connectionGraph.calmAt_tick_cleanupLost node _ nowMs

theorem calmAt_onBleDiscovered (identifier : String) (name : Option String) (rssi : Int8)
    (meshId : Option String) (nowMs : UInt64) (other : NodeId) :
    m.connectionGraph.CalmAt
      (m.onBleDiscovered identifier name rssi meshId nowMs).connectionGraph other := by
  unfold onBleDiscovered
  dsimp only
  split
  · exact ConnectionStateGraph.calmAt_of_link_eq rfl
  · exact m.connectionGraph.calmAt_onDiscovered _ other identifier name meshId rssi nowMs

theorem calmAt_onBleDisconnected (identifier : String) (reason : DisconnectReason)
    (nowMs : UInt64) (other : NodeId) :
    m.connectionGraph.CalmAt
      (m.onBleDisconnected identifier reason nowMs).connectionGraph other := by
  unfold onBleDisconnected
  dsimp only
  split
  · exact ConnectionStateGraph.calmAt_of_link_eq rfl
  · exact calmAt_dropConnection _ _ other reason nowMs

theorem calmAt_onPeerDisconnected (node : NodeId) (reason : DisconnectReason) (nowMs : UInt64)
    (other : NodeId) :
    m.connectionGraph.CalmAt (m.onPeerDisconnected node reason nowMs).connectionGraph other := by
  unfold onPeerDisconnected
  dsimp only
  split
  · exact calmAt_dropConnection _ node other reason nowMs
  · exact ConnectionStateGraph.calmAt_of_link_eq rfl

/-- What a callback does to the graph: it connects the peer it is about, or none. -/
def ConnectsOrCalm (connecting : Option NodeId) (after : PeatMesh D) : Prop :=
  match connecting with
  | some node => m.connectionGraph.Connects after.connectionGraph node
  | none => ∀ node, m.connectionGraph.CalmAt after.connectionGraph node

theorem connectsOrCalm_of_peers_eq {after : PeatMesh D}
    (h : after.connectionGraph.peers = m.connectionGraph.peers) :
    m.ConnectsOrCalm none after :=
  fun node => ConnectionStateGraph.calmAt_of_link_eq
    (ConnectionStateGraph.link_eq_of_peers (congrArg (·[node]?) h))

theorem connectsOrCalm_onBleConnected (identifier : String) (nowMs : UInt64) :
    m.ConnectsOrCalm (m.peerManager.getNodeId identifier) (m.onBleConnected identifier nowMs) := by
  cases hknown : m.peerManager.getNodeId identifier with
  | none =>
      unfold onBleConnected PeerManager.onConnected
      rw [hknown]
      exact m.connectsOrCalm_of_peers_eq rfl
  | some node =>
      rw [onBleConnected_eq hknown]
      exact m.connectionGraph.connects_onConnected node nowMs

theorem connectsOrCalm_onBleData (identifier : String) (data : Bytes) (nowMs : UInt64) :
    m.ConnectsOrCalm (m.directAuthor crypto data)
      (m.onBleData crypto identifier data nowMs).1 := by
  rcases m.onBleData_cases crypto identifier nowMs data with
    ⟨hauthor, hsame⟩ | ⟨author, base, hauthor, hbase, hregistered⟩
  · rw [hauthor]
    exact m.connectsOrCalm_of_peers_eq hsame.graph
  · rw [hauthor, hregistered]
    exact (base.connects_registerSource identifier author nowMs).of_peers_eq hbase.graph

theorem connectsOrCalm_act (action : Action D) :
    m.ConnectsOrCalm (m.connectsPeer crypto action) (m.act crypto action) := by
  cases hquiet : isQuiet action with
  | true =>
      have hnone : m.connectsPeer crypto action = none := by
        cases action <;> first | rfl | cases hquiet
      rw [hnone]
      exact m.connectsOrCalm_of_peers_eq (samePeers_act crypto hquiet m).graph
  | false =>
      cases action with
      | discovered identifier name rssi meshId nowMs =>
          exact m.calmAt_onBleDiscovered identifier name rssi meshId nowMs
      | connected identifier nowMs => exact m.connectsOrCalm_onBleConnected identifier nowMs
      | disconnected identifier reason nowMs =>
          exact m.calmAt_onBleDisconnected identifier reason nowMs
      | peerDisconnected node reason nowMs =>
          exact m.calmAt_onPeerDisconnected node reason nowMs
      | incomingConnection identifier node nowMs =>
          exact m.connects_registerSource identifier node nowMs
      | data identifier data nowMs =>
          exact m.connectsOrCalm_onBleData crypto identifier data nowMs
      | tick nonce nowMs => exact fun node => m.calmAt_maintain node nowMs
      | tickWithPeerDeltas nonce nowMs => exact fun node => m.calmAt_maintain node nowMs
      | _ => cases hquiet

/-- Data that connects nobody leaves the graph's peers alone. -/
theorem peers_of_receivesData {action : Action D} (hdata : receivesData action = true)
    (hnone : m.connectsPeer crypto action = none) :
    (m.act crypto action).connectionGraph.peers = m.connectionGraph.peers := by
  cases hquiet : isQuiet action with
  | true => exact (samePeers_act crypto hquiet m).graph
  | false =>
      cases action with
      | data identifier data nowMs =>
          rcases m.onBleData_cases crypto identifier nowMs data with
            ⟨-, hsame⟩ | ⟨author, base, hauthor, -, -⟩
          · exact hsame.graph
          · exact nomatch hauthor.symm.trans hnone
      | discovered | connected | disconnected | peerDisconnected | incomingConnection | tick
      | tickWithPeerDeltas => cases hdata
      | _ => cases hquiet

end Effect

/-! ## Along a run -/

/-- A node, with the number of times that each peer its graph tracks has connected. -/
structure Tally (D : Type) where
  mesh : PeatMesh D
  connects : NodeId → Nat

namespace Tally

def start (config : PeatMeshConfig) : Tally D := ⟨PeatMesh.new crypto config, fun _ => 0⟩

def step (t : Tally D) (event : LinkEvent D) : Tally D where
  mesh := t.mesh.occur crypto event
  connects node := t.mesh.connectionGraph.recount (t.mesh.occur crypto event).connectionGraph node
    (t.connects node)

/-- The count of every peer is the number of times it has connected. -/
def CountsConnects (t : Tally D) : Prop :=
  ∀ node, (t.mesh.connectionGraph.counted node).toNat = t.connects node

/-- Data that is received does not make a degraded connection a good one. -/
def KeepsDegraded (t : Tally D) : LinkEvent D → Prop
  | .callback action => receivesData action = true → ∀ node,
      t.mesh.connectionGraph.stateAt node = some .degraded →
        (t.mesh.act crypto action).connectionGraph.stateAt node ≠ some .connected
  | .rssi .. => True

/-- The peer that connects is not connected, and its count has room. -/
def ConnectsAnew (t : Tally D) : LinkEvent D → Prop
  | .callback action => ∀ node ∈ t.mesh.connectsPeer crypto action,
      t.mesh.connectionGraph.isConnectedAt node = false ∧
        t.mesh.connectionGraph.counted node ≠ 0xFFFFFFFF
  | .rssi .. => True

variable {t : Tally D} {action : Action D}

theorem countsConnects_iff_at {event : LinkEvent D} (h : t.CountsConnects) {node : NodeId}
    (hothers : ∀ other, other ≠ node → (t.mesh.occur crypto event).connectionGraph.peers[other]? =
      t.mesh.connectionGraph.peers[other]?) :
    (t.step crypto event).CountsConnects ↔
      (((t.step crypto event).mesh.connectionGraph.counted node).toNat =
        (t.step crypto event).connects node) := by
  refine ⟨fun hafter => hafter node, fun hnode other => ?_⟩
  by_cases hother : other = node
  · rw [hother]
    exact hnode
  · have hcalm := ConnectionStateGraph.calmAt_of_link_eq
      (ConnectionStateGraph.link_eq_of_peers (hothers other hother))
    exact ConnectionStateGraph.recount_of_calmAt hcalm (h other)

theorem callback_iff (h : t.CountsConnects) :
    (t.step crypto (.callback action)).CountsConnects ∧ t.KeepsDegraded crypto (.callback action) ↔
      t.ConnectsAnew crypto (.callback action) := by
  have heffect := t.mesh.connectsOrCalm_act crypto action
  unfold ConnectsAnew
  dsimp only
  cases hconnecting : t.mesh.connectsPeer crypto action with
  | none =>
      rw [hconnecting] at heffect
      refine iff_of_true ⟨?_, ?_⟩ fun _ hnone => nomatch hnone
      · exact fun node => ConnectionStateGraph.recount_of_calmAt (heffect node) (h node)
      · -- the states are the same as before
        intro hdata node hdegraded
        have hsame := t.mesh.peers_of_receivesData crypto hdata hconnecting
        rw [ConnectionStateGraph.stateAt_eq_of_peers (congrArg (·[node]?) hsame), hdegraded]
        exact fun hconnected => nomatch hconnected
  | some node =>
      rw [hconnecting] at heffect
      have hconnects : t.mesh.connectionGraph.Connects
        (t.mesh.act crypto action).connectionGraph node := heffect
      rw [forall_mem_some, countsConnects_iff_at crypto h hconnects.others]
      have hiff := ConnectionStateGraph.recount_of_connects hconnects (h node)
      refine ⟨fun hafter => hiff.mp hafter.1, fun hanew => ⟨hiff.mpr hanew, ?_⟩⟩
      -- a degraded peer is connected, so it is not the one that connects
      intro _ other hdegraded
      have hother : other ≠ node := by
        rintro rfl
        exact Bool.false_ne_true
          (hanew.1.symm.trans (ConnectionStateGraph.isConnectedAt_of_degraded hdegraded))
      have hsame := hconnects.others other hother
      rw [ConnectionStateGraph.stateAt_eq_of_peers hsame, hdegraded]
      exact fun hconnected => nomatch hconnected

theorem step_iff (h : t.CountsConnects) (event : LinkEvent D) :
    (t.step crypto event).CountsConnects ∧ t.KeepsDegraded crypto event ↔
      t.ConnectsAnew crypto event := by
  cases event with
  | callback action => exact callback_iff crypto h
  | rssi node rssi nowMs =>
      refine iff_of_true ⟨fun other => ?_, trivial⟩ trivial
      exact ConnectionStateGraph.recount_of_calmAt (ConnectionStateGraph.calmAt_of_link_eq
        (t.mesh.connectionGraph.link_updateRssi node other rssi nowMs)) (h other)

/-- All along a run every count is the number of connections, and no data mends a degraded
connection, exactly if nothing connects a peer that is connected. -/
theorem countsConnects_iff_connectsAnew (config : PeatMeshConfig) (events : List (LinkEvent D)) :
    (∀ front, front <+: events →
        (LoggedRun.run (step crypto) (start crypto config) front).CountsConnects) ∧
        LoggedRun.Along (step crypto) (KeepsDegraded crypto) (start crypto config) events ↔
      LoggedRun.Along (step crypto) (ConnectsAnew crypto) (start crypto config) events := by
  have hstart : (start crypto config : Tally D).CountsConnects := by
    intro node
    have hnone : (∅ : Map NodeId PeerConnectionState)[node]? = none := ExtTreeMap.getElem?_empty
    change (ConnectionStateGraph.counted (PeatMesh.new crypto config : PeatMesh D).connectionGraph
      node).toNat = 0
    rw [ConnectionStateGraph.counted, ConnectionStateGraph.link]
    change UInt32.toNat (((∅ : Map NodeId PeerConnectionState)[node]?.map _).elim 0 Prod.fst) = 0
    rw [hnone]
    rfl
  exact @LoggedRun.forall_step_iff_along _ _ (step crypto) (fun _ => True) CountsConnects
    (KeepsDegraded crypto) (ConnectsAnew crypto) (start crypto config) events trivial hstart
    (fun _ _ _ => trivial) (fun _ event _ h => step_iff crypto h event)

/-- A central that connects once, is heard weakly, and then sends its document. -/
def talkative : List (LinkEvent Unit) :=
  [.callback (.incomingConnection "central" 0x11111111 1000), .rssi 0x11111111 (-90) 2000]

/-- The document counts as a second connection and hides that the first one is degraded. -/
theorem talkative_not_countsConnects :
    let config := PeatMeshConfig.new 0x22222222 "BRAVO-1" "TEST"
    let before := LoggedRun.run (step .unavailable) (start .unavailable config) talkative
    let document := LinkEvent.callback
      (.data "central" (DocumentSync.new 0x11111111 "ALPHA-1").buildDocument 3000)
    let after := before.step .unavailable document
    (before.connects 0x11111111 = 1 ∧ before.mesh.connectionGraph.counted 0x11111111 = 1) ∧
      (after.connects 0x11111111 = 1 ∧ after.mesh.connectionGraph.counted 0x11111111 = 2) ∧
      ¬ after.CountsConnects ∧ ¬ before.KeepsDegraded .unavailable document := by
  intro config before document after
  have hbefore : before.connects 0x11111111 = 1 ∧
      before.mesh.connectionGraph.counted 0x11111111 = 1 := by decide +kernel
  have hafter : after.connects 0x11111111 = 1 ∧
      after.mesh.connectionGraph.counted 0x11111111 = 2 := by decide +kernel
  refine ⟨hbefore, hafter, fun hcounts => ?_, fun hkeeps => ?_⟩
  · have hnode := hcounts 0x11111111
    rw [hafter.1, hafter.2] at hnode
    cases hnode
  · exact hkeeps rfl 0x11111111 (by decide +kernel) (by decide +kernel)

end Tally

end PeatMesh

end PeatBtle
