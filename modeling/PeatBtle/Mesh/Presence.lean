import PeatBtle.Mesh.ReceiveFrame
import PeatBtle.Mesh.Run

/-!
# Who is there

A node keeps two records of its direct peers, the table and the graph. Only
discoveries, connections, direct documents of unknown senders and the sweep touch
them.
-/

namespace PeatBtle

open Wire MapMerge

namespace PeatMesh

variable {D : Type} (crypto : Crypto)

/-- Neither record of the direct peers has changed. -/
structure SamePeers (m after : PeatMesh D) : Prop where
  nodeId : after.peerManager.nodeId = m.peerManager.nodeId
  config : after.peerManager.config = m.peerManager.config
  peers : after.peerManager.peers = m.peerManager.peers
  graph : after.connectionGraph.peers = m.connectionGraph.peers

namespace SamePeers

variable {m middle after : PeatMesh D}

theorem refl (m : PeatMesh D) : SamePeers m m := ⟨rfl, rfl, rfl, rfl⟩

theorem trans (hfirst : SamePeers m middle) (hsecond : SamePeers middle after) :
    SamePeers m after :=
  ⟨hsecond.nodeId.trans hfirst.nodeId, hsecond.config.trans hfirst.config,
    hsecond.peers.trans hfirst.peers, hsecond.graph.trans hfirst.graph⟩

/-- Steps that leave the peer manager and the graph alone altogether. -/
theorem of_eq (hmanager : after.peerManager = m.peerManager)
    (hgraph : after.connectionGraph = m.connectionGraph) : SamePeers m after :=
  ⟨congrArg _ hmanager, congrArg _ hmanager, congrArg _ hmanager, congrArg _ hgraph⟩

end SamePeers

theorem samePeers_spans : Spans (SamePeers (D := D)) where
  refl := SamePeers.refl
  trans _ _ _ := SamePeers.trans
  session _ _ := SamePeers.of_eq rfl rfl
  seen _ _ := SamePeers.of_eq rfl rfl
  path _ _ := ⟨rfl, rfl, rfl, rfl⟩
  identifier _ _ _ := ⟨rfl, rfl, rfl, rfl⟩
  synced _ _ _ := ⟨rfl, rfl, rfl, rfl⟩
  counted _ _ _ _ := SamePeers.of_eq rfl rfl
  peripherals _ _ := SamePeers.of_eq rfl rfl
  appDocuments _ _ := SamePeers.of_eq rfl rfl
  merged _ _ := SamePeers.of_eq rfl rfl

/-- The actions that touch no record of the direct peers. -/
def isQuiet : Action D → Bool
  | .discovered .. | .connected .. | .disconnected .. | .peerDisconnected ..
  | .incomingConnection .. | .data .. | .tick .. | .tickWithPeerDeltas .. => false
  | _ => true

theorem samePeers_act {action : Action D} (hquiet : isQuiet action = true) (m : PeatMesh D) :
    SamePeers m (m.act crypto action) := by
  cases action with
  | discovered | connected | disconnected | peerDisconnected | incomingConnection | data | tick
  | tickWithPeerDeltas => cases hquiet
  | dataReceived => exact samePeers_spans.onBleDataReceived ..
  | dataReceivedFromNode => exact samePeers_spans.onBleDataReceivedFromNode ..
  | dataReceivedAnonymous => exact samePeers_spans.onBleDataReceivedAnonymous ..
  | relayEnvelope => exact samePeers_spans.processRelayEnvelope ..
  | buildDelta peer nonce nowMs =>
      unfold act buildDeltaDocumentForPeer
      dsimp only
      cases m.deltaForPeer peer nowMs <;> exact SamePeers.of_eq rfl rfl
  | cleanupIndirectPeers => exact ⟨rfl, rfl, rfl, rfl⟩
  | _ => exact SamePeers.of_eq rfl rfl

/-! ## The actions that do -/

/-- Whether the tick sweeps. -/
def cleanupDue (m : PeatMesh D) (nowMs : UInt64) : Bool :=
  UInt32.ofNat nowMs.toNat - m.lastCleanupMs ≥
    UInt32.ofNat m.config.peerConfig.cleanupIntervalMs.toNat

section Records

variable (m : PeatMesh D) (identifier : String) (nowMs : UInt64)

theorem peerManager_onBleDiscovered (name : Option String) (rssi : Int8) (meshId : Option String) :
    (m.onBleDiscovered identifier name rssi meshId nowMs).peerManager =
      (m.peerManager.onDiscovered identifier name rssi meshId nowMs).1 := by
  unfold onBleDiscovered
  dsimp only
  split
  · rfl
  · rfl

theorem peerManager_onBleConnected :
    (m.onBleConnected identifier nowMs).peerManager =
      (m.peerManager.onConnected identifier nowMs).1 := by
  unfold onBleConnected
  dsimp only
  split
  · rfl
  · rfl

/-- A document comes straight from its author, who is registered, or the records stay. -/
theorem onBleData_cases (data : Bytes) :
    (m.directAuthor crypto data = none ∧
        SamePeers m (m.onBleData crypto identifier data nowMs).1) ∨
      ∃ author base, m.directAuthor crypto data = some author ∧ SamePeers m base ∧
        (m.onBleData crypto identifier data nowMs).1 =
          base.registerSource identifier author nowMs := by
  have hspan := samePeers_spans.onBleData crypto m data nowMs identifier
  cases hauthor : m.directAuthor crypto data with
  | none =>
      rw [hauthor] at hspan
      exact Or.inl ⟨rfl, hspan⟩
  | some author =>
      rw [hauthor] at hspan
      obtain ⟨base, hbase, hregistered⟩ := hspan
      exact Or.inr ⟨author, base, rfl, hbase, hregistered⟩

theorem samePeers_syncDue : SamePeers m (m.syncDue nowMs).1 := by
  unfold syncDue
  dsimp only
  split
  · exact SamePeers.of_eq rfl rfl
  · exact SamePeers.refl m

theorem maintain_of_due (h : m.cleanupDue nowMs = true) : m.maintain nowMs =
    { m with
      lastCleanupMs := UInt32.ofNat nowMs.toNat
      peerManager := (m.peerManager.cleanupStale nowMs).1
      connectionGraph := (m.connectionGraph.tick nowMs).1.cleanupLost
        m.config.peerConfig.peerTimeoutMs nowMs } :=
  if_pos (of_decide_eq_true h)

theorem maintain_of_not_due (h : m.cleanupDue nowMs = false) : m.maintain nowMs = m :=
  if_neg (of_decide_eq_false h)

end Records

end PeatMesh

end PeatBtle
