import PeatBtle.Mesh.ReceiveFrame
import PeatBtle.Mesh.Run

/-!
# What a step can do

Whatever a node goes through, its document state takes a sequence of local
changes and merges, and the table of stamps sent to a peer only loses entries.
The one exception is a delta built for that peer, which marks what it sends.
-/

namespace PeatBtle

open Wire

namespace PeatMesh

variable {D : Type} (crypto : Crypto)

def sentStamp (m : PeatMesh D) (peer : NodeId) (key : String) : Option UInt64 :=
  m.deltaEncoder.sentStamp peer key

/-- The document state has run on and nothing new counts as sent to the peer. -/
structure Evolves (peer : NodeId) (m after : PeatMesh D) : Prop where
  documentSync : ∃ changes, after.documentSync = m.documentSync.run changes
  sentStamp : ∀ key stamp, after.sentStamp peer key = some stamp → m.sentStamp peer key = some stamp

namespace Evolves

variable {peer : NodeId} {m middle after : PeatMesh D}

/-- Steps that leave the delta tables alone. -/
theorem of_run (changes : List DocumentSync.Action)
    (hsync : after.documentSync = m.documentSync.run changes)
    (hencoder : after.deltaEncoder = m.deltaEncoder) : Evolves peer m after := by
  refine ⟨⟨changes, hsync⟩, ?_⟩
  intro key stamp h
  unfold PeatMesh.sentStamp at h ⊢
  rwa [hencoder] at h

theorem of_eq (hsync : after.documentSync = m.documentSync)
    (hencoder : after.deltaEncoder = m.deltaEncoder) : Evolves peer m after :=
  of_run [] hsync hencoder

theorem refl (m : PeatMesh D) : Evolves peer m m := of_eq rfl rfl

theorem trans (hfirst : Evolves peer m middle) (hsecond : Evolves peer middle after) :
    Evolves peer m after := by
  obtain ⟨changes, hchanges⟩ := hfirst.documentSync
  obtain ⟨more, hmore⟩ := hsecond.documentSync
  refine ⟨⟨changes ++ more, ?_⟩, ?_⟩
  · rw [hmore, hchanges, DocumentSync.run_append]
  · intro key stamp h
    exact hfirst.sentStamp key stamp (hsecond.sentStamp key stamp h)

end Evolves

/-! ## Delta tables -/

section Tables

variable (m : PeatMesh D) (peer other : NodeId)

theorem evolves_registerPeerForDelta : Evolves peer m (m.registerPeerForDelta other) := by
  refine ⟨⟨[], rfl⟩, ?_⟩
  intro key stamp h
  simp only [sentStamp, registerPeerForDelta, DeltaEncoder.sentStamp_addPeer] at h
  exact h

theorem evolves_unregisterPeerForDelta : Evolves peer m (m.unregisterPeerForDelta other) := by
  refine ⟨⟨[], rfl⟩, ?_⟩
  intro key stamp h
  simp only [sentStamp, unregisterPeerForDelta, DeltaEncoder.sentStamp_removePeer] at h
  split at h
  · cases h
  · exact h

theorem evolves_resetPeerDeltaState : Evolves peer m (m.resetPeerDeltaState other) := by
  refine ⟨⟨[], rfl⟩, ?_⟩
  intro key stamp h
  simp only [sentStamp, resetPeerDeltaState, DeltaEncoder.sentStamp_resetPeer] at h
  split at h
  · cases h
  · exact h

/-- Updating a peer's entry without marking anything. -/
theorem evolves_modifyPeer {f : PeerSyncState → PeerSyncState}
    (hf : ∀ state, (f state).lastSent = state.lastSent) :
    Evolves peer m { m with deltaEncoder := m.deltaEncoder.modifyPeer other f } := by
  refine ⟨⟨[], rfl⟩, ?_⟩
  intro key stamp h
  simp only [sentStamp, DeltaEncoder.sentStamp_modifyPeer_of_keeps _ _ _ _ hf] at h
  exact h

theorem evolves_recordDeltaSent (bytes : Nat) : Evolves peer m (m.recordDeltaSent other bytes) :=
  m.evolves_modifyPeer peer other fun _ => rfl

theorem evolves_recordDeltaReceived (bytes : Nat) (timestamp : UInt64) :
    Evolves peer m (m.recordDeltaReceived other bytes timestamp) :=
  m.evolves_modifyPeer peer other fun _ => rfl

theorem evolves_buildDelta_other (hother : other ≠ peer) (nonce : Nonce) (nowMs : UInt64) :
    Evolves peer m (m.buildDeltaDocumentForPeer crypto other nonce nowMs).1 := by
  unfold buildDeltaDocumentForPeer
  cases m.deltaForPeer other nowMs with
  | none => exact Evolves.refl m
  | some delta =>
      refine Evolves.trans ?_ (evolves_recordDeltaSent ..)
      refine ⟨⟨[], rfl⟩, ?_⟩
      intro key stamp h
      simp only [sentStamp, DeltaEncoder.sentStamp_modifyPeer, if_neg hother] at h
      exact h

end Tables

/-! ## Receive paths -/

theorem evolves_spans (peer : NodeId) : Spans (Evolves peer (D := D)) where
  refl := Evolves.refl
  trans _ _ _ := Evolves.trans
  session _ _ := Evolves.of_eq rfl rfl
  seen _ _ := Evolves.of_eq rfl rfl
  path _ _ := Evolves.of_eq rfl rfl
  identifier _ _ _ := Evolves.of_eq rfl rfl
  synced _ _ _ := Evolves.of_eq rfl rfl
  counted m other bytes timestamp := m.evolves_recordDeltaReceived peer other bytes timestamp
  peripherals _ _ := Evolves.of_eq rfl rfl
  appDocuments _ _ := Evolves.of_eq rfl rfl
  merged _ data := Evolves.of_run [.merge data] rfl rfl

theorem evolves_onBleData (m : PeatMesh D) (peer : NodeId) (identifier : String) (data : Bytes)
    (nowMs : UInt64) : Evolves peer m (m.onBleData crypto identifier data nowMs).1 := by
  have hspan := (evolves_spans peer).onBleData crypto m data nowMs identifier
  split at hspan
  · exact hspan
  · obtain ⟨base, hbase, hregistered⟩ := hspan
    rw [hregistered]
    exact hbase.trans (Evolves.of_eq rfl rfl)

/-! ## Connections and maintenance -/

section Connections

variable (m : PeatMesh D) (peer : NodeId)

theorem evolves_onBleConnected (identifier : String) (nowMs : UInt64) :
    Evolves peer m (m.onBleConnected identifier nowMs) := by
  unfold onBleConnected
  dsimp only
  cases (m.peerManager.onConnected identifier nowMs).2 with
  | none => exact Evolves.of_eq rfl rfl
  | some nodeId =>
      refine Evolves.trans ?_ (evolves_registerPeerForDelta ..)
      exact Evolves.of_eq rfl rfl

theorem evolves_dropConnection (nodeId : NodeId) (reason : DisconnectReason) (nowMs : UInt64) :
    Evolves peer m (m.dropConnection nodeId reason nowMs) := by
  refine Evolves.trans ?_ (evolves_unregisterPeerForDelta ..)
  exact Evolves.of_eq rfl rfl

theorem evolves_onBleDisconnected (identifier : String) (reason : DisconnectReason)
    (nowMs : UInt64) : Evolves peer m (m.onBleDisconnected identifier reason nowMs) := by
  unfold onBleDisconnected
  dsimp only
  cases (m.peerManager.onDisconnected identifier).2 with
  | none => exact Evolves.of_eq rfl rfl
  | some nodeId =>
      refine Evolves.trans ?_ (evolves_dropConnection ..)
      exact Evolves.of_eq rfl rfl

theorem evolves_onPeerDisconnected (nodeId : NodeId) (reason : DisconnectReason)
    (nowMs : UInt64) : Evolves peer m (m.onPeerDisconnected nodeId reason nowMs) := by
  unfold onPeerDisconnected
  dsimp only
  split_ifs
  · refine Evolves.trans ?_ (evolves_dropConnection ..)
    exact Evolves.of_eq rfl rfl
  · exact Evolves.of_eq rfl rfl

theorem evolves_onIncomingConnection (identifier : String) (nodeId : NodeId) (nowMs : UInt64) :
    Evolves peer m (m.onIncomingConnection identifier nodeId nowMs) := by
  refine Evolves.trans ?_ (evolves_registerPeerForDelta ..)
  exact Evolves.of_eq rfl rfl

theorem evolves_onBleDiscovered (identifier : String) (name : Option String) (rssi : Int8)
    (meshId : Option String) (nowMs : UInt64) :
    Evolves peer m (m.onBleDiscovered identifier name rssi meshId nowMs) := by
  unfold onBleDiscovered
  dsimp only
  cases (m.peerManager.onDiscovered identifier name rssi meshId nowMs).2 with
  | none => exact Evolves.of_eq rfl rfl
  | some found => exact Evolves.of_eq rfl rfl

theorem evolves_syncDue_maintain (nowMs : UInt64) :
    Evolves peer m ((m.maintain nowMs).syncDue nowMs).1 := by
  have hmaintain : Evolves peer m (m.maintain nowMs) := by
    unfold maintain
    dsimp only
    split_ifs
    · exact Evolves.of_eq rfl rfl
    · exact Evolves.refl m
  refine hmaintain.trans ?_
  unfold syncDue
  dsimp only
  split_ifs
  · exact Evolves.of_eq rfl rfl
  · exact Evolves.refl _

end Connections

/-! ## Any action -/

/-- The delta to a peer that an action builds. -/
def builtFor (peer : NodeId) (m : PeatMesh D) : Action D → Option DeltaDocument
  | .buildDelta other _ nowMs => if other = peer then m.deltaForPeer peer nowMs else none
  | _ => none

def BuildsFor (peer : NodeId) : Action D → Prop
  | .buildDelta other _ _ => other = peer
  | _ => False

theorem evolves_act {peer : NodeId} {action : Action D} (h : ¬ BuildsFor peer action)
    (m : PeatMesh D) : Evolves peer m (m.act crypto action) := by
  cases action with
  | mutate mutation => exact Evolves.of_run [.mutate mutation] rfl rfl
  | startEmergencyWithKnownPeers timestamp =>
      let peers := m.peerManager.getPeers.map PeatPeer.nodeId
      exact Evolves.of_run [.mutate (.startEmergency timestamp peers)] rfl rfl
  | discovered => exact evolves_onBleDiscovered ..
  | connected => exact evolves_onBleConnected ..
  | disconnected => exact evolves_onBleDisconnected ..
  | peerDisconnected => exact evolves_onPeerDisconnected ..
  | incomingConnection => exact evolves_onIncomingConnection ..
  | dataReceived => exact (evolves_spans peer).onBleDataReceived ..
  | dataReceivedFromNode => exact (evolves_spans peer).onBleDataReceivedFromNode ..
  | data => exact evolves_onBleData ..
  | dataReceivedAnonymous => exact (evolves_spans peer).onBleDataReceivedAnonymous ..
  | relayEnvelope => exact (evolves_spans peer).processRelayEnvelope ..
  | registerPeerForDelta => exact evolves_registerPeerForDelta ..
  | unregisterPeerForDelta => exact evolves_unregisterPeerForDelta ..
  | resetPeerDeltaState => exact evolves_resetPeerDeltaState ..
  | recordDeltaSent => exact evolves_recordDeltaSent ..
  | recordDeltaReceived => exact evolves_recordDeltaReceived ..
  | buildDelta other nonce nowMs => exact m.evolves_buildDelta_other crypto peer other h nonce nowMs
  | tick => exact evolves_syncDue_maintain ..
  | tickWithPeerDeltas => exact evolves_syncDue_maintain ..
  | _ => exact Evolves.of_eq rfl rfl

theorem documentSync_buildDelta (m : PeatMesh D) (peer : NodeId) (nonce : Nonce) (nowMs : UInt64) :
    (m.buildDeltaDocumentForPeer crypto peer nonce nowMs).1.documentSync = m.documentSync := by
  unfold buildDeltaDocumentForPeer
  cases m.deltaForPeer peer nowMs <;> rfl

/-- The document state of a mesh node goes only where documents and local changes lead it. -/
theorem documentSync_act (m : PeatMesh D) (action : Action D) :
    ∃ changes, (m.act crypto action).documentSync = m.documentSync.run changes := by
  by_cases hbuilds : BuildsFor 0 action
  · cases action with
    | buildDelta peer nonce nowMs => exact ⟨[], m.documentSync_buildDelta crypto peer nonce nowMs⟩
    | _ => exact hbuilds.elim
  · exact (evolves_act crypto hbuilds m).documentSync

theorem documentSync_run (m : PeatMesh D) (actions : List (Action D)) :
    ∃ changes, (LoggedRun.run (act crypto) m actions).documentSync =
      m.documentSync.run changes := by
  induction actions generalizing m with
  | nil => exact ⟨[], rfl⟩
  | cons action actions ih =>
      obtain ⟨changes, hchanges⟩ := m.documentSync_act crypto action
      obtain ⟨more, hmore⟩ := ih (m.act crypto action)
      refine ⟨changes ++ more, ?_⟩
      rw [LoggedRun.run_cons, hmore, hchanges, DocumentSync.run_append]

/-- A node keeps the identifier it was configured with. -/
theorem nodeId_run (config : PeatMeshConfig) (actions : List (Action D)) :
    (run crypto config actions).documentSync.nodeId = config.nodeId := by
  obtain ⟨changes, hchanges⟩ := documentSync_run crypto (new crypto config) actions
  rw [run, hchanges]
  exact (DocumentSync.run_frame _ changes).1

end PeatMesh

end PeatBtle
