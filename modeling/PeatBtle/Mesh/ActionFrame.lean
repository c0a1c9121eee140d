import PeatBtle.Mesh.ReceiveFrame
import PeatBtle.Mesh.Run
import PeatBtle.Mesh.StrictEncryption

/-!
# What an action leaves alone

Settings change by their own actions only, app documents by storing and by deltas, the
document state by local changes and by documents. The rest is housekeeping.
-/

namespace PeatBtle

open Wire

/-- What a node is set up with. -/
structure Settings (D : Type) where
  encryptionKey : Option Key
  strictEncryption : Bool
  meshId : String
  nodeId : NodeId
  documentRegistry : DocumentRegistry D

/-- Whether the platform knows enough of the sender to hand the bytes on. -/
def EntryPoint.Admits {D : Type} (m : PeatMesh D) : EntryPoint → Prop
  | .received identifier => (m.peerManager.getNodeId identifier).isSome = true
  | _ => True

namespace PeatMesh

variable {D : Type} (crypto : Crypto) (m : PeatMesh D)

def settings : Settings D where
  encryptionKey := m.encryptionKey
  strictEncryption := m.config.strictEncryption
  meshId := m.config.meshId
  nodeId := m.config.nodeId
  documentRegistry := m.documentRegistry

/-! ## Receiving -/

theorem settings_spans : Spans fun m after : PeatMesh D => after.settings = m.settings where
  refl _ := rfl
  trans _ _ _ hfirst hsecond := hsecond.trans hfirst
  session _ _ := rfl
  seen _ _ := rfl
  path _ _ := rfl
  identifier _ _ _ := rfl
  synced _ _ _ := rfl
  counted _ _ _ _ := rfl
  peripherals _ _ := rfl
  appDocuments _ _ := rfl
  merged _ _ := rfl

theorem settings_receive (data : Bytes) (nowMs : UInt64) (entry : EntryPoint) :
    (m.receive crypto data nowMs entry).1.settings = m.settings := by
  cases entry with
  | received identifier => exact settings_spans.onBleDataReceived crypto m data nowMs identifier
  | fromNode nodeId => exact settings_spans.onBleDataReceivedFromNode crypto m data nowMs nodeId
  | anonymous identifier =>
      exact settings_spans.onBleDataReceivedAnonymous crypto m data nowMs identifier
  | incoming identifier =>
      have hspan := settings_spans.onBleData crypto m data nowMs identifier
      split at hspan
      · exact hspan
      · obtain ⟨base, hbase, hregistered⟩ := hspan
        show (m.onBleData crypto identifier data nowMs).1.settings = m.settings
        rw [hregistered]
        exact hbase

variable {m} in
/-- Bytes that ask for no other treatment have the effect of what they decrypt to. -/
theorem shared_receive_of_direct {data plaintext : Bytes} (nowMs : UInt64) {entry : EntryPoint}
    (hdirect : ∀ nowMs, m.unwrap data nowMs = (m.seenCache, some (data, RelayInfo.direct)))
    (hdecrypt : m.decryptDocument crypto data = some plaintext) (hadmits : entry.Admits m) :
    (m.receive crypto data nowMs entry).1.shared = m.plaintextEffect plaintext entry := by
  have hconclude : ∀ (effect : Bytes → Effect D) {received : PeatMesh D × Option DataReceivedResult},
      observe received = m.conclude crypto effect (m.unwrap data nowMs) →
        received.1.shared = (effect plaintext).1 := by
    intro effect received hobserve
    rw [hdirect, conclude] at hobserve
    dsimp only at hobserve
    rw [hdecrypt] at hobserve
    exact congrArg Observation.shared hobserve
  cases entry with
  | received identifier =>
      obtain ⟨nodeId, hknown⟩ := Option.isSome_iff_exists.mp hadmits
      exact hconclude _ (observe_onBleDataReceived crypto hknown data nowMs)
  | fromNode nodeId => exact hconclude _ (m.observe_onBleDataReceivedFromNode crypto nodeId data nowMs)
  | incoming identifier => exact hconclude _ (m.observe_onBleData crypto identifier data nowMs)
  | anonymous identifier =>
      simp only [receive, onBleDataReceivedAnonymous, hdecrypt]
      exact m.shared_processAnonymous identifier plaintext nowMs

variable {m} in
theorem unwrap_of_unmarked {data : Bytes} (h : byteAt data 0 ≠ keyExchangeMarker ∧
      byteAt data 0 ≠ peerE2eeMarker ∧ byteAt data 0 ≠ relayEnvelopeMarker) (nowMs : UInt64) :
    m.unwrap data nowMs = (m.seenCache, some (data, RelayInfo.direct)) := by
  obtain ⟨hkey, hpeer, hrelay⟩ := h
  unfold unwrap
  rw [if_neg hkey, if_neg hpeer, if_neg hrelay, ite_self]

/-! ## Actions -/

/-- The local change that an action makes. -/
def localChange : Action D → Option DocumentSync.Mutation
  | .mutate mutation => some mutation
  | .startEmergencyWithKnownPeers timestamp =>
      some (.startEmergency timestamp (m.peerManager.getPeers.map PeatPeer.nodeId))
  | _ => none

/-- The bytes that an action takes in. -/
def takenIn : Action D → Option (Bytes × UInt64 × EntryPoint)
  | .dataReceived identifier data nowMs => some (data, nowMs, .received identifier)
  | .dataReceivedFromNode nodeId data nowMs => some (data, nowMs, .fromNode nodeId)
  | .data identifier data nowMs => some (data, nowMs, .incoming identifier)
  | .dataReceivedAnonymous identifier data nowMs => some (data, nowMs, .anonymous identifier)
  | _ => none

/-- Keys, document types and app documents are the application's. -/
def IsApplications : Action D → Prop
  | .enableEncryption _ => True
  | .disableEncryption => True
  | .registerDocumentType _ _ => True
  | .storeAppDocument _ _ => True
  | _ => False

variable {m} in
theorem act_of_takenIn {action : Action D} {data : Bytes} {nowMs : UInt64} {entry : EntryPoint}
    (h : takenIn action = some (data, nowMs, entry)) :
    m.act crypto action = (m.receive crypto data nowMs entry).1 ∧ m.localChange action = none := by
  cases action <;> cases h <;> exact ⟨rfl, rfl⟩

theorem processRelayEnvelope_frame (data : Bytes) (sourcePeer : NodeId) (nowMs : UInt64) :
    (m.processRelayEnvelope data sourcePeer nowMs).1.shared = m.shared := by
  unfold processRelayEnvelope
  split
  · rfl
  · unfold noteRelayPath
    dsimp only
    split <;> rfl

theorem maintain_frame (nowMs : UInt64) :
    (m.maintain nowMs).settings = m.settings ∧ (m.maintain nowMs).shared = m.shared := by
  unfold maintain
  dsimp only
  split <;> exact ⟨rfl, rfl⟩

theorem syncDue_frame (nowMs : UInt64) :
    (m.syncDue nowMs).1.settings = m.settings ∧ (m.syncDue nowMs).1.shared = m.shared := by
  unfold syncDue
  dsimp only
  split <;> exact ⟨rfl, rfl⟩

/-- An action of the node's own changes the document state locally, if anything of this. -/
theorem act_frame {action : Action D} (htaken : takenIn action = none)
    (happ : ¬ IsApplications action) :
    (m.act crypto action).settings = m.settings ∧
      (m.act crypto action).shared = { m.shared with
        documentSync := (m.localChange action).elim m.documentSync m.documentSync.mutate } := by
  cases action with
  | dataReceived => cases htaken
  | dataReceivedFromNode => cases htaken
  | data => cases htaken
  | dataReceivedAnonymous => cases htaken
  | enableEncryption => exact absurd trivial happ
  | disableEncryption => exact absurd trivial happ
  | registerDocumentType => exact absurd trivial happ
  | storeAppDocument => exact absurd trivial happ
  | discovered identifier name rssi meshId nowMs =>
      simp only [act, onBleDiscovered]
      split <;> exact ⟨rfl, rfl⟩
  | connected identifier nowMs =>
      simp only [act, onBleConnected]
      split <;> exact ⟨rfl, rfl⟩
  | disconnected identifier reason nowMs =>
      simp only [act, onBleDisconnected]
      split <;> exact ⟨rfl, rfl⟩
  | peerDisconnected nodeId reason nowMs =>
      simp only [act, onPeerDisconnected]
      split <;> exact ⟨rfl, rfl⟩
  | relayEnvelope data sourcePeer nowMs =>
      exact ⟨settings_spans.processRelayEnvelope m data nowMs sourcePeer,
        m.processRelayEnvelope_frame data sourcePeer nowMs⟩
  | buildDelta peer nonce nowMs =>
      simp only [act, buildDeltaDocumentForPeer]
      split <;> exact ⟨rfl, rfl⟩
  | tick nonce nowMs =>
      obtain ⟨hsettings, hshared⟩ := (m.maintain nowMs).syncDue_frame nowMs
      obtain ⟨hkept, hsame⟩ := m.maintain_frame nowMs
      exact ⟨hsettings.trans hkept, hshared.trans hsame⟩
  | tickWithPeerDeltas nonce nowMs =>
      obtain ⟨hsettings, hshared⟩ := (m.maintain nowMs).syncDue_frame nowMs
      obtain ⟨hkept, hsame⟩ := m.maintain_frame nowMs
      exact ⟨hsettings.trans hkept, hshared.trans hsame⟩
  | _ => exact ⟨rfl, rfl⟩

end PeatMesh

end PeatBtle
