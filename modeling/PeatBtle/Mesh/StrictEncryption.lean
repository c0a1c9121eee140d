import PeatBtle.Mesh.Effect

/-!
# Strict encryption

In a strict mesh every path to the shared state goes through decryption: if a
received message changes anything, its document bytes were encrypted under the
mesh key, and the change is that of the plaintext.
-/

namespace PeatBtle

open Wire

/-- The ways bytes come in, with what the platform knows about the sender. -/
inductive EntryPoint where
  | received (identifier : String)
  | fromNode (nodeId : NodeId)
  | incoming (identifier : String)
  | anonymous (identifier : String)

/-- The document bytes of a message: all of it, or the payload of the envelope it is. -/
def Carries (data document : Bytes) : Prop :=
  document = data ∨ ∃ envelope, RelayEnvelope.decode data = some envelope ∧ document = envelope.payload

namespace PeatMesh

variable {D : Type} (crypto : Crypto)

def receive (m : PeatMesh D) (data : Bytes) (nowMs : UInt64) :
    EntryPoint → PeatMesh D × Option DataReceivedResult
  | .received identifier => m.onBleDataReceived crypto identifier data nowMs
  | .fromNode nodeId => m.onBleDataReceivedFromNode crypto nodeId data nowMs
  | .incoming identifier => m.onBleData crypto identifier data nowMs
  | .anonymous identifier => m.onBleDataReceivedAnonymous crypto identifier data nowMs

/-- The state that a plaintext leads to at an entry point. -/
def plaintextEffect (m : PeatMesh D) (plaintext : Bytes) : EntryPoint → SharedState D
  | .received _ => (m.knownEffect plaintext).1
  | .fromNode _ => (m.knownEffect plaintext).1
  | .incoming _ => (m.mergeEffect plaintext).1
  | .anonymous _ => m.anonymousEffect plaintext

/-- Counter, emergency, app documents or stored peripherals differ. -/
def Changed (m after : PeatMesh D) : Prop :=
  after.documentSync.counter ≠ m.documentSync.counter ∨
    after.documentSync.emergency ≠ m.documentSync.emergency ∨
    after.appDocuments ≠ m.appDocuments ∨ after.peerPeripherals ≠ m.peerPeripherals

theorem Changed.shared_ne {m after : PeatMesh D} (h : Changed m after) : after.shared ≠ m.shared := by
  intro hsame
  have hsync : after.documentSync = m.documentSync := congrArg SharedState.documentSync hsame
  have happ : after.appDocuments = m.appDocuments := congrArg SharedState.appDocuments hsame
  have hperipherals : after.peerPeripherals = m.peerPeripherals :=
    congrArg SharedState.peerPeripherals hsame
  simp [Changed, hsync, happ, hperipherals] at h

section Strict

variable {crypto} {m : PeatMesh D} {key : Key}

theorem decryptDocument_of_strict (hkey : m.encryptionKey = some key)
    (hstrict : m.config.strictEncryption = true) {document plaintext : Bytes}
    (h : m.decryptDocument crypto document = some plaintext) :
    2 ≤ document.length ∧ byteAt document 0 = encryptedMarker ∧
      MeshEncryptionKey.decryptFromBytes crypto key (document.drop 2) = some plaintext := by
  unfold decryptDocument at h
  by_cases hmarked : document.length ≥ 2 ∧ byteAt document 0 = encryptedMarker
  · rw [if_pos hmarked, hkey] at h
    exact ⟨hmarked.1, hmarked.2, h⟩
  · rw [if_neg hmarked, if_pos ⟨hstrict, by rw [hkey]; rfl⟩] at h
    cases h

theorem unwrap_carries {data document : Bytes} {nowMs : UInt64} {relay : RelayInfo}
    (h : (m.unwrap data nowMs).2 = some (document, relay)) : Carries data document := by
  unfold unwrap at h
  split_ifs at h
  · unfold unwrapEnvelope at h
    cases hdecode : RelayEnvelope.decode data with
    | none =>
        rw [hdecode] at h
        cases h
    | some envelope =>
        rw [hdecode] at h
        dsimp only at h
        split at h
        · cases h
          exact Or.inr ⟨envelope, hdecode, rfl⟩
        · cases h
  · cases h
    exact Or.inl rfl
  · cases h
    exact Or.inl rfl

/-- Where receiving is unwrapping, decryption and an effect, a message that changes the shared state
was decrypted and its plaintext did it. -/
theorem decrypted_of_changed {data : Bytes} {nowMs : UInt64} {effect : Bytes → Effect D}
    {received : PeatMesh D × Option DataReceivedResult}
    (hobserve : observe received = m.conclude crypto effect (m.unwrap data nowMs))
    (h : received.1.shared ≠ m.shared) :
    ∃ document plaintext, Carries data document ∧
      m.decryptDocument crypto document = some plaintext ∧
      received.1.shared = (effect plaintext).1 := by
  have hshared : received.1.shared = (m.conclude crypto effect (m.unwrap data nowMs)).shared :=
    congrArg Observation.shared hobserve
  rw [hshared] at h ⊢
  unfold conclude at h ⊢
  cases hunwrap : (m.unwrap data nowMs).2 with
  | none =>
      rw [hunwrap] at h
      exact absurd rfl h
  | some opened =>
      obtain ⟨document, relay⟩ := opened
      rw [hunwrap] at h
      dsimp only at h ⊢
      cases hplain : m.decryptDocument crypto document with
      | none =>
          rw [hplain] at h
          exact absurd rfl h
      | some plaintext => exact ⟨document, plaintext, unwrap_carries hunwrap, hplain, rfl⟩

/-- Each entry point changes the shared state only by the effect of a decrypted plaintext. -/
theorem receive_of_changed {data : Bytes} {nowMs : UInt64} {entry : EntryPoint}
    (h : (m.receive crypto data nowMs entry).1.shared ≠ m.shared) :
    ∃ document plaintext, Carries data document ∧
      m.decryptDocument crypto document = some plaintext ∧
      (m.receive crypto data nowMs entry).1.shared = m.plaintextEffect plaintext entry := by
  cases entry with
  | received identifier =>
      cases hknown : m.peerManager.getNodeId identifier with
      | none =>
          have hsame : (m.onBleDataReceived crypto identifier data nowMs).1 = m := by
            simp only [onBleDataReceived, hknown]
          exact absurd (congrArg shared hsame) h
      | some nodeId =>
          exact decrypted_of_changed (observe_onBleDataReceived crypto hknown data nowMs) h
  | fromNode nodeId =>
      exact decrypted_of_changed (m.observe_onBleDataReceivedFromNode crypto nodeId data nowMs) h
  | incoming identifier =>
      exact decrypted_of_changed (m.observe_onBleData crypto identifier data nowMs) h
  | anonymous identifier =>
      simp only [receive, onBleDataReceivedAnonymous] at h ⊢
      cases hplain : m.decryptDocument crypto data with
      | none =>
          rw [hplain] at h
          exact absurd rfl h
      | some plaintext =>
          exact ⟨data, plaintext, Or.inl rfl, hplain,
            m.shared_processAnonymous identifier plaintext nowMs⟩

end Strict

/-- Whatever reaches a strict node by whatever entry point, a change of its shared state comes
from document bytes encrypted under its key, and is the one their plaintext makes. -/
theorem strict_change_is_decrypted (m : PeatMesh D) (key : Key) (hkey : m.encryptionKey = some key)
    (hstrict : m.config.strictEncryption = true) (data : Bytes) (nowMs : UInt64)
    (entry : EntryPoint) (hchanged : Changed m (m.receive crypto data nowMs entry).1) :
    ∃ document plaintext, Carries data document ∧
      2 ≤ document.length ∧ byteAt document 0 = encryptedMarker ∧
      MeshEncryptionKey.decryptFromBytes crypto key (document.drop 2) = some plaintext ∧
      (m.receive crypto data nowMs entry).1.shared = m.plaintextEffect plaintext entry := by
  obtain ⟨document, plaintext, hcarries, hplain, heffect⟩ := receive_of_changed hchanged.shared_ne
  obtain ⟨hlen, hmarker, hdecrypt⟩ := decryptDocument_of_strict hkey hstrict hplain
  exact ⟨document, plaintext, hcarries, hlen, hmarker, hdecrypt, heffect⟩

/-- A document and its encryption under the key that the secret of 32 bytes 0x42 gives the mesh
DEMO, as the real primitives compute them. -/
def recordedDocument : Bytes :=
  PeatDocument.encode ⟨1, 0x11111111, GCounter.new.increment 0x11111111 5, none, none⟩

def recordedKey : Key :=
  #v[0x57, 0xAB, 0x50, 0x02, 0x75, 0xEC, 0xFC, 0xF8, 0xC0, 0x2E, 0xC9, 0x8C, 0x0C, 0x75, 0x23, 0x94,
    0x8C, 0x6F, 0xA4, 0xA5, 0xEC, 0xAD, 0x22, 0xE0, 0x8E, 0xA9, 0xFC, 0x79, 0xE4, 0xF6, 0xE9, 0xF1]

def recordedNonce : Nonce := #v[0, 1, 2, 3, 4, 5, 6, 7, 8, 9, 10, 11]

def recordedCiphertext : Bytes :=
  [0x0E, 0xE0, 0xA1, 0x75, 0x45, 0x18, 0xE3, 0xD1, 0x89, 0x4C, 0x5C, 0xE1, 0xE5, 0xF0, 0x85, 0x2B,
    0x4A, 0x41, 0x22, 0xA7, 0xB4, 0xDD, 0xAF, 0x40, 0xE3, 0x29, 0xD0, 0x79, 0x66, 0x01, 0x6E, 0x99,
    0x0E, 0x2A, 0xA7, 0xD2, 0x1F, 0x19, 0xF8, 0xA5]

/-- The primitives on that one document. -/
def recordedCrypto : Crypto :=
  { Crypto.unavailable with
    decrypt := fun key nonce ciphertext =>
      if key = recordedKey ∧ nonce = recordedNonce ∧ ciphertext = recordedCiphertext then
        some recordedDocument else none
    deriveKey := fun salt secret _ =>
      if salt = utf8 "DEMO" ∧ secret = List.replicate 32 0x42 then recordedKey
      else Vector.replicate 32 0 }

def strictNode : PeatMesh Unit :=
  new recordedCrypto (((PeatMeshConfig.new 0x22222222 "BRAVO-1" "DEMO").withEncryption
    (Vector.replicate 32 0x42)).withStrictEncryption)

def encryptedMessage : Bytes :=
  encryptedMarker :: 0x00 :: EncryptedDocument.encode ⟨recordedNonce, recordedCiphertext⟩

theorem strictNode_takes_recorded_document :
    ∃ document plaintext, Carries encryptedMessage document ∧
      2 ≤ document.length ∧ byteAt document 0 = encryptedMarker ∧
      MeshEncryptionKey.decryptFromBytes recordedCrypto recordedKey (document.drop 2) =
        some plaintext ∧
      (strictNode.receive recordedCrypto encryptedMessage 1000 (.fromNode 0x11111111)).1.shared =
        strictNode.plaintextEffect plaintext (.fromNode 0x11111111) :=
  strict_change_is_decrypted recordedCrypto strictNode recordedKey (by decide) (by decide)
    encryptedMessage 1000 (.fromNode 0x11111111) (Or.inl (by decide))

end PeatMesh

end PeatBtle
