import PeatBtle.Chat.Mesh

/-!
# Reading a broadcast

A receiver takes one layer of encryption off. Every broadcast must therefore put
on exactly one if there is a key; without a key its first byte must not be taken
for the mark of an encrypted document.
-/

namespace PeatBtle

open Wire

namespace PeatMesh

variable {D : Type} {crypto : Crypto} {m receiver : PeatMesh D} {key : Key}

theorem decryptDocument_of_key (hkey : receiver.encryptionKey = some key) (reserved : UInt8)
    (data : Bytes) :
    receiver.decryptDocument crypto (encryptedMarker :: reserved :: data) =
      MeshEncryptionKey.decryptFromBytes crypto key data := by
  have hmarked : (encryptedMarker :: reserved :: data).length ≥ 2 ∧
      byteAt (encryptedMarker :: reserved :: data) 0 = encryptedMarker := by
    simp
  rw [decryptDocument, if_pos hmarked, hkey]
  rfl

theorem decryptDocument_of_no_key (hkey : receiver.encryptionKey = none) {data : Bytes}
    (hlong : 2 ≤ data.length) :
    receiver.decryptDocument crypto data =
      if byteAt data 0 = encryptedMarker then none else some data := by
  have hlenient : ¬ (receiver.config.strictEncryption = true ∧
      receiver.encryptionKey.isSome = true) := by
    simp [hkey]
  by_cases hmarked : byteAt data 0 = encryptedMarker
  · rw [decryptDocument, if_pos ⟨hlong, hmarked⟩, if_pos hmarked, hkey]
  · have hplain : ¬ (data.length ≥ 2 ∧ byteAt data 0 = encryptedMarker) := fun h => hmarked h.2
    rw [decryptDocument, if_neg hplain, if_neg hmarked, if_neg hlenient]

theorem encryptDocument_of_no_key (hkey : m.encryptionKey = none) (nonce : Nonce)
    (plaintext : Bytes) : m.encryptDocument crypto nonce plaintext = plaintext := by
  rw [encryptDocument, hkey]

theorem encryptDocument_of_key (haead : crypto.Aead) (hkey : m.encryptionKey = some key)
    (nonce : Nonce) (plaintext : Bytes) :
    ∃ data, m.encryptDocument crypto nonce plaintext = encryptedMarker :: 0 :: data ∧
      MeshEncryptionKey.decryptFromBytes crypto key data = some plaintext ∧
      data.length = plaintext.length + 28 := by
  obtain ⟨data, hencrypt, hdecrypt⟩ :=
    MeshEncryptionKey.decrypt_encrypt haead key nonce plaintext
  refine ⟨data, ?_, hdecrypt, MeshEncryptionKey.length_of_decrypt haead key hdecrypt⟩
  rw [encryptDocument, hkey]
  dsimp only
  rw [hencrypt]

/-- The mark, a reserved byte, the nonce and the tag. -/
def layerLength (m : PeatMesh D) : Nat := if m.encryptionKey.isSome then 30 else 0

theorem encryptDocument_length (haead : crypto.Aead) (nonce : Nonce) (plaintext : Bytes) :
    (m.encryptDocument crypto nonce plaintext).length = plaintext.length + m.layerLength := by
  unfold layerLength
  cases hkey : m.encryptionKey with
  | none =>
      rw [encryptDocument_of_no_key hkey]
      rfl
  | some key =>
      obtain ⟨data, hbytes, -, hlen⟩ := encryptDocument_of_key haead hkey nonce plaintext
      rw [hbytes, List.length_cons, List.length_cons, hlen]
      rfl

/-- Either a layer has come off or the bytes were not marked. -/
theorem length_of_decryptDocument (haead : crypto.Aead) {data plaintext : Bytes}
    (h : receiver.decryptDocument crypto data = some plaintext) :
    (2 ≤ data.length ∧ byteAt data 0 = encryptedMarker ∧
        data.length = plaintext.length + receiver.layerLength) ∨
      ¬ (2 ≤ data.length ∧ byteAt data 0 = encryptedMarker) ∧ data = plaintext := by
  unfold decryptDocument at h
  split at h
  · rename_i hmarked
    refine Or.inl ⟨hmarked.1, hmarked.2, ?_⟩
    cases hkey : receiver.encryptionKey with
    | none =>
        rw [hkey] at h
        cases h
    | some key =>
        rw [hkey] at h
        have hlen := MeshEncryptionKey.length_of_decrypt haead key h
        have hlong := hmarked.1
        rw [List.length_drop, EncryptedDocument.overhead] at hlen
        rw [layerLength, hkey, Option.isSome_some, if_pos rfl]
        omega
  · rename_i hplain
    refine Or.inr ⟨hplain, ?_⟩
    split at h
    · cases h
    · exact Option.some.inj h

end PeatMesh

namespace ChatMesh

variable {D : Type} (crypto : Crypto)

/-- Every node with the same key reads the plaintext out of the bytes. -/
def ReadBack (m : ChatMesh D) (bytes plaintext : Bytes) : Prop :=
  ∀ receiver : ChatMesh D, receiver.encryptionKey = m.encryptionKey →
    receiver.decryptDocument crypto bytes = some plaintext

/-! ## Layers -/

section Layers

variable {crypto} (haead : crypto.Aead) (m : ChatMesh D) {plaintext : Bytes}
  (hlong : 2 ≤ plaintext.length)
include haead hlong

/-- One layer comes off if there is a key. -/
theorem readBack_once_iff (nonce : Nonce) :
    m.ReadBack crypto (m.encryptDocument crypto nonce plaintext) plaintext ↔
      (m.encryptionKey = none → byteAt plaintext 0 ≠ encryptedMarker) := by
  unfold ReadBack
  cases hkey : m.encryptionKey with
  | none =>
      rw [PeatMesh.encryptDocument_of_no_key hkey]
      constructor
      · intro hread _ hmarked
        have hself := hread m hkey
        rw [PeatMesh.decryptDocument_of_no_key hkey hlong, if_pos hmarked] at hself
        cases hself
      · intro hplain receiver hsame
        rw [PeatMesh.decryptDocument_of_no_key hsame hlong, if_neg (hplain rfl)]
  | some key =>
      obtain ⟨data, hbytes, hdecrypt, -⟩ :=
        PeatMesh.encryptDocument_of_key haead hkey nonce plaintext
      refine iff_of_true ?_ nofun
      intro receiver hsame
      rw [hbytes, PeatMesh.decryptDocument_of_key hsame]
      exact hdecrypt

/-- Two layers come off only where there are none. -/
theorem readBack_twice_iff (inner outer : Nonce) :
    m.ReadBack crypto
        (m.encryptDocument crypto outer (m.encryptDocument crypto inner plaintext)) plaintext ↔
      m.encryptionKey = none ∧ byteAt plaintext 0 ≠ encryptedMarker := by
  cases hkey : m.encryptionKey with
  | none =>
      have honce := readBack_once_iff haead m hlong inner
      rw [PeatMesh.encryptDocument_of_no_key hkey] at honce
      rw [PeatMesh.encryptDocument_of_no_key hkey, PeatMesh.encryptDocument_of_no_key hkey, honce]
      simp [hkey]
  | some key =>
      refine iff_of_false ?_ (by simp)
      intro hread
      obtain ⟨data, hbytes, hdecrypt, -⟩ := PeatMesh.encryptDocument_of_key haead hkey outer
        (m.encryptDocument crypto inner plaintext)
      have hlen := PeatMesh.encryptDocument_length (m := m.toPeatMesh) haead inner plaintext
      have hself := hread m rfl
      rw [hbytes, PeatMesh.decryptDocument_of_key hkey, hdecrypt] at hself
      rw [Option.some.inj hself, PeatMesh.layerLength, hkey, Option.isSome_some, if_pos rfl] at hlen
      omega

/-- A broadcast that is cut is not read. -/
theorem readBack_take_iff (nonce : Nonce) (n : Nat) :
    m.ReadBack crypto ((m.encryptDocument crypto nonce plaintext).take n) plaintext ↔
      (m.encryptDocument crypto nonce plaintext).length ≤ n ∧
        m.ReadBack crypto (m.encryptDocument crypto nonce plaintext) plaintext := by
  by_cases hfits : (m.encryptDocument crypto nonce plaintext).length ≤ n
  · rw [List.take_of_length_le hfits]
    exact (and_iff_right hfits).symm
  · refine iff_of_false ?_ (fun h => hfits h.1)
    intro hread
    have hlen := PeatMesh.encryptDocument_length (m := m.toPeatMesh) haead nonce plaintext
    have hcut : ((m.encryptDocument crypto nonce plaintext).take n).length = n := by
      rw [List.length_take]
      omega
    rcases PeatMesh.length_of_decryptDocument haead (hread m rfl) with
      ⟨-, -, hlayer⟩ | ⟨hplain, hsame⟩
    · omega
    · -- What remains of an encrypted document is marked as long as it could be a plaintext.
      rw [hsame] at hcut
      cases hkey : m.encryptionKey with
      | none =>
          rw [PeatMesh.encryptDocument_of_no_key hkey] at hfits
          omega
      | some key =>
          obtain ⟨data, hbytes, -, -⟩ := PeatMesh.encryptDocument_of_key haead hkey nonce plaintext
          obtain ⟨n, rfl⟩ := Nat.exists_eq_add_of_le' (show 1 ≤ n by omega)
          refine hplain ⟨by rw [hsame]; exact hlong, ?_⟩
          rw [hbytes]
          rfl

end Layers

/-! ## What is sent -/

def Broadcast.isDelta : Broadcast → Bool
  | .buildFullDeltaDocument .. => true
  | .buildDeltaDocumentForPeer .. => true
  | _ => false

def Broadcast.isRelay : Broadcast → Bool
  | .buildRelayDocument .. => true
  | _ => false

/-- What a broadcast stands for: the delta, or the document of the state it leaves. -/
def plaintext (m : ChatMesh D) : Broadcast → Bytes
  | .buildFullDeltaDocument _ nowMs => (m.fullDeltaDocument nowMs).encode
  | .buildDeltaDocumentForPeer peer _ nowMs =>
      (m.deltaForPeer peer nowMs).elim [] DeltaDocument.encode
  | op => (m.send crypto op).1.sync.buildDocument

/-- The document in the bytes, without its envelope. -/
def Broadcast.opened : Broadcast → Bytes → Option Bytes
  | .buildRelayDocument .., bytes => (RelayEnvelope.decode bytes).map RelayEnvelope.payload
  | _, bytes => some bytes

theorem Broadcast.opened_of_not_relay {op : Broadcast} (h : op.isRelay = false) (bytes : Bytes) :
    op.opened bytes = some bytes := by
  cases op with
  | buildRelayDocument => cases h
  | _ => rfl

theorem Broadcast.isDelta_of_isChat {op : Broadcast} (h : op.isChat = true) :
    op.isDelta = false ∧ op.isRelay = false := by
  cases op with
  | sendChat => exact ⟨rfl, rfl⟩
  | sendChatReply => exact ⟨rfl, rfl⟩
  | _ => cases h

/-- Whatever the operation returns is read back. -/
def Readable (m : ChatMesh D) (op : Broadcast) : Prop :=
  ∀ sent ∈ (m.send crypto op).2, ∃ document, op.opened sent = some document ∧
    m.ReadBack crypto document (m.plaintext crypto op)

/-- Nothing is returned: no emergency to acknowledge, no broadcast due, nobody connected, nothing
new for the peer, or a message that the chat has already. -/
def Silent (m : ChatMesh D) : Broadcast → Prop
  | .ackEmergency .. => m.documentSync.emergency = none
  | .tick _ nowMs =>
      (m.whenDue nowMs).2 = false ∨ (m.whenDue nowMs).1.peerManager.connectedCount = 0
  | .tickWithPeerDeltas _ nowMs =>
      (m.whenDue nowMs).2 = false ∨ (m.whenDue nowMs).1.peerManager.connectedCount = 0
  | .buildDeltaDocumentForPeer peer _ nowMs => m.deltaForPeer peer nowMs = none
  | .sendChat _ _ timestamp _ _ => m.sync.hasSaid timestamp = true
  | .sendChatReply _ _ _ _ timestamp _ _ => m.sync.hasSaid timestamp = true
  | _ => False

/-- The version after the changes that the operation makes before it builds the document. -/
def versionSent (m : ChatMesh D) : Broadcast → UInt32
  | .sendEmergency .. => m.documentSync.version + 1
  | .sendAck .. => m.documentSync.version + 1
  | .startEmergency .. => m.documentSync.version + 1
  | .startEmergencyWithKnownPeers .. => m.documentSync.version + 1
  | .ackEmergency .. =>
      let ours := m.documentSync.nodeId
      if m.documentSync.emergency.any fun e => !e.hasAcked ours then m.documentSync.version + 1
      else m.documentSync.version
  | .sendChat .. => m.documentSync.version + 1
  | .sendChatReply .. => m.documentSync.version + 1
  | _ => m.documentSync.version

/-- One layer of encryption, or none where there is no key and no mark to be taken for one. A
message of the chat must go without a key, and a relayed document must fit its envelope. -/
def SealedOnce (m : ChatMesh D) (op : Broadcast) : Prop :=
  m.Silent op ∨
    (op.isChat = true → m.encryptionKey = none) ∧
      (m.encryptionKey = none →
        op.isDelta = true ∨ UInt8.ofNat (m.versionSent op).toNat ≠ encryptedMarker) ∧
      (op.isRelay = true → m.sync.buildDocument.length + m.layerLength < 2 ^ 32)

section Sent

variable (m : ChatMesh D)

theorem whenDue_frame (nowMs : UInt64) :
    (m.whenDue nowMs).1.sync = m.sync ∧ (m.whenDue nowMs).1.encryptionKey = m.encryptionKey := by
  unfold whenDue PeatMesh.maintain PeatMesh.syncDue
  dsimp only
  split_ifs <;> exact ⟨rfl, rfl⟩

theorem encryptDocument_congr {m after : ChatMesh D} (h : after.encryptionKey = m.encryptionKey)
    (nonce : Nonce) (plaintext : Bytes) :
    after.encryptDocument crypto nonce plaintext = m.encryptDocument crypto nonce plaintext := by
  rw [PeatMesh.encryptDocument, PeatMesh.encryptDocument, h]

theorem sent_eq_nil_iff (op : Broadcast) : (m.send crypto op).2 = [] ↔ m.Silent op := by
  cases op with
  | ackEmergency timestamp nonce =>
      simp only [send, ackEmergency, ChatSync.ackEmergency, Silent]
      change ((if m.documentSync.emergency.isSome then _ else none).map _).toList = [] ↔ _
      cases m.documentSync.emergency <;> simp
  | tick nonce nowMs =>
      simp only [send, tick, Silent]
      cases (m.whenDue nowMs).2 <;> simp
  | tickWithPeerDeltas nonce nowMs =>
      simp only [send, tickWithPeerDeltas, Silent, PeerManager.connectedCount]
      cases (m.whenDue nowMs).2 <;> simp
  | buildDeltaDocumentForPeer peer nonce nowMs =>
      simp only [send, PeatMesh.buildDeltaDocumentForPeer, Silent]
      cases m.deltaForPeer peer nowMs <;> simp
  | sendChat sender text timestamp inner outer =>
      simp only [send, sendChat, ChatSync.addChatMessage_snd, Silent]
      cases m.sync.hasSaid timestamp <;> simp
  | sendChatReply sender text replyToNode replyToTimestamp timestamp inner outer =>
      simp only [send, sendChatReply, ChatSync.addChatReply_snd, Silent]
      cases m.sync.hasSaid timestamp <;> simp
  | _ => simp [send, Silent]

/-- Neither chat nor relay: one layer. -/
theorem sent_once {op : Broadcast} (hchat : op.isChat = false) (hrelay : op.isRelay = false) :
    ∃ nonce, ∀ sent ∈ (m.send crypto op).2,
      sent = m.encryptDocument crypto nonce (m.plaintext crypto op) := by
  cases op with
  | sendChat => cases hchat
  | sendChatReply => cases hchat
  | buildRelayDocument => cases hrelay
  | sendEmergency timestamp nonce => exact ⟨nonce, fun sent h => List.mem_singleton.mp h⟩
  | sendAck timestamp nonce => exact ⟨nonce, fun sent h => List.mem_singleton.mp h⟩
  | startEmergency timestamp knownPeers nonce =>
      exact ⟨nonce, fun sent h => List.mem_singleton.mp h⟩
  | startEmergencyWithKnownPeers timestamp nonce =>
      exact ⟨nonce, fun sent h => List.mem_singleton.mp h⟩
  | ackEmergency timestamp nonce =>
      refine ⟨nonce, fun sent h => ?_⟩
      obtain ⟨data, hdata, rfl⟩ := Option.map_eq_some_iff.mp (Option.mem_toList.mp h)
      have hbuilt := Option.ite_none_right_eq_some.mp hdata
      rw [← Option.some.inj hbuilt.2]
      rfl
  | buildDocument nonce => exact ⟨nonce, fun sent h => List.mem_singleton.mp h⟩
  | tick nonce nowMs =>
      refine ⟨nonce, fun sent h => ?_⟩
      have hbuilt := Option.ite_none_right_eq_some.mp (Option.mem_toList.mp h)
      rw [← Option.some.inj hbuilt.2]
      exact encryptDocument_congr crypto (m.whenDue_frame nowMs).2 ..
  | tickWithPeerDeltas nonce nowMs =>
      refine ⟨nonce, fun sent h => ?_⟩
      obtain ⟨entry, hentry, rfl⟩ := List.mem_map.mp h
      have hsame := encryptDocument_congr crypto (m.whenDue_frame nowMs).2
      simp only [tickWithPeerDeltas] at hentry
      split at hentry
      · obtain ⟨peer, -, rfl⟩ := List.mem_map.mp hentry
        exact hsame ..
      · cases hentry
  | buildFullDeltaDocument nonce nowMs => exact ⟨nonce, fun sent h => List.mem_singleton.mp h⟩
  | buildDeltaDocumentForPeer peer nonce nowMs =>
      refine ⟨nonce, fun sent h => ?_⟩
      simp only [send, PeatMesh.buildDeltaDocumentForPeer] at h
      simp only [plaintext]
      cases hdelta : m.deltaForPeer peer nowMs with
      | none => simp [hdelta] at h
      | some delta => simpa [hdelta] using h

theorem sent_twice {op : Broadcast} (hchat : op.isChat = true) :
    ∃ inner outer, ∀ sent ∈ (m.send crypto op).2,
      sent = m.encryptDocument crypto outer
        (m.encryptDocument crypto inner (m.plaintext crypto op)) := by
  cases op with
  | sendChat sender text timestamp inner outer =>
      refine ⟨inner, outer, fun sent h => ?_⟩
      have hbuilt := Option.ite_none_right_eq_some.mp (Option.mem_toList.mp h)
      exact (Option.some.inj hbuilt.2).symm
  | sendChatReply sender text replyToNode replyToTimestamp timestamp inner outer =>
      refine ⟨inner, outer, fun sent h => ?_⟩
      have hbuilt := Option.ite_none_right_eq_some.mp (Option.mem_toList.mp h)
      exact (Option.some.inj hbuilt.2).symm
  | _ => cases hchat

/-- The version that leads a document. -/
theorem version_send {op : Broadcast} (hdelta : op.isDelta = false) (hsent : ¬ m.Silent op) :
    (m.send crypto op).1.documentSync.version = m.versionSent op := by
  cases op with
  | buildFullDeltaDocument => cases hdelta
  | buildDeltaDocumentForPeer => cases hdelta
  | ackEmergency timestamp nonce =>
      change (m.documentSync.ackEmergency timestamp).1.version = _
      unfold versionSent DocumentSync.ackEmergency
      cases m.documentSync.emergency with
      | none => rfl
      | some e =>
          change (if (e.ack m.documentSync.nodeId).2 then _ else _ : DocumentSync).version =
            if (e.ack m.documentSync.nodeId).2 then _ else _
          split <;> rfl
  | tick nonce nowMs =>
      exact congrArg (fun s => s.version) (m.whenDue_frame nowMs).1
  | tickWithPeerDeltas nonce nowMs =>
      exact congrArg (fun s => s.version) (m.whenDue_frame nowMs).1
  | sendChat sender text timestamp inner outer =>
      rw [Silent, Bool.not_eq_true] at hsent
      exact ChatSync.version_addChatMessage sender text hsent
  | sendChatReply sender text replyToNode replyToTimestamp timestamp inner outer =>
      rw [Silent, Bool.not_eq_true] at hsent
      exact ChatSync.version_addChatReply sender text replyToNode replyToTimestamp hsent
  | _ => rfl

theorem plaintext_start {op : Broadcast} (hsent : ¬ m.Silent op) :
    2 ≤ (m.plaintext crypto op).length ∧
      byteAt (m.plaintext crypto op) 0 =
        if op.isDelta then deltaDocumentMarker else UInt8.ofNat (m.versionSent op).toNat := by
  cases hdelta : op.isDelta with
  | true =>
      rw [if_pos rfl]
      cases op with
      | buildFullDeltaDocument nonce nowMs => exact ⟨by simp [plaintext, DeltaDocument.encode], rfl⟩
      | buildDeltaDocumentForPeer peer nonce nowMs =>
          simp only [plaintext]
          cases hbuilt : m.deltaForPeer peer nowMs with
          | none => exact absurd hbuilt hsent
          | some delta => exact ⟨by simp [DeltaDocument.encode], rfl⟩
      | _ => cases hdelta
  | false =>
      rw [if_neg Bool.false_ne_true, ← m.version_send crypto hdelta hsent]
      have hbuilt : m.plaintext crypto op = (m.send crypto op).1.sync.toDocument.encode := by
        cases op with
        | buildFullDeltaDocument => cases hdelta
        | buildDeltaDocumentForPeer => cases hdelta
        | _ => rfl
      rw [hbuilt]
      have hlong := (m.send crypto op).1.sync.toDocument.twelve_le_encode_length
      exact ⟨by omega, ChatDocument.byteAt_encode_zero _⟩

theorem plaintext_unmarked_iff {op : Broadcast} (hsent : ¬ m.Silent op) :
    byteAt (m.plaintext crypto op) 0 ≠ encryptedMarker ↔
      op.isDelta = true ∨ UInt8.ofNat (m.versionSent op).toNat ≠ encryptedMarker := by
  have hdistinct : deltaDocumentMarker ≠ encryptedMarker := by decide
  rw [(m.plaintext_start crypto hsent).2]
  cases op.isDelta with
  | true => exact iff_of_true hdistinct (Or.inl rfl)
  | false => simp

/-- All that an operation returns holds the same document. -/
theorem readable_iff_readBack {op : Broadcast} (hsent : ¬ m.Silent op) {document : Bytes}
    (hopened : ∀ sent ∈ (m.send crypto op).2, op.opened sent = some document) :
    m.Readable crypto op ↔ m.ReadBack crypto document (m.plaintext crypto op) := by
  constructor
  · intro hread
    have hsome : (m.send crypto op).2 ≠ [] := mt (m.sent_eq_nil_iff crypto op).mp hsent
    obtain ⟨sent, hmem⟩ := List.exists_mem_of_ne_nil _ hsome
    obtain ⟨found, hfound, hback⟩ := hread sent hmem
    rw [hopened sent hmem] at hfound
    rwa [Option.some.inj hfound]
  · intro hback sent hmem
    exact ⟨document, hopened sent hmem, hback⟩

variable {crypto} (haead : crypto.Aead)
include haead

theorem readable_chat_iff {op : Broadcast} (hchat : op.isChat = true) (hsent : ¬ m.Silent op) :
    m.Readable crypto op ↔ m.encryptionKey = none ∧
      UInt8.ofNat (m.versionSent op).toNat ≠ encryptedMarker := by
  have hdelta := (Broadcast.isDelta_of_isChat hchat).1
  have hopen := Broadcast.opened_of_not_relay (Broadcast.isDelta_of_isChat hchat).2
  obtain ⟨inner, outer, htwice⟩ := m.sent_twice crypto hchat
  have hopened := fun sent h => (hopen sent).trans (congrArg some (htwice sent h))
  have hlong := (m.plaintext_start crypto hsent).1
  rw [m.readable_iff_readBack crypto hsent hopened, readBack_twice_iff haead m hlong,
    m.plaintext_unmarked_iff crypto hsent, hdelta]
  simp

theorem readable_once_iff {op : Broadcast} (hchat : op.isChat = false) (hrelay : op.isRelay = false)
    (hsent : ¬ m.Silent op) :
    m.Readable crypto op ↔ (m.encryptionKey = none →
      op.isDelta = true ∨ UInt8.ofNat (m.versionSent op).toNat ≠ encryptedMarker) := by
  have hopen := Broadcast.opened_of_not_relay hrelay
  obtain ⟨nonce, honce⟩ := m.sent_once crypto hchat hrelay
  have hopened := fun sent h => (hopen sent).trans (congrArg some (honce sent h))
  have hlong := (m.plaintext_start crypto hsent).1
  rw [m.readable_iff_readBack crypto hsent hopened, readBack_once_iff haead m hlong,
    m.plaintext_unmarked_iff crypto hsent]

/-- The envelope keeps as much of the document as its 32-bit length says. -/
theorem readable_relay_iff (nonce : Nonce) (messageId : MessageId) :
    m.Readable crypto (.buildRelayDocument nonce messageId) ↔
      m.sync.buildDocument.length + m.layerLength < 2 ^ 32 ∧
        m.Readable crypto (.buildDocument nonce) := by
  have hsent : ¬ m.Silent (.buildRelayDocument nonce messageId) := id
  have hlong := (m.plaintext_start crypto hsent).1
  have hlen := PeatMesh.encryptDocument_length (m := m.toPeatMesh) haead nonce m.sync.buildDocument
  have hcut : ∀ n : Nat, n ≤ n % 2 ^ 32 ↔ n < 2 ^ 32 := by omega
  have hopened : ∀ sent ∈ (m.send crypto (.buildRelayDocument nonce messageId)).2,
      (Broadcast.buildRelayDocument nonce messageId).opened sent =
        some
          ((m.buildDocument crypto nonce).take
            ((m.buildDocument crypto nonce).length % 2 ^ 32)) := by
    intro sent h
    rw [List.mem_singleton.mp h]
    simp only [Broadcast.opened, buildRelayDocument, PeatMesh.wrapForRelay,
      RelayEnvelope.decode_encode]
    rfl
  have hwhole : m.Readable crypto (.buildDocument nonce) ↔
      m.ReadBack crypto (m.buildDocument crypto nonce) m.sync.buildDocument :=
    m.readable_iff_readBack crypto id fun sent h => congrArg some (List.mem_singleton.mp h)
  rw [m.readable_iff_readBack crypto hsent hopened, hwhole, ← hlen, ← hcut]
  exact readBack_take_iff haead m hlong nonce _

/-- A broadcast can be read exactly when it is sealed once. -/
theorem readable_iff (op : Broadcast) : m.Readable crypto op ↔ m.SealedOnce op := by
  unfold SealedOnce
  by_cases hsilent : m.Silent op
  · refine iff_of_true ?_ (Or.inl hsilent)
    intro sent h
    rw [(m.sent_eq_nil_iff crypto op).mpr hsilent] at h
    cases h
  rw [or_iff_right hsilent]
  cases hchat : op.isChat with
  | true =>
      obtain ⟨hdelta, hrelay⟩ := Broadcast.isDelta_of_isChat hchat
      rw [m.readable_chat_iff haead hchat hsilent, hdelta, hrelay]
      simp +contextual
  | false =>
      cases hrelay : op.isRelay with
      | true =>
          cases op with
          | buildRelayDocument nonce messageId =>
              rw [m.readable_relay_iff haead, m.readable_once_iff haead rfl rfl id]
              simp [versionSent, Broadcast.isDelta, and_comm]
          | _ => cases hrelay
      | false =>
          rw [m.readable_once_iff haead hchat hrelay hsilent]
          simp

end Sent

/-! ## Runs -/

def Seals (m : ChatMesh D) : Action D → Prop
  | .base _ => True
  | .broadcast op => m.SealedOnce op

section Decide

variable (m : ChatMesh D)

instance decidableSilent : ∀ op, Decidable (m.Silent op)
  | .ackEmergency .. => inferInstanceAs (Decidable (_ = _))
  | .tick .. => inferInstanceAs (Decidable (_ ∨ _))
  | .tickWithPeerDeltas .. => inferInstanceAs (Decidable (_ ∨ _))
  | .buildDeltaDocumentForPeer peer _ nowMs =>
      decidable_of_iff ((m.deltaForPeer peer nowMs).isNone = true) Option.isNone_iff_eq_none
  | .sendChat .. => inferInstanceAs (Decidable (_ = _))
  | .sendChatReply .. => inferInstanceAs (Decidable (_ = _))
  | .sendEmergency .. => inferInstanceAs (Decidable False)
  | .sendAck .. => inferInstanceAs (Decidable False)
  | .startEmergency .. => inferInstanceAs (Decidable False)
  | .startEmergencyWithKnownPeers .. => inferInstanceAs (Decidable False)
  | .buildDocument .. => inferInstanceAs (Decidable False)
  | .buildFullDeltaDocument .. => inferInstanceAs (Decidable False)
  | .buildRelayDocument .. => inferInstanceAs (Decidable False)

instance decidableSeals : ∀ action, Decidable (m.Seals action)
  | .base _ => inferInstanceAs (Decidable True)
  | .broadcast op => inferInstanceAs (Decidable (m.Silent op ∨ _))

end Decide

/-- In every run, all broadcasts are read back by every node with the same key exactly when each is
sealed once. -/
theorem broadcasts_read_iff (haead : crypto.Aead) (config : PeatMeshConfig)
    (actions : List (Action D)) :
    (∀ front op, front ++ [.broadcast op] <+: actions →
        (run crypto config front).Readable crypto op) ↔
      LoggedRun.Along (act crypto) Seals (new crypto config) actions := by
  rw [LoggedRun.along_iff]
  constructor
  · intro hread front action hprefix
    cases action with
    | base action => trivial
    | broadcast op => exact (readable_iff _ haead op).mp (hread front op hprefix)
  · intro hsealed front op hprefix
    exact (readable_iff _ haead op).mpr (hsealed front (.broadcast op) hprefix)

/-- Primitives that hide nothing: the tag is half of the key. -/
def tagged : Crypto where
  encrypt key _ plaintext := some (plaintext ++ key.toList.take 16)
  decrypt key _ ciphertext :=
    let cut := ciphertext.length - 16
    if 16 ≤ ciphertext.length ∧ ciphertext.drop cut = key.toList.take 16 then
      some (ciphertext.take cut)
    else none
  deriveKey _ secret _ := Vector.ofFn fun i => byteAt secret i
  publicKey key := key
  diffieHellman ours theirs := Vector.zipWith (· + ·) ours theirs

theorem tagged_aead : tagged.Aead where
  round_trip key nonce plaintext := by
    have htag : (key.toList.take 16).length = 16 := by simp
    refine ⟨plaintext ++ key.toList.take 16, rfl, ?_⟩
    have hcut : (plaintext ++ key.toList.take 16).length - 16 = plaintext.length := by
      rw [List.length_append, htag, Nat.add_sub_cancel]
    simp only [tagged, hcut, List.drop_left, List.take_left]
    exact if_pos ⟨by rw [List.length_append, htag]; omega, trivial⟩
  tag_length key nonce ciphertext plaintext h := by
    simp only [tagged] at h
    split at h
    · rename_i hlong
      rw [← Option.some.inj h, List.length_take]
      omega
    · cases h

def meshSecret : Key := Vector.replicate 32 0x42

def alphaSealed : PeatMeshConfig := PeatMesh.alphaConfig.withEncryption meshSecret

def bravoSealed : PeatMeshConfig := PeatMesh.bravoConfig.withEncryption meshSecret

/-- An alarm, then two ways to pass it on. -/
def alarmed : List (Action Unit) :=
  [.base (.incomingConnection "central" 0x22222222 1000),
    .broadcast (.startEmergencyWithKnownPeers 1700000000000 PeatMesh.zeroNonce),
    .broadcast (.buildRelayDocument PeatMesh.zeroNonce (Vector.replicate 16 7)),
    .broadcast (.buildDeltaDocumentForPeer 0x22222222 PeatMesh.zeroNonce 1700000000100)]

/-- The document that the next tick sends. -/
theorem alarm_read_at_tick :
    (run tagged alphaSealed alarmed).Readable tagged
      (.tick PeatMesh.zeroNonce 1700000006000) := by
  have hread := broadcasts_read_iff tagged tagged_aead alphaSealed
    (alarmed ++ [.broadcast (.tick PeatMesh.zeroNonce 1700000006000)])
  exact hread.mpr (by decide +kernel) alarmed _ (List.prefix_refl _)

/-- A first message to the chat. -/
def hello : Broadcast :=
  .sendChat "ALPHA-1" "hello" 1700000000000 PeatMesh.zeroNonce PeatMesh.zeroNonce

/-- The message is sealed twice, and what the receiver decrypts is still sealed. -/
theorem hello_stays_sealed :
    let sender : ChatMesh Unit := run tagged alphaSealed []
    let receiver : ChatMesh Unit := run tagged bravoSealed []
    let said := sender.send tagged hello
    receiver.encryptionKey = sender.encryptionKey ∧
      said.2.map (receiver.decryptDocument tagged) =
        [some (said.1.buildDocument tagged PeatMesh.zeroNonce)] ∧
      said.2.map (receiver.decryptDocument tagged) ≠ [some (sender.plaintext tagged hello)] := by
  decide +kernel

end ChatMesh

end PeatBtle
