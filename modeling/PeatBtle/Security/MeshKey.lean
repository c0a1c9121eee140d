import PeatBtle.Basic

/-!
# Keys and encrypted documents

The primitives (ChaCha20-Poly1305, X25519 and HKDF) come from outside and are
parameters here. The framing around them is ours: an encrypted document is a
nonce followed by the ciphertext with its tag.
-/

namespace PeatBtle

open Wire

abbrev Key := Vector UInt8 32
abbrev Nonce := Vector UInt8 12

/-- The primitives. Encryption and decryption may fail. -/
structure Crypto where
  encrypt : Key → Nonce → Bytes → Option Bytes
  decrypt : Key → Nonce → Bytes → Option Bytes
  deriveKey : (salt secret info : Bytes) → Key
  publicKey : Key → Key
  diffieHellman : Key → Key → Key

namespace Crypto

/-- `MeshEncryptionKey::from_shared_secret`: the mesh identifier is the salt. -/
def fromSharedSecret (crypto : Crypto) (meshId : String) (secret : Key) : Key :=
  crypto.deriveKey (utf8 meshId) secret.toList (utf8 "PEAT-BTLE-mesh-encryption-v1")

/-- Primitives that know nothing, for nodes that never call them. -/
def unavailable : Crypto where
  encrypt := fun _ _ _ => none
  decrypt := fun _ _ _ => none
  deriveKey := fun _ _ _ => Vector.replicate 32 0
  publicKey := fun _ => Vector.replicate 32 0
  diffieHellman := fun _ _ => Vector.replicate 32 0

end Crypto

structure EncryptedDocument where
  nonce : Nonce
  ciphertext : Bytes
deriving DecidableEq

namespace EncryptedDocument

/-- Nonce and tag. -/
def overhead : Nat := 12 + 16

def encode (d : EncryptedDocument) : Bytes := d.nonce.toList ++ d.ciphertext

def decode (data : Bytes) : Option EncryptedDocument :=
  if data.length < overhead then none
  else some ⟨Vector.ofFn fun i => byteAt data i, data.drop 12⟩

end EncryptedDocument

namespace MeshEncryptionKey

variable (crypto : Crypto)

/-- The nonce is drawn at random by the source. -/
def encryptToBytes (key : Key) (nonce : Nonce) (plaintext : Bytes) : Option Bytes :=
  (crypto.encrypt key nonce plaintext).map fun ciphertext =>
    EncryptedDocument.encode ⟨nonce, ciphertext⟩

def decryptFromBytes (key : Key) (data : Bytes) : Option Bytes :=
  (EncryptedDocument.decode data).bind fun d => crypto.decrypt key d.nonce d.ciphertext

end MeshEncryptionKey

/-! ## Authenticated encryption -/

/-- Encryption succeeds and is undone by decryption, and a ciphertext is longer than its plaintext
by the tag. -/
structure Crypto.Aead (crypto : Crypto) : Prop where
  round_trip : ∀ key nonce plaintext, ∃ ciphertext,
    crypto.encrypt key nonce plaintext = some ciphertext ∧
      crypto.decrypt key nonce ciphertext = some plaintext
  tag_length : ∀ key nonce ciphertext plaintext,
    crypto.decrypt key nonce ciphertext = some plaintext → ciphertext.length = plaintext.length + 16

namespace EncryptedDocument

theorem decode_encode {d : EncryptedDocument} (h : 16 ≤ d.ciphertext.length) :
    decode d.encode = some d := by
  have hlen : d.encode.length = 12 + d.ciphertext.length := by simp [encode]
  have hlong : ¬ d.encode.length < overhead := by
    unfold overhead
    omega
  have hnonce : (Vector.ofFn fun i : Fin 12 => byteAt d.encode i) = d.nonce := by
    refine Eq.trans (congrArg Vector.ofFn (funext fun i => ?_)) (ofFn_byteAt d.nonce)
    exact byteAt_front (by simp)
  have hrest : d.encode.drop 12 = d.ciphertext := by
    rw [encode, List.drop_left' (by simp)]
  rw [decode, if_neg hlong, hnonce, hrest]

theorem ciphertext_of_decode {data : Bytes} {d : EncryptedDocument} (h : decode data = some d) :
    data.length = 12 + d.ciphertext.length := by
  unfold decode overhead at h
  split at h
  · cases h
  · obtain rfl := Option.some.inj h
    rw [List.length_drop]
    omega

end EncryptedDocument

namespace MeshEncryptionKey

variable {crypto : Crypto} (haead : crypto.Aead) (key : Key)
include haead

theorem decrypt_encrypt (nonce : Nonce) (plaintext : Bytes) :
    ∃ data, encryptToBytes crypto key nonce plaintext = some data ∧
      decryptFromBytes crypto key data = some plaintext := by
  obtain ⟨ciphertext, hencrypt, hdecrypt⟩ := haead.round_trip key nonce plaintext
  have htag := haead.tag_length key nonce ciphertext plaintext hdecrypt
  refine ⟨EncryptedDocument.encode ⟨nonce, ciphertext⟩, ?_, ?_⟩
  · rw [encryptToBytes, hencrypt]
    rfl
  · rw [decryptFromBytes, EncryptedDocument.decode_encode (by dsimp only; omega)]
    exact hdecrypt

/-- Nonce and tag come off. -/
theorem length_of_decrypt {data plaintext : Bytes}
    (h : decryptFromBytes crypto key data = some plaintext) :
    data.length = plaintext.length + EncryptedDocument.overhead := by
  obtain ⟨d, hdecode, hdecrypt⟩ := Option.bind_eq_some_iff.mp h
  have htag := haead.tag_length key d.nonce d.ciphertext plaintext hdecrypt
  have hlen := EncryptedDocument.ciphertext_of_decode hdecode
  unfold EncryptedDocument.overhead
  omega

end MeshEncryptionKey

end PeatBtle
