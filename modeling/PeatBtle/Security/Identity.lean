import PeatBtle.Basic

/-!
# Device identities

A node identifier is derived from an Ed25519 public key: the first four bytes
of the key's BLAKE3 hash. An attestation claims an identifier for a key, a
membership token gives a key a callsign on the authority's word. Hashing and
signatures come from outside.
-/

namespace PeatBtle

open Wire

abbrev PublicKey := Vector UInt8 32
abbrev Signature := Vector UInt8 64

def maxCallsignLen : Nat := 12
def meshIdSize : Nat := 4

abbrev CallsignBytes := Vector UInt8 maxCallsignLen

/-- BLAKE3 and Ed25519. Not every 32 bytes are a verifying key. -/
structure IdentityCrypto where
  hash : Bytes → Vector UInt8 32
  isVerifyingKey : PublicKey → Bool
  verify : PublicKey → Bytes → Signature → Bool

namespace IdentityCrypto

variable (crypto : IdentityCrypto)

def verifySignature (publicKey : PublicKey) (message : Bytes) (signature : Signature) : Bool :=
  crypto.isVerifyingKey publicKey && crypto.verify publicKey message signature

def nodeIdFromPublicKey (publicKey : PublicKey) : NodeId :=
  u32At (crypto.hash publicKey.toList).toList 0

end IdentityCrypto

/-! ## Attestations -/

structure IdentityAttestation where
  nodeId : NodeId
  publicKey : PublicKey
  timestampMs : UInt64
  signature : Signature
deriving DecidableEq

namespace IdentityAttestation

def signedMessage (a : IdentityAttestation) : Bytes :=
  u32ToLe a.nodeId ++ (a.publicKey.toList ++ u64ToLe a.timestampMs)

/-- The identifier is checked before the signature; freshness is left to the caller. -/
def verify (crypto : IdentityCrypto) (a : IdentityAttestation) : Bool :=
  if a.nodeId ≠ crypto.nodeIdFromPublicKey a.publicKey then false
  else crypto.verifySignature a.publicKey a.signedMessage a.signature

theorem nodeId_of_verify {crypto : IdentityCrypto} {a : IdentityAttestation}
    (h : a.verify crypto = true) : a.nodeId = crypto.nodeIdFromPublicKey a.publicKey := by
  unfold verify at h
  split at h
  · cases h
  · rename_i heq
    exact not_not.mp heq

end IdentityAttestation

/-! ## Membership tokens -/

structure MembershipToken where
  publicKey : PublicKey
  meshId : Vector UInt8 meshIdSize
  callsign : CallsignBytes
  issuedAtMs : UInt64
  /-- Zero for a token that never expires. -/
  expiresAtMs : UInt64
  authoritySignature : Signature
deriving DecidableEq

namespace MembershipToken

def signableBytes (t : MembershipToken) : Bytes :=
  t.publicKey.toList ++ (t.meshId.toList ++ (t.callsign.toList ++
    (u64ToLe t.issuedAtMs ++ u64ToLe t.expiresAtMs)))

def verify (crypto : IdentityCrypto) (t : MembershipToken) (authorityPublicKey : PublicKey) : Bool :=
  crypto.verifySignature authorityPublicKey t.signableBytes t.authoritySignature

def isExpired (t : MembershipToken) (nowMs : UInt64) : Bool :=
  t.expiresAtMs != 0 && decide (nowMs > t.expiresAtMs)

end MembershipToken

end PeatBtle
