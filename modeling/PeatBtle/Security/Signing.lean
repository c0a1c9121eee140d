import PeatBtle.DeviceName
import PeatBtle.Security.Genesis
import PeatBtle.Wire.FixedLayout

/-!
# What is signed

Attestations, membership tokens and signed payloads: how they are made, written and
read. Bytes are read as one of them exactly if they are what is written for it. Only the
length keeps the signed messages of different kinds apart.
-/

namespace PeatBtle

open Wire

/-- Ed25519 signing, by the signing key. -/
structure SigningCrypto extends GenesisCrypto where
  sign : Key → Bytes → Signature

namespace DeviceIdentity

variable (crypto : SigningCrypto) (identity : DeviceIdentity)

def sign (message : Bytes) : Signature := crypto.sign identity.signingKey message

def createAttestation (timestampMs : UInt64) : IdentityAttestation :=
  let nodeId := identity.nodeId crypto.toGenesisCrypto
  let publicKey := identity.publicKey crypto.toGenesisCrypto
  let message := u32ToLe nodeId ++ (publicKey.toList ++ u64ToLe timestampMs)
  ⟨nodeId, publicKey, timestampMs, identity.sign crypto message⟩

end DeviceIdentity

/-! ## Attestations -/

namespace IdentityAttestation

def encode (a : IdentityAttestation) : Bytes :=
  u32ToLe a.nodeId ++ (a.publicKey.toList ++ (u64ToLe a.timestampMs ++ a.signature.toList))

def decode (data : Bytes) : Option IdentityAttestation :=
  if data.length ≠ 108 then none
  else
    some
      { nodeId := u32At data 0
        publicKey := vectorAt 32 data 4
        timestampMs := u64At data 36
        signature := vectorAt 64 data 44 }

def layout : FixedLayout IdentityAttestation 108 :=
  (FixedLayout.u32.pair ((FixedLayout.vector 32).pair
    (FixedLayout.u64.pair (FixedLayout.vector 64)))).map
      (fun p => ⟨p.1, p.2.1, p.2.2.1, p.2.2.2⟩)
      (fun a => (a.nodeId, a.publicKey, a.timestampMs, a.signature)) (fun _ => rfl) fun _ => rfl

theorem decode_eq (data : Bytes) : decode data = layout.readExact data := by
  have hread : layout.read data =
      ⟨u32At data 0, vectorAt 32 data 4, u64At data 36, vectorAt 64 data 44⟩ := by
    show (⟨u32At data 0, vectorAt 32 (data.drop 4) 0, u64At ((data.drop 4).drop 32) 0,
      vectorAt 64 (((data.drop 4).drop 32).drop 8) 0⟩ : IdentityAttestation) = _
    simp only [List.drop_drop, vectorAt_drop, u64At_drop]
  rw [decode, FixedLayout.readExact, hread]
  by_cases hlength : data.length = 108
  · rw [if_neg (not_not.mpr hlength), if_pos hlength]
  · rw [if_pos hlength, if_neg hlength]

theorem decode_eq_some_iff {data : Bytes} {a : IdentityAttestation} :
    decode data = some a ↔ data = a.encode := by
  rw [decode_eq]
  exact layout.readExact_eq_some_iff

theorem signedMessage_length (a : IdentityAttestation) : a.signedMessage.length = 44 := by
  simp [signedMessage]

end IdentityAttestation

/-! ## Tokens -/

/-- `u8::from_str_radix(_, 16)` -/
def parseHexByte (chars : List Char) : Option UInt8 :=
  (parseHex chars).bind fun v => if v.toNat < 2 ^ 8 then some (UInt8.ofNat v.toNat) else none

namespace MembershipToken

def tokenWireSize : Nat := 32 + 4 + 12 + 8 + 8 + 64

/-- Anything but eight characters stands for zeros, and so does a pair that is no number. -/
def meshIdBytes (hex : String) : Vector UInt8 meshIdSize :=
  if (utf8 hex).length = 8 then
    Vector.ofFn fun i =>
      let s := (fromUtf8 (slice (utf8 hex) (2 * i) (2 * i + 2))).getD "00"
      (parseHexByte s.toList).getD 0
  else Vector.replicate meshIdSize 0

section Issue

variable (crypto : SigningCrypto) (authority : DeviceIdentity)

/-- The signature goes over all the other fields. -/
def signedBy (token : MembershipToken) : MembershipToken :=
  { token with authoritySignature := authority.sign crypto token.signableBytes }

/-- The source panics over a callsign of more than twelve bytes. -/
def issueAt (meshId : Vector UInt8 meshIdSize) (memberPublicKey : PublicKey) (callsign : String)
    (issuedAtMs expiresAtMs : UInt64) : Option MembershipToken :=
  if (utf8 callsign).length ≤ maxCallsignLen then
    some (signedBy crypto authority
      { publicKey := memberPublicKey
        meshId := meshId
        callsign := vectorAt maxCallsignLen (utf8 callsign) 0
        issuedAtMs := issuedAtMs
        expiresAtMs := expiresAtMs
        authoritySignature := Vector.replicate 64 0 })
  else none

/-- A token without a term never expires. -/
def issue (genesis : MeshGenesis) (memberPublicKey : PublicKey) (callsign : String)
    (validityMs nowMs : UInt64) : Option MembershipToken :=
  issueAt crypto authority (meshIdBytes (genesis.meshId crypto.toGenesisCrypto)) memberPublicKey
    callsign nowMs (if validityMs = 0 then 0 else saturatingAdd nowMs validityMs)

end Issue

def isValid (crypto : IdentityCrypto) (t : MembershipToken) (authorityPublicKey : PublicKey)
    (nowMs : UInt64) : Bool :=
  t.verify crypto authorityPublicKey && !t.isExpired nowMs

/-- The text before the first NUL, if it is one. -/
def callsignStr (t : MembershipToken) : String :=
  (fromUtf8 (t.callsign.toList.take (t.callsign.toList.findIdx (· == 0)))).getD ""

/-- Two upper-case digits for each byte. -/
def meshIdHex (t : MembershipToken) : String :=
  String.ofList (t.meshId.toList.flatMap fun byte => hexDigits 2 byte.toNat)

def encode (t : MembershipToken) : Bytes := t.signableBytes ++ t.authoritySignature.toList

def decode (data : Bytes) : Option MembershipToken :=
  if data.length ≠ tokenWireSize then none
  else
    some
      { publicKey := vectorAt 32 data 0
        meshId := vectorAt meshIdSize data 32
        callsign := vectorAt maxCallsignLen data 36
        issuedAtMs := u64At data 48
        expiresAtMs := u64At data 56
        authoritySignature := vectorAt 64 data 64 }

/-- The fields that are signed. -/
def signedLayout :
    FixedLayout (PublicKey × Vector UInt8 meshIdSize × CallsignBytes × UInt64 × UInt64) 64 :=
  (FixedLayout.vector 32).pair ((FixedLayout.vector meshIdSize).pair
    ((FixedLayout.vector maxCallsignLen).pair (FixedLayout.u64.pair FixedLayout.u64)))

def signedFields (t : MembershipToken) :
    PublicKey × Vector UInt8 meshIdSize × CallsignBytes × UInt64 × UInt64 :=
  (t.publicKey, t.meshId, t.callsign, t.issuedAtMs, t.expiresAtMs)

def layout : FixedLayout MembershipToken 128 :=
  (signedLayout.pair (FixedLayout.vector 64)).map
    (fun p => ⟨p.1.1, p.1.2.1, p.1.2.2.1, p.1.2.2.2.1, p.1.2.2.2.2, p.2⟩)
    (fun t => (t.signedFields, t.authoritySignature)) (fun _ => rfl) fun _ => rfl

theorem signableBytes_eq (t : MembershipToken) :
    t.signableBytes = signedLayout.write t.signedFields := rfl

theorem signedFields_inj {t t' : MembershipToken} (h : t.signableBytes = t'.signableBytes) :
    t.signedFields = t'.signedFields := signedLayout.write_injective h

theorem signableBytes_length (t : MembershipToken) : t.signableBytes.length = 64 :=
  (congrArg List.length t.signableBytes_eq).trans (signedLayout.length_write t.signedFields)

theorem decode_eq (data : Bytes) : decode data = layout.readExact data := by
  have hread : layout.read data = ⟨vectorAt 32 data 0, vectorAt meshIdSize data 32,
      vectorAt maxCallsignLen data 36, u64At data 48, u64At data 56, vectorAt 64 data 64⟩ := by
    show (⟨vectorAt 32 data 0, vectorAt meshIdSize (data.drop 32) 0,
      vectorAt maxCallsignLen ((data.drop 32).drop meshIdSize) 0,
      u64At (((data.drop 32).drop meshIdSize).drop maxCallsignLen) 0,
      u64At ((((data.drop 32).drop meshIdSize).drop maxCallsignLen).drop 8) 0,
      vectorAt 64 (data.drop 64) 0⟩ : MembershipToken) = _
    simp only [List.drop_drop, vectorAt_drop, u64At_drop]
    rfl
  rw [FixedLayout.readExact, hread]
  show (if data.length ≠ 128 then none else _) = _
  by_cases hlength : data.length = 128
  · rw [if_neg (not_not.mpr hlength), if_pos hlength]
  · rw [if_pos hlength, if_neg hlength]

theorem decode_eq_some_iff {data : Bytes} {t : MembershipToken} :
    decode data = some t ↔ data = t.encode := by
  rw [decode_eq]
  exact layout.readExact_eq_some_iff

end MembershipToken

/-! ## Signed payloads -/

structure DecodedPayload where
  marker : UInt8
  payload : Bytes
  signature : Signature
deriving DecidableEq

namespace SignedPayload

def signatureSize : Nat := 64

def minWireSize : Nat := 1 + signatureSize

def encodeWithSignature (marker : UInt8) (payload : Bytes) (signature : Signature) : Bytes :=
  marker :: (payload ++ signature.toList)

def encode (crypto : SigningCrypto) (marker : UInt8) (payload : Bytes) (identity : DeviceIdentity) :
    Bytes :=
  encodeWithSignature marker payload (identity.sign crypto (marker :: payload))

def decode (wire : Bytes) : Option DecodedPayload :=
  if wire.length < minWireSize then none
  else
    let payloadEnd := wire.length - signatureSize
    some ⟨byteAt wire 0, slice wire 1 payloadEnd, vectorAt 64 wire payloadEnd⟩

def verify (crypto : IdentityCrypto) (wire : Bytes) (publicKey : PublicKey) : Bool :=
  match decode wire with
  | none => false
  | some decoded =>
      crypto.verifySignature publicKey (wire.take (wire.length - signatureSize)) decoded.signature

def decodeVerified (crypto : IdentityCrypto) (wire : Bytes) (publicKey : PublicKey) :
    Option DecodedPayload :=
  if verify crypto wire publicKey then decode wire else none

def payloadSize (wireSize : Nat) : Nat := wireSize - minWireSize

def wireSize (payloadSize : Nat) : Nat := 1 + payloadSize + signatureSize

def peekMarker (wire : Bytes) : Option UInt8 := wire.head?

def extractSignature (wire : Bytes) : Option Signature :=
  if wire.length < minWireSize then none
  else some (vectorAt 64 wire (wire.length - signatureSize))

theorem decode_eq_some_iff {wire : Bytes} {d : DecodedPayload} :
    decode wire = some d ↔ wire = encodeWithSignature d.marker d.payload d.signature := by
  have hsplit : ∀ (marker : UInt8) (body : Bytes), 64 ≤ body.length →
      decode (marker :: body) = some ⟨marker, body.take (body.length - 64),
        vectorAt 64 (body.drop (body.length - 64)) 0⟩ := by
    intro marker body hbody
    have hend : (marker :: body).length - signatureSize = body.length - 64 + 1 := by
      rw [List.length_cons, signatureSize]
      omega
    rw [decode, if_neg (by simp only [List.length_cons, minWireSize, signatureSize]; omega)]
    dsimp only
    rw [hend, slice_cons_succ, slice, List.drop_zero, Nat.sub_zero, vectorAt_drop, Nat.add_zero,
      vectorAt_cons_succ]
    rfl
  constructor
  · intro h
    cases wire with
    | nil => cases h
    | cons marker body =>
        by_cases hbody : 64 ≤ body.length
        · rw [hsplit marker body hbody] at h
          obtain rfl := Option.some.inj h
          have hlast : (body.drop (body.length - 64)).length = 64 := by
            rw [List.length_drop]
            omega
          have hsignature := toList_vectorAt_zero hlast.ge
          rw [List.take_of_length_le hlast.le] at hsignature
          rw [encodeWithSignature, hsignature, List.take_append_drop]
        · rw [decode, if_pos (by simp only [List.length_cons, minWireSize, signatureSize]; omega)]
            at h
          cases h
  · rintro rfl
    have hlength : (d.payload ++ d.signature.toList).length - 64 = d.payload.length := by simp
    have hsignature := vectorAt_toList d.signature []
    rw [List.append_nil] at hsignature
    rw [encodeWithSignature, hsplit _ _ (by simp), hlength, List.take_left, List.drop_left,
      hsignature]

/-- Any signed message is a signed payload: its first byte passes for a marker. -/
theorem verify_append (crypto : IdentityCrypto) {message : Bytes} (hne : message ≠ [])
    (signature : Signature) (publicKey : PublicKey) :
    verify crypto (message ++ signature.toList) publicKey =
      crypto.verifySignature publicKey message signature := by
  obtain ⟨marker, payload, rfl⟩ := List.exists_cons_of_ne_nil hne
  have hdecode : decode (marker :: payload ++ signature.toList) =
      some ⟨marker, payload, signature⟩ := decode_eq_some_iff.mpr rfl
  have htake : (marker :: payload ++ signature.toList).take
      ((marker :: payload ++ signature.toList).length - signatureSize) = marker :: payload :=
    List.take_left' (by simp [signatureSize])
  rw [verify, hdecode, htake]

end SignedPayload

/-! ## Kinds of messages -/

theorem MembershipToken.verify_eq (crypto : IdentityCrypto) (t : MembershipToken)
    (publicKey : PublicKey) :
    SignedPayload.verify crypto t.encode publicKey = t.verify crypto publicKey := by
  refine SignedPayload.verify_append crypto (fun hnil => ?_) t.authoritySignature publicKey
  have hlength := t.signableBytes_length
  rw [hnil] at hlength
  cases hlength

theorem IdentityAttestation.verify_eq (crypto : IdentityCrypto) (a : IdentityAttestation) :
    a.verify crypto = (decide (a.nodeId = crypto.nodeIdFromPublicKey a.publicKey) &&
      SignedPayload.verify crypto a.encode a.publicKey) := by
  have hne : a.signedMessage ≠ [] := fun hnil => by
    have hlength := a.signedMessage_length
    rw [hnil] at hlength
    cases hlength
  have hencode : a.encode = a.signedMessage ++ a.signature.toList := by
    simp [encode, signedMessage]
  rw [hencode, SignedPayload.verify_append crypto hne, verify]
  by_cases hid : a.nodeId = crypto.nodeIdFromPublicKey a.publicKey <;> simp [hid]

end PeatBtle
