import PeatBtle.Security.Identity
import PeatBtle.Security.MeshKey

/-!
# Mesh genesis

What a mesh was founded with. Its identifier and its keys are derived from the
name and the seed, and its image holds the founder's private key. Key derivation
and the public half of a key come from outside.
-/

namespace PeatBtle

open Wire

/-- BLAKE3 with a key or a context, and the public key of an Ed25519 signing key. -/
structure GenesisCrypto extends IdentityCrypto where
  keyedHash : Key → Bytes → Vector UInt8 32
  deriveKey : String → Bytes → Key
  publicKey : Key → PublicKey

/-- A crypto that hides nothing: every key is its own hash and its own public key. -/
def GenesisCrypto.transparent : GenesisCrypto where
  hash := fun bytes => Vector.ofFn fun i => byteAt bytes i
  isVerifyingKey := fun _ => true
  verify := fun _ _ _ => true
  keyedHash := fun key _ => key
  deriveKey := fun _ material => Vector.ofFn fun i => byteAt material i
  publicKey := fun key => key

/-- Thirty-two bytes at an offset. -/
def keyAt (data : Bytes) (i : Nat) : Key := Vector.ofFn fun j => byteAt (slice data i (i + 32)) j

@[simp] theorem keyAt_toList (key : Key) (rest : Bytes) : keyAt (key.toList ++ rest) 0 = key := by
  unfold keyAt
  rw [slice_append_left (by simp)]
  exact ofFn_byteAt key

theorem keyAt_skip {front rest : Bytes} {i : Nat} (h : front.length ≤ i) :
    keyAt (front ++ rest) i = keyAt rest (i - front.length) := by
  unfold keyAt
  rw [slice_skip h, show i + 32 - front.length = i - front.length + 32 by omega]

/-! ## Identities -/

inductive IdentityError where
  | invalidSignature
  | invalidPublicKey
  | invalidPrivateKey
  | serializationError
deriving DecidableEq

/-- `{:?}` -/
def IdentityError.debug : IdentityError → String
  | invalidSignature => "InvalidSignature"
  | invalidPublicKey => "InvalidPublicKey"
  | invalidPrivateKey => "InvalidPrivateKey"
  | serializationError => "SerializationError"

structure DeviceIdentity where
  signingKey : Key
deriving DecidableEq

namespace DeviceIdentity

/-- Any thirty-two bytes are a signing key. -/
def fromPrivateKey (privateKey : Key) : Except IdentityError DeviceIdentity := .ok ⟨privateKey⟩

def privateKeyBytes (identity : DeviceIdentity) : Key := identity.signingKey

def publicKey (crypto : GenesisCrypto) (identity : DeviceIdentity) : PublicKey :=
  crypto.publicKey identity.signingKey

def nodeId (crypto : GenesisCrypto) (identity : DeviceIdentity) : NodeId :=
  crypto.nodeIdFromPublicKey (identity.publicKey crypto)

end DeviceIdentity

/-! ## Genesis -/

/-- `openMesh` is `Open` in the source. -/
inductive MembershipPolicy where
  | openMesh
  | controlled
  | strict
deriving DecidableEq

namespace MembershipPolicy

def toU8 : MembershipPolicy → UInt8
  | openMesh => 0
  | controlled => 1
  | strict => 2

def ofU8 (value : UInt8) : Option MembershipPolicy :=
  if value = 0 then some openMesh
  else if value = 1 then some controlled
  else if value = 2 then some strict
  else none

@[simp] theorem ofU8_toU8 (policy : MembershipPolicy) : ofU8 policy.toU8 = some policy := by
  cases policy <;> rfl

theorem isSome_ofU8 (value : UInt8) : (ofU8 value).isSome = true ↔ value ≤ 2 := by
  have hthree : value ≤ 2 ↔ value = 0 ∨ value = 1 ∨ value = 2 := by
    rw [UInt8.le_iff_toNat_le, ← UInt8.toNat_inj, ← UInt8.toNat_inj, ← UInt8.toNat_inj]
    change value.toNat ≤ 2 ↔ value.toNat = 0 ∨ value.toNat = 1 ∨ value.toNat = 2
    omega
  rw [hthree]
  unfold ofU8
  grind

end MembershipPolicy

structure MeshGenesis where
  meshName : String
  meshSeed : Key
  creatorIdentity : DeviceIdentity
  createdAtMs : UInt64
  policy : MembershipPolicy
deriving DecidableEq

namespace MeshGenesis

variable (crypto : GenesisCrypto) (g : MeshGenesis)

/-- Four bytes of the keyed hash in upper-case hexadecimal. -/
def meshId : String :=
  String.ofList (((crypto.keyedHash g.meshSeed (utf8 g.meshName)).toList.take 4).flatMap
    fun byte => hexDigits 2 byte.toNat)

def encryptionSecret : Key := crypto.deriveKey "PEAT-mesh-encryption-v1" g.meshSeed.toList

/-- All but the name and its length. -/
def encodeFixed : Bytes :=
  g.meshSeed.toList ++ ((g.creatorIdentity.publicKey crypto).toList ++
    (g.creatorIdentity.privateKeyBytes.toList ++ (u64ToLe g.createdAtMs ++ [g.policy.toU8])))

/-- The length of the name is cut to sixteen bits. -/
def encode : Bytes :=
  u16ToLe (UInt16.ofNat (utf8 g.meshName).length) ++ (utf8 g.meshName ++ g.encodeFixed crypto)

/-- The public key is not read, it is derived again. -/
def decode (data : Bytes) : Option MeshGenesis :=
  if data.length < 107 then none
  else
    let nameLen := (u16At data 0).toNat
    if data.length < 107 + nameLen then none
    else do
      let meshName ← fromUtf8 (slice data 2 (2 + nameLen))
      let offset := 2 + nameLen
      let creatorIdentity ← (DeviceIdentity.fromPrivateKey (keyAt data (offset + 64))).toOption
      let policy ← MembershipPolicy.ofU8 (byteAt data (offset + 104))
      some
        { meshName := meshName
          meshSeed := keyAt data offset
          creatorIdentity := creatorIdentity
          createdAtMs := u64At data (offset + 96)
          policy := policy }

/-! ## The image -/

@[simp] theorem encodeFixed_length : (g.encodeFixed crypto).length = 105 := by
  simp [encodeFixed]

theorem encode_length : (g.encode crypto).length = 107 + (utf8 g.meshName).length := by
  rw [encode, List.length_append, List.length_append, u16ToLe_length, encodeFixed_length]
  omega

theorem encode_ne_nil : g.encode crypto ≠ [] := by
  intro hnil
  have hlength := g.encode_length crypto
  rw [hnil, List.length_nil] at hlength
  omega

/-- The fields behind the name are read back whatever the name is. -/
theorem read_encodeFixed {front : Bytes} {offset : Nat} (h : front.length = offset) :
    keyAt (front ++ g.encodeFixed crypto) offset = g.meshSeed ∧
      keyAt (front ++ g.encodeFixed crypto) (offset + 64) = g.creatorIdentity.signingKey ∧
      u64At (front ++ g.encodeFixed crypto) (offset + 96) = g.createdAtMs ∧
      byteAt (front ++ g.encodeFixed crypto) (offset + 104) = g.policy.toU8 := by
  subst h
  refine ⟨?_, ?_, ?_, ?_⟩
  · rw [keyAt_skip (Nat.le_refl _), Nat.sub_self, encodeFixed, keyAt_toList]
  · rw [keyAt_skip (Nat.le_add_right _ _), Nat.add_sub_cancel_left, encodeFixed,
      keyAt_skip (by simp), keyAt_skip (by simp)]
    simp [DeviceIdentity.privateKeyBytes]
  · rw [u64At_skip (Nat.le_add_right _ _), Nat.add_sub_cancel_left, encodeFixed,
      u64At_skip (by simp), u64At_skip (by simp), u64At_skip (by simp)]
    simp
  · rw [byteAt_skip (Nat.le_add_right _ _), Nat.add_sub_cancel_left, encodeFixed,
      byteAt_skip (by simp), byteAt_skip (by simp), byteAt_skip (by simp), byteAt_skip (by simp)]
    simp

/-- A genesis whose name has a length that fits is read back. -/
theorem decode_encode (hname : (utf8 g.meshName).length ≤ 65535) :
    decode (g.encode crypto) = some g := by
  have hlength := g.encode_length crypto
  have hlen : (u16At (g.encode crypto) 0).toNat = (utf8 g.meshName).length := by
    rw [encode, u16At_toLe, UInt16.toNat_ofNat']
    exact Nat.mod_eq_of_lt (by omega)
  have hslice : slice (g.encode crypto) 2 (2 + (utf8 g.meshName).length) = utf8 g.meshName :=
    slice_middle (u16ToLe_length _)
  have hfront : (u16ToLe (UInt16.ofNat (utf8 g.meshName).length) ++ utf8 g.meshName).length =
      2 + (utf8 g.meshName).length := by
    rw [List.length_append, u16ToLe_length]
  obtain ⟨hseed, hkey, htime, hpolicy⟩ := g.read_encodeFixed crypto hfront
  rw [List.append_assoc] at hseed hkey htime hpolicy
  change keyAt (g.encode crypto) _ = _ at hseed
  change keyAt (g.encode crypto) _ = _ at hkey
  change u64At (g.encode crypto) _ = _ at htime
  change byteAt (g.encode crypto) _ = _ at hpolicy
  rw [decode, if_neg (by omega)]
  dsimp only
  rw [hlen, if_neg (by omega), hslice, fromUtf8_utf8, hseed, hkey, htime, hpolicy,
    MembershipPolicy.ofU8_toU8]
  rfl

/-- Bytes that are a genesis: there is room for everything, the name is text, and the policy is
known. -/
structure WellFormed (data : Bytes) : Prop where
  room : 107 + (u16At data 0).toNat ≤ data.length
  name : isUtf8 (slice data 2 (2 + (u16At data 0).toNat)) = true
  policy : byteAt data (2 + (u16At data 0).toNat + 104) ≤ 2

theorem isSome_decode_iff {data : Bytes} : (decode data).isSome = true ↔ WellFormed data := by
  have hparts : (decode data).isSome = true ↔
      107 + (u16At data 0).toNat ≤ data.length ∧
        (fromUtf8 (slice data 2 (2 + (u16At data 0).toNat))).isSome = true ∧
        (MembershipPolicy.ofU8 (byteAt data (2 + (u16At data 0).toNat + 104))).isSome = true := by
    unfold decode
    dsimp only
    split
    · exact iff_of_false Bool.false_ne_true fun h => by omega
    · split
      · exact iff_of_false Bool.false_ne_true fun h => by omega
      · rename_i hroom
        rw [and_iff_right (Nat.le_of_not_lt hroom)]
        cases fromUtf8 (slice data 2 (2 + (u16At data 0).toNat)) with
        | none => exact iff_of_false Bool.false_ne_true fun h => Bool.false_ne_true h.1
        | some meshName =>
            refine Iff.trans ?_ (and_iff_right Option.isSome_some).symm
            cases MembershipPolicy.ofU8 (byteAt data (2 + (u16At data 0).toNat + 104)) with
            | none => exact Iff.rfl
            | some policy => exact Iff.rfl
  rw [hparts, isSome_fromUtf8, MembershipPolicy.isSome_ofU8]
  exact ⟨fun ⟨hroom, hname, hknown⟩ => ⟨hroom, hname, hknown⟩,
    fun h => ⟨h.room, h.name, h.policy⟩⟩

end MeshGenesis

end PeatBtle
