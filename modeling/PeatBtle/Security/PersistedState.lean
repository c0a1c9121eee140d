import PeatBtle.Security.Genesis
import PeatBtle.Security.RegistryImage

/-!
# Persisted state

What a node keeps over a reboot: its private key, the image of its genesis, the
image of its registry, and the keys that were revoked. Lengths are written in 32
bits, whatever they are. Offsets are computed without overflow, as on a 64-bit
target.
-/

namespace PeatBtle

open Std Wire MapMerge

def persistedStateVersion : UInt32 := 1

inductive PersistenceError where
  | storageError (msg : String)
  | invalidFormat
  | unsupportedVersion (stored supported : UInt32)
  | notFound
  | cryptoError (msg : String)
deriving DecidableEq

structure PersistedState where
  version : UInt32
  devicePrivateKey : Key
  genesisData : Option Bytes
  registryData : Bytes
  revokedKeys : List PublicKey
  persistedAtMs : UInt64
deriving DecidableEq

namespace PersistedState

/-- `PEAT` -/
def magic : Bytes := [0x50, 0x45, 0x41, 0x54]

def new (crypto : GenesisCrypto) (identity : DeviceIdentity) (genesis : Option MeshGenesis) :
    PersistedState where
  version := persistedStateVersion
  devicePrivateKey := identity.privateKeyBytes
  genesisData := genesis.map fun g => g.encode crypto
  registryData := []
  revokedKeys := []
  persistedAtMs := 0

/-- The identities of the registry in the order in which its hash map lists them. -/
def withRegistry (crypto : GenesisCrypto) (identity : DeviceIdentity) (genesis : Option MeshGenesis)
    (registry : List IdentityRegistry.Entry) : PersistedState :=
  { new crypto identity genesis with registryData := IdentityRegistry.encode registry }

def addRevokedKey (s : PersistedState) (publicKey : PublicKey) : PersistedState :=
  if publicKey ∈ s.revokedKeys then s
  else { s with revokedKeys := s.revokedKeys ++ [publicKey] }

/-! ## Restoring -/

def restoreIdentity (s : PersistedState) : Except PersistenceError DeviceIdentity :=
  (DeviceIdentity.fromPrivateKey s.devicePrivateKey).mapError
    fun e => PersistenceError.cryptoError e.debug

/-- A genesis that cannot be read counts as none. -/
def restoreGenesis (s : PersistedState) : Option MeshGenesis :=
  s.genesisData.bind MeshGenesis.decode

/-- A registry that cannot be read counts as an empty one. -/
def restoreRegistry (s : PersistedState) : IdentityRegistry :=
  if s.registryData.isEmpty then IdentityRegistry.new
  else (IdentityRegistry.decode s.registryData).getD IdentityRegistry.new

/-! ## The image -/

/-- A block of bytes behind its length, which is cut to 32 bits. -/
def encodeBlock (block : Bytes) : Bytes := u32ToLe (UInt32.ofNat block.length) ++ block

/-- No genesis is an empty block. -/
def encode (s : PersistedState) : Bytes :=
  magic ++ (u32ToLe s.version ++ (s.devicePrivateKey.toList ++ (u64ToLe s.persistedAtMs ++
    (encodeBlock (s.genesisData.getD []) ++ (encodeBlock s.registryData ++
      (u32ToLe (UInt32.ofNat s.revokedKeys.length) ++ s.revokedKeys.flatMap Vector.toList))))))

/-- The block at an offset, and the offset behind it. -/
def readBlock (data : Bytes) (offset : Nat) : Except PersistenceError (Bytes × Nat) :=
  if data.length < offset + 4 then .error .invalidFormat
  else
    let len := (u32At data offset).toNat
    if data.length < offset + 4 + len then .error .invalidFormat
    else .ok (slice data (offset + 4) (offset + 4 + len), offset + 4 + len)

def readKeys (data : Bytes) (offset : Nat) : Except PersistenceError (List PublicKey) :=
  if data.length < offset + 4 then .error .invalidFormat
  else
    let count := (u32At data offset).toNat
    if data.length < offset + 4 + count * 32 then .error .invalidFormat
    else .ok (readEach 32 (fun bytes => keyAt bytes 0) data count (offset + 4))

/-- An empty block is no genesis. -/
def decode (data : Bytes) : Except PersistenceError PersistedState :=
  if data.length < 60 then .error .invalidFormat
  else if slice data 0 4 ≠ magic then .error .invalidFormat
  else
    let version := u32At data 4
    if version > persistedStateVersion then
      .error (.unsupportedVersion version persistedStateVersion)
    else do
      let (genesis, registryAt) ← readBlock data 48
      let (registry, revokedAt) ← readBlock data registryAt
      let revokedKeys ← readKeys data revokedAt
      .ok
        { version := version
          devicePrivateKey := keyAt data 8
          genesisData := if genesis.isEmpty then none else some genesis
          registryData := registry
          revokedKeys := revokedKeys
          persistedAtMs := u64At data 40 }

/-! ## Blocks -/

/-- A length that is cut to 32 bits. -/
def cut (n : Nat) : Nat := n % 2 ^ 32

theorem cut_le (n : Nat) : cut n ≤ n := Nat.mod_le ..

theorem cut_of_lt {n : Nat} (h : n < 2 ^ 32) : cut n = n := Nat.mod_eq_of_lt h

theorem toNat_ofNat_cut (n : Nat) : (UInt32.ofNat n).toNat = cut n := UInt32.toNat_ofNat' ..

/-- What was written of a block is read back up to the length that was cut. -/
theorem readBlock_encodeBlock (front block rest : Bytes) :
    readBlock (front ++ (encodeBlock block ++ rest)) front.length =
      .ok (block.take (cut block.length), front.length + 4 + cut block.length) := by
  have hcut := cut_le block.length
  have hlen : (u32At (front ++ (encodeBlock block ++ rest)) front.length).toNat =
      cut block.length := by
    rw [u32At_skip (Nat.le_refl _), Nat.sub_self, encodeBlock, List.append_assoc, u32At_toLe,
      toNat_ofNat_cut]
  have hslice : slice (front ++ (encodeBlock block ++ rest)) (front.length + 4)
      (front.length + 4 + cut block.length) = block.take (cut block.length) := by
    rw [slice_skip (by omega), encodeBlock, List.append_assoc, slice_skip (by simp), u32ToLe_length,
      slice, Nat.add_sub_cancel_left, Nat.sub_self, List.drop_zero, List.take_append_of_le_length]
    · congr 1
      omega
    · omega
  have hroom : (front ++ (encodeBlock block ++ rest)).length =
      front.length + 4 + block.length + rest.length := by
    rw [List.length_append, List.length_append, encodeBlock, List.length_append, u32ToLe_length]
    omega
  rw [readBlock, if_neg (by omega)]
  dsimp only
  rw [hlen, if_neg (by omega), hslice]

theorem readKeys_flatMap (front : Bytes) (keys : List PublicKey) :
    readKeys (front ++ (u32ToLe (UInt32.ofNat keys.length) ++ keys.flatMap Vector.toList))
      front.length = .ok (keys.take (cut keys.length)) := by
  have hcut := cut_le keys.length
  have hwidth : ∀ entries : List PublicKey,
      (entries.flatMap Vector.toList).length = entries.length * 32 :=
    fun _ => flatMap_length fun key _ => key.length_toList
  have hcount : (u32At (front ++ (u32ToLe (UInt32.ofNat keys.length) ++
      keys.flatMap Vector.toList)) front.length).toNat = cut keys.length := by
    rw [u32At_skip (Nat.le_refl _), Nat.sub_self, u32At_toLe, toNat_ofNat_cut]
  have hroom : (front ++ (u32ToLe (UInt32.ofNat keys.length) ++
      keys.flatMap Vector.toList)).length = front.length + 4 + keys.length * 32 := by
    rw [List.length_append, List.length_append, u32ToLe_length, hwidth]
    omega
  have hself : ∀ key : PublicKey, keyAt key.toList 0 = key := fun key => by
    simpa using keyAt_toList key []
  -- the keys that are counted stand in front of the others
  have hread := @readEach_flatMap _ 32 (fun bytes => keyAt bytes 0) Vector.toList
    (keys.take (cut keys.length)) (fun key _ => key.length_toList) (fun key _ => hself key)
    (front ++ u32ToLe (UInt32.ofNat keys.length))
    ((keys.drop (cut keys.length)).flatMap Vector.toList)
  rw [← List.flatMap_append, List.take_append_drop, List.length_append, u32ToLe_length,
    List.length_take, Nat.min_eq_left hcut, List.append_assoc] at hread
  rw [readKeys, if_neg (by omega)]
  dsimp only
  rw [hcount, if_neg (by omega), hread]

/-! ## Decoding what was encoded -/

section Decode

variable (s : PersistedState)

/-- What stands in front of the blocks. -/
def encodeHeader : Bytes :=
  magic ++ (u32ToLe s.version ++ (s.devicePrivateKey.toList ++ u64ToLe s.persistedAtMs))

@[simp] theorem encodeHeader_length : s.encodeHeader.length = 48 := by
  simp [encodeHeader, magic]

theorem encodeBlock_length (block : Bytes) : (encodeBlock block).length = 4 + block.length := by
  rw [encodeBlock, List.length_append, u32ToLe_length]

theorem encode_eq : s.encode = s.encodeHeader ++ (encodeBlock (s.genesisData.getD []) ++
    (encodeBlock s.registryData ++ (u32ToLe (UInt32.ofNat s.revokedKeys.length) ++
      s.revokedKeys.flatMap Vector.toList))) := by
  simp only [encode, encodeHeader, List.append_assoc]

theorem read_header (rest : Bytes) :
    slice (s.encodeHeader ++ rest) 0 4 = magic ∧ u32At (s.encodeHeader ++ rest) 4 = s.version ∧
      keyAt (s.encodeHeader ++ rest) 8 = s.devicePrivateKey ∧
      u64At (s.encodeHeader ++ rest) 40 = s.persistedAtMs := by
  have hmagic : magic.length = 4 := rfl
  simp only [encodeHeader, List.append_assoc]
  refine ⟨slice_append_left hmagic, ?_, ?_, ?_⟩
  · rw [u32At_skip (Nat.le_of_eq hmagic), hmagic, Nat.sub_self, u32At_toLe]
  · rw [keyAt_skip (by omega), hmagic, keyAt_skip (by simp)]
    simp
  · rw [u64At_skip (by omega), hmagic, u64At_skip (by simp), u64At_skip (by simp)]
    simp

/-- A genesis that is there has an image that is not empty, and fits. -/
structure GenesisFits : Prop where
  nonempty : s.genesisData ≠ some []
  fits : (s.genesisData.getD []).length < 2 ^ 32

theorem genesisData_eq (h : s.GenesisFits) :
    (if (s.genesisData.getD []).isEmpty then none else some (s.genesisData.getD [])) =
      s.genesisData := by
  cases hdata : s.genesisData with
  | none => rfl
  | some data =>
      rw [Option.getD_some, if_neg]
      intro hempty
      exact h.nonempty (hdata.trans (congrArg some (List.isEmpty_iff.mp hempty)))

theorem readBlock_genesis (h : s.GenesisFits) : readBlock s.encode 48 =
    .ok (s.genesisData.getD [], 48 + 4 + (s.genesisData.getD []).length) := by
  have hread := readBlock_encodeBlock s.encodeHeader (s.genesisData.getD [])
    (encodeBlock s.registryData ++ (u32ToLe (UInt32.ofNat s.revokedKeys.length) ++
      s.revokedKeys.flatMap Vector.toList))
  rwa [← encode_eq, encodeHeader_length, cut_of_lt h.fits, List.take_length] at hread

theorem readBlock_registry : readBlock s.encode (48 + 4 + (s.genesisData.getD []).length) =
    .ok (s.registryData.take (cut s.registryData.length),
      48 + 4 + (s.genesisData.getD []).length + 4 + cut s.registryData.length) := by
  have hread := readBlock_encodeBlock (s.encodeHeader ++ encodeBlock (s.genesisData.getD []))
    s.registryData (u32ToLe (UInt32.ofNat s.revokedKeys.length) ++
      s.revokedKeys.flatMap Vector.toList)
  rwa [List.append_assoc, ← encode_eq, List.length_append, encodeHeader_length, encodeBlock_length,
    ← Nat.add_assoc] at hread

theorem le_length_encode : 60 ≤ s.encode.length := by
  rw [encode_eq]
  simp only [List.length_append, encodeHeader_length, encodeBlock_length, u32ToLe_length]
  omega

/-- Up to the revoked keys everything is read back, but for the length of the registry. -/
theorem decode_encode_eq (hversion : s.version ≤ persistedStateVersion) (hgenesis : s.GenesisFits) :
    decode s.encode =
      (readKeys s.encode
        (48 + 4 + (s.genesisData.getD []).length + 4 + cut s.registryData.length)).map
        fun revokedKeys => { s with
          registryData := s.registryData.take (cut s.registryData.length)
          revokedKeys := revokedKeys } := by
  have hroom := s.le_length_encode
  obtain ⟨hmagic, hversionAt, hkey, htime⟩ := s.read_header (encodeBlock (s.genesisData.getD []) ++
    (encodeBlock s.registryData ++ (u32ToLe (UInt32.ofNat s.revokedKeys.length) ++
      s.revokedKeys.flatMap Vector.toList)))
  rw [← encode_eq] at hmagic hversionAt hkey htime
  rw [decode, if_neg (by omega), if_neg (not_not.mpr hmagic)]
  dsimp only
  rw [hversionAt, if_neg (UInt32.not_lt.mpr hversion), s.readBlock_genesis hgenesis, hkey,
    htime]
  change (readBlock s.encode (48 + 4 + (s.genesisData.getD []).length) >>= _) = _
  rw [s.readBlock_registry]
  change (readKeys s.encode _ >>= _) = _
  cases readKeys s.encode
      (48 + 4 + (s.genesisData.getD []).length + 4 + cut s.registryData.length) with
  | error e => rfl
  | ok keys =>
      change Except.ok { s with
        genesisData :=
          if (s.genesisData.getD []).isEmpty then none else some (s.genesisData.getD [])
        registryData := s.registryData.take (cut s.registryData.length)
        revokedKeys := keys } = _
      rw [s.genesisData_eq hgenesis]
      rfl

theorem registryData_of_decode (hversion : s.version ≤ persistedStateVersion)
    (hgenesis : s.GenesisFits) {restored : PersistedState}
    (hdecoded : decode s.encode = .ok restored) :
    restored.registryData = s.registryData.take (cut s.registryData.length) := by
  rw [s.decode_encode_eq hversion hgenesis] at hdecoded
  cases hkeys : readKeys s.encode
      (48 + 4 + (s.genesisData.getD []).length + 4 + cut s.registryData.length) with
  | error e =>
      rw [hkeys] at hdecoded
      cases hdecoded
  | ok keys =>
      rw [hkeys] at hdecoded
      rw [← Except.ok.inj hdecoded]

/-- A state whose registry fits is read back, with the keys that could be counted. -/
theorem decode_encode (hversion : s.version ≤ persistedStateVersion) (hgenesis : s.GenesisFits)
    (hregistry : s.registryData.length < 2 ^ 32) :
    decode s.encode =
      .ok { s with revokedKeys := s.revokedKeys.take (cut s.revokedKeys.length) } := by
  have hkeys := readKeys_flatMap (s.encodeHeader ++ (encodeBlock (s.genesisData.getD []) ++
    encodeBlock s.registryData)) s.revokedKeys
  rw [List.append_assoc, List.append_assoc, ← encode_eq, List.length_append, List.length_append,
    encodeHeader_length, encodeBlock_length, encodeBlock_length, ← Nat.add_assoc, ← Nat.add_assoc,
    ← Nat.add_assoc] at hkeys
  rw [s.decode_encode_eq hversion hgenesis, cut_of_lt hregistry, hkeys, List.take_length]
  rfl

end Decode

/-! ## A reboot -/

/-- The state that a device saves. -/
def saved (crypto : GenesisCrypto) (identity : DeviceIdentity) (genesis : Option MeshGenesis)
    (registry : List IdentityRegistry.Entry) (revokedKeys : List PublicKey)
    (persistedAtMs : UInt64) : PersistedState :=
  { withRegistry crypto identity genesis registry with
    revokedKeys := revokedKeys
    persistedAtMs := persistedAtMs }

theorem foldl_addRevokedKey {s : PersistedState} {keys : List PublicKey}
    (hdistinct : (s.revokedKeys ++ keys).Nodup) :
    keys.foldl addRevokedKey s = { s with revokedKeys := s.revokedKeys ++ keys } := by
  induction keys generalizing s with
  | nil => rw [List.foldl_nil, List.append_nil]
  | cons key keys ih =>
      rw [List.append_cons] at hdistinct ⊢
      have hnew : key ∉ s.revokedKeys := fun hmem =>
        (List.nodup_append.mp (List.nodup_append.mp hdistinct).1).2.2 key hmem key (by simp) rfl
      have hadded : s.addRevokedKey key = { s with revokedKeys := s.revokedKeys ++ [key] } :=
        if_neg hnew
      rw [List.foldl_cons, hadded]
      exact ih hdistinct

/-- Keys that are revoked one after another, each once, are the keys that are saved. -/
theorem foldl_addRevokedKey_withRegistry (crypto : GenesisCrypto) (identity : DeviceIdentity)
    (genesis : Option MeshGenesis) (registry : List IdentityRegistry.Entry)
    {keys : List PublicKey} (hdistinct : keys.Nodup) :
    keys.foldl addRevokedKey (withRegistry crypto identity genesis registry) =
      saved crypto identity genesis registry keys 0 :=
  foldl_addRevokedKey hdistinct

/-- What was saved comes back from the bytes. -/
structure Restores (data : Bytes) (identity : DeviceIdentity) (genesis : Option MeshGenesis)
    (known : Map NodeId IdentityRecord) (revokedKeys : List PublicKey) (s : PersistedState) :
    Prop where
  decoded : decode data = .ok s
  identity : s.restoreIdentity = .ok identity
  genesis : s.restoreGenesis = genesis
  registry : s.restoreRegistry.known = known
  revoked : s.revokedKeys = revokedKeys

/-- A registry whose image was cut short holds less than the bytes that are left have room for. -/
theorem size_restoreRegistry_of_take {s : PersistedState} {entries : List IdentityRegistry.Entry}
    {n : Nat} (hdata : s.registryData = (IdentityRegistry.encode entries).take n) :
    s.restoreRegistry.known.size = 0 ∨
      5 + s.restoreRegistry.known.size * IdentityRegistry.entrySize ≤ n := by
  have hempty : IdentityRegistry.new.known.size = 0 := rfl
  unfold restoreRegistry
  split
  · exact Or.inl hempty
  · rename_i hne
    have hpositive : n ≠ 0 := by
      rintro rfl
      exact hne (by rw [hdata]; rfl)
    have hversion : byteAt s.registryData 0 = 2 := by
      obtain ⟨k, rfl⟩ := Nat.exists_eq_succ_of_ne_zero hpositive
      rw [hdata]
      rfl
    rw [IdentityRegistry.decode_of_ne_nil (by rwa [List.isEmpty_iff] at hne), if_pos hversion]
    cases hdecode : IdentityRegistry.decodeV2 s.registryData with
    | none => exact Or.inl hempty
    | some r =>
        refine Or.inr (Nat.le_trans (IdentityRegistry.size_of_decodeV2 hdecode) ?_)
        rw [hdata]
        exact List.length_take_le ..

section Reboot

variable (crypto : GenesisCrypto) (identity : DeviceIdentity) {genesis : Option MeshGenesis}
  (entries : List IdentityRegistry.Entry) (keys : List PublicKey) (persistedAtMs : UInt64)

theorem genesisFits_saved (hname : ∀ g ∈ genesis, (utf8 g.meshName).length ≤ 65535) :
    (saved crypto identity genesis entries keys persistedAtMs).GenesisFits := by
  cases genesis with
  | none => exact ⟨fun h => Option.some_ne_none [] h.symm, Nat.two_pow_pos 32⟩
  | some g =>
      refine ⟨fun h => g.encode_ne_nil crypto (Option.some.inj h), ?_⟩
      change (g.encode crypto).length < 2 ^ 32
      have hlen := hname g rfl
      rw [g.encode_length]
      omega

theorem restoreGenesis_saved (hname : ∀ g ∈ genesis, (utf8 g.meshName).length ≤ 65535) :
    (saved crypto identity genesis entries keys persistedAtMs).restoreGenesis = genesis := by
  cases genesis with
  | none => rfl
  | some g => exact g.decode_encode crypto (hname g rfl)

variable (hname : ∀ g ∈ genesis, (utf8 g.meshName).length ≤ 65535)
  {known : Map NodeId IdentityRecord} (hlist : entries.Perm known.toList)
include hname hlist

theorem fits_of_restores {s : PersistedState}
    (h : Restores (saved crypto identity genesis entries keys persistedAtMs).encode identity genesis
      known keys s) :
    5 + known.size * IdentityRegistry.entrySize < 2 ^ 32 ∧ keys.length < 2 ^ 32 := by
  have hfits := genesisFits_saved crypto identity entries keys persistedAtMs hname
  have hlength := IdentityRegistry.encode_length entries
  rw [hlist.length_eq, ExtTreeMap.length_toList] at hlength
  have hregistry : 5 + known.size * IdentityRegistry.entrySize < 2 ^ 32 := by
    have hcut : cut (IdentityRegistry.encode entries).length < 2 ^ 32 :=
      Nat.mod_lt _ (Nat.two_pow_pos 32)
    have hsize := size_restoreRegistry_of_take
      (registryData_of_decode _ (UInt32.le_refl _) hfits h.decoded)
    rw [h.registry] at hsize
    rcases hsize with hnone | hroom
    · rw [hnone]
      decide
    · exact Nat.lt_of_le_of_lt hroom hcut
  refine ⟨hregistry, ?_⟩
  have hdecoded := h.decoded
  rw [decode_encode _ (UInt32.le_refl _) hfits (hlength ▸ hregistry)] at hdecoded
  have hkeys : keys.take (cut keys.length) = keys :=
    (congrArg revokedKeys (Except.ok.inj hdecoded)).trans h.revoked
  have hcount := congrArg List.length hkeys
  have hcut : cut keys.length < 2 ^ 32 := Nat.mod_lt _ (Nat.two_pow_pos 32)
  rw [List.length_take] at hcount
  omega

theorem restores_of_fits
    (hregistry : 5 + known.size * IdentityRegistry.entrySize < 2 ^ 32)
    (hkeys : keys.length < 2 ^ 32)
    (hpaired : IdentityRegistry.EachRecord IdentityRecord.Paired known) :
    Restores (saved crypto identity genesis entries keys persistedAtMs).encode identity genesis
      known keys (saved crypto identity genesis entries keys persistedAtMs) := by
  have hfits := genesisFits_saved crypto identity entries keys persistedAtMs hname
  have hlength := IdentityRegistry.encode_length entries
  rw [hlist.length_eq, ExtTreeMap.length_toList] at hlength
  constructor
  · rw [decode_encode _ (UInt32.le_refl _) hfits (hlength ▸ hregistry)]
    change Except.ok { saved crypto identity genesis entries keys persistedAtMs with
      revokedKeys := keys.take (cut keys.length) } = _
    rw [cut_of_lt hkeys, List.take_length]
    rfl
  · rfl
  · exact restoreGenesis_saved crypto identity entries keys persistedAtMs hname
  · have hsize : known.size < 2 ^ 32 := by
      rw [IdentityRegistry.entrySize] at hregistry
      omega
    obtain ⟨r, hdecode, hknown⟩ := Option.map_eq_some_iff.mp
      ((@IdentityRegistry.decode_encode_iff { IdentityRegistry.new with known := known } entries
        hpaired hlist).mpr hsize)
    change ((IdentityRegistry.decode (IdentityRegistry.encode entries)).getD
      IdentityRegistry.new).known = known
    rw [hdecode]
    exact hknown
  · rfl

end Reboot

/-- A reboot restores exactly what was saved if and only if the image of the registry and the
number of revoked keys fit their lengths. -/
theorem restores_iff (crypto : GenesisCrypto) (identity : DeviceIdentity)
    (genesis : Option MeshGenesis) (hname : ∀ g ∈ genesis, (utf8 g.meshName).length ≤ 65535)
    (r : IdentityRegistry) (hreachable : IdentityRegistry.Reachable crypto.toIdentityCrypto r)
    (entries : List IdentityRegistry.Entry) (hlist : entries.Perm r.known.toList)
    (keys : List PublicKey) (persistedAtMs : UInt64) :
    (∃ s, Restores (saved crypto identity genesis entries keys persistedAtMs).encode identity
      genesis r.known keys s) ↔
      5 + r.known.size * IdentityRegistry.entrySize < 2 ^ 32 ∧ keys.length < 2 ^ 32 := by
  constructor
  · rintro ⟨s, h⟩
    exact fits_of_restores crypto identity entries keys persistedAtMs hname hlist h
  · rintro ⟨hregistry, hkeys⟩
    exact ⟨_, restores_of_fits crypto identity entries keys persistedAtMs hname hlist hregistry
      hkeys (IdentityRegistry.paired_of_reachable hreachable)⟩

def founder : DeviceIdentity := ⟨Vector.replicate 32 7⟩

def alphaTeam : MeshGenesis := ⟨"ALPHA-TEAM", Vector.replicate 32 9, founder, 5, .controlled⟩

/-- A registry of so many identities that were registered beforehand. -/
def crowd : Nat → IdentityRegistry
  | 0 => IdentityRegistry.new
  | n + 1 => (crowd n).preRegister (UInt32.ofNat n) (Vector.replicate 32 1) 0

theorem founder_restored :
    ∃ s, Restores (saved .transparent founder (some alphaTeam) (crowd 2).known.toList
      [Vector.replicate 32 3] 1000).encode founder (some alphaTeam) (crowd 2).known
      [Vector.replicate 32 3] s :=
  (restores_iff .transparent founder (some alphaTeam)
    (fun g hg => by rw [← Option.some.inj hg]; decide +kernel) (crowd 2)
    (.preRegistered (.preRegistered (.empty _) _ _ _) _ _ _) (crowd 2).known.toList
    (List.Perm.refl _) [Vector.replicate 32 3] 1000).mpr ⟨by decide +kernel, by decide⟩

theorem reachable_crowd (crypto : IdentityCrypto) (n : Nat) :
    IdentityRegistry.Reachable crypto (crowd n) := by
  induction n with
  | zero => exact .empty _
  | succ n ih => exact .preRegistered ih _ _ _

theorem mem_crowd {n : Nat} (hn : n ≤ 2 ^ 32) {node : NodeId} :
    node ∈ (crowd n).known ↔ node.toNat < n := by
  induction n with
  | zero => exact iff_of_false ExtTreeMap.not_mem_empty (Nat.not_lt_zero _)
  | succ n ih =>
      have hid : (UInt32.ofNat n).toNat = n := by
        rw [UInt32.toNat_ofNat', Nat.mod_eq_of_lt hn]
      rw [crowd, IdentityRegistry.preRegister, ExtTreeMap.mem_insert, ih (by omega),
        LawfulEqCmp.compare_eq_iff_eq, ← UInt32.toNat_inj, hid]
      omega

theorem size_crowd {n : Nat} (hn : n ≤ 2 ^ 32) : (crowd n).known.size = n := by
  induction n with
  | zero => rfl
  | succ n ih =>
      have hnew : UInt32.ofNat n ∉ (crowd n).known := by
        rw [mem_crowd (by omega), UInt32.toNat_ofNat', Nat.mod_eq_of_lt hn]
        exact Nat.lt_irrefl n
      rw [crowd, IdentityRegistry.preRegister, ExtTreeMap.size_insert,
        if_neg (mt ExtTreeMap.contains_iff_mem.mp hnew), ih (by omega)]

/-- A registry with one identity more than there is room for does not come back. -/
theorem crowd_not_restored :
    IdentityRegistry.Reachable GenesisCrypto.transparent.toIdentityCrypto (crowd 55778796) ∧
      ¬ ∃ s, Restores (saved .transparent founder none (crowd 55778796).known.toList [] 0).encode
        founder none (crowd 55778796).known [] s := by
  refine ⟨reachable_crowd _ _, ?_⟩
  rintro ⟨s, h⟩
  have hfits := (fits_of_restores .transparent founder (crowd 55778796).known.toList [] 0
    (fun _ hnone => by cases hnone) (List.Perm.refl _) h).1
  rw [size_crowd (by omega), IdentityRegistry.entrySize] at hfits
  omega

end PersistedState

end PeatBtle
