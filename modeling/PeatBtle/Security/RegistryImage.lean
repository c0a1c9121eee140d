import PeatBtle.Security.IdentityRegistry

/-!
# Stored images of the identity registry

Two formats. The first is a 32-bit count and 56 bytes an identity; the second
puts a version byte in front and adds the membership to every entry. The reader
tells them apart by the first byte, which in the older format is the low byte of
the count. Sizes are computed without overflow, as on a 64-bit target.
-/

namespace PeatBtle

open Std Wire MapMerge

/-- An identity as the older versions knew it. -/
def IdentityRecord.Legacy (record : IdentityRecord) : Prop :=
  record.callsign = none ∧ record.tokenExpiresMs = none

namespace IdentityRegistry

abbrev Entry := NodeId × IdentityRecord

def EachRecord (test : IdentityRecord → Prop) (known : Map NodeId IdentityRecord) : Prop :=
  ∀ (node : NodeId) (record : IdentityRecord), known[node]? = some record → test record

def coreSize : Nat := 56
def entrySize : Nat := 77

/-! ## Writing -/

/-- The fields that both formats share. -/
def encodeCore (entry : Entry) : Bytes :=
  u32ToLe entry.1 ++ (entry.2.publicKey.toList ++ (u64ToLe entry.2.firstSeenMs ++
    (u64ToLe entry.2.lastSeenMs ++ u32ToLe entry.2.verificationCount)))

def encodeMembership (record : IdentityRecord) : Bytes :=
  match record.callsign with
  | some callsign => 1 :: (callsign.toList ++ u64ToLe (record.tokenExpiresMs.getD 0))
  | none => 0 :: (List.replicate maxCallsignLen 0 ++ u64ToLe 0)

def encodeEntry (entry : Entry) : Bytes := encodeCore entry ++ encodeMembership entry.2

/-- The current format, for the identities in the order in which the hash map lists them. -/
def encode (entries : List Entry) : Bytes :=
  2 :: (u32ToLe (UInt32.ofNat entries.length) ++ entries.flatMap encodeEntry)

/-- The format of older versions, which knew no callsigns. -/
def encodeV1 (entries : List Entry) : Bytes :=
  u32ToLe (UInt32.ofNat entries.length) ++ entries.flatMap encodeCore

/-! ## Reading -/

def readCore (data : Bytes) : Entry :=
  (u32At data 0,
    { publicKey := Vector.ofFn fun i => byteAt (slice data 4 36) i
      firstSeenMs := u64At data 36
      lastSeenMs := u64At data 44
      verificationCount := u32At data 52
      callsign := none
      tokenExpiresMs := none })

def readEntry (data : Bytes) : Entry :=
  let core := readCore data
  if byteAt data 56 ≠ 0 then
    (core.1, { core.2 with
      callsign := some (Vector.ofFn fun i => byteAt (slice data 57 69) i)
      tokenExpiresMs := some (u64At data 69) })
  else core

def decodeV1 (data : Bytes) : Option IdentityRegistry :=
  if data.length < 4 then none
  else
    let count := (u32At data 0).toNat
    if data.length < 4 + count * coreSize then none
    else some { new with known := ExtTreeMap.ofList (readEach coreSize readCore data count 4) }

def decodeV2 (data : Bytes) : Option IdentityRegistry :=
  if data.length < 5 then none
  else
    let count := (u32At data 1).toNat
    if data.length < 5 + count * entrySize then none
    else some { new with known := ExtTreeMap.ofList (readEach entrySize readEntry data count 5) }

def decode (data : Bytes) : Option IdentityRegistry :=
  if data.isEmpty then none
  else if byteAt data 0 = 2 then decodeV2 data
  else decodeV1 data

/-! ## Entries -/

@[simp] theorem encodeCore_length (entry : Entry) : (encodeCore entry).length = coreSize := by
  simp [encodeCore, coreSize]

@[simp] theorem encodeMembership_length (record : IdentityRecord) :
    (encodeMembership record).length = 21 := by
  unfold encodeMembership
  cases record.callsign with
  | none => rfl
  | some callsign =>
      rw [List.length_cons, List.length_append, Vector.length_toList, u64ToLe_length, maxCallsignLen]

@[simp] theorem encodeEntry_length (entry : Entry) : (encodeEntry entry).length = entrySize := by
  simp [encodeEntry, coreSize, entrySize]

/-- The shared fields are read back whatever follows them. -/
theorem readCore_encodeCore (entry : Entry) (rest : Bytes) :
    readCore (encodeCore entry ++ rest) =
      (entry.1, { entry.2 with callsign := none, tokenExpiresMs := none }) := by
  have hkey : slice (encodeCore entry ++ rest) 4 36 = entry.2.publicKey.toList := by
    rw [encodeCore, List.append_assoc, slice_skip (by simp), List.append_assoc]
    exact slice_append_left (by simp)
  have hfirst : u64At (encodeCore entry ++ rest) 36 = entry.2.firstSeenMs := by
    simp [encodeCore, u64At_skip]
  have hlast : u64At (encodeCore entry ++ rest) 44 = entry.2.lastSeenMs := by
    simp [encodeCore, u64At_skip]
  have hcount : u32At (encodeCore entry ++ rest) 52 = entry.2.verificationCount := by
    simp [encodeCore, u32At_skip]
  have hid : u32At (encodeCore entry ++ rest) 0 = entry.1 := by
    simp [encodeCore]
  simp only [readCore, hid, hkey, hfirst, hlast, hcount, ofFn_byteAt]

theorem readCore_of_legacy {entry : Entry} (h : entry.2.Legacy) :
    readCore (encodeCore entry) = entry := by
  have hread := readCore_encodeCore entry []
  rw [List.append_nil] at hread
  obtain ⟨node, record⟩ := entry
  obtain ⟨hcallsign, hexpires⟩ := h
  rw [hread, ← hcallsign, ← hexpires]

/-- With its membership an entry is read back whole. -/
theorem readEntry_encodeEntry {entry : Entry} (h : entry.2.Paired) :
    readEntry (encodeEntry entry) = entry := by
  have hskip : (encodeCore entry).length = 56 := encodeCore_length entry
  have hcore : readCore (encodeEntry entry) = _ :=
    readCore_encodeCore entry (encodeMembership entry.2)
  have hflag : byteAt (encodeEntry entry) 56 = byteAt (encodeMembership entry.2) 0 := by
    rw [encodeEntry, byteAt_skip (Nat.le_of_eq hskip), hskip]
  have hcallsign : slice (encodeEntry entry) 57 69 = slice (encodeMembership entry.2) 1 13 := by
    rw [encodeEntry, slice_skip (by omega), hskip]
  have hexpires : u64At (encodeEntry entry) 69 = u64At (encodeMembership entry.2) 13 := by
    rw [encodeEntry, u64At_skip (by omega), hskip]
  simp only [readEntry, hflag, hcallsign, hexpires, hcore]
  obtain ⟨node, key, firstSeen, lastSeen, count, callsign, expires⟩ := entry
  cases callsign with
  | none =>
      cases expires with
      | none => rfl
      | some expires => cases h
  | some callsign =>
      cases expires with
      | none => cases h
      | some expires =>
          have hlength : callsign.toList.length = 12 := callsign.length_toList
          have hname : slice (callsign.toList ++ u64ToLe expires) 0 12 = callsign.toList :=
            slice_append_left hlength
          have hexpiry : u64At (callsign.toList ++ u64ToLe expires) 12 = expires := by
            rw [u64At_skip (Nat.le_of_eq hlength), hlength, Nat.sub_self, ← List.append_nil (u64ToLe _),
              u64At_toLe]
          simp only [encodeMembership, Option.getD_some, byteAt_cons_zero, slice_cons_succ,
            u64At_cons_succ, hname, hexpiry, ofFn_byteAt]
          rfl

/-! ## Images -/

theorem encodeV1_length (entries : List Entry) :
    (encodeV1 entries).length = 4 + entries.length * coreSize := by
  rw [encodeV1, List.length_append, u32ToLe_length, flatMap_length fun e _ => encodeCore_length e]

theorem encode_length (entries : List Entry) :
    (encode entries).length = 5 + entries.length * entrySize := by
  rw [encode, List.length_cons, List.length_append, u32ToLe_length,
    flatMap_length fun e _ => encodeEntry_length e]
  omega

theorem toNat_count {n : Nat} (h : n < 2 ^ 32) : (UInt32.ofNat n).toNat = n := by
  rw [UInt32.toNat_ofNat', Nat.mod_eq_of_lt h]

theorem decodeV1_encodeV1 {entries : List Entry} (hlegacy : ∀ e ∈ entries, e.2.Legacy)
    (hcount : entries.length < 2 ^ 32) :
    decodeV1 (encodeV1 entries) = some { new with known := ExtTreeMap.ofList entries } := by
  have hlength := encodeV1_length entries
  have hread : readEach coreSize readCore (encodeV1 entries) entries.length 4 = entries := by
    have h := readEach_flatMap (fun e _ => encodeCore_length e)
      (fun e he => readCore_of_legacy (hlegacy e he)) (u32ToLe (UInt32.ofNat entries.length)) []
    rwa [List.append_nil, u32ToLe_length] at h
  have hhead : u32At (encodeV1 entries) 0 = UInt32.ofNat entries.length := u32At_toLe _ _
  rw [decodeV1, if_neg (by omega)]
  simp only [hhead, toNat_count hcount, hread]
  rw [if_neg (by omega)]

theorem decodeV2_encode {entries : List Entry} (hpaired : ∀ e ∈ entries, e.2.Paired)
    (hcount : entries.length < 2 ^ 32) :
    decodeV2 (encode entries) = some { new with known := ExtTreeMap.ofList entries } := by
  have hlength := encode_length entries
  have hread : readEach entrySize readEntry (encode entries) entries.length 5 = entries := by
    have h := readEach_flatMap (fun e _ => encodeEntry_length e)
      (fun e he => readEntry_encodeEntry (hpaired e he))
      (2 :: u32ToLe (UInt32.ofNat entries.length)) []
    rwa [List.append_nil, List.length_cons, u32ToLe_length] at h
  have hhead : u32At (encode entries) 1 = UInt32.ofNat entries.length := by
    rw [encode, u32At_cons_succ, u32At_toLe]
  rw [decodeV2, if_neg (by omega)]
  simp only [hhead, toNat_count hcount, hread]
  rw [if_neg (by omega)]

/-- What an image of the current format yields takes up room in it. -/
theorem size_of_decodeV2 {data : Bytes} {r : IdentityRegistry} (h : decodeV2 data = some r) :
    5 + r.known.size * entrySize ≤ data.length := by
  unfold decodeV2 at h
  split at h
  · cases h
  · dsimp only at h
    split at h
    · cases h
    · rename_i hroom
      obtain rfl := Option.some.inj h
      have hsize : (ExtTreeMap.ofList (readEach entrySize readEntry data (u32At data 1).toNat 5)
          compare).size ≤ _ := ExtTreeMap.size_ofList_le
      rw [readEach_length] at hsize
      have hmul := Nat.mul_le_mul_right entrySize hsize
      exact Nat.le_trans (Nat.add_le_add_left hmul 5) (Nat.le_of_not_lt hroom)

theorem byteAt_encodeV1 {entries : List Entry} (hcount : entries.length < 2 ^ 32) :
    byteAt (encodeV1 entries) 0 = 2 ↔ entries.length % 256 = 2 := by
  have hbyte : byteAt (encodeV1 entries) 0 = UInt8.ofNat entries.length := by
    rw [encodeV1, u32ToLe, toNat_count hcount, leBytes, List.cons_append, byteAt_cons_zero]
  rw [hbyte, ← UInt8.toNat_inj, UInt8.toNat_ofNat']
  rfl

theorem decode_of_ne_nil {data : Bytes} (h : data ≠ []) :
    decode data = if byteAt data 0 = 2 then decodeV2 data else decodeV1 data := by
  rw [decode, if_neg (by rwa [List.isEmpty_iff])]

/-- An old image is read as a new one exactly if the low byte of its count is two, and what is
then read is never what was written. -/
theorem decode_encodeV1_iff {m : Map NodeId IdentityRecord} {entries : List Entry}
    (hlegacy : EachRecord IdentityRecord.Legacy m) (hsize : m.size < 2 ^ 32)
    (hlist : entries.Perm m.toList) :
    (decode (encodeV1 entries)).map known = some m ↔ m.size % 256 ≠ 2 := by
  have hlength : entries.length = m.size := by
    rw [hlist.length_eq, ExtTreeMap.length_toList]
  have hne : encodeV1 entries ≠ [] := by
    intro hnil
    have hlen := encodeV1_length entries
    rw [hnil, List.length_nil] at hlen
    omega
  rw [decode_of_ne_nil hne, ← hlength]
  rw [← hlength] at hsize
  by_cases htwo : entries.length % 256 = 2
  · rw [if_pos ((byteAt_encodeV1 hsize).mpr htwo)]
    refine iff_of_false (fun h => ?_) (fun h => h htwo)
    obtain ⟨r, hr, rfl⟩ := Option.map_eq_some_iff.mp h
    have hroom := size_of_decodeV2 hr
    rw [encodeV1_length, hlength, coreSize, entrySize] at hroom
    omega
  · rw [if_neg (mt (byteAt_encodeV1 hsize).mp htwo)]
    refine iff_of_true ?_ htwo
    have hentries : ∀ e ∈ entries, e.2.Legacy := fun e he =>
      hlegacy e.1 e.2 (ExtTreeMap.mem_toList_iff_getElem?_eq_some.mp (hlist.mem_iff.mp he))
    rw [decodeV1_encodeV1 hentries hsize, Option.map_some, ofList_of_perm hlist]

/-- A full table has one identity more than its count can say. -/
theorem decode_encode_iff {r : IdentityRegistry} {entries : List Entry}
    (hpaired : EachRecord IdentityRecord.Paired r.known)
    (hlist : entries.Perm r.known.toList) :
    (decode (encode entries)).map known = some r.known ↔ r.known.size < 2 ^ 32 := by
  have hlength : entries.length = r.known.size := by
    rw [hlist.length_eq, ExtTreeMap.length_toList]
  have hne : encode entries ≠ [] := List.cons_ne_nil _ _
  have hversion : byteAt (encode entries) 0 = 2 := rfl
  rw [decode_of_ne_nil hne, if_pos hversion]
  by_cases hsize : r.known.size < 2 ^ 32
  · refine iff_of_true ?_ hsize
    have hentries : ∀ e ∈ entries, e.2.Paired := fun e he =>
      hpaired e.1 e.2 (ExtTreeMap.mem_toList_iff_getElem?_eq_some.mp (hlist.mem_iff.mp he))
    rw [decodeV2_encode hentries (hlength ▸ hsize), Option.map_some, ofList_of_perm hlist]
  · refine iff_of_false (fun h => ?_) hsize
    have hfull : entries.length = 2 ^ 32 := by
      have hle := size_le_keys r.known
      omega
    have hzero : u32At (encode entries) 1 = 0 := by
      rw [encode, u32At_cons_succ, u32At_toLe, hfull]
      rfl
    obtain ⟨r', hr', hknown⟩ := Option.map_eq_some_iff.mp h
    have hempty : r'.known.size = 0 := by
      rw [decodeV2, if_neg (by rw [encode_length]; omega), hzero] at hr'
      simp only [UInt32.toNat_zero, Nat.zero_mul, readEach] at hr'
      rw [if_neg (by rw [encode_length]; omega)] at hr'
      rw [← Option.some.inj hr']
      rfl
    rw [hknown, ← hlength, hfull] at hempty
    omega

/-- Bytes that are a registry: there is room for as many entries as are counted. -/
def WellFormed (data : Bytes) : Prop :=
  if byteAt data 0 = 2 then 5 + (u32At data 1).toNat * entrySize ≤ data.length
  else 4 + (u32At data 0).toNat * coreSize ≤ data.length

instance (data : Bytes) : Decidable (WellFormed data) := by
  unfold WellFormed
  infer_instance

/-- Both readers look for their header first, and then for all of the entries. -/
theorem isSome_counted {r : IdentityRegistry} {length header entries : Nat} :
    (if length < header then none else if length < header + entries then none
      else some r).isSome = true ↔ header + entries ≤ length := by
  split
  · exact iff_of_false Bool.false_ne_true fun hroom => by omega
  · split
    · rename_i hshort
      exact iff_of_false Bool.false_ne_true (Nat.not_le_of_lt hshort)
    · rename_i hroom
      exact iff_of_true rfl (Nat.le_of_not_lt hroom)

theorem isSome_decode_iff {data : Bytes} : (decode data).isSome = true ↔ WellFormed data := by
  unfold decode WellFormed
  split
  · rename_i hnil
    rw [List.isEmpty_iff.mp hnil]
    decide
  · split
    · exact isSome_counted
    · exact isSome_counted

/-! ## Registries in use -/

/-- The registries that the operations lead to, from an empty one or from an image. -/
inductive Reachable (crypto : IdentityCrypto) : IdentityRegistry → Prop where
  | empty (maxIdentities : Nat) : Reachable crypto (withCapacity maxIdentities)
  | restored {data : Bytes} {r : IdentityRegistry} (h : decode data = some r) : Reachable crypto r
  | applied {r : IdentityRegistry} (h : Reachable crypto r) (action : TrustAction) :
      Reachable crypto (r.apply crypto action)
  | preRegistered {r : IdentityRegistry} (h : Reachable crypto r) (nodeId : NodeId)
      (publicKey : PublicKey) (nowMs : UInt64) :
      Reachable crypto (r.preRegister nodeId publicKey nowMs)
  | removed {r : IdentityRegistry} (h : Reachable crypto r) (nodeId : NodeId) :
      Reachable crypto (r.remove nodeId)
  | cleared {r : IdentityRegistry} (h : Reachable crypto r) : Reachable crypto r.clear

section Records

variable {test : IdentityRecord → Prop} {known : Map NodeId IdentityRecord}

theorem eachRecord_empty : EachRecord test ∅ := by
  intro node record h
  exact absurd h getElem?_empty_ne_some

theorem eachRecord_insert {node : NodeId} {record : IdentityRecord} (h : EachRecord test known)
    (hrecord : test record) : EachRecord test (known.insert node record) := by
  intro n other hother
  rw [getElem?_insert_eq] at hother
  split at hother
  · rwa [← Option.some.inj hother]
  · exact h n other hother

theorem eachRecord_readEach {width : Nat} {read : Bytes → Entry} {data : Bytes}
    {count offset : Nat} (hread : ∀ bytes, test (read bytes).2) :
    EachRecord test (ExtTreeMap.ofList (readEach width read data count offset)) := by
  intro node record h
  obtain ⟨bytes, heq⟩ := exists_of_mem_readEach (mem_of_getElem?_ofList h)
  have hrecord : record = (read bytes).2 := congrArg Prod.snd heq
  rw [hrecord]
  exact hread bytes

end Records

theorem paired_readEntry (bytes : Bytes) : (readEntry bytes).2.Paired := by
  unfold readEntry
  dsimp only
  split
  · rfl
  · rfl

/-- Whatever bytes it was restored from. -/
theorem paired_of_decode {data : Bytes} {r : IdentityRegistry} (h : decode data = some r) :
    EachRecord IdentityRecord.Paired r.known := by
  unfold decode at h
  split at h
  · cases h
  · split at h
    · unfold decodeV2 at h
      dsimp only at h
      split at h
      · cases h
      · split at h
        · cases h
        · rw [← Option.some.inj h]
          exact eachRecord_readEach paired_readEntry
    · unfold decodeV1 at h
      dsimp only at h
      split at h
      · cases h
      · split at h
        · cases h
        · rw [← Option.some.inj h]
          exact eachRecord_readEach fun _ => rfl

theorem paired_of_reachable {crypto : IdentityCrypto} {r : IdentityRegistry}
    (h : Reachable crypto r) : EachRecord IdentityRecord.Paired r.known := by
  induction h with
  | empty maxIdentities => exact eachRecord_empty
  | restored hdecode => exact paired_of_decode hdecode
  | @applied r h action ih =>
      rcases r.apply_cases crypto action with ⟨hsame, -⟩ | ⟨-, -, hadmits⟩
      · rwa [hsame]
      · obtain ⟨record, -, hknown, hrecord⟩ := hadmits.inserted
        rw [hknown]
        exact eachRecord_insert ih (hrecord fun old hold => ih _ old hold)
  | preRegistered h nodeId publicKey nowMs ih => exact eachRecord_insert ih rfl
  | removed h nodeId ih =>
      intro node record hrecord
      rw [remove, getElem?_erase_eq] at hrecord
      split at hrecord
      · cases hrecord
      · exact ih node record hrecord
  | cleared h ih => exact eachRecord_empty

/-- When images are read back as they were written. -/
theorem images_read_back_iff (crypto : IdentityCrypto) :
    (∀ (m : Map NodeId IdentityRecord) (entries : List Entry),
      EachRecord IdentityRecord.Legacy m → m.size < 2 ^ 32 → entries.Perm m.toList →
        ((decode (encodeV1 entries)).map known = some m ↔ m.size % 256 ≠ 2)) ∧
      ∀ (r : IdentityRegistry) (entries : List Entry),
        Reachable crypto r → entries.Perm r.known.toList →
          ((decode (encode entries)).map known = some r.known ↔ r.known.size < 2 ^ 32) :=
  ⟨fun _ _ hlegacy hsize hlist => decode_encodeV1_iff hlegacy hsize hlist,
    fun _ _ hreachable hlist => decode_encode_iff (paired_of_reachable hreachable) hlist⟩

/-- Two identities whose identifiers end in a zero byte. -/
def twoIdentities : List Entry :=
  [(0x100, ⟨Vector.replicate 32 1, 5, 9, 3, none, none⟩),
    (0x200, ⟨Vector.replicate 32 2, 6, 8, 4, none, none⟩)]

/-- Their old image is read as an empty registry. -/
theorem twoIdentities_forgotten :
    (decode (encodeV1 twoIdentities)).map known = some ∅ ∧
      (decode (encodeV1 twoIdentities)).map known ≠ some (ExtTreeMap.ofList twoIdentities) := by
  decide +kernel

end IdentityRegistry

end PeatBtle
