import PeatBtle.Discovery.ScanFilters

/-!
# The forms of a beacon

A beacon is sent in full, in the compact form without its geohash, or encrypted. The
version shares a byte with the upper capabilities; everything else is in bytes of its
own, the highest first. Each form is read back, and a scanner tracks the same of a node
in either mode wherever its filter does not tell the modes apart.
-/

namespace PeatBtle

open Wire MapMerge

def beaconSize : Nat := 16

namespace PeatBeacon

def encode (b : PeatBeacon) : Bytes :=
  [((b.version &&& 0x0F) <<< 4) ||| ((b.capabilities >>> 8).toUInt8 &&& 0x0F),
    (b.capabilities &&& 0xFF).toUInt8] ++ u32ToBe b.nodeId ++ [b.hierarchyLevel.toU8] ++
    [(b.geohash >>> 16).toUInt8, (b.geohash >>> 8).toUInt8, b.geohash.toUInt8] ++
    [b.batteryPercent] ++ u16ToBe b.seqNum ++ [0, 0, 0]

def decode (data : Bytes) : Option PeatBeacon :=
  if data.length < beaconSize then none
  else some
    { version := (byteAt data 0 >>> 4) &&& 0x0F
      capabilities := (((byteAt data 0).toUInt16 &&& 0x0F) <<< 8) ||| (byteAt data 1).toUInt16
      nodeId := ((byteAt data 2).toUInt32 <<< 24) ||| ((byteAt data 3).toUInt32 <<< 16) |||
        ((byteAt data 4).toUInt32 <<< 8) ||| (byteAt data 5).toUInt32
      hierarchyLevel := HierarchyLevel.ofU8 (byteAt data 6)
      geohash := ((byteAt data 7).toUInt32 <<< 16) ||| ((byteAt data 8).toUInt32 <<< 8) |||
        (byteAt data 9).toUInt32
      batteryPercent := byteAt data 10
      seqNum := ((byteAt data 11).toUInt16 <<< 8) ||| (byteAt data 12).toUInt16 }

def decodeCompact (data : Bytes) : Option PeatBeacon :=
  if data.length < beaconCompactSize then none
  else some
    { version := (byteAt data 0 >>> 4) &&& 0x0F
      capabilities := (((byteAt data 0).toUInt16 &&& 0x0F) <<< 8) ||| (byteAt data 1).toUInt16
      nodeId := ((byteAt data 2).toUInt32 <<< 24) ||| ((byteAt data 3).toUInt32 <<< 16) |||
        ((byteAt data 4).toUInt32 <<< 8) ||| (byteAt data 5).toUInt32
      hierarchyLevel := HierarchyLevel.ofU8 (byteAt data 6)
      geohash := 0
      batteryPercent := byteAt data 7
      seqNum := ((byteAt data 8).toUInt16 <<< 8) ||| (byteAt data 9).toUInt16 }

end PeatBeacon

/-! ## The shared byte -/

section Head

variable {version : UInt8} {capabilities : UInt16}

theorem and_nibble (x : Nat) : x &&& 15 = x % 16 := Nat.and_two_pow_sub_one_eq_mod x 4

theorem and_byte (x : Nat) : x &&& 255 = x % 256 := Nat.and_two_pow_sub_one_eq_mod x 8

/-- The byte that version and capabilities share. -/
theorem head_toNat (version : UInt8) (capabilities : UInt16) :
    (((version &&& 0x0F) <<< 4) ||| ((capabilities >>> 8).toUInt8 &&& 0x0F)).toNat =
      version.toNat % 16 * 16 + capabilities.toNat / 256 % 16 := by
  simp [Nat.shiftRight_eq_div_pow, Nat.shiftLeft_eq, and_nibble]
  rw [or_eq_add 4 (by omega) (by omega)]
  omega

theorem version_of_head (hversion : version < 16) :
    ((((version &&& 0x0F) <<< 4) ||| ((capabilities >>> 8).toUInt8 &&& 0x0F)) >>> 4) &&& 0x0F =
      version := by
  have hlt : version.toNat < 16 := UInt8.lt_iff_toNat_lt.mp hversion
  apply UInt8.toNat_inj.mp
  rw [UInt8.toNat_and, UInt8.toNat_shiftRight, head_toNat]
  simp [Nat.shiftRight_eq_div_pow, and_nibble]
  omega

theorem capabilities_of_head (hcapabilities : capabilities < 4096) :
    (((((version &&& 0x0F) <<< 4) ||| ((capabilities >>> 8).toUInt8 &&& 0x0F)).toUInt16 &&& 0x0F)
      <<< 8) ||| (capabilities &&& 0xFF).toUInt8.toUInt16 = capabilities := by
  have hlt : capabilities.toNat < 4096 := UInt16.lt_iff_toNat_lt.mp hcapabilities
  apply UInt16.toNat_inj.mp
  rw [UInt16.toNat_or, UInt16.toNat_shiftLeft, UInt16.toNat_and, UInt8.toNat_toUInt16, head_toNat]
  simp [Nat.shiftLeft_eq, and_nibble, and_byte]
  rw [or_eq_add 8 (by omega) (by omega)]
  omega

end Head

namespace PeatBeacon

variable {b : PeatBeacon}

@[simp] theorem encode_length (b : PeatBeacon) : b.encode.length = 16 := rfl

/-- What the 12 bits for the capabilities and the four for the version can carry. -/
structure Fits (b : PeatBeacon) : Prop where
  version_lt : b.version < 16
  capabilities_lt : b.capabilities < 4096

theorem decodeCompact_encodeCompact (h : b.Fits) :
    decodeCompact b.encodeCompact = some { b with geohash := 0 } := by
  have hversion : (byteAt b.encodeCompact 0 >>> 4) &&& 0x0F = b.version :=
    version_of_head h.version_lt
  have hcapabilities : (((byteAt b.encodeCompact 0).toUInt16 &&& 0x0F) <<< 8) |||
      (byteAt b.encodeCompact 1).toUInt16 = b.capabilities := capabilities_of_head h.capabilities_lt
  have hnode : ((byteAt b.encodeCompact 2).toUInt32 <<< 24) |||
      ((byteAt b.encodeCompact 3).toUInt32 <<< 16) |||
      ((byteAt b.encodeCompact 4).toUInt32 <<< 8) ||| (byteAt b.encodeCompact 5).toUInt32 =
        b.nodeId := u32_of_bytes b.nodeId
  have hlevel : HierarchyLevel.ofU8 (byteAt b.encodeCompact 6) = b.hierarchyLevel :=
    HierarchyLevel.ofU8_toU8 b.hierarchyLevel
  have hseq : ((byteAt b.encodeCompact 8).toUInt16 <<< 8) ||| (byteAt b.encodeCompact 9).toUInt16 =
      b.seqNum := u16_of_bytes b.seqNum
  rw [decodeCompact, if_neg (by simp [beaconCompactSize]), hversion, hcapabilities, hnode, hlevel,
    hseq]
  rfl

theorem decode_encode (h : b.Fits) (hgeohash : b.geohash < 0x1000000) :
    decode b.encode = some b := by
  have hlt : b.geohash.toNat < 2 ^ 24 := UInt32.lt_iff_toNat_lt.mp hgeohash
  have hversion : (byteAt b.encode 0 >>> 4) &&& 0x0F = b.version := version_of_head h.version_lt
  have hcapabilities : (((byteAt b.encode 0).toUInt16 &&& 0x0F) <<< 8) |||
      (byteAt b.encode 1).toUInt16 = b.capabilities := capabilities_of_head h.capabilities_lt
  have hnode : ((byteAt b.encode 2).toUInt32 <<< 24) ||| ((byteAt b.encode 3).toUInt32 <<< 16) |||
      ((byteAt b.encode 4).toUInt32 <<< 8) ||| (byteAt b.encode 5).toUInt32 = b.nodeId :=
    u32_of_bytes b.nodeId
  have hlevel : HierarchyLevel.ofU8 (byteAt b.encode 6) = b.hierarchyLevel :=
    HierarchyLevel.ofU8_toU8 b.hierarchyLevel
  have hhash : ((byteAt b.encode 7).toUInt32 <<< 16) ||| ((byteAt b.encode 8).toUInt32 <<< 8) |||
      (byteAt b.encode 9).toUInt32 = b.geohash := by
    apply UInt32.toNat_inj.mp
    exact (u24_of_bytes b.geohash).trans (Nat.mod_eq_of_lt hlt)
  have hseq : ((byteAt b.encode 11).toUInt16 <<< 8) ||| (byteAt b.encode 12).toUInt16 = b.seqNum :=
    u16_of_bytes b.seqNum
  rw [decode, if_neg (by simp [beaconSize]), hversion, hcapabilities, hnode, hlevel, hhash, hseq]
  rfl

/-- What is encrypted of a beacon. -/
def confidential (b : PeatBeacon) : EncryptedBeacon :=
  ⟨b.nodeId, b.capabilities, b.hierarchyLevel.toU8, b.batteryPercent⟩

/-- The values that every form carries. -/
def reported (b : PeatBeacon) : NodeId × UInt16 × HierarchyLevel × UInt8 :=
  (b.nodeId, b.capabilities, b.hierarchyLevel, b.batteryPercent)

end PeatBeacon

/-! ## What a scanner tracks -/

namespace Scanner

variable {blake : Blake3} {s : Scanner} {adv : ParsedAdvertisement}

/-- What the scanner knows of a node. -/
def reports (s : Scanner) (nodeId : NodeId) : Option (NodeId × UInt16 × HierarchyLevel × UInt8) :=
  s.devices[nodeId]?.map fun device => device.beacon.reported

/-- Two scanners know the same of every node. -/
def SameReports (s s' : Scanner) : Prop := ∀ nodeId, s.reports nodeId = s'.reports nodeId

theorem reports_track (s : Scanner) (beacon : PeatBeacon) (adv : ParsedAdvertisement)
    (nodeId : NodeId) :
    (s.track beacon adv).1.reports nodeId =
      if beacon.nodeId = nodeId then some beacon.reported else s.reports nodeId := by
  obtain ⟨tracked, hdevices, hbeacon, -⟩ := devices_track s beacon adv
  unfold reports
  rw [hdevices, getElem?_insert_eq]
  split
  · rw [Option.map_some, hbeacon]
  · rfl

/-- Tracking a node leaves the reports as they are if they say all that already. -/
theorem sameReports_track_iff (s : Scanner) (beacon : PeatBeacon) (adv : ParsedAdvertisement) :
    SameReports s (s.track beacon adv).1 ↔ s.reports beacon.nodeId = some beacon.reported := by
  constructor
  · intro h
    rw [h beacon.nodeId, reports_track, if_pos rfl]
  · intro h nodeId
    rw [reports_track]
    split
    · rename_i heq
      rw [← heq, h]
    · rfl

variable {beacon received : PeatBeacon} {meshId : MeshIdBytes} {data : Bytes}

theorem sameReports_iff (h : s.tryDecryptBeacon blake data = some (beacon, meshId))
    (hreported : beacon.reported = received.reported) (adv : ParsedAdvertisement) :
    SameReports (s.processAdvertisement blake (adv.plain received)).1
        (s.processAdvertisement blake (adv.sealed data)).1 ↔
      s.filter.beaconMatches received = true ∨
      s.filter.signalMatches (adv.sealed data) = false ∨
      s.isDuplicate received.nodeId = true ∨
      s.reports received.nodeId = some received.reported := by
  have hnode : beacon.nodeId = received.nodeId := congrArg Prod.fst hreported
  have hsealed := @takenIn_sealed blake s adv data beacon meshId h
  have hplain := @takenIn_plain blake s adv received
  rw [ParsedAdvertisement.signalMatches_plain s.filter adv data received] at hplain
  rw [processAdvertisement_eq, processAdvertisement_eq, hsealed, hplain, hnode]
  by_cases hreaches : s.filter.signalMatches (adv.sealed data) = true ∧
      s.isDuplicate received.nodeId = false
  · rw [hreaches.1, hreaches.2]
    cases hmatches : s.filter.beaconMatches received with
    | true =>
        refine iff_of_true (fun nodeId => ?_) (Or.inl rfl)
        simp only [Bool.not_false, Bool.and_true, if_true, Option.elim_some, reports_track, hnode,
          hreported]
    | false =>
        have htrack := sameReports_track_iff s beacon (adv.sealed data)
        rw [hnode, hreported] at htrack
        simpa using htrack
  · have hdropped : (s.filter.signalMatches (adv.sealed data) &&
        !s.isDuplicate received.nodeId) = false := by
      simpa using hreaches
    have hplainDropped : (s.filter.signalMatches (adv.sealed data) &&
        s.filter.beaconMatches received && !s.isDuplicate received.nodeId) = false := by
      rw [Bool.and_right_comm, hdropped, Bool.false_and]
    rw [hdropped, hplainDropped]
    refine iff_of_true (fun nodeId => rfl) (Or.inr ?_)
    rw [not_and_or, Bool.not_eq_true, Bool.not_eq_false] at hreaches
    exact hreaches.imp id Or.inl

/-- Every form says the same, and a scanner with the key tracks the same of a node in either mode
exactly if its filter does not look at the beacon in vain: the beacon meets the criteria, another
criterion turns it away, or what it says is old. -/
theorem beacon_says_the_same (blake : Blake3) (b : PeatBeacon) (hfits : b.Fits)
    (hgeohash : b.geohash < 0x1000000) (key : BeaconKey) (meshId : MeshIdBytes)
    (nonce : BeaconNonce) (s : Scanner) (hkey : s.beaconKey = some key) (adv : ParsedAdvertisement) :
    let received : PeatBeacon := { b with geohash := 0 }
    let data := b.confidential.encrypt blake key meshId nonce
    PeatBeacon.decode b.encode = some b ∧
      PeatBeacon.decodeCompact b.encodeCompact = some received ∧
      EncryptedBeacon.decrypt blake data key = some (b.confidential, meshId) ∧
      (s.meshIdBytes = some meshId →
        (SameReports (s.processAdvertisement blake (adv.plain received)).1
            (s.processAdvertisement blake (adv.sealed data)).1 ↔
          s.filter.beaconMatches received = true ∨
          s.filter.signalMatches (adv.sealed data) = false ∨
          s.isDuplicate received.nodeId = true ∨
          s.reports received.nodeId = some received.reported)) ∧
      ∀ otherMesh, s.meshIdBytes = some otherMesh → otherMesh ≠ meshId →
        s.processAdvertisement blake (adv.sealed data) = (s, false) := by
  intro received data
  refine ⟨PeatBeacon.decode_encode hfits hgeohash, PeatBeacon.decodeCompact_encodeCompact hfits,
    EncryptedBeacon.decrypt_encrypt blake b.confidential key meshId nonce, ?_, ?_⟩
  · intro hmesh
    refine sameReports_iff (tryDecryptBeacon_encrypt hkey hmesh b.confidential nonce) ?_ adv
    simp [PeatBeacon.reported, PeatBeacon.confidential, received]
  · intro otherMesh hmesh hother
    have hrefused : s.tryDecryptBeacon blake data = none := by
      simp [tryDecryptBeacon, hkey, hmesh, data, EncryptedBeacon.decrypt_encrypt, Ne.symm hother]
    have hnone : s.takenIn blake (adv.sealed data) = none := by
      simp [takenIn, extractBeacon, ParsedAdvertisement.sealed, hrefused]
    rw [processAdvertisement_eq, hnone]
    rfl

/-- A squad in the full form, in the compact form and encrypted, heard by a scanner that looks for
squads. -/
theorem beacon_says_the_same_squad :
    let b : PeatBeacon := ⟨1, 0x801, 0x12345678, .squad, 0x98FF88, 75, 7⟩
    let received : PeatBeacon := { b with geohash := 0 }
    let data := b.confidential.encrypt Advertiser.zeroBlake Advertiser.zeroKey Advertiser.zeroMesh
      (Vector.replicate 4 0)
    SameReports
      (squadScanner.processAdvertisement Advertiser.zeroBlake (blankAdvertisement.plain received)).1
      (squadScanner.processAdvertisement Advertiser.zeroBlake (blankAdvertisement.sealed data)).1 := by
  intro b received data
  have hsame := beacon_says_the_same Advertiser.zeroBlake b ⟨by decide, by decide⟩ (by decide)
    Advertiser.zeroKey Advertiser.zeroMesh (Vector.replicate 4 0) squadScanner rfl
    blankAdvertisement
  exact (hsame.2.2.2.1 rfl).mpr (Or.inl (by decide))

/-- A platform is tracked by a scanner that looks for squads if its beacon is encrypted, and not
if it is in plain. -/
theorem platform_reported_when_encrypted :
    let b : PeatBeacon := ⟨1, 0, 0x12345678, .platform, 0, 85, 0⟩
    let data := b.confidential.encrypt Advertiser.zeroBlake Advertiser.zeroKey Advertiser.zeroMesh
      (Vector.replicate 4 0)
    ¬ SameReports
      (squadScanner.processAdvertisement Advertiser.zeroBlake (blankAdvertisement.plain b)).1
      (squadScanner.processAdvertisement Advertiser.zeroBlake (blankAdvertisement.sealed data)).1 := by
  intro b data hsame
  have hreports := hsame 0x12345678
  revert hreports
  decide

end Scanner

end PeatBtle
