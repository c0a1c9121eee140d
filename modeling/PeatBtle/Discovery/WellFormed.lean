import PeatBtle.Discovery.Advertiser

/-!
# What a parser sees of a packet

The length bytes of the flags, the service list, the transmit power and the name
count the type byte. The one of the service data does not, so a parser takes its
structure one byte short and reads the beacon's last byte as a length.
-/

namespace PeatBtle

open Wire

namespace Advertiser

/-- Back-to-back structures, of which exactly one is service data and holds a whole beacon. -/
def WellFormed (p : AdvertisingPacket) : Prop :=
  (∃ structures, AdStructure.parse p.advData = some structures ∧
    ∃ beaconData : Bytes,
      (beaconData.length = beaconCompactSize ∨ beaconData.length = encryptedBeaconSize) ∧
      structures.filter (fun s => s.adType == adTypeServiceData16) =
        [⟨adTypeServiceData16, uuidBytes ++ beaconData⟩]) ∧
  ∀ scanRsp, p.scanRsp = some scanRsp → (AdStructure.parse scanRsp).isSome

variable {blake : Blake3} {a : Advertiser} {nonce : BeaconNonce}

/-- The mode decides between two beacons. -/
theorem beaconService_cases (blake : Blake3) (a : Advertiser) (nonce : BeaconNonce) :
    ∃ beaconData : Bytes, a.beaconService blake nonce = serviceData beaconData.length beaconData ∧
      (beaconData.length = beaconCompactSize ∨ beaconData.length = encryptedBeaconSize) := by
  have hplain : ∃ beaconData : Bytes,
      serviceData beaconCompactSize a.beacon.encodeCompact =
        serviceData beaconData.length beaconData ∧
      (beaconData.length = beaconCompactSize ∨ beaconData.length = encryptedBeaconSize) :=
    ⟨a.beacon.encodeCompact, rfl, Or.inl rfl⟩
  unfold beaconService
  split
  · exact hplain
  · split
    · rename_i key meshIdBytes _ _
      have hlength : (a.encryptedBeacon.encrypt blake key meshIdBytes nonce).length =
          encryptedBeaconSize := EncryptedBeacon.encrypt_length ..
      exact ⟨_, by rw [hlength], Or.inr hlength⟩
    · exact hplain

/-! ## The scan response -/

def txPowerStructures (a : Advertiser) : List AdStructure :=
  a.txPower.elim [] fun txPower => [⟨adTypeTxPower, [txPower.toUInt8]⟩]

def nameStructure (name : String) : AdStructure :=
  if (utf8 name).length ≤ maxNameLen then ⟨adTypeLocalName, utf8 name⟩
  else ⟨adTypeShortName, (utf8 name).take maxNameLen⟩

theorem txPowerBytes_eq (a : Advertiser) :
    a.txPowerBytes = a.txPowerStructures.flatMap AdStructure.encode := by
  rw [txPowerBytes, txPowerStructures]
  cases a.txPower <;> rfl

theorem nameBytes_eq (name : String) : nameBytes name = (nameStructure name).encode := by
  rw [nameBytes, nameStructure]
  split
  · rw [AdStructure.encode, UInt8.ofNat_add]
    rfl
  · rename_i hlong
    have hmin : min maxNameLen (utf8 name).length = maxNameLen :=
      Nat.min_eq_left (Nat.le_of_not_le hlong)
    rw [AdStructure.encode, UInt8.ofNat_add, hmin]
    rfl

theorem nameStructure_length (name : String) : (nameStructure name).data.length < 255 := by
  have hmax : maxNameLen = 29 := rfl
  rw [nameStructure]
  split
  · change (utf8 name).length < 255
    omega
  · rw [List.length_take]
    omega

theorem mem_txPowerStructures {s : AdStructure} (hs : s ∈ a.txPowerStructures) :
    s.adType = adTypeTxPower ∧ s.data.length < 255 := by
  rw [txPowerStructures] at hs
  cases htx : a.txPower with
  | none => simp [htx] at hs
  | some txPower =>
      rw [htx] at hs
      rw [List.mem_singleton.mp hs]
      exact ⟨rfl, Nat.lt_of_sub_eq_succ rfl⟩

/-- The scan response holds the transmit power, if there was no room for it, and the name. -/
theorem scanRsp_parses (scanRsp : Bytes)
    (h : (a.buildPacketInner blake nonce).scanRsp = some scanRsp) :
    (AdStructure.parse scanRsp).isSome := by
  have hbytes : a.scanBytes blake nonce = scanRsp := by
    rw [buildPacketInner] at h
    dsimp only at h
    split at h
    · cases h
    · exact Option.some.inj h
  have hname : a.deviceName.elim [] nameBytes =
      (a.deviceName.toList.map nameStructure).flatMap AdStructure.encode := by
    cases a.deviceName with
    | none => rfl
    | some name => exact (nameBytes_eq name).trans (List.append_nil _).symm
  have hfront : (if a.txPowerFits blake nonce then [] else a.txPowerBytes) =
      (if a.txPowerFits blake nonce then [] else a.txPowerStructures).flatMap
        AdStructure.encode := by
    split
    · rfl
    · exact a.txPowerBytes_eq
  rw [← hbytes, scanBytes, hname, hfront, ← List.flatMap_append,
    AdStructure.parse_flatMap_encode]
  · rfl
  · intro s hs
    rcases List.mem_append.mp hs with htx | hn
    · split at htx
      · cases htx
      · exact (mem_txPowerStructures htx).2
    · obtain ⟨name, -, rfl⟩ := List.mem_map.mp hn
      exact nameStructure_length name

/-! ## The advertising data -/

def flagsStructure : AdStructure := ⟨adTypeFlags, [flagsValue]⟩

def serviceStructure : AdStructure := ⟨adTypeServiceUuid16, uuidBytes⟩

theorem parse_head (rest : Bytes) :
    AdStructure.parse (flags ++ serviceUuids ++ rest) =
      (AdStructure.parse rest).map fun later => flagsStructure :: serviceStructure :: later := by
  have hflags : flags = flagsStructure.encode := rfl
  have huuids : serviceUuids = serviceStructure.encode := rfl
  rw [hflags, huuids, List.append_assoc, AdStructure.parse_encode _ (by decide),
    AdStructure.parse_encode _ (by decide), Option.map_map]
  rfl

/-- The structure ends before the last byte of the beacon. -/
theorem parse_serviceData {beaconData : Bytes}
    (hsize : beaconData.length = beaconCompactSize ∨ beaconData.length = encryptedBeaconSize)
    (rest : Bytes) :
    AdStructure.parse (serviceData beaconData.length beaconData ++ rest) =
      (AdStructure.parse (beaconData.drop (beaconData.length - 1) ++ rest)).map fun later =>
        ⟨adTypeServiceData16, uuidBytes ++ beaconData.take (beaconData.length - 1)⟩ :: later := by
  have hcompact : beaconCompactSize = 10 := rfl
  have hencrypted : encryptedBeaconSize = 21 := rfl
  have hlength : (UInt8.ofNat (2 + beaconData.length)).toNat = 2 + beaconData.length :=
    UInt8.toNat_ofNat_of_lt' (by change 2 + beaconData.length < 256; omega)
  have hpos : UInt8.ofNat (2 + beaconData.length) ≠ 0 := by
    intro hzero
    rw [hzero] at hlength
    change 0 = 2 + beaconData.length at hlength
    omega
  have huuid : uuidBytes.length = 2 := rfl
  have hbytes : serviceData beaconData.length beaconData ++ rest =
      UInt8.ofNat (2 + beaconData.length) :: adTypeServiceData16 ::
        ((uuidBytes ++ beaconData) ++ rest) := rfl
  have hcut : 2 + beaconData.length - 1 = uuidBytes.length + (beaconData.length - 1) := by omega
  rw [hbytes, AdStructure.parse_cons hpos (by rw [hlength, List.length_append]; omega), hlength,
    hcut, List.drop_append, List.take_append, List.drop_eq_nil_of_le (by omega),
    List.take_of_length_le (by omega), Nat.add_sub_cancel_left, List.nil_append]

/-- Whatever is set, a parser finds service data that holds no whole beacon, if it gets through. -/
theorem buildPacketInner_not_wellFormed : ¬ WellFormed (a.buildPacketInner blake nonce) := by
  rintro ⟨⟨structures, hparse, beaconData, hwhole, hfilter⟩, -⟩
  obtain ⟨sent, hservice, hsent⟩ := beaconService_cases blake a nonce
  have hcompact : beaconCompactSize = 10 := rfl
  have hencrypted : encryptedBeaconSize = 21 := rfl
  change AdStructure.parse (a.advBytes blake nonce) = some structures at hparse
  rw [advBytes, advFront, hservice, List.append_assoc, parse_head, parse_serviceData hsent] at hparse
  generalize AdStructure.parse _ = later at hparse
  cases later with
  | none => cases hparse
  | some later =>
      obtain rfl := Option.some.inj hparse
      have hdata : uuidBytes ++ sent.take (sent.length - 1) = uuidBytes ++ beaconData :=
        congrArg AdStructure.data (List.cons.inj hfilter).1
      have hlength := congrArg List.length (List.append_cancel_left hdata)
      rw [List.length_take] at hlength
      -- The cut beacon has 9 or 20 bytes.
      omega

/-- The packet with one more in the length byte of its service data. -/
def lengthened (p : AdvertisingPacket) : AdvertisingPacket :=
  { p with advData := p.advData.modify 7 (· + 1) }

/-- What follows the beacon. -/
def laterStructures (a : Advertiser) (blake : Blake3) (nonce : BeaconNonce) : List AdStructure :=
  if a.txPowerFits blake nonce then a.txPowerStructures else []

theorem laterBytes_eq :
    (if a.txPowerFits blake nonce then a.txPowerBytes else []) =
      (a.laterStructures blake nonce).flatMap AdStructure.encode := by
  rw [laterStructures]
  split
  · exact a.txPowerBytes_eq
  · rfl

theorem mem_laterStructures {s : AdStructure} (hs : s ∈ a.laterStructures blake nonce) :
    s.adType = adTypeTxPower ∧ s.data.length < 255 := by
  rw [laterStructures] at hs
  split at hs
  · exact mem_txPowerStructures hs
  · cases hs

/-- The service data as it should be written. -/
def serviceDataStructure (beaconData : Bytes) : AdStructure :=
  ⟨adTypeServiceData16, uuidBytes ++ beaconData⟩

/-- One more in the length byte makes the structure whole. -/
theorem lengthened_serviceData (beaconData rest : Bytes) :
    (flags ++ serviceUuids ++ (serviceData beaconData.length beaconData ++ rest)).modify 7 (· + 1) =
      flags ++ serviceUuids ++ ((serviceDataStructure beaconData).encode ++ rest) := by
  have hdata : (serviceDataStructure beaconData).data.length + 1 = 2 + beaconData.length + 1 := by
    change (uuidBytes ++ beaconData).length + 1 = _
    rw [List.length_append]
    rfl
  have hlength : UInt8.ofNat (2 + beaconData.length) + 1 =
      UInt8.ofNat ((serviceDataStructure beaconData).data.length + 1) := by
    rw [hdata, UInt8.ofNat_add (2 + beaconData.length) 1]
    rfl
  rw [AdStructure.encode, ← hlength]
  rfl

/-- That byte is all that is wrong. -/
theorem lengthened_wellFormed : WellFormed (lengthened (a.buildPacketInner blake nonce)) := by
  obtain ⟨sent, hservice, hsent⟩ := beaconService_cases blake a nonce
  have hcompact : beaconCompactSize = 10 := rfl
  have hencrypted : encryptedBeaconSize = 21 := rfl
  have hshort : (serviceDataStructure sent).data.length < 255 := by
    have huuid : uuidBytes.length = 2 := rfl
    change (uuidBytes ++ sent).length < 255
    rw [List.length_append]
    omega
  refine ⟨⟨flagsStructure :: serviceStructure :: serviceDataStructure sent ::
    a.laterStructures blake nonce, ?_, sent, hsent, ?_⟩, scanRsp_parses⟩
  · change AdStructure.parse ((a.advBytes blake nonce).modify 7 (· + 1)) = _
    rw [advBytes, advFront, hservice, List.append_assoc, lengthened_serviceData, parse_head,
      AdStructure.parse_encode _ hshort, laterBytes_eq,
      AdStructure.parse_flatMap_encode fun s hs => (mem_laterStructures hs).2]
    rfl
  · have hnone : (a.laterStructures blake nonce).filter
        (fun s => s.adType == adTypeServiceData16) = [] := by
      refine List.filter_eq_nil_iff.mpr fun s hs => ?_
      rw [(mem_laterStructures hs).1]
      decide
    change serviceDataStructure sent :: List.filter _ _ = _
    rw [hnone]
    rfl

/-! ## Every packet -/

/-- No packet that any sequence of operations leads to is well-formed. -/
theorem packetAfter_not_wellFormed (blake : Blake3) (nodeId : NodeId) (ops : List AdvertiserOp)
    (nonce : BeaconNonce) :
    ¬ WellFormed ((new nodeId).packetAfter blake ops nonce) ∧
      ¬ WellFormed ((peatLite nodeId).packetAfter blake ops nonce) := by
  constructor
  · rw [new, packetAfter_eq]
    exact buildPacketInner_not_wellFormed
  · rw [peatLite, packetAfter_eq]
    exact buildPacketInner_not_wellFormed

/-- The last byte of a fresh beacon is the low byte of its sequence number. -/
theorem fresh_packet_unparsed :
    let blake : Blake3 := ⟨fun _ => Vector.replicate 32 0, fun _ _ => Vector.replicate 32 0⟩
    let packet := (new 0x12345678).packetAfter blake [] (Vector.replicate 4 0)
    packet.advData =
        [2, 1, 6, 3, 3, 0xB2, 0xA1, 12, 0x16, 0xB2, 0xA1, 0x10, 0, 0x12, 0x34, 0x56, 0x78, 0, 255, 0,
          0] ∧
      AdStructure.parse packet.advData = none ∧ ¬ WellFormed packet := by
  intro blake packet
  have hparse : AdStructure.parse packet.advData = none := by decide +kernel
  refine ⟨by decide +kernel, hparse, ?_⟩
  rintro ⟨⟨structures, hsome, -⟩, -⟩
  rw [hparse] at hsome
  cases hsome

end Advertiser

end PeatBtle
