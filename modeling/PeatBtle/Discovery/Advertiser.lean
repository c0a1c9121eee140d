import PeatBtle.Data.LoggedRun
import PeatBtle.Discovery.Beacon
import PeatBtle.Wire.AdStructure

/-!
# The advertiser

An advertiser lays out flags, the service, the beacon and the transmit power in
its advertising data, and the device name in the scan response. The packet is
built on demand and kept until something it may depend on is set.
-/

namespace PeatBtle

open Wire

def legacyAdvMax : Nat := 31

def adTypeFlags : UInt8 := 0x01
def adTypeServiceUuid16 : UInt8 := 0x03
def adTypeServiceData16 : UInt8 := 0x16
def adTypeLocalName : UInt8 := 0x09
def adTypeShortName : UInt8 := 0x08
def adTypeTxPower : UInt8 := 0x0A
def flagsValue : UInt8 := 0x06

def beaconCompactSize : Nat := 10
def encryptedBeaconSize : Nat := 21

def encryptedDeviceName : String := "PEAT"

def peatServiceUuid16Bit : UInt16 := 0xA1B2

inductive AdvertiserState where
  | idle
  | advertising
  | paused
deriving DecidableEq

inductive AdvertisingMode where
  | plaintext
  | encrypted
deriving DecidableEq

structure AdvertisingPacket where
  advData : Bytes
  scanRsp : Option Bytes
  extended : Bool
deriving DecidableEq

structure Advertiser where
  beacon : PeatBeacon
  state : AdvertiserState
  startedAtMs : Option UInt64
  currentTimeMs : UInt64
  txPower : Option Int8
  deviceName : Option String
  useExtended : Bool
  cachedPacket : Option AdvertisingPacket
  cacheDirty : Bool
  mode : AdvertisingMode
  beaconKey : Option BeaconKey
  meshIdBytes : Option MeshIdBytes

namespace Advertiser

def ofBeacon (beacon : PeatBeacon) : Advertiser where
  beacon := beacon
  state := .idle
  startedAtMs := none
  currentTimeMs := 0
  txPower := none
  deviceName := none
  useExtended := false
  cachedPacket := none
  cacheDirty := true
  mode := .plaintext
  beaconKey := none
  meshIdBytes := none

def new (nodeId : NodeId) : Advertiser := ofBeacon (PeatBeacon.new nodeId)

def peatLite (nodeId : NodeId) : Advertiser := ofBeacon (PeatBeacon.peatLite nodeId)

/-! ## The packet -/

def flags : Bytes := [2, adTypeFlags, flagsValue]

def uuidBytes : Bytes :=
  [(peatServiceUuid16Bit &&& 0xFF).toUInt8, (peatServiceUuid16Bit >>> 8).toUInt8]

def serviceUuids : Bytes := [3, adTypeServiceUuid16] ++ uuidBytes

/-- The length counts the identifier and the beacon. -/
def serviceData (beaconSize : Nat) (beaconData : Bytes) : Bytes :=
  [UInt8.ofNat (2 + beaconSize), adTypeServiceData16] ++ uuidBytes ++ beaconData

def encryptedBeacon (a : Advertiser) : EncryptedBeacon where
  nodeId := a.beacon.nodeId
  capabilities := a.beacon.capabilities
  hierarchyLevel := a.beacon.hierarchyLevel.toU8
  batteryPercent := a.beacon.batteryPercent

def beaconService (blake : Blake3) (a : Advertiser) (nonce : BeaconNonce) : Bytes :=
  match a.mode with
  | .plaintext => serviceData beaconCompactSize a.beacon.encodeCompact
  | .encrypted =>
      match a.beaconKey, a.meshIdBytes with
      | some key, some meshIdBytes =>
          serviceData encryptedBeaconSize (a.encryptedBeacon.encrypt blake key meshIdBytes nonce)
      -- Fallback to plaintext if encryption is not configured
      | _, _ => serviceData beaconCompactSize a.beacon.encodeCompact

def txPowerBytes (a : Advertiser) : Bytes :=
  match a.txPower with
  | none => []
  | some txPower => [2, adTypeTxPower, txPower.toUInt8]

def maxNameLen : Nat := legacyAdvMax - 2

def nameBytes (name : String) : Bytes :=
  if (utf8 name).length ≤ maxNameLen then
    (UInt8.ofNat (utf8 name).length + 1) :: adTypeLocalName :: utf8 name
  else
    let shortName := (utf8 name).take (min maxNameLen (utf8 name).length)
    (UInt8.ofNat shortName.length + 1) :: adTypeShortName :: shortName

/-- Before the transmit power. -/
def advFront (blake : Blake3) (a : Advertiser) (nonce : BeaconNonce) : Bytes :=
  flags ++ serviceUuids ++ a.beaconService blake nonce

def txPowerFits (blake : Blake3) (a : Advertiser) (nonce : BeaconNonce) : Bool :=
  (a.advFront blake nonce).length + 3 ≤ legacyAdvMax

def advBytes (blake : Blake3) (a : Advertiser) (nonce : BeaconNonce) : Bytes :=
  a.advFront blake nonce ++ if a.txPowerFits blake nonce then a.txPowerBytes else []

def scanBytes (blake : Blake3) (a : Advertiser) (nonce : BeaconNonce) : Bytes :=
  (if a.txPowerFits blake nonce then [] else a.txPowerBytes) ++ a.deviceName.elim [] nameBytes

def buildPacketInner (blake : Blake3) (a : Advertiser) (nonce : BeaconNonce) : AdvertisingPacket :=
  let advData := a.advBytes blake nonce
  let scanRsp := a.scanBytes blake nonce
  { advData
    scanRsp := if scanRsp.isEmpty then none else some scanRsp
    extended := a.useExtended || decide (legacyAdvMax < advData.length) ||
      decide (legacyAdvMax < scanRsp.length) }

/-- The nonce is used only if a packet is built. -/
def buildPacket (blake : Blake3) (a : Advertiser) (nonce : BeaconNonce) :
    Advertiser × AdvertisingPacket :=
  match a.cacheDirty, a.cachedPacket with
  | false, some packet => (a, packet)
  | _, _ =>
      let packet := a.buildPacketInner blake nonce
      ({ a with cachedPacket := some packet, cacheDirty := false }, packet)

def rebuildPacket (blake : Blake3) (a : Advertiser) (nonce : BeaconNonce) :
    Advertiser × AdvertisingPacket :=
  buildPacket blake { a with cacheDirty := true } nonce

end Advertiser

/-! ## Operations -/

inductive AdvertiserOp where
  | setTimeMs (timeMs : UInt64)
  | withTxPower (txPower : Int8)
  | withName (name : String)
  | withExtendedAdvertising (enabled : Bool)
  | withEncryption (beaconKey : BeaconKey) (meshIdBytes : MeshIdBytes)
  | setMode (mode : AdvertisingMode)
  | setBeaconKey (key : BeaconKey)
  /-- What the caller writes through the mutable reference. -/
  | beaconMut (beacon : PeatBeacon)
  | setHierarchyLevel (level : HierarchyLevel)
  | setCapabilities (caps : UInt16)
  | setBattery (percent : UInt8)
  | setGeohash (geohash : UInt32)
  | start
  | pause
  | resume
  | stop
  | incrementSequence
  | buildPacket (nonce : BeaconNonce)
  | rebuildPacket (nonce : BeaconNonce)
deriving DecidableEq

namespace Advertiser

def apply (blake : Blake3) (a : Advertiser) : AdvertiserOp → Advertiser
  | .setTimeMs timeMs => { a with currentTimeMs := timeMs }
  | .withTxPower txPower => { a with txPower := some txPower, cacheDirty := true }
  | .withName name => { a with deviceName := some name, cacheDirty := true }
  | .withExtendedAdvertising enabled => { a with useExtended := enabled, cacheDirty := true }
  | .withEncryption beaconKey meshIdBytes =>
      { a with
        mode := .encrypted
        beaconKey := some beaconKey
        meshIdBytes := some meshIdBytes
        deviceName := some encryptedDeviceName
        cacheDirty := true }
  | .setMode mode => { a with mode, cacheDirty := true }
  | .setBeaconKey key => { a with beaconKey := some key, cacheDirty := true }
  | .beaconMut beacon => { a with beacon, cacheDirty := true }
  | .setHierarchyLevel level =>
      { a with beacon := { a.beacon with hierarchyLevel := level }, cacheDirty := true }
  | .setCapabilities caps =>
      { a with beacon := { a.beacon with capabilities := caps }, cacheDirty := true }
  | .setBattery percent =>
      { a with beacon := { a.beacon with batteryPercent := min percent 100 }, cacheDirty := true }
  | .setGeohash geohash =>
      { a with beacon := { a.beacon with geohash := geohash &&& 0x00FFFFFF }, cacheDirty := true }
  | .start => { a with state := .advertising, startedAtMs := some a.currentTimeMs }
  | .pause => { a with state := .paused }
  | .resume => if a.state = .paused then { a with state := .advertising } else a
  | .stop => { a with state := .idle, startedAtMs := none }
  | .incrementSequence => { a with beacon := a.beacon.incrementSeq, cacheDirty := true }
  | .buildPacket nonce => (a.buildPacket blake nonce).1
  | .rebuildPacket nonce => (a.rebuildPacket blake nonce).1

def run (blake : Blake3) (a : Advertiser) (ops : List AdvertiserOp) : Advertiser :=
  LoggedRun.run (apply blake) a ops

/-- The packet that `build_packet` returns after these operations. -/
def packetAfter (blake : Blake3) (a : Advertiser) (ops : List AdvertiserOp) (nonce : BeaconNonce) :
    AdvertisingPacket :=
  ((a.run blake ops).buildPacket blake nonce).2

/-! ## The cache -/

end Advertiser

/-- The nonce of the packet in the cache, if it may still be handed out. -/
def AdvertiserOp.cacheNonce (cached : Option BeaconNonce) : AdvertiserOp → Option BeaconNonce
  | .setTimeMs _ | .start | .pause | .resume | .stop => cached
  | .buildPacket nonce => some (cached.getD nonce)
  | .rebuildPacket nonce => some nonce
  | _ => none

namespace Advertiser

variable {blake : Blake3} {a : Advertiser} {cached : Option BeaconNonce}

/-- A clean cache holds the packet of the present settings. -/
def CacheFresh (blake : Blake3) (cached : Option BeaconNonce) (a : Advertiser) : Prop :=
  match cached with
  | none => a.cacheDirty = true
  | some nonce => a.cacheDirty = false ∧ a.cachedPacket = some (a.buildPacketInner blake nonce)

theorem buildPacket_of_fresh (h : CacheFresh blake cached a) (nonce : BeaconNonce) :
    (a.buildPacket blake nonce).2 = a.buildPacketInner blake (cached.getD nonce) ∧
      CacheFresh blake (some (cached.getD nonce)) (a.buildPacket blake nonce).1 := by
  cases cached with
  | none =>
      rw [buildPacket, show a.cacheDirty = true from h]
      exact ⟨rfl, rfl, rfl⟩
  | some used =>
      obtain ⟨hclean, hpacket⟩ := h
      rw [buildPacket, hclean, hpacket]
      exact ⟨rfl, hclean, hpacket⟩

theorem cacheFresh_apply (h : CacheFresh blake cached a) (op : AdvertiserOp) :
    CacheFresh blake (op.cacheNonce cached) (a.apply blake op) := by
  cases op with
  | buildPacket nonce => exact (buildPacket_of_fresh h nonce).2
  | rebuildPacket nonce =>
      have hdirty : CacheFresh blake none { a with cacheDirty := true } := rfl
      exact (buildPacket_of_fresh hdirty nonce).2
  | setTimeMs timeMs => cases cached <;> exact h
  | start => cases cached <;> exact h
  | pause => cases cached <;> exact h
  | resume =>
      rw [apply]
      split
      · cases cached <;> exact h
      · exact h
  | stop => cases cached <;> exact h
  | _ => rfl

theorem cacheFresh_run (h : CacheFresh blake cached a) (ops : List AdvertiserOp) :
    CacheFresh blake (ops.foldl AdvertiserOp.cacheNonce cached) (a.run blake ops) := by
  induction ops generalizing a cached with
  | nil => exact h
  | cons op ops ih => exact ih (cacheFresh_apply h op)

/-- A packet is the packet of the present settings, under the nonce of its last construction. -/
theorem packetAfter_eq (beacon : PeatBeacon) (ops : List AdvertiserOp) (nonce : BeaconNonce) :
    (ofBeacon beacon).packetAfter blake ops nonce =
      ((ofBeacon beacon).run blake ops).buildPacketInner blake
        ((ops.foldl AdvertiserOp.cacheNonce none).getD nonce) := by
  have hstart : CacheFresh blake none (ofBeacon beacon) := rfl
  exact (buildPacket_of_fresh (cacheFresh_run hstart ops) nonce).1

/-- Nothing is drawn for a packet in plaintext. -/
theorem buildPacketInner_plaintext (hmode : a.mode = .plaintext) (nonce nonce' : BeaconNonce) :
    a.buildPacketInner blake nonce = a.buildPacketInner blake nonce' := by
  have hservice : a.beaconService blake nonce = a.beaconService blake nonce' := by
    rw [beaconService, beaconService, hmode]
  have hfront : a.advFront blake nonce = a.advFront blake nonce' := by
    rw [advFront, advFront, hservice]
  have hfits : a.txPowerFits blake nonce = a.txPowerFits blake nonce' := by
    rw [txPowerFits, txPowerFits, hfront]
  have hadv : a.advBytes blake nonce = a.advBytes blake nonce' := by
    rw [advBytes, advBytes, hfront, hfits]
  have hscan : a.scanBytes blake nonce = a.scanBytes blake nonce' := by
    rw [scanBytes, scanBytes, hfits]
  rw [buildPacketInner, buildPacketInner, hadv, hscan]

/-- Whatever was set and built before, a packet in plaintext is the one of the present settings. -/
theorem packetAfter_plaintext (blake : Blake3) (beacon : PeatBeacon) (ops : List AdvertiserOp)
    (nonce nonce' : BeaconNonce) (hmode : ((ofBeacon beacon).run blake ops).mode = .plaintext) :
    (ofBeacon beacon).packetAfter blake ops nonce =
      ((ofBeacon beacon).run blake ops).buildPacketInner blake nonce' := by
  rw [packetAfter_eq]
  exact buildPacketInner_plaintext hmode _ _

/-- A node that was renamed and counted on between two packets, and was in encrypted mode. -/
theorem packetAfter_plaintext_renamed :
    let blake : Blake3 := ⟨fun _ => Vector.replicate 32 0, fun _ _ => Vector.replicate 32 0⟩
    let nonce : BeaconNonce := Vector.replicate 4 0
    let ops : List AdvertiserOp :=
      [.withName "A", .buildPacket nonce, .setMode .encrypted, .setBattery 50, .start,
        .buildPacket nonce, .withName "B", .setMode .plaintext, .incrementSequence]
    (ofBeacon (PeatBeacon.new 1)).packetAfter blake ops nonce =
      ((ofBeacon (PeatBeacon.new 1)).run blake ops).buildPacketInner blake nonce := by
  intro blake nonce ops
  exact packetAfter_plaintext blake (PeatBeacon.new 1) ops nonce nonce rfl

end Advertiser

end PeatBtle
