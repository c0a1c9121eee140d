import PeatBtle.Data.LoggedRun
import PeatBtle.Discovery.Advertiser
import PeatBtle.Wire.EntryTable

/-!
# The scanner

A scanner tracks the nodes whose beacons it takes in, plain or encrypted. It
filters advertisements, drops those that come too soon after the last one of the
same node, and keeps three tables: the devices by node, the node by address, and
when each node was last processed.
-/

namespace PeatBtle

open Wire Std MapMerge

def defaultDeviceTimeoutMs : UInt64 := 30000
def dedupIntervalMs : UInt64 := 500

def u16AtBe (data : Bytes) (i : Nat) : UInt16 :=
  UInt16.ofNat (leNat (slice data i (i + 2)).reverse)

def u32AtBe (data : Bytes) (i : Nat) : UInt32 :=
  UInt32.ofNat (leNat (slice data i (i + 4)).reverse)

namespace EncryptedBeacon

/-- The beacon and the mesh it names, if the authentication code is right. -/
def decrypt (blake : Blake3) (data : Bytes) (key : BeaconKey) :
    Option (EncryptedBeacon × MeshIdBytes) :=
  if data.length < encryptedBeaconSize then none
  else if byteAt data 0 ≠ encryptedBeaconVersion then none
  else
    let nonce : BeaconNonce := Vector.ofFn fun i => byteAt (slice data 1 5) i
    let encrypted := slice data 5 13
    let receivedMac := slice data 13 17
    if receivedMac ≠ key.computeMac blake nonce encrypted then none
    else
      let plaintext := List.zipWith (· ^^^ ·) encrypted (key.deriveKeystream blake nonce)
      let meshIdBytes : MeshIdBytes := Vector.ofFn fun i => byteAt (slice plaintext 0 4) i
      some
        ({ nodeId := u32AtBe plaintext 4
           capabilities := u16AtBe data 17
           hierarchyLevel := byteAt data 19
           batteryPercent := byteAt data 20 }, meshIdBytes)

end EncryptedBeacon

/-! ## Advertisements and filters -/

structure ParsedAdvertisement where
  address : String
  rssi : Int8
  beacon : Option PeatBeacon
  encryptedServiceData : Option Bytes
  txPower : Option Int8
  connectable : Bool

namespace ParsedAdvertisement

def isPeatDevice (adv : ParsedAdvertisement) : Bool :=
  adv.beacon.isSome || adv.encryptedServiceData.isSome

/-- The log-distance path loss model with exponent 2.5. -/
def estimatedDistanceMeters (adv : ParsedAdvertisement) : Option Float32 :=
  let txPower := (adv.txPower.getD 0).toFloat32
  let rssi := adv.rssi.toFloat32
  if rssi ≥ txPower then some 1.0
  else some (Float32.pow 10.0 ((txPower - rssi) / (10.0 * 2.5)))

end ParsedAdvertisement

structure ScanFilter where
  peatOnly : Bool
  minHierarchyLevel : Option HierarchyLevel
  requiredCapabilities : Option UInt16
  excludedCapabilities : Option UInt16
  minRssi : Option Int8
  maxDistance : Option Float32
  connectableOnly : Bool

namespace ScanFilter

def default : ScanFilter := ⟨false, none, none, none, none, none, false⟩

def peatNodes : ScanFilter := { default with peatOnly := true }

def potentialParents (ourLevel : HierarchyLevel) : ScanFilter :=
  { default with peatOnly := true, minHierarchyLevel := some ourLevel, connectableOnly := true }

variable (f : ScanFilter)

/-- The criteria for the signal and the device. -/
def signalMatches (adv : ParsedAdvertisement) : Bool :=
  !(f.peatOnly && !adv.isPeatDevice) &&
  f.minRssi.all (fun minRssi => !decide (adv.rssi < minRssi)) &&
  f.maxDistance.all (fun maxDistance =>
    adv.estimatedDistanceMeters.all fun distance => !decide (distance > maxDistance)) &&
  !(f.connectableOnly && !adv.connectable)

/-- The criteria for the beacon. -/
def beaconMatches (beacon : PeatBeacon) : Bool :=
  f.minHierarchyLevel.all (fun minLevel =>
    !decide (beacon.hierarchyLevel.toU8 < minLevel.toU8)) &&
  f.requiredCapabilities.all (fun required => beacon.capabilities &&& required == required) &&
  f.excludedCapabilities.all (fun excluded => beacon.capabilities &&& excluded == 0)

/-- The criteria for the beacon are looked at only where the beacon can be read. -/
def accepts (adv : ParsedAdvertisement) : Bool :=
  f.signalMatches adv && adv.beacon.all f.beaconMatches

end ScanFilter

/-! ## Tracked devices -/

structure TrackedDevice where
  beacon : PeatBeacon
  address : String
  rssi : Int8
  rssiHistory : List Int8
  firstSeenMs : UInt64
  lastSeenMs : UInt64
  connectable : Bool
deriving DecidableEq

namespace TrackedDevice

def new (beacon : PeatBeacon) (address : String) (rssi : Int8) (connectable : Bool)
    (currentTimeMs : UInt64) : TrackedDevice :=
  ⟨beacon, address, rssi, [rssi], currentTimeMs, currentTimeMs, connectable⟩

/-- The last ten readings are kept; the address stays as it was. -/
def update (d : TrackedDevice) (beacon : PeatBeacon) (rssi : Int8) (connectable : Bool)
    (currentTimeMs : UInt64) : TrackedDevice :=
  let history := d.rssiHistory ++ [rssi]
  { d with
    beacon := beacon
    rssi := rssi
    lastSeenMs := currentTimeMs
    connectable := connectable
    rssiHistory := if history.length > 10 then history.drop 1 else history }

def isStale (d : TrackedDevice) (timeoutMs currentTimeMs : UInt64) : Bool :=
  saturatingSub currentTimeMs d.lastSeenMs > timeoutMs

end TrackedDevice

/-! ## The scanner -/

inductive ScannerState where
  | idle
  | scanning
  | paused
deriving DecidableEq

structure Scanner where
  state : ScannerState
  devices : Map NodeId TrackedDevice
  addressMap : Map String NodeId
  filter : ScanFilter
  deviceTimeoutMs : UInt64
  lastProcessed : Map NodeId UInt64
  currentTimeMs : UInt64
  beaconKey : Option BeaconKey
  meshIdBytes : Option MeshIdBytes

namespace Scanner

def new : Scanner where
  state := .idle
  devices := ∅
  addressMap := ∅
  filter := .default
  deviceTimeoutMs := defaultDeviceTimeoutMs
  lastProcessed := ∅
  currentTimeMs := 0
  beaconKey := none
  meshIdBytes := none

variable (blake : Blake3) (s : Scanner)

def getNodeIdForAddress (address : String) : Option NodeId := s.addressMap[address]?

def canDecryptBeacons : Bool := s.beaconKey.isSome && s.meshIdBytes.isSome

/-- Only a beacon of the expected mesh counts. Geohash and sequence number are not transmitted. -/
def tryDecryptBeacon (encryptedData : Bytes) : Option (PeatBeacon × MeshIdBytes) :=
  s.beaconKey.bind fun key =>
    s.meshIdBytes.bind fun expectedMeshId =>
      (EncryptedBeacon.decrypt blake encryptedData key).bind fun (encryptedBeacon, meshId) =>
        if meshId ≠ expectedMeshId then none
        else some
          ({ version := 1
             capabilities := encryptedBeacon.capabilities
             nodeId := encryptedBeacon.nodeId
             hierarchyLevel := HierarchyLevel.ofU8 encryptedBeacon.hierarchyLevel
             geohash := 0
             batteryPercent := encryptedBeacon.batteryPercent
             seqNum := 0 }, meshId)

/-- The plaintext beacon first, then the encrypted one. -/
def extractBeacon (adv : ParsedAdvertisement) : Option PeatBeacon :=
  match adv.beacon with
  | some beacon => some beacon
  | none => adv.encryptedServiceData.bind fun encryptedData =>
      (s.tryDecryptBeacon blake encryptedData).map Prod.fst

def isDuplicate (nodeId : NodeId) : Bool :=
  s.lastProcessed[nodeId]?.any fun last =>
    decide (saturatingSub s.currentTimeMs last < dedupIntervalMs)

/-- Update the tracked device or create it, and tell whether it is new. -/
def track (beacon : PeatBeacon) (adv : ParsedAdvertisement) : Scanner × Bool :=
  let processed := { s with lastProcessed := s.lastProcessed.insert beacon.nodeId s.currentTimeMs }
  match s.devices[beacon.nodeId]? with
  | some device =>
      let updated := device.update beacon adv.rssi adv.connectable s.currentTimeMs
      ({ processed with devices := s.devices.insert beacon.nodeId updated }, false)
  | none =>
      let device :=
        TrackedDevice.new beacon adv.address adv.rssi adv.connectable s.currentTimeMs
      ({ processed with
          devices := s.devices.insert beacon.nodeId device
          addressMap := s.addressMap.insert adv.address beacon.nodeId }, true)

def processAdvertisement (adv : ParsedAdvertisement) : Scanner × Bool :=
  if s.filter.accepts adv then
    match s.extractBeacon blake adv with
    | none => (s, false)
    | some beacon =>
        if s.isDuplicate beacon.nodeId then (s, false) else s.track beacon adv
  else (s, false)

def removeDevice (nodeId : NodeId) : Scanner :=
  match s.devices[nodeId]? with
  | none => s
  | some device =>
      { s with
        devices := s.devices.erase nodeId
        addressMap := s.addressMap.erase device.address
        lastProcessed := s.lastProcessed.erase nodeId }

/-- The number of devices removed is reported. -/
def removeStale : Scanner × Nat :=
  let stale := (s.devices.toList.filter fun entry =>
    entry.2.isStale s.deviceTimeoutMs s.currentTimeMs).map Prod.fst
  (stale.foldl removeDevice s, stale.length)

def clear : Scanner := { s with devices := ∅, addressMap := ∅, lastProcessed := ∅ }

end Scanner

/-! ## Runs -/

inductive ScannerAction where
  | processAdvertisement (adv : ParsedAdvertisement)
  | setTimeMs (timeMs : UInt64)
  | removeStale
  | clear
  | setFilter (filter : ScanFilter)
  | setDeviceTimeoutMs (timeoutMs : UInt64)
  | setBeaconKey (key : BeaconKey) (meshIdBytes : MeshIdBytes)
  | clearBeaconKey
  | start
  | pause
  | stop

namespace Scanner

variable (blake : Blake3)

def act (s : Scanner) : ScannerAction → Scanner
  | .processAdvertisement adv => (s.processAdvertisement blake adv).1
  | .setTimeMs timeMs => { s with currentTimeMs := timeMs }
  | .removeStale => s.removeStale.1
  | .clear => s.clear
  | .setFilter filter => { s with filter := filter }
  | .setDeviceTimeoutMs timeoutMs => { s with deviceTimeoutMs := timeoutMs }
  | .setBeaconKey key meshIdBytes =>
      { s with beaconKey := some key, meshIdBytes := some meshIdBytes }
  | .clearBeaconKey => { s with beaconKey := none, meshIdBytes := none }
  | .start => { s with state := .scanning }
  | .pause => { s with state := .paused }
  | .stop => { s with state := .idle }

/-- The beacon that an advertisement brings in: read, not filtered and not a duplicate. -/
def takenIn (s : Scanner) (adv : ParsedAdvertisement) : Option PeatBeacon :=
  if s.filter.accepts adv then
    (s.extractBeacon blake adv).filter fun beacon => !s.isDuplicate beacon.nodeId
  else none

theorem processAdvertisement_eq (s : Scanner) (adv : ParsedAdvertisement) :
    s.processAdvertisement blake adv =
      (s.takenIn blake adv).elim (s, false) fun beacon => s.track beacon adv := by
  unfold processAdvertisement takenIn
  by_cases haccepts : s.filter.accepts adv = true
  · rw [if_pos haccepts, if_pos haccepts]
    cases s.extractBeacon blake adv with
    | none => rfl
    | some beacon => cases hdup : s.isDuplicate beacon.nodeId <;> simp [Option.filter, hdup]
  · rw [if_neg haccepts, if_neg haccepts]
    rfl

end Scanner

end PeatBtle
