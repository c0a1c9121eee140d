import PeatBtle.Basic

/-!
# Beacons

A beacon tells the neighbourhood who a node is and how it does. The compact form
fits into legacy advertising. The encrypted form hides the node and its mesh
behind a keystream and carries the rest in the clear. BLAKE3 comes from outside.
-/

namespace PeatBtle

open Wire

def beaconVersion : UInt8 := 1

/-- `capabilities::LITE_NODE`. -/
def liteNode : UInt16 := 0x0001

structure PeatBeacon where
  version : UInt8
  capabilities : UInt16
  nodeId : NodeId
  hierarchyLevel : HierarchyLevel
  geohash : UInt32
  batteryPercent : UInt8
  seqNum : UInt16
deriving DecidableEq

namespace PeatBeacon

def new (nodeId : NodeId) : PeatBeacon where
  version := beaconVersion
  capabilities := 0
  nodeId := nodeId
  hierarchyLevel := .platform
  geohash := 0
  batteryPercent := 255
  seqNum := 0

def peatLite (nodeId : NodeId) : PeatBeacon where
  version := beaconVersion
  capabilities := liteNode
  nodeId := nodeId
  hierarchyLevel := .platform
  geohash := 0
  batteryPercent := 255
  seqNum := 0

def incrementSeq (b : PeatBeacon) : PeatBeacon := { b with seqNum := b.seqNum + 1 }

/-- Without the geohash. -/
def encodeCompact (b : PeatBeacon) : Bytes :=
  [((b.version &&& 0x0F) <<< 4) ||| ((b.capabilities >>> 8).toUInt8 &&& 0x0F),
    (b.capabilities &&& 0xFF).toUInt8] ++ u32ToBe b.nodeId ++
    [b.hierarchyLevel.toU8, b.batteryPercent] ++ u16ToBe b.seqNum

@[simp] theorem encodeCompact_length (b : PeatBeacon) : b.encodeCompact.length = 10 := rfl

end PeatBeacon

/-! ## Encrypted beacons -/

abbrev MeshIdBytes := Vector UInt8 4
abbrev BeaconNonce := Vector UInt8 4

structure Blake3 where
  hash : Bytes → Vector UInt8 32
  keyedHash : Vector UInt8 32 → Bytes → Vector UInt8 32

def encryptedBeaconVersion : UInt8 := 0x02
def encryptedIdentitySize : Nat := 8
def macSize : Nat := 4

structure BeaconKey where
  key : Vector UInt8 32
deriving DecidableEq

namespace BeaconKey

variable (blake : Blake3) (key : BeaconKey) (nonce : BeaconNonce)

def deriveKeystream : Bytes :=
  (blake.hash (key.key.toList ++ nonce.toList)).toList.take encryptedIdentitySize

def computeMac (encrypted : Bytes) : Bytes :=
  (blake.keyedHash key.key (nonce.toList ++ encrypted)).toList.take macSize

@[simp] theorem deriveKeystream_length : (key.deriveKeystream blake nonce).length = 8 := by
  simp [deriveKeystream, encryptedIdentitySize]

@[simp] theorem computeMac_length (encrypted : Bytes) :
    (key.computeMac blake nonce encrypted).length = 4 := by
  simp [computeMac, macSize]

end BeaconKey

structure EncryptedBeacon where
  nodeId : NodeId
  capabilities : UInt16
  hierarchyLevel : UInt8
  batteryPercent : UInt8
deriving DecidableEq

namespace EncryptedBeacon

variable (blake : Blake3) (b : EncryptedBeacon) (key : BeaconKey) (meshIdBytes : MeshIdBytes)
  (nonce : BeaconNonce)

/-- The mesh and the node, under the keystream. -/
def identity : Bytes :=
  List.zipWith (· ^^^ ·) (meshIdBytes.toList ++ u32ToBe b.nodeId) (key.deriveKeystream blake nonce)

/-- The nonce is drawn at random by the source. -/
def encrypt : Bytes :=
  let encrypted := b.identity blake key meshIdBytes nonce
  [encryptedBeaconVersion] ++ nonce.toList ++ encrypted ++ key.computeMac blake nonce encrypted ++
    u16ToBe b.capabilities ++ [b.hierarchyLevel, b.batteryPercent]

@[simp] theorem identity_length : (b.identity blake key meshIdBytes nonce).length = 8 := by
  simp [identity, u32ToBe_length]

@[simp] theorem encrypt_length : (b.encrypt blake key meshIdBytes nonce).length = 21 := by
  simp [encrypt, u16ToBe_length]

end EncryptedBeacon

end PeatBtle
