import PeatBtle.DocumentSync
import PeatBtle.PeerManager
import PeatBtle.Relay
import PeatBtle.Sync.DeltaDocument
import PeatBtle.Security.PeerSession

/-!
# Mesh state

The facade a platform talks to: one record of all the tables a node keeps.
Observer notifications, logging, identity attestation and the choice of relay
targets touch none of them.
-/

namespace PeatBtle

open Wire

structure PeatMeshConfig where
  nodeId : NodeId
  callsign : String
  meshId : String
  peripheralType : PeripheralType
  peerConfig : PeerManagerConfig
  syncIntervalMs : UInt64
  encryptionSecret : Option Key
  strictEncryption : Bool
  enableRelay : Bool
  maxRelayHops : UInt8
  seenCacheTtlMs : UInt64
deriving DecidableEq

namespace PeatMeshConfig

def new (nodeId : NodeId) (callsign meshId : String) : PeatMeshConfig where
  nodeId := nodeId
  callsign := callsign
  meshId := meshId
  peripheralType := .soldierSensor
  peerConfig := PeerManagerConfig.withMeshId meshId
  syncIntervalMs := 5000
  encryptionSecret := none
  strictEncryption := false
  enableRelay := false
  maxRelayHops := defaultMaxHops
  seenCacheTtlMs := defaultSeenTtlMs

def withEncryption (c : PeatMeshConfig) (secret : Key) : PeatMeshConfig :=
  { c with encryptionSecret := some secret }

def withStrictEncryption (c : PeatMeshConfig) : PeatMeshConfig := { c with strictEncryption := true }

def withRelay (c : PeatMeshConfig) : PeatMeshConfig := { c with enableRelay := true }

end PeatMeshConfig

structure PeatMesh (D : Type) where
  config : PeatMeshConfig
  peerManager : PeerManager
  documentSync : DocumentSync
  lastSyncMs : UInt32
  lastCleanupMs : UInt32
  encryptionKey : Option Key
  peerSessions : Option PeerSessionManager
  connectionGraph : ConnectionStateGraph
  seenCache : SeenMessageCache
  deltaEncoder : DeltaEncoder
  peerPeripherals : Map NodeId Peripheral
  documentRegistry : DocumentRegistry D
  appDocuments : AppDocumentStore D

/-- The peripheral fields repeated in a result. -/
structure PeripheralFields where
  callsign : Option String
  batteryPercent : Option UInt8
  heartRate : Option UInt8
  eventType : Option UInt8
  latitude : Option F32
  longitude : Option F32
  altitude : Option F32
deriving DecidableEq

/-- How a document reached us: what to pass on, who sent it first and over how many hops. -/
structure RelayInfo where
  relayData : Option Bytes
  originNode : Option NodeId
  hopCount : UInt8
deriving DecidableEq

def RelayInfo.direct : RelayInfo := ⟨none, none, 0⟩

structure DataReceivedResult extends RelayInfo, PeripheralFields where
  sourceNode : NodeId
  isEmergency : Bool
  isAck : Bool
  counterChanged : Bool
  emergencyChanged : Bool
  totalCount : UInt64
  eventTimestamp : UInt64
deriving DecidableEq

/-- An empty callsign and an empty battery are reported as missing. -/
def peripheralFields : Option Peripheral → PeripheralFields
  | none => ⟨none, none, none, none, none, none, none⟩
  | some p =>
      { callsign := if p.callsignStr = "" then none else some p.callsignStr
        batteryPercent := if p.health.batteryPercent > 0 then some p.health.batteryPercent else none
        heartRate := p.health.heartRate
        eventType := p.lastEvent.map fun e => e.eventType.toU8
        latitude := p.location.map Position.latitude
        longitude := p.location.map Position.longitude
        altitude := p.location.bind Position.altitude }

namespace PeatMesh

variable {D : Type} (crypto : Crypto)

def new (config : PeatMeshConfig) : PeatMesh D where
  config := config
  peerManager := PeerManager.new config.nodeId config.peerConfig
  documentSync := DocumentSync.withPeripheralType config.nodeId config.callsign config.peripheralType
  lastSyncMs := 0
  lastCleanupMs := 0
  encryptionKey := config.encryptionSecret.map fun s => crypto.fromSharedSecret config.meshId s
  peerSessions := none
  connectionGraph := ConnectionStateGraph.withConfig config.peerConfig.rssiDegradedThreshold
    config.peerConfig.lostTimeoutMs
  seenCache := SeenMessageCache.withTtl config.seenCacheTtlMs
  deltaEncoder := DeltaEncoder.new config.nodeId
  peerPeripherals := ∅
  documentRegistry := DocumentRegistry.new
  appDocuments := ∅

/-! ## Mesh-wide encryption -/

def enableEncryption (m : PeatMesh D) (secret : Key) : PeatMesh D :=
  { m with encryptionKey := some (crypto.fromSharedSecret m.config.meshId secret) }

def disableEncryption (m : PeatMesh D) : PeatMesh D := { m with encryptionKey := none }

/-- If encryption fails the plaintext goes out. -/
def encryptDocument (m : PeatMesh D) (nonce : Nonce) (plaintext : Bytes) : Bytes :=
  match m.encryptionKey with
  | none => plaintext
  | some key =>
      match MeshEncryptionKey.encryptToBytes crypto key nonce plaintext with
      | some ciphertext => encryptedMarker :: 0x00 :: ciphertext
      | none => plaintext

/-- Encrypted documents are told by their first byte. Others pass unless the mesh is strict. -/
def decryptDocument (m : PeatMesh D) (data : Bytes) : Option Bytes :=
  if data.length ≥ 2 ∧ byteAt data 0 = encryptedMarker then
    match m.encryptionKey with
    | some key => MeshEncryptionKey.decryptFromBytes crypto key (data.drop 2)
    | none => none
  else if m.config.strictEncryption = true ∧ m.encryptionKey.isSome = true then none
  else some data

def buildDocument (m : PeatMesh D) (nonce : Nonce) : Bytes :=
  m.encryptDocument crypto nonce m.documentSync.buildDocument

/-! ## Duplicate suppression -/

def markMessageSeen (m : PeatMesh D) (messageId : MessageId) (origin : NodeId) (nowMs : UInt64) :
    PeatMesh D × Bool :=
  let marked := m.seenCache.markSeen messageId origin nowMs
  ({ m with seenCache := marked.1 }, marked.2)

/-! ## End-to-end messages -/

/-- The response to send, if any. -/
def handleKeyExchange (m : PeatMesh D) (data : Bytes) (nowMs : UInt64) :
    PeatMesh D × Option Bytes :=
  if data.length < 2 ∨ byteAt data 0 ≠ keyExchangeMarker then (m, none)
  else
    match KeyExchangeMessage.decode (data.drop 2), m.peerSessions with
    | some msg, some sessions =>
        let handled := sessions.handleKeyExchange crypto msg nowMs
        ({ m with peerSessions := some handled.1 },
          handled.2.map fun response => keyExchangeMarker :: 0x00 :: response.encode)
    | _, _ => (m, none)

/-- The plaintext, if any. -/
def handlePeerE2eeMessage (m : PeatMesh D) (data : Bytes) (nowMs : UInt64) :
    PeatMesh D × Option Bytes :=
  if data.length < 2 ∨ byteAt data 0 ≠ peerE2eeMarker then (m, none)
  else
    match PeerEncryptedMessage.decode (data.drop 2), m.peerSessions with
    | some msg, some sessions =>
        let handled := sessions.decryptFromPeer crypto msg nowMs
        ({ m with peerSessions := some handled.1 }, handled.2)
    | _, _ => (m, none)

/-! ## App documents -/

/-- A document stored twice is merged by its type's handler. -/
def storeAppDocument (m : PeatMesh D) (key : DocumentKey) (doc : D) : PeatMesh D :=
  let stored := match m.appDocuments[key]? with
    | some existing => (m.documentRegistry.merge key.typeId existing doc).1
    | none => doc
  { m with appDocuments := m.appDocuments.insert key stored }

def appDocumentDeltaOps (m : PeatMesh D) : List AppOperation :=
  m.appDocuments.toList.filterMap fun entry =>
    m.documentRegistry.toDeltaOp entry.1.typeId entry.2

end PeatMesh

end PeatBtle
