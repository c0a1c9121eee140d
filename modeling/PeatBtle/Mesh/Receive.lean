import PeatBtle.Mesh.DeltaSync

/-!
# Receiving

Four entry points accept bytes from the radio. Three of them look at the first
byte for key exchanges, end-to-end messages and relay envelopes before they
treat the bytes as a document; the fourth decrypts at once. Each has its own
document path and the first three their own relay path.
-/

namespace PeatBtle

open Wire

namespace PeatMesh

variable {D : Type} (crypto : Crypto)

/-- The result for a merged document. -/
def mergedResult (result : MergeResult) (relay : RelayInfo) : DataReceivedResult :=
  { relay, peripheralFields result.peerPeripheral with
    sourceNode := result.sourceNode
    isEmergency := result.isEmergency
    isAck := result.isAck
    counterChanged := result.counterChanged
    emergencyChanged := result.emergencyChanged
    totalCount := result.totalCount
    eventTimestamp := (result.event.map PeripheralEvent.timestamp).getD 0 }

def storePeerPeripheral (m : PeatMesh D) (result : MergeResult) : PeatMesh D :=
  match result.peerPeripheral with
  | some peripheral =>
      { m with peerPeripherals := m.peerPeripherals.insert result.sourceNode peripheral }
  | none => m

def recordSync (m : PeatMesh D) (node : NodeId) (nowMs : UInt64) : PeatMesh D :=
  { m with peerManager := m.peerManager.recordSync node nowMs }

/-! ## First byte -/

/-- The message types that are recognised before anything else. `onRelay` takes envelopes and
`onDocument` all that is left. -/
def dispatch (m : PeatMesh D) (data : Bytes) (nowMs : UInt64)
    (onRelay onDocument : PeatMesh D × Option DataReceivedResult) :
    PeatMesh D × Option DataReceivedResult :=
  if data.length ≥ 2 then
    if byteAt data 0 = keyExchangeMarker then ((m.handleKeyExchange crypto data nowMs).1, none)
    else if byteAt data 0 = peerE2eeMarker then
      ((m.handlePeerE2eeMessage crypto data nowMs).1, none)
    else if byteAt data 0 = relayEnvelopeMarker then onRelay
    else onDocument
  else onDocument

/-! ## From a known node -/

/-- Merge a plain document and keep the sender's peripheral. -/
def mergeFromNode (m : PeatMesh D) (sourceNode : NodeId) (decrypted : Bytes) (nowMs : UInt64)
    (relay : RelayInfo) : PeatMesh D × Option DataReceivedResult :=
  let merged := m.documentSync.mergeDocument decrypted
  let received := { m with documentSync := merged.1 }
  match merged.2 with
  | none => (received, none)
  | some result =>
      ((received.storePeerPeripheral result).recordSync sourceNode nowMs,
        some (mergedResult result relay))

/-- Both document paths of a known node, behind decryption. -/
def processDecrypted (m : PeatMesh D) (sourceNode : NodeId) (decrypted : Bytes) (nowMs : UInt64)
    (relay : RelayInfo) : PeatMesh D × Option DataReceivedResult :=
  if DeltaDocument.isDeltaDocument decrypted then
    m.processDeltaDocumentInternal sourceNode decrypted nowMs relay
  else m.mergeFromNode sourceNode decrypted nowMs relay

def processDocumentDataWithIdentifier (m : PeatMesh D) (sourceNode : NodeId) (data : Bytes)
    (nowMs : UInt64) (relay : RelayInfo) : PeatMesh D × Option DataReceivedResult :=
  match m.decryptDocument crypto data with
  | none => (m, none)
  | some decrypted => m.processDecrypted sourceNode decrypted nowMs relay

def processDocumentData (m : PeatMesh D) (sourceNode : NodeId) (data : Bytes) (nowMs : UInt64)
    (relay : RelayInfo) : PeatMesh D × Option DataReceivedResult :=
  match m.decryptDocument crypto data with
  | none => (m, none)
  | some decrypted => m.processDecrypted sourceNode decrypted nowMs relay

def handleRelayEnvelopeWithIdentifier (m : PeatMesh D) (sourceNode : NodeId) (data : Bytes)
    (nowMs : UInt64) : PeatMesh D × Option DataReceivedResult :=
  match RelayEnvelope.decode data with
  | none => (m, none)
  | some envelope =>
      let marked := m.markMessageSeen envelope.messageId envelope.originNode nowMs
      if marked.2 then
        let relayData := if envelope.canRelay && m.config.enableRelay then
          envelope.relay.map RelayEnvelope.encode else none
        marked.1.processDocumentDataWithIdentifier crypto sourceNode envelope.payload nowMs
          ⟨relayData, some envelope.originNode, envelope.hopCount⟩
      else (marked.1, none)

/-- What is to be done with an envelope that is not a duplicate. -/
structure RelayDecision where
  payload : Bytes
  originNode : NodeId
  hopCount : UInt8
  shouldRelay : Bool
  relayEnvelope : Option RelayEnvelope
deriving DecidableEq

/-- An envelope out of hops is still processed here, but goes no further. -/
def relayDecision (m : PeatMesh D) (envelope : RelayEnvelope) : RelayDecision :=
  if envelope.canRelay then
    ⟨envelope.payload, envelope.originNode, envelope.hopCount, m.config.enableRelay,
      if m.config.enableRelay then envelope.relay else none⟩
  else ⟨envelope.payload, envelope.originNode, envelope.hopCount, false, none⟩

/-- A message that comes from further away than its sender leads to its origin. -/
def noteRelayPath (m : PeatMesh D) (sourcePeer : NodeId) (envelope : RelayEnvelope)
    (nowMs : UInt64) : PeatMesh D :=
  if envelope.originNode ≠ sourcePeer ∧ envelope.originNode ≠ m.config.nodeId then
    let graph := m.connectionGraph.onRelayReceived sourcePeer envelope.originNode envelope.hopCount
      nowMs
    { m with connectionGraph := graph }
  else m

def processRelayEnvelope (m : PeatMesh D) (data : Bytes) (sourcePeer : NodeId) (nowMs : UInt64) :
    PeatMesh D × Option RelayDecision :=
  match RelayEnvelope.decode data with
  | none => (m, none)
  | some envelope =>
      let marked := (m.noteRelayPath sourcePeer envelope nowMs).markMessageSeen envelope.messageId
        envelope.originNode nowMs
      (marked.1, if marked.2 then some (m.relayDecision envelope) else none)

def handleRelayEnvelope (m : PeatMesh D) (sourceNode : NodeId) (data : Bytes) (nowMs : UInt64) :
    PeatMesh D × Option DataReceivedResult :=
  let processed := m.processRelayEnvelope data sourceNode nowMs
  match processed.2 with
  | none => (processed.1, none)
  | some decision =>
      let relayData := if decision.shouldRelay then decision.relayEnvelope.map RelayEnvelope.encode
        else none
      processed.1.processDocumentData crypto sourceNode decision.payload nowMs
        ⟨relayData, some decision.originNode, decision.hopCount⟩

def onBleDataReceived (m : PeatMesh D) (identifier : String) (data : Bytes) (nowMs : UInt64) :
    PeatMesh D × Option DataReceivedResult :=
  match m.peerManager.getNodeId identifier with
  | none => (m, none)
  | some nodeId =>
      m.dispatch crypto data nowMs
        (m.handleRelayEnvelopeWithIdentifier crypto nodeId data nowMs)
        (m.processDocumentDataWithIdentifier crypto nodeId data nowMs RelayInfo.direct)

def onBleDataReceivedFromNode (m : PeatMesh D) (nodeId : NodeId) (data : Bytes) (nowMs : UInt64) :
    PeatMesh D × Option DataReceivedResult :=
  m.dispatch crypto data nowMs
    (m.handleRelayEnvelope crypto nodeId data nowMs)
    (m.processDocumentData crypto nodeId data nowMs RelayInfo.direct)

/-! ## From an unknown identifier -/

/-- A direct document connects its author under the identifier; a relayed one does not. -/
def registerSource (m : PeatMesh D) (identifier : String) (sourceNode : NodeId) (nowMs : UInt64) :
    PeatMesh D :=
  let incoming := m.peerManager.onIncomingConnection identifier sourceNode nowMs
  let graph := if incoming.2 then
      m.connectionGraph.onDiscovered sourceNode identifier none (some m.config.meshId) (-50) nowMs
    else m.connectionGraph
  { m with peerManager := incoming.1, connectionGraph := graph.onConnected sourceNode nowMs }

/-- This path neither looks for deltas nor stores the peripheral. -/
def mergeIncoming (m : PeatMesh D) (identifier : String) (decrypted : Bytes) (nowMs : UInt64)
    (relay : RelayInfo) : PeatMesh D × Option DataReceivedResult :=
  let merged := m.documentSync.mergeDocument decrypted
  let received := { m with documentSync := merged.1 }
  match merged.2 with
  | none => (received, none)
  | some result =>
      let synced := received.recordSync result.sourceNode nowMs
      (if relay.originNode.isNone then synced.registerSource identifier result.sourceNode nowMs
        else synced, some (mergedResult result relay))

def processIncomingDocument (m : PeatMesh D) (identifier : String) (data : Bytes) (nowMs : UInt64)
    (relay : RelayInfo) : PeatMesh D × Option DataReceivedResult :=
  match m.decryptDocument crypto data with
  | none => (m, none)
  | some decrypted => m.mergeIncoming identifier decrypted nowMs relay

/-- The path is noted only if we know who the identifier belongs to. -/
def noteIncomingPath (m : PeatMesh D) (identifier : String) (envelope : RelayEnvelope)
    (nowMs : UInt64) : PeatMesh D :=
  match m.peerManager.getNodeId identifier with
  | some sourcePeer => m.noteRelayPath sourcePeer envelope nowMs
  | none => m

def handleRelayEnvelopeWithIncoming (m : PeatMesh D) (identifier : String) (data : Bytes)
    (nowMs : UInt64) : PeatMesh D × Option DataReceivedResult :=
  match RelayEnvelope.decode data with
  | none => (m, none)
  | some envelope =>
      let marked := (m.noteIncomingPath identifier envelope nowMs).markMessageSeen envelope.messageId
        envelope.originNode nowMs
      if marked.2 then
        let relayData := if envelope.canRelay && m.config.enableRelay then
          envelope.relay.map RelayEnvelope.encode else none
        marked.1.processIncomingDocument crypto identifier envelope.payload nowMs
          ⟨relayData, some envelope.originNode, envelope.hopCount⟩
      else (marked.1, none)

def onBleData (m : PeatMesh D) (identifier : String) (data : Bytes) (nowMs : UInt64) :
    PeatMesh D × Option DataReceivedResult :=
  m.dispatch crypto data nowMs
    (m.handleRelayEnvelopeWithIncoming crypto identifier data nowMs)
    (m.processIncomingDocument crypto identifier data nowMs RelayInfo.direct)

/-! ## Anonymous senders -/

def appLayerMarker : UInt8 := 0xAF

/-- The node identifier is read from the place where a plain document has it. App-layer messages
are handed back for the platform to relay. -/
def processAnonymous (m : PeatMesh D) (identifier : String) (decrypted : Bytes) (nowMs : UInt64) :
    PeatMesh D × Option DataReceivedResult :=
  if decrypted.length < 8 then (m, none)
  else
    let sourceNode := u32At decrypted 4
    let registered := { m with
      peerManager := m.peerManager.registerIdentifier identifier sourceNode }
    if DeltaDocument.isDeltaDocument decrypted then
      registered.processDeltaDocumentInternal sourceNode decrypted nowMs RelayInfo.direct
    else if byteAt decrypted 0 = appLayerMarker then
      (registered,
        some
          { ({ RelayInfo.direct with relayData := some decrypted } : RelayInfo),
            peripheralFields none with
            sourceNode := sourceNode
            isEmergency := false
            isAck := false
            counterChanged := false
            emergencyChanged := false
            totalCount := 0
            eventTimestamp := nowMs })
    else
      let merged := registered.documentSync.mergeDocument decrypted
      let received := { registered with documentSync := merged.1 }
      match merged.2 with
      | none => (received, none)
      | some result =>
          (received.recordSync sourceNode nowMs, some (mergedResult result RelayInfo.direct))

def onBleDataReceivedAnonymous (m : PeatMesh D) (identifier : String) (data : Bytes)
    (nowMs : UInt64) : PeatMesh D × Option DataReceivedResult :=
  match m.decryptDocument crypto data with
  | none => (m, none)
  | some decrypted => m.processAnonymous identifier decrypted nowMs

end PeatMesh

end PeatBtle
