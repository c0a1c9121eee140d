import PeatBtle.Mesh.Receive

/-!
# What received bytes can do

The state that documents are exchanged for is the document state, the stored
peripherals of peers and the app documents. Each receive path is summed up as
three steps: unwrapping, decryption, and the effect of the plaintext on that
state. Everything else a path does leaves it alone.
-/

namespace PeatBtle

open Wire

/-- The part of a node that documents are about. -/
@[ext] structure SharedState (D : Type) where
  documentSync : DocumentSync
  peerPeripherals : Map NodeId Peripheral
  appDocuments : AppDocumentStore D

namespace DocumentSync

/-- The document in some bytes, unless malformed or our own. -/
def accepts (s : DocumentSync) (data : Bytes) : Option PeatDocument :=
  (PeatDocument.decode data).bind fun received =>
    if received.nodeId = s.nodeId then none else some received

theorem mergeDocument_eq (s : DocumentSync) (data : Bytes) :
    s.mergeDocument data = match s.accepts data with
      | none => (s, none)
      | some received => ((s.mergeReceived received).1, some (s.mergeReceived received).2) := by
  unfold mergeDocument accepts
  cases PeatDocument.decode data with
  | none => rfl
  | some received =>
      by_cases hown : received.nodeId = s.nodeId
      · simp only [Option.bind_some, if_pos hown]
      · simp only [Option.bind_some, if_neg hown]

end DocumentSync

namespace PeatMesh

variable {D : Type} (crypto : Crypto)

def shared (m : PeatMesh D) : SharedState D := ⟨m.documentSync, m.peerPeripherals, m.appDocuments⟩

/-! ## Effects of a plaintext -/

/-- Keep the peripheral of the document's author. -/
def storedPeripheral (m : PeatMesh D) (received : PeatDocument) : Map NodeId Peripheral :=
  match received.peripheral with
  | some peripheral => m.peerPeripherals.insert received.nodeId peripheral
  | none => m.peerPeripherals

/-- The state after the plaintext and whether it was accepted. -/
abbrev Effect (D : Type) := SharedState D × Bool

/-- A document merged without keeping the peripheral. -/
def mergeEffect (m : PeatMesh D) (plaintext : Bytes) : Effect D :=
  match m.documentSync.accepts plaintext with
  | none => (m.shared, false)
  | some received =>
      ({ m.shared with documentSync := (m.documentSync.mergeReceived received).1 }, true)

/-- A document merged with the peripheral kept. -/
def mergeAndStoreEffect (m : PeatMesh D) (plaintext : Bytes) : Effect D :=
  match m.documentSync.accepts plaintext with
  | none => (m.shared, false)
  | some received =>
      ({ m.shared with
          documentSync := (m.documentSync.mergeReceived received).1
          peerPeripherals := m.storedPeripheral received }, true)

/-- The delta in some bytes, unless malformed or our own. -/
def acceptsDelta (m : PeatMesh D) (data : Bytes) : Option DeltaDocument :=
  (DeltaDocument.decode data).bind fun delta =>
    if delta.originNode = m.config.nodeId then none else some delta

def storeOperation (origin : NodeId) (peripherals : Map NodeId Peripheral) :
    Operation → Map NodeId Peripheral
  | .updatePeripheral peripheral _ => peripherals.insert origin peripheral
  | _ => peripherals

def storeAppOperation (registry : DocumentRegistry D) (docs : AppDocumentStore D) :
    Operation → AppDocumentStore D
  | .app op => applyAppOperation registry docs op
  | _ => docs

/-- The operations touch the stored peripherals and the app documents only. -/
def deltaEffect (m : PeatMesh D) (plaintext : Bytes) : Effect D :=
  match m.acceptsDelta plaintext with
  | none => (m.shared, false)
  | some delta =>
      ({ m.shared with
          peerPeripherals :=
            delta.operations.foldl (storeOperation delta.originNode) m.peerPeripherals
          appDocuments :=
            delta.operations.foldl (storeAppOperation m.documentRegistry) m.appDocuments }, true)

/-- The effect for a known sender. -/
def knownEffect (m : PeatMesh D) (plaintext : Bytes) : Effect D :=
  if DeltaDocument.isDeltaDocument plaintext then m.deltaEffect plaintext
  else m.mergeAndStoreEffect plaintext

/-- The effect for an anonymous sender. App-layer messages change nothing. -/
def anonymousEffect (m : PeatMesh D) (plaintext : Bytes) : SharedState D :=
  if plaintext.length < 8 then m.shared
  else if DeltaDocument.isDeltaDocument plaintext then (m.deltaEffect plaintext).1
  else if byteAt plaintext 0 = appLayerMarker then m.shared
  else (m.mergeEffect plaintext).1

/-! ## The paths behind decryption -/

/-- What the receive paths are compared on. -/
structure Observation (D : Type) where
  shared : SharedState D
  seenCache : SeenMessageCache
  relayData : Option Bytes

def observe (received : PeatMesh D × Option DataReceivedResult) : Observation D :=
  ⟨received.1.shared, received.1.seenCache, received.2.bind fun result => result.relayData⟩

/-- The observation when a plaintext has a given effect. -/
def observeEffect (m : PeatMesh D) (relay : RelayInfo) (effect : Effect D) : Observation D :=
  ⟨effect.1, m.seenCache, if effect.2 then relay.relayData else none⟩

/-- The frame of one operation. -/
structure AppliedTo (m after : PeatMesh D) (origin : NodeId) (operations : List Operation) :
    Prop where
  documentSync : after.documentSync = m.documentSync
  seenCache : after.seenCache = m.seenCache
  deltaEncoder : after.deltaEncoder = m.deltaEncoder
  peripherals : after.peerPeripherals = operations.foldl (storeOperation origin) m.peerPeripherals
  appDocuments :
    after.appDocuments = operations.foldl (storeAppOperation m.documentRegistry) m.appDocuments

theorem appliedTo_foldl (origin : NodeId) (operations : List Operation) (m : PeatMesh D)
    (outcome : DeltaOutcome) :
    AppliedTo m (operations.foldl (applyOperation origin) (m, outcome)).1 origin operations := by
  induction operations generalizing m outcome with
  | nil => exact ⟨rfl, rfl, rfl, rfl, rfl⟩
  | cons op operations ih =>
      have hrest := ih (applyOperation origin (m, outcome) op).1
        (applyOperation origin (m, outcome) op).2
      cases op <;> exact ⟨hrest.1, hrest.2, hrest.3, hrest.4, hrest.5⟩

theorem observe_processDelta (m : PeatMesh D) (sourceNode : NodeId) (data : Bytes) (nowMs : UInt64)
    (relay : RelayInfo) :
    observe (m.processDeltaDocumentInternal sourceNode data nowMs relay) =
      m.observeEffect relay (m.deltaEffect data) := by
  unfold processDeltaDocumentInternal deltaEffect acceptsDelta
  cases DeltaDocument.decode data with
  | none => rfl
  | some delta =>
      by_cases hown : delta.originNode = m.config.nodeId
      · simp only [Option.bind_some, if_pos hown]
        rfl
      · have happlied := appliedTo_foldl delta.originNode delta.operations m DeltaOutcome.start
        simp only [Option.bind_some, if_neg hown]
        simp only [observe, observeEffect, shared, recordDeltaReceived, applyOperations,
          happlied.documentSync, happlied.seenCache, happlied.peripherals, happlied.appDocuments,
          Option.bind_some, if_true]

theorem observe_mergeFromNode (m : PeatMesh D) (sourceNode : NodeId) (data : Bytes) (nowMs : UInt64)
    (relay : RelayInfo) :
    observe (m.mergeFromNode sourceNode data nowMs relay) =
      m.observeEffect relay (m.mergeAndStoreEffect data) := by
  unfold mergeFromNode mergeAndStoreEffect
  rw [DocumentSync.mergeDocument_eq]
  cases m.documentSync.accepts data with
  | none => rfl
  | some received =>
      cases hp : received.peripheral <;>
        simp [observe, observeEffect, shared, recordSync, storePeerPeripheral, storedPeripheral,
          mergedResult, DocumentSync.mergeReceived, hp]

theorem observe_processDecrypted (m : PeatMesh D) (sourceNode : NodeId) (data : Bytes)
    (nowMs : UInt64) (relay : RelayInfo) :
    observe (m.processDecrypted sourceNode data nowMs relay) =
      m.observeEffect relay (m.knownEffect data) := by
  unfold processDecrypted knownEffect
  split
  · exact m.observe_processDelta sourceNode data nowMs relay
  · exact m.observe_mergeFromNode sourceNode data nowMs relay

theorem observe_mergeIncoming (m : PeatMesh D) (identifier : String) (data : Bytes) (nowMs : UInt64)
    (relay : RelayInfo) :
    observe (m.mergeIncoming identifier data nowMs relay) =
      m.observeEffect relay (m.mergeEffect data) := by
  unfold mergeIncoming mergeEffect
  rw [DocumentSync.mergeDocument_eq]
  cases m.documentSync.accepts data with
  | none => rfl
  | some received =>
      cases ho : relay.originNode <;>
        simp [observe, observeEffect, shared, recordSync, registerSource, mergedResult]

theorem shared_processAnonymous (m : PeatMesh D) (identifier : String) (data : Bytes)
    (nowMs : UInt64) :
    (m.processAnonymous identifier data nowMs).1.shared = m.anonymousEffect data := by
  unfold processAnonymous anonymousEffect
  split_ifs with hshort hdelta happ
  · rfl
  · -- Registering the identifier changes nothing the delta looks at.
    exact congrArg Observation.shared (observe_processDelta _ _ data nowMs RelayInfo.direct)
  · rfl
  · unfold mergeEffect
    dsimp only
    rw [DocumentSync.mergeDocument_eq]
    cases m.documentSync.accepts data <;> rfl

/-! ## Unwrapping -/

/-- What an envelope holds, unless it is malformed or a duplicate, and the cache afterwards. -/
def unwrapEnvelope (m : PeatMesh D) (data : Bytes) (nowMs : UInt64) :
    SeenMessageCache × Option (Bytes × RelayInfo) :=
  match RelayEnvelope.decode data with
  | none => (m.seenCache, none)
  | some envelope =>
      let marked := m.seenCache.markSeen envelope.messageId envelope.originNode nowMs
      let relayData := if envelope.canRelay && m.config.enableRelay then
        envelope.relay.map RelayEnvelope.encode else none
      (marked.1, if marked.2 then
        some (envelope.payload, ⟨relayData, some envelope.originNode, envelope.hopCount⟩) else none)

/-- The document bytes in a message. Key exchanges and end-to-end messages hold none. -/
def unwrap (m : PeatMesh D) (data : Bytes) (nowMs : UInt64) :
    SeenMessageCache × Option (Bytes × RelayInfo) :=
  if data.length ≥ 2 then
    if byteAt data 0 = keyExchangeMarker then (m.seenCache, none)
    else if byteAt data 0 = peerE2eeMarker then (m.seenCache, none)
    else if byteAt data 0 = relayEnvelopeMarker then m.unwrapEnvelope data nowMs
    else (m.seenCache, some (data, RelayInfo.direct))
  else (m.seenCache, some (data, RelayInfo.direct))

/-- Unwrapped bytes are decrypted and, if that succeeds, have their effect. -/
def conclude (m : PeatMesh D) (effect : Bytes → Effect D)
    (unwrapped : SeenMessageCache × Option (Bytes × RelayInfo)) : Observation D :=
  match unwrapped.2 with
  | none => ⟨m.shared, unwrapped.1, none⟩
  | some (document, relay) =>
      match m.decryptDocument crypto document with
      | none => ⟨m.shared, unwrapped.1, none⟩
      | some plaintext =>
          ⟨(effect plaintext).1, unwrapped.1,
            if (effect plaintext).2 then relay.relayData else none⟩

theorem observe_handleKeyExchange (m : PeatMesh D) (data : Bytes) (nowMs : UInt64) :
    observe ((m.handleKeyExchange crypto data nowMs).1, none) = ⟨m.shared, m.seenCache, none⟩ := by
  unfold handleKeyExchange
  split_ifs
  · rfl
  · split <;> rfl

theorem observe_handlePeerE2eeMessage (m : PeatMesh D) (data : Bytes) (nowMs : UInt64) :
    observe ((m.handlePeerE2eeMessage crypto data nowMs).1, none) =
      ⟨m.shared, m.seenCache, none⟩ := by
  unfold handlePeerE2eeMessage
  split_ifs
  · rfl
  · split <;> rfl

/-- An entry point whose relay and document paths agree with an effect agrees with it as a
whole. -/
theorem observe_dispatch {m : PeatMesh D} {data : Bytes} {nowMs : UInt64}
    {onRelay onDocument : PeatMesh D × Option DataReceivedResult} {effect : Bytes → Effect D}
    (hrelay : observe onRelay = m.conclude crypto effect (m.unwrapEnvelope data nowMs))
    (hdocument : observe onDocument =
      m.conclude crypto effect (m.seenCache, some (data, RelayInfo.direct))) :
    observe (m.dispatch crypto data nowMs onRelay onDocument) =
      m.conclude crypto effect (m.unwrap data nowMs) := by
  unfold dispatch unwrap
  split_ifs
  · exact m.observe_handleKeyExchange crypto data nowMs
  · exact m.observe_handlePeerE2eeMessage crypto data nowMs
  · exact hrelay
  · exact hdocument
  · exact hdocument

theorem observe_processDocumentData (m : PeatMesh D) (sourceNode : NodeId) (data : Bytes)
    (nowMs : UInt64) (relay : RelayInfo) :
    observe (m.processDocumentData crypto sourceNode data nowMs relay) =
      m.conclude crypto m.knownEffect (m.seenCache, some (data, relay)) := by
  unfold processDocumentData conclude
  dsimp only
  cases m.decryptDocument crypto data with
  | none => rfl
  | some plaintext => exact m.observe_processDecrypted sourceNode plaintext nowMs relay

theorem observe_processIncomingDocument (m : PeatMesh D) (identifier : String) (data : Bytes)
    (nowMs : UInt64) (relay : RelayInfo) :
    observe (m.processIncomingDocument crypto identifier data nowMs relay) =
      m.conclude crypto m.mergeEffect (m.seenCache, some (data, relay)) := by
  unfold processIncomingDocument conclude
  dsimp only
  cases m.decryptDocument crypto data with
  | none => rfl
  | some plaintext => exact m.observe_mergeIncoming identifier plaintext nowMs relay

/-! ## The entry points -/

theorem observe_onBleDataReceived {m : PeatMesh D} {identifier : String} {nodeId : NodeId}
    (hknown : m.peerManager.getNodeId identifier = some nodeId) (data : Bytes) (nowMs : UInt64) :
    observe (m.onBleDataReceived crypto identifier data nowMs) =
      m.conclude crypto m.knownEffect (m.unwrap data nowMs) := by
  unfold onBleDataReceived
  rw [hknown]
  refine observe_dispatch crypto ?_ (m.observe_processDocumentData crypto nodeId data nowMs _)
  unfold handleRelayEnvelopeWithIdentifier unwrapEnvelope
  cases RelayEnvelope.decode data with
  | none => rfl
  | some envelope =>
      dsimp only [markMessageSeen]
      by_cases hnew :
          (m.seenCache.markSeen envelope.messageId envelope.originNode nowMs).2 = true
      · simp only [if_pos hnew]
        exact observe_processDocumentData crypto _ nodeId envelope.payload nowMs _
      · simp only [if_neg hnew]
        rfl

theorem noteRelayPath_eq (m : PeatMesh D) (sourcePeer : NodeId) (envelope : RelayEnvelope)
    (nowMs : UInt64) :
    ∃ graph, m.noteRelayPath sourcePeer envelope nowMs = { m with connectionGraph := graph } := by
  unfold noteRelayPath
  split_ifs
  · exact ⟨_, rfl⟩
  · exact ⟨m.connectionGraph, rfl⟩

theorem noteIncomingPath_eq (m : PeatMesh D) (identifier : String) (envelope : RelayEnvelope)
    (nowMs : UInt64) :
    ∃ graph, m.noteIncomingPath identifier envelope nowMs = { m with connectionGraph := graph } := by
  unfold noteIncomingPath
  cases m.peerManager.getNodeId identifier with
  | none => exact ⟨m.connectionGraph, rfl⟩
  | some sourcePeer => exact m.noteRelayPath_eq sourcePeer envelope nowMs

/-- The relay decision forwards the same bytes as the check made inline elsewhere. -/
theorem relayDecision_relayData (m : PeatMesh D) (envelope : RelayEnvelope) :
    (if (m.relayDecision envelope).shouldRelay then
        (m.relayDecision envelope).relayEnvelope.map RelayEnvelope.encode else none) =
      if envelope.canRelay && m.config.enableRelay then envelope.relay.map RelayEnvelope.encode
        else none := by
  unfold relayDecision
  cases envelope.canRelay <;> cases m.config.enableRelay <;> rfl

theorem relayDecision_payload (m : PeatMesh D) (envelope : RelayEnvelope) :
    (m.relayDecision envelope).payload = envelope.payload ∧
      (m.relayDecision envelope).originNode = envelope.originNode ∧
      (m.relayDecision envelope).hopCount = envelope.hopCount := by
  unfold relayDecision
  split_ifs <;> exact ⟨rfl, rfl, rfl⟩

theorem observe_onBleDataReceivedFromNode (m : PeatMesh D) (nodeId : NodeId) (data : Bytes)
    (nowMs : UInt64) :
    observe (m.onBleDataReceivedFromNode crypto nodeId data nowMs) =
      m.conclude crypto m.knownEffect (m.unwrap data nowMs) := by
  unfold onBleDataReceivedFromNode
  refine observe_dispatch crypto ?_ (m.observe_processDocumentData crypto nodeId data nowMs _)
  unfold handleRelayEnvelope processRelayEnvelope unwrapEnvelope
  cases RelayEnvelope.decode data with
  | none => rfl
  | some envelope =>
      obtain ⟨graph, hnoted⟩ := m.noteRelayPath_eq nodeId envelope nowMs
      dsimp only [markMessageSeen]
      rw [hnoted]
      by_cases hnew :
          (m.seenCache.markSeen envelope.messageId envelope.originNode nowMs).2 = true
      · obtain ⟨hpayload, horigin, hhops⟩ := m.relayDecision_payload envelope
        simp only [if_pos hnew, relayDecision_relayData, hpayload, horigin, hhops]
        exact observe_processDocumentData crypto _ nodeId envelope.payload nowMs _
      · simp only [if_neg hnew]
        rfl

theorem observe_onBleData (m : PeatMesh D) (identifier : String) (data : Bytes) (nowMs : UInt64) :
    observe (m.onBleData crypto identifier data nowMs) =
      m.conclude crypto m.mergeEffect (m.unwrap data nowMs) := by
  unfold onBleData
  refine observe_dispatch crypto ?_ (m.observe_processIncomingDocument crypto identifier data nowMs _)
  unfold handleRelayEnvelopeWithIncoming unwrapEnvelope
  cases RelayEnvelope.decode data with
  | none => rfl
  | some envelope =>
      obtain ⟨graph, hnoted⟩ := m.noteIncomingPath_eq identifier envelope nowMs
      dsimp only [markMessageSeen]
      rw [hnoted]
      by_cases hnew :
          (m.seenCache.markSeen envelope.messageId envelope.originNode nowMs).2 = true
      · simp only [if_pos hnew]
        exact observe_processIncomingDocument crypto _ identifier envelope.payload nowMs _
      · simp only [if_neg hnew]
        rfl

end PeatMesh

end PeatBtle
