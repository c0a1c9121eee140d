import PeatBtle.Mesh.Effect

/-!
# What receiving preserves

Received bytes change a node through a few small steps: a session, the cache of
seen messages, a path, the tables behind a document. A relation that holds across
each of these holds across every receive path. Only a direct document of an
unknown sender does more, it registers its author as a peer.
-/

namespace PeatBtle

open Wire

namespace PeatMesh

variable {D : Type} (crypto : Crypto)

/-- The relation holds across every small step of receiving. -/
structure Spans (R : PeatMesh D → PeatMesh D → Prop) : Prop where
  refl : ∀ m, R m m
  trans : ∀ m middle after, R m middle → R middle after → R m after
  session : ∀ m sessions, R m { m with peerSessions := sessions }
  seen : ∀ m cache, R m { m with seenCache := cache }
  path : ∀ m indirect, R m { m with
    connectionGraph := { m.connectionGraph with indirectPeers := indirect } }
  identifier : ∀ m identifier node, R m { m with
    peerManager := m.peerManager.registerIdentifier identifier node }
  synced : ∀ m node nowMs, R m (m.recordSync node nowMs)
  counted : ∀ m peer bytes timestamp, R m (m.recordDeltaReceived peer bytes timestamp)
  peripherals : ∀ m peripherals, R m { m with peerPeripherals := peripherals }
  appDocuments : ∀ m docs, R m { m with appDocuments := docs }
  merged : ∀ m data, R m { m with documentSync := (m.documentSync.mergeDocument data).1 }

/-- The author of a direct document, whom an unknown identifier is registered for. -/
def directAuthor (m : PeatMesh D) (data : Bytes) : Option NodeId :=
  if data.length ≥ 2 ∧ (byteAt data 0 = keyExchangeMarker ∨ byteAt data 0 = peerE2eeMarker ∨
      byteAt data 0 = relayEnvelopeMarker) then none
  else (m.decryptDocument crypto data).bind fun decrypted =>
    (m.documentSync.accepts decrypted).map PeatDocument.nodeId

section Dispatch

variable {m : PeatMesh D} {data : Bytes} {nowMs : UInt64}
  {onRelay onDocument other : PeatMesh D × Option DataReceivedResult}

theorem dispatch_of_unmarked (h : ¬ (data.length ≥ 2 ∧ (byteAt data 0 = keyExchangeMarker ∨
      byteAt data 0 = peerE2eeMarker ∨ byteAt data 0 = relayEnvelopeMarker))) :
    m.dispatch crypto data nowMs onRelay onDocument = onDocument := by
  unfold dispatch
  split_ifs with hlong hkey hpeer hrelay
  · exact absurd ⟨hlong, Or.inl hkey⟩ h
  · exact absurd ⟨hlong, Or.inr (Or.inl hpeer)⟩ h
  · exact absurd ⟨hlong, Or.inr (Or.inr hrelay)⟩ h
  · rfl
  · rfl

theorem dispatch_of_marked (h : data.length ≥ 2 ∧ (byteAt data 0 = keyExchangeMarker ∨
      byteAt data 0 = peerE2eeMarker ∨ byteAt data 0 = relayEnvelopeMarker)) :
    m.dispatch crypto data nowMs onRelay onDocument =
      m.dispatch crypto data nowMs onRelay other := by
  unfold dispatch
  rw [if_pos h.1, if_pos h.1]
  split_ifs with hkey hpeer hrelay
  · rfl
  · rfl
  · rfl
  · rcases h.2 with hmark | hmark | hmark
    · exact absurd hmark hkey
    · exact absurd hmark hpeer
    · exact absurd hmark hrelay

end Dispatch

namespace Spans

variable {R : PeatMesh D → PeatMesh D → Prop} (h : Spans R)
include h

section Receive

variable (m : PeatMesh D) (data : Bytes) (nowMs : UInt64) (relay : RelayInfo)

theorem dispatch {onRelay onDocument : PeatMesh D × Option DataReceivedResult}
    (hrelay : R m onRelay.1) (hdocument : R m onDocument.1) :
    R m (m.dispatch crypto data nowMs onRelay onDocument).1 := by
  unfold PeatMesh.dispatch
  split_ifs
  · unfold handleKeyExchange
    split_ifs
    · exact h.refl m
    · split
      · exact h.session ..
      · exact h.refl m
  · unfold handlePeerE2eeMessage
    split_ifs
    · exact h.refl m
    · split
      · exact h.session ..
      · exact h.refl m
  · exact hrelay
  · exact hdocument
  · exact hdocument

theorem applyOperations (origin : NodeId) (operations : List Operation) (m : PeatMesh D)
    (outcome : DeltaOutcome) :
    R m (operations.foldl (applyOperation origin) (m, outcome)).1 := by
  induction operations generalizing m outcome with
  | nil => exact h.refl m
  | cons op operations ih =>
      have hfirst : R m (applyOperation origin (m, outcome) op).1 := by
        cases op with
        | updatePeripheral => exact h.peripherals ..
        | app => exact h.appDocuments ..
        | _ => exact h.refl m
      exact h.trans _ _ _ hfirst (ih _ (applyOperation origin (m, outcome) op).2)

theorem processDelta (sourceNode : NodeId) :
    R m (m.processDeltaDocumentInternal sourceNode data nowMs relay).1 := by
  unfold processDeltaDocumentInternal
  cases DeltaDocument.decode data with
  | none => exact h.refl m
  | some delta =>
      dsimp only
      split_ifs
      · exact h.refl m
      · refine h.trans _ _ _
          (h.applyOperations delta.originNode delta.operations m DeltaOutcome.start) ?_
        exact h.trans _ _ _ (h.synced _ sourceNode nowMs) (h.counted ..)

theorem mergeFromNode (sourceNode : NodeId) :
    R m (m.mergeFromNode sourceNode data nowMs relay).1 := by
  have hmerged := h.merged m data
  unfold PeatMesh.mergeFromNode
  dsimp only
  cases (m.documentSync.mergeDocument data).2 with
  | none => exact hmerged
  | some result =>
      refine h.trans _ _ _ hmerged (h.trans _ _ _ ?_ (h.synced ..))
      unfold storePeerPeripheral
      split
      · exact h.peripherals ..
      · exact h.refl _

theorem processDecrypted (sourceNode : NodeId) :
    R m (m.processDecrypted sourceNode data nowMs relay).1 := by
  unfold PeatMesh.processDecrypted
  split_ifs
  · exact h.processDelta m data nowMs relay sourceNode
  · exact h.mergeFromNode m data nowMs relay sourceNode

theorem processDocumentData (sourceNode : NodeId) :
    R m (m.processDocumentData crypto sourceNode data nowMs relay).1 := by
  unfold PeatMesh.processDocumentData
  cases m.decryptDocument crypto data with
  | none => exact h.refl m
  | some decrypted => exact h.processDecrypted m decrypted nowMs relay sourceNode

theorem processAnonymous (identifier : String) :
    R m (m.processAnonymous identifier data nowMs).1 := by
  unfold PeatMesh.processAnonymous
  dsimp only
  have hregistered := h.identifier m identifier (u32At data 4)
  split_ifs
  · exact h.refl m
  · exact h.trans _ _ _ hregistered (h.processDelta ..)
  · exact hregistered
  · refine h.trans _ _ _ hregistered ?_
    have hmerged := h.merged
      { m with peerManager := m.peerManager.registerIdentifier identifier (u32At data 4) } data
    cases (m.documentSync.mergeDocument data).2 with
    | none => exact hmerged
    | some result => exact h.trans _ _ _ hmerged (h.synced ..)

theorem noteRelayPath (sourcePeer : NodeId) (envelope : RelayEnvelope) :
    R m (m.noteRelayPath sourcePeer envelope nowMs) := by
  unfold PeatMesh.noteRelayPath ConnectionStateGraph.onRelayReceived
  split_ifs
  · exact h.path m m.connectionGraph.indirectPeers
  · exact h.path m m.connectionGraph.indirectPeers
  · exact h.path ..
  · exact h.refl m

theorem processRelayEnvelope (sourcePeer : NodeId) :
    R m (m.processRelayEnvelope data sourcePeer nowMs).1 := by
  unfold PeatMesh.processRelayEnvelope
  cases RelayEnvelope.decode data with
  | none => exact h.refl m
  | some envelope =>
      exact h.trans _ _ _ (h.noteRelayPath m nowMs sourcePeer envelope) (h.seen ..)

theorem onBleDataReceived (identifier : String) :
    R m (m.onBleDataReceived crypto identifier data nowMs).1 := by
  unfold PeatMesh.onBleDataReceived
  cases m.peerManager.getNodeId identifier with
  | none => exact h.refl m
  | some nodeId =>
      refine h.dispatch crypto m data nowMs ?_ (h.processDocumentData ..)
      unfold handleRelayEnvelopeWithIdentifier
      cases RelayEnvelope.decode data with
      | none => exact h.refl m
      | some envelope =>
          have hseen : R m (m.markMessageSeen envelope.messageId envelope.originNode nowMs).1 :=
            h.seen ..
          dsimp only
          by_cases hnew : (m.markMessageSeen envelope.messageId envelope.originNode nowMs).2 = true
          · rw [if_pos hnew]
            exact h.trans _ _ _ hseen (h.processDocumentData ..)
          · rw [if_neg hnew]
            exact hseen

theorem onBleDataReceivedFromNode (nodeId : NodeId) :
    R m (m.onBleDataReceivedFromNode crypto nodeId data nowMs).1 := by
  refine h.dispatch crypto m data nowMs ?_ (h.processDocumentData ..)
  have henvelope := h.processRelayEnvelope m data nowMs nodeId
  unfold handleRelayEnvelope
  dsimp only
  cases (m.processRelayEnvelope data nodeId nowMs).2 with
  | none => exact henvelope
  | some decision => exact h.trans _ _ _ henvelope (h.processDocumentData ..)

theorem onBleDataReceivedAnonymous (identifier : String) :
    R m (m.onBleDataReceivedAnonymous crypto identifier data nowMs).1 := by
  unfold PeatMesh.onBleDataReceivedAnonymous
  cases m.decryptDocument crypto data with
  | none => exact h.refl m
  | some decrypted => exact h.processAnonymous m decrypted nowMs identifier

theorem mergeIncoming_relayed {identifier : String} {origin : NodeId}
    (horigin : relay.originNode = some origin) :
    R m (m.mergeIncoming identifier data nowMs relay).1 := by
  have hmerged := h.merged m data
  unfold PeatMesh.mergeIncoming
  dsimp only
  cases (m.documentSync.mergeDocument data).2 with
  | none => exact hmerged
  | some result =>
      dsimp only
      rw [horigin]
      exact h.trans _ _ _ hmerged (h.synced ..)

theorem relayed (identifier : String) :
    R m (m.handleRelayEnvelopeWithIncoming crypto identifier data nowMs).1 := by
  unfold handleRelayEnvelopeWithIncoming
  cases RelayEnvelope.decode data with
  | none => exact h.refl m
  | some envelope =>
      have hnoted : R m (m.noteIncomingPath identifier envelope nowMs) := by
        unfold noteIncomingPath
        cases m.peerManager.getNodeId identifier with
        | none => exact h.refl m
        | some sourcePeer => exact h.noteRelayPath m nowMs sourcePeer envelope
      dsimp only
      generalize m.noteIncomingPath identifier envelope nowMs = noted at hnoted ⊢
      have hseen : R m (noted.markMessageSeen envelope.messageId envelope.originNode nowMs).1 :=
        h.trans _ _ _ hnoted (h.seen ..)
      by_cases hnew : (noted.markMessageSeen envelope.messageId envelope.originNode nowMs).2 = true
      · rw [if_pos hnew]
        refine h.trans _ _ _ hseen ?_
        unfold processIncomingDocument
        split
        · exact h.refl _
        · exact h.mergeIncoming_relayed _ _ _ _ rfl
      · rw [if_neg hnew]
        exact hseen

/-- Bytes under any identifier either hold no direct document or register its author at last. -/
theorem onBleData (identifier : String) :
    match m.directAuthor crypto data with
    | none => R m (m.onBleData crypto identifier data nowMs).1
    | some author => ∃ base, R m base ∧
        (m.onBleData crypto identifier data nowMs).1 =
          base.registerSource identifier author nowMs := by
  unfold PeatMesh.onBleData
  by_cases hmarked : data.length ≥ 2 ∧ (byteAt data 0 = keyExchangeMarker ∨
      byteAt data 0 = peerE2eeMarker ∨ byteAt data 0 = relayEnvelopeMarker)
  · rw [show m.directAuthor crypto data = none from if_pos hmarked]
    have hdispatch := @dispatch _ crypto R h m data nowMs _ (m, none)
      (h.relayed crypto m data nowMs identifier) (h.refl m)
    rwa [dispatch_of_marked crypto hmarked]
  · rw [dispatch_of_unmarked crypto hmarked]
    rw [show m.directAuthor crypto data = _ from if_neg hmarked]
    unfold processIncomingDocument
    cases m.decryptDocument crypto data with
    | none => exact h.refl m
    | some decrypted =>
        have hmerged := h.merged m decrypted
        unfold mergeIncoming
        dsimp only [Option.bind_some]
        rw [DocumentSync.mergeDocument_eq] at hmerged ⊢
        generalize m.documentSync.accepts decrypted = accepted at hmerged ⊢
        cases accepted with
        | none => exact hmerged
        | some received => exact ⟨_, h.trans _ _ _ hmerged (h.synced ..), rfl⟩

end Receive

end Spans

end PeatMesh

end PeatBtle
