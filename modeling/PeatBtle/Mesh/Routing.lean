import PeatBtle.Mesh.Run

/-!
# Telling documents apart

A plain document has no marker of its own: it starts with the low byte of its
version. It is recognised as a document only while that byte is not one of the
five markers that are looked for first.
-/

namespace PeatBtle

open Wire

/-- The branch of the receiver that some bytes end up in. -/
inductive Route where
  | keyExchange
  | peerE2ee
  | relayEnvelope
  | encrypted
  | delta
  | legacy
deriving DecidableEq

/-- The bytes that stand for something else than a plain document. -/
def claimedMarkers : List UInt8 :=
  [encryptedMarker, peerE2eeMarker, keyExchangeMarker, relayEnvelopeMarker, deltaDocumentMarker]

def route (data : Bytes) : Route :=
  if data.length ≥ 2 ∧ byteAt data 0 = keyExchangeMarker then .keyExchange
  else if data.length ≥ 2 ∧ byteAt data 0 = peerE2eeMarker then .peerE2ee
  else if data.length ≥ 2 ∧ byteAt data 0 = relayEnvelopeMarker then .relayEnvelope
  else if data.length ≥ 2 ∧ byteAt data 0 = encryptedMarker then .encrypted
  else if DeltaDocument.isDeltaDocument data then .delta
  else .legacy

theorem route_eq_legacy_iff {data : Bytes} (h : 2 ≤ data.length) :
    route data = .legacy ↔ byteAt data 0 ∉ claimedMarkers := by
  have hnonempty : data.isEmpty = false := by
    cases data with
    | nil => simp at h
    | cons byte rest => rfl
  unfold route
  simp only [ge_iff_le, h, true_and, DeltaDocument.isDeltaDocument, hnonempty, Bool.not_false,
    Bool.true_and, beq_iff_eq, claimedMarkers, List.mem_cons, List.not_mem_nil, or_false]
  split_ifs <;> simp_all

namespace PeatMesh

variable {D : Type} (crypto : Crypto)

/-- What each branch does in a node without encryption. -/
def follow (m : PeatMesh D) (nodeId : NodeId) (data : Bytes) (nowMs : UInt64) :
    Route → PeatMesh D × Option DataReceivedResult
  | .keyExchange => ((m.handleKeyExchange crypto data nowMs).1, none)
  | .peerE2ee => ((m.handlePeerE2eeMessage crypto data nowMs).1, none)
  | .relayEnvelope => m.handleRelayEnvelopeWithIdentifier crypto nodeId data nowMs
  | .encrypted => (m, none)
  | .delta => m.processDeltaDocumentInternal nodeId data nowMs RelayInfo.direct
  | .legacy => m.mergeFromNode nodeId data nowMs RelayInfo.direct

/-- Who the bytes are taken to come from and the branch they end up in. Bytes from an unknown
identifier are dropped. -/
def arrival (m : PeatMesh D) (identifier : String) (data : Bytes) : Option (NodeId × Route) :=
  (m.peerManager.getNodeId identifier).map fun nodeId => (nodeId, route data)

def followArrival (m : PeatMesh D) (data : Bytes) (nowMs : UInt64) :
    Option (NodeId × Route) → PeatMesh D × Option DataReceivedResult
  | none => (m, none)
  | some (nodeId, branch) => m.follow crypto nodeId data nowMs branch

theorem processDocumentData_of_plain {m : PeatMesh D} (hkey : m.encryptionKey = none)
    (nodeId : NodeId) (data : Bytes) (nowMs : UInt64) (relay : RelayInfo) :
    m.processDocumentDataWithIdentifier crypto nodeId data nowMs relay =
      if data.length ≥ 2 ∧ byteAt data 0 = encryptedMarker then (m, none)
      else m.processDecrypted nodeId data nowMs relay := by
  unfold processDocumentDataWithIdentifier decryptDocument
  by_cases hmarked : data.length ≥ 2 ∧ byteAt data 0 = encryptedMarker
  · simp only [if_pos hmarked, hkey]
  · simp [if_neg hmarked, hkey]

/-- Without encryption the receiver follows the route of the bytes. -/
theorem onBleDataReceived_eq_follow {m : PeatMesh D} (hkey : m.encryptionKey = none)
    (identifier : String) (data : Bytes) (nowMs : UInt64) :
    m.onBleDataReceived crypto identifier data nowMs =
      m.followArrival crypto data nowMs (m.arrival identifier data) := by
  unfold onBleDataReceived arrival
  cases m.peerManager.getNodeId identifier with
  | none => rfl
  | some nodeId =>
      simp only [dispatch, processDocumentData_of_plain crypto hkey, processDecrypted,
        Option.map_some, followArrival, route]
      by_cases hlen : data.length ≥ 2
      · simp only [hlen, true_and, if_true]
        split_ifs <;> rfl
      · simp only [hlen, false_and, if_false]
        split_ifs <;> rfl

end PeatMesh

namespace DocumentSync

theorem byteAt_buildDocument (s : DocumentSync) : byteAt s.buildDocument 0 = s.version.toUInt8 :=
  rfl

theorem two_le_buildDocument (s : DocumentSync) : 2 ≤ s.buildDocument.length := by
  rw [buildDocument, PeatDocument.encode_length]
  omega

/-- The document of any node, whatever it has lived through, reaches the merge of a node without
encryption exactly when that node knows where the bytes come from and the low byte of the version
is not a marker. -/
theorem legacy_document_reaches_merge_iff {D : Type} (crypto : Crypto) (node : NodeId)
    (callsign : String) (kind : PeripheralType) (actions : List Action) (m : PeatMesh D)
    (hkey : m.encryptionKey = none) (identifier : String) (nowMs : UInt64) :
    let sender := (withPeripheralType node callsign kind).run actions
    m.onBleDataReceived crypto identifier sender.buildDocument nowMs =
        m.followArrival crypto sender.buildDocument nowMs
          (m.arrival identifier sender.buildDocument) ∧
      ((∃ source, m.arrival identifier sender.buildDocument = some (source, .legacy)) ↔
        (m.peerManager.getNodeId identifier).isSome = true ∧
          sender.version.toUInt8 ∉ claimedMarkers) := by
  intro sender
  refine ⟨PeatMesh.onBleDataReceived_eq_follow crypto hkey identifier _ _, ?_⟩
  rw [← byteAt_buildDocument, ← route_eq_legacy_iff sender.two_le_buildDocument, PeatMesh.arrival]
  cases m.peerManager.getNodeId identifier with
  | none => simp
  | some source => simp

/-- A node after a number of battery reports, each of which bumps its version. -/
def reporting (reports : Nat) : DocumentSync :=
  (new 0x11111111 "ALPHA-1").run (List.replicate reports (.mutate (.updateHealth 50)))

/-- After 173 reports the version is 174, whose byte announces an encrypted document. The
receiver drops it, though the merge would take it. -/
theorem version_174_taken_for_encrypted :
    let document := (reporting 173).buildDocument
    let received := PeatMesh.plainReceiver.onBleDataReceived .unavailable "central" document 2000
    PeatMesh.plainReceiver.arrival "central" document = some (0x11111111, .encrypted) ∧
      received.2 = none ∧
      (PeatMesh.plainReceiver.documentSync.mergeDocument document).2.isSome = true := by
  decide +kernel

theorem reporting_reaches_merge :
    ∃ source, PeatMesh.plainReceiver.arrival "central" (reporting 2).buildDocument =
      some (source, .legacy) :=
  (legacy_document_reaches_merge_iff .unavailable 0x11111111 "ALPHA-1" .soldierSensor
    (List.replicate 2 (.mutate (.updateHealth 50))) PeatMesh.plainReceiver (by decide) "central"
    2000).2.mpr (by decide)

end DocumentSync

end PeatBtle
