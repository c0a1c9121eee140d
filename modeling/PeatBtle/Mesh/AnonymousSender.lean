import PeatBtle.Mesh.Effect

/-!
# Anonymous senders

The sender of bytes from an unknown identifier is read at the place where a plain
document has its author, and registered before the document is looked at. A delta
has its origin two bytes earlier, and a document that is then refused has been
registered all the same.
-/

namespace PeatBtle

open Wire

namespace PeatMesh

variable {D : Type} (crypto : Crypto) (m : PeatMesh D)

/-- The author that a document names, where its format has it. App-layer messages name none. -/
def statedAuthor (decrypted : Bytes) : Option NodeId :=
  if DeltaDocument.isDeltaDocument decrypted then
    (DeltaDocument.decode decrypted).map DeltaDocument.originNode
  else if byteAt decrypted 0 = appLayerMarker then none
  else (PeatDocument.decode decrypted).map PeatDocument.nodeId

/-- Accepted bytes lead from the identifier to the author they name, refused bytes leave all
identifiers as they were. -/
def RegistersAuthor (identifier : String) (plaintext : Option Bytes)
    (received : PeatMesh D × Option DataReceivedResult) : Prop :=
  (received.2.isSome = true → ∀ author, plaintext.bind statedAuthor = some author →
    received.1.peerManager.getNodeId identifier = some author) ∧
  (received.2 = none → received.1.peerManager.identifierMap = m.peerManager.identifierMap)

/-- The bytes hold something that the node takes. -/
def takes (decrypted : Bytes) : Bool :=
  if DeltaDocument.isDeltaDocument decrypted then (m.acceptsDelta decrypted).isSome
  else byteAt decrypted 0 == appLayerMarker || (m.documentSync.accepts decrypted).isSome

/-- What is read at the place of a plain author is right: of a delta that is taken its origin, and
of bytes that are not taken what the identifier leads to already. -/
def AuthorInPlace (identifier : String) (decrypted : Bytes) : Prop :=
  if m.takes decrypted then
    DeltaDocument.isDeltaDocument decrypted = true → u32At decrypted 4 = u32At decrypted 2
  else m.peerManager.getNodeId identifier = some (u32At decrypted 4)

theorem peerManager_applyOperations (origin : NodeId) (operations : List Operation)
    (m : PeatMesh D) (outcome : DeltaOutcome) :
    (operations.foldl (applyOperation origin) (m, outcome)).1.peerManager = m.peerManager := by
  induction operations generalizing m outcome with
  | nil => rfl
  | cons op operations ih =>
      rw [List.foldl_cons, ih]
      cases op <;> rfl

theorem processDelta_spec (sourceNode : NodeId) (data : Bytes) (nowMs : UInt64) (relay : RelayInfo) :
    (m.processDeltaDocumentInternal sourceNode data nowMs relay).1.peerManager.identifierMap =
        m.peerManager.identifierMap ∧
      (m.processDeltaDocumentInternal sourceNode data nowMs relay).2.isSome =
        (m.acceptsDelta data).isSome := by
  unfold processDeltaDocumentInternal acceptsDelta
  cases DeltaDocument.decode data with
  | none => exact ⟨rfl, rfl⟩
  | some delta =>
      by_cases hown : delta.originNode = m.config.nodeId
      · dsimp only
        rw [Option.bind_some, if_pos hown, if_pos hown]
        exact ⟨rfl, rfl⟩
      · have hmap := congrArg PeerManager.identifierMap
          (peerManager_applyOperations delta.originNode delta.operations m DeltaOutcome.start)
        dsimp only
        rw [Option.bind_some, if_neg hown, if_neg hown]
        exact ⟨hmap, rfl⟩

/-- Whatever becomes of the bytes, the identifier is registered for what is read from them. -/
theorem processAnonymous_spec (identifier : String) {decrypted : Bytes} (nowMs : UInt64)
    (hlong : 8 ≤ decrypted.length) :
    (m.processAnonymous identifier decrypted nowMs).1.peerManager.identifierMap =
        m.peerManager.identifierMap.insert identifier (u32At decrypted 4) ∧
      (m.processAnonymous identifier decrypted nowMs).2.isSome = m.takes decrypted := by
  unfold processAnonymous takes
  rw [if_neg (Nat.not_lt.mpr hlong)]
  by_cases hdelta : DeltaDocument.isDeltaDocument decrypted = true
  · rw [if_pos hdelta, if_pos hdelta]
    exact processDelta_spec _ _ _ _ _
  · rw [if_neg hdelta, if_neg hdelta]
    by_cases happ : byteAt decrypted 0 = appLayerMarker
    · rw [if_pos happ, happ]
      exact ⟨rfl, rfl⟩
    · rw [if_neg happ, beq_false_of_ne happ, Bool.false_or]
      dsimp only
      rw [DocumentSync.mergeDocument_eq]
      cases m.documentSync.accepts decrypted <;> exact ⟨rfl, rfl⟩

theorem originNode_of_decode {data : Bytes} {delta : DeltaDocument}
    (h : DeltaDocument.decode data = some delta) : delta.originNode = u32At data 2 := by
  unfold DeltaDocument.decode at h
  split_ifs at h
  obtain ⟨⟨clock, offset⟩, -, h⟩ := Option.bind_eq_some_iff.mp h
  dsimp only at h
  split_ifs at h
  obtain ⟨operations, -, h⟩ := Option.bind_eq_some_iff.mp h
  exact congrArg DeltaDocument.originNode (Option.some.inj h).symm

theorem nodeId_of_decode {data : Bytes} {document : PeatDocument}
    (h : PeatDocument.decode data = some document) : document.nodeId = u32At data 4 := by
  unfold PeatDocument.decode at h
  split_ifs at h
  obtain ⟨counter, -, h⟩ := Option.bind_eq_some_iff.mp h
  exact congrArg PeatDocument.nodeId (Option.some.inj h).symm

/-- Of what is taken, only a delta can have its author elsewhere. -/
theorem statedAuthor_of_takes {decrypted : Bytes} (h : m.takes decrypted = true) :
    (∀ author, statedAuthor decrypted = some author → u32At decrypted 4 = author) ↔
      (DeltaDocument.isDeltaDocument decrypted = true → u32At decrypted 4 = u32At decrypted 2) := by
  unfold takes at h
  unfold statedAuthor
  by_cases hdelta : DeltaDocument.isDeltaDocument decrypted = true
  · rw [if_pos hdelta] at h
    simp only [hdelta, if_true, forall_const]
    unfold acceptsDelta at h
    cases hdecode : DeltaDocument.decode decrypted with
    | none =>
        rw [hdecode] at h
        cases h
    | some delta => simp [originNode_of_decode hdecode]
  · simp only [if_neg hdelta]
    refine iff_of_true (fun author hauthor => ?_) fun hnot => absurd hnot hdelta
    split_ifs at hauthor
    obtain ⟨document, hdecode, rfl⟩ := Option.map_eq_some_iff.mp hauthor
    exact (nodeId_of_decode hdecode).symm

theorem registersAuthor_iff (identifier : String) {decrypted : Bytes} (nowMs : UInt64)
    (hlong : 8 ≤ decrypted.length) :
    m.RegistersAuthor identifier (some decrypted) (m.processAnonymous identifier decrypted nowMs) ↔
      m.AuthorInPlace identifier decrypted := by
  obtain ⟨hmap, hresult⟩ := m.processAnonymous_spec identifier nowMs hlong
  have hfound : (m.processAnonymous identifier decrypted nowMs).1.peerManager.getNodeId identifier =
      some (u32At decrypted 4) := by
    rw [PeerManager.getNodeId, hmap, MapMerge.getElem?_insert_eq, if_pos rfl]
  unfold RegistersAuthor AuthorInPlace
  rw [hfound, hmap, MapMerge.insert_eq_self_iff, ← Option.not_isSome_iff_eq_none, hresult]
  cases htakes : m.takes decrypted with
  | true =>
      rw [if_pos rfl, ← m.statedAuthor_of_takes htakes]
      simp
  | false => simp [PeerManager.getNodeId]

/-- For every node and all bytes from an identifier: what is accepted registers the identifier for
the author it names, and what is refused changes no identifier, if and only if the bytes do not
decrypt, are too short to be looked at, or have the right author at the place of a plain one. -/
theorem anonymous_sender_registered_iff (identifier : String) (data : Bytes) (nowMs : UInt64) :
    m.RegistersAuthor identifier (m.decryptDocument crypto data)
        (m.onBleDataReceivedAnonymous crypto identifier data nowMs) ↔
      ∀ decrypted, m.decryptDocument crypto data = some decrypted → 8 ≤ decrypted.length →
        m.AuthorInPlace identifier decrypted := by
  unfold onBleDataReceivedAnonymous
  cases m.decryptDocument crypto data with
  | none => exact iff_of_true ⟨fun h => absurd h Bool.false_ne_true, fun _ => rfl⟩ fun _ h => by cases h
  | some decrypted =>
      by_cases hlong : 8 ≤ decrypted.length
      · simp only [registersAuthor_iff m identifier nowMs hlong, Option.some.injEq, forall_eq', hlong,
          forall_const]
      · have hshort : m.processAnonymous identifier decrypted nowMs = (m, none) := by
          rw [processAnonymous, if_pos (Nat.not_le.mp hlong)]
        refine iff_of_true ?_ ?_
        · show m.RegistersAuthor identifier _ (m.processAnonymous identifier decrypted nowMs)
          rw [hshort]
          exact ⟨fun h => absurd h Bool.false_ne_true, fun _ => rfl⟩
        · rintro _ ⟨⟩ hlen
          exact absurd hlen hlong

/-- A node without encryption that knows nobody. -/
def doorstep : PeatMesh Unit :=
  PeatMesh.new Crypto.unavailable (PeatMeshConfig.new 0x22222222 "BRAVO-1" "TEST")

/-- A delta of node 0x11111111 without operations. -/
def emptyDelta : DeltaDocument := DeltaDocument.new 0x11111111 1700000000000

/-- The delta is accepted, and its sender registered for two bytes of the origin and two of the time;
eight zeros are refused, and their sender registered for node 0. -/
theorem strangers_registered :
    ((doorstep.onBleDataReceivedAnonymous .unavailable "DC:01" emptyDelta.encode 1000).2.map
        fun result => result.sourceNode) = some 0x11111111 ∧
      (doorstep.onBleDataReceivedAnonymous .unavailable "DC:01" emptyDelta.encode
        1000).1.peerManager.getNodeId "DC:01" = some 0x68001111 ∧
      (doorstep.onBleDataReceivedAnonymous .unavailable "DC:02" (List.replicate 8 0) 1000).2 = none ∧
      doorstep.peerManager.getNodeId "DC:02" = none ∧
      (doorstep.onBleDataReceivedAnonymous .unavailable "DC:02" (List.replicate 8 0)
        1000).1.peerManager.getNodeId "DC:02" = some 0 := by
  decide +kernel

end PeatMesh

end PeatBtle
