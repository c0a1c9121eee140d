import PeatBtle.Gatt.Fragmentation

/-!
# Fragments against the whole

A message that comes in one piece changes the state of the receiver or is acknowledged.
One that comes in fragments is only handed on.
-/

namespace PeatBtle

open Wire

namespace SyncProtocol

section Transparency

variable (p : SyncProtocol) (msgType : SyncMessageType) (seq : UInt16) (chunks : List Bytes)

/-- What is left of the receiver and what it has returned, after the fragments. -/
def receiveFragments (order : List Nat) :
    Option (SyncProtocol × List (SyncMessageType × Bytes)) :=
  (p.receiveAll (order.map fun i => (fragmentAt msgType seq chunks i).encode)).map fun done =>
    (done.1, done.2.filterMap id)

/-- The same, after the whole message. -/
def receiveWhole : Option (SyncProtocol × List (SyncMessageType × Bytes)) :=
  (p.processIncoming (SyncMessage.new msgType seq chunks.flatten).encode).map fun done =>
    (done.1, done.2.toList)

/-- The fragments leave the receiver as the whole message does, and return the same. -/
def Transparent (order : List Nat) : Prop :=
  p.receiveFragments msgType seq chunks order = p.receiveWhole msgType seq chunks

instance (order : List Nat) : Decidable (p.Transparent msgType seq chunks order) :=
  inferInstanceAs (Decidable (_ = _))

/-- The fragments leave the receiver as it was. -/
theorem receiveFragments_eq {chunks : List Bytes} (hchunks : Countable chunks)
    (htype : msgType ≠ .error) (hidle : p.reassembler = none) {order : List Nat}
    (hperm : order.Perm (List.range chunks.length)) :
    p.receiveFragments msgType seq chunks order = some (p, [(msgType, chunks.flatten)]) := by
  rw [receiveFragments, receive_fragments seq p hchunks htype hidle hperm, Option.map_some,
    List.filterMap_append, List.filterMap_replicate_of_none rfl]
  rfl

theorem receiveWhole_syncVector : p.receiveWhole .syncVector seq chunks =
    some ({ p with state := .receivingDocuments }, [(.syncVector, chunks.flatten)]) := by
  rw [receiveWhole, processIncoming, SyncMessage.decode_encode (by simp [SyncMessage.new])]
  rfl

theorem receiveWhole_document : p.receiveWhole .document seq chunks =
    some ({ p with outgoing := p.outgoing ++ [SyncMessage.new .ack seq []] },
      [(.document, chunks.flatten)]) := by
  rw [receiveWhole, processIncoming, SyncMessage.decode_encode (by simp [SyncMessage.new])]
  rfl

theorem transparent_syncVector_iff {chunks : List Bytes} (hchunks : Countable chunks)
    (hidle : p.reassembler = none) {order : List Nat}
    (hperm : order.Perm (List.range chunks.length)) :
    p.Transparent .syncVector seq chunks order ↔ p.state = .receivingDocuments := by
  rw [Transparent, p.receiveFragments_eq .syncVector seq hchunks (by simp) hidle hperm,
    receiveWhole_syncVector, Option.some_inj, Prod.mk.injEq, and_iff_left rfl]
  constructor
  · intro h
    exact congrArg SyncProtocol.state h
  · intro h
    rw [← h]

/-- The acknowledgement of a document is missing. -/
theorem not_transparent_document {chunks : List Bytes} (hchunks : Countable chunks)
    (hidle : p.reassembler = none) {order : List Nat}
    (hperm : order.Perm (List.range chunks.length)) :
    ¬ p.Transparent .document seq chunks order := by
  rw [Transparent, p.receiveFragments_eq .document seq hchunks (by simp) hidle hperm,
    receiveWhole_document, Option.some_inj, Prod.mk.injEq, and_iff_left rfl]
  intro h
  have hlength := congrArg (fun q => q.outgoing.length) h
  rw [List.length_append, List.length_singleton] at hlength
  omega

end Transparency

theorem transparent_iff (p : SyncProtocol) (hidle : p.reassembler = none)
    {msgType : SyncMessageType} (htype : msgType = .syncVector ∨ msgType = .document)
    (seq : UInt16) {chunks : List Bytes} (hchunks : Countable chunks) {order : List Nat}
    (hperm : order.Perm (List.range chunks.length)) :
    p.Transparent msgType seq chunks order ↔
      msgType = .syncVector ∧ p.state = .receivingDocuments := by
  rcases htype with rfl | rfl
  · rw [transparent_syncVector_iff p seq hchunks hidle hperm, and_iff_right rfl]
  · exact iff_of_false (not_transparent_document p seq hchunks hidle hperm) fun h => by cases h.1

theorem transparent_iff_two :
    { new with state := .receivingDocuments }.Transparent .syncVector 7 [[1], [2, 3]] [1, 0] :=
  (transparent_iff { new with state := .receivingDocuments } rfl (Or.inl rfl) 7
    ⟨by decide, by decide⟩ (List.Perm.swap 0 1 [])).mpr ⟨rfl, rfl⟩

/-- A new receiver acknowledges a document of two bytes, but not if it comes in two fragments. -/
theorem document_unacknowledged : ¬ new.Transparent .document 0 [[1], [2]] [0, 1] := by
  decide

end SyncProtocol

end PeatBtle
