import PeatBtle.Sync.Delivery
import PeatBtle.Sync.OperationFidelity
import PeatBtle.Sync.Reassembly
import PeatBtle.Sync.Streams

/-!
# What is marked and what is carried

`prepare_sync` drains the accumulator first and marks last. In between the batch is
filtered, written and cut, and each of these can leave operations behind: all that
a small MTU leaves no room for, those that do not survive their own encoding, and
those that the other side refuses together with them.
-/

namespace PeatBtle

open Wire

/-! ## Chunks in order -/

/-- What a reassembler returns for chunks that arrive at one time. -/
def ChunkReassembler.collect (r : ChunkReassembler) (now : UInt64) (chunks : List SyncChunk) :
    List Bytes :=
  LoggedRun.log (fun r c => (r.process c now).1) (fun r c => (r.process c now).2) r chunks

namespace Transfer

variable {t : Transfer}

/-- From the first missing chunk on, the message comes with the last one. -/
theorem collect_rest (hlong : t.Long) (now : UInt64) {r : ChunkReassembler} {got left : Nat}
    (hheld : t.Holds (Finset.range got) r) (hcount : got + (left + 1) = t.count) :
    r.collect now ((List.range' got (left + 1)).map t.chunkAt) = [t.data] := by
  induction left generalizing r got with
  | zero =>
      have hinsert : insert got (Finset.range got) = t.all := by
        rw [← Finset.range_add_one, hcount]
        rfl
      rcases hheld.process hlong (Finset.range_subset_range.mpr (by omega))
        (show got < t.count by omega) now with
        ⟨-, hresult, -⟩ | ⟨hopen, -⟩
      · simp [ChunkReassembler.collect, LoggedRun.log, hresult]
      · exact absurd hinsert hopen
  | succ left ih =>
      have hinsert : insert got (Finset.range got) = Finset.range (got + 1) :=
        Finset.range_add_one.symm
      rcases hheld.process hlong (Finset.range_subset_range.mpr (by omega))
        (show got < t.count by omega) now with
        ⟨hall, -⟩ | ⟨-, hresult, hnext⟩
      · rw [hinsert] at hall
        have hcard := congrArg Finset.card hall
        rw [Finset.card_range, all, Finset.card_range] at hcard
        omega
      · rw [hinsert] at hnext
        have hrest := ih hnext (by omega)
        rw [List.range'_succ, List.map_cons, ChunkReassembler.collect, LoggedRun.log, hresult]
        exact hrest

/-- The chunks of a message bring it to a new reassembler, and nothing else. -/
theorem collect_chunks (hdata : t.data ≠ []) (now : UInt64) :
    ChunkReassembler.new.collect now t.chunks = [t.data] := by
  have hcount : 0 < t.count := Chunks.count_pos (by have := t.mtu_gt; omega) hdata
  by_cases hone : t.count = 1
  · have hchunks : t.chunks = [t.chunkAt 0] := by
      rw [chunks_eq hdata, hone]
      rfl
    have honly := process_only (by rw [hchunks]; rfl) (hchunks ▸ List.mem_singleton_self _)
      ChunkReassembler.new now
    rw [hchunks, ChunkReassembler.collect, LoggedRun.log, honly]
    rfl
  · have hlong : t.Long := ⟨by omega, count_le hdata⟩
    obtain ⟨left, hleft⟩ := Nat.exists_eq_succ_of_ne_zero (Nat.ne_of_gt hcount)
    rw [chunks_eq hdata, List.range_eq_range', hleft]
    refine collect_rest hlong now (holds_of_fresh ?_) (by omega)
    exact Std.ExtTreeMap.getElem?_empty

end Transfer

/-! ## What is marked -/

namespace DeltaEncoder

variable (enc : DeltaEncoder) (peer : NodeId) (op : CrdtOperation)

/-- The peer is registered, and the operation is yet to be sent to it. -/
def owes : Bool :=
  (enc.peers[peer]?).any fun state =>
    state.needsSend (operationKeyTimestamp op).1 (operationKeyTimestamp op).2

/-- The peer is registered, and the operation need not be sent to it any more. -/
def hasSent : Bool :=
  (enc.peers[peer]?).any fun state =>
    !state.needsSend (operationKeyTimestamp op).1 (operationKeyTimestamp op).2

variable {enc peer op}

theorem not_owes_of_hasSent (h : enc.hasSent peer op = true) : ¬ enc.owes peer op = true := by
  unfold hasSent at h
  unfold owes
  cases hpeer : enc.peers[peer]? with
  | none => simp
  | some state =>
      rw [hpeer] at h
      simpa using h

theorem hasSent_recordSent (bytes : Nat) :
    (enc.recordSent peer bytes).hasSent peer op = enc.hasSent peer op := by
  unfold hasSent recordSent
  rw [peers_modifyPeer, if_pos rfl]
  cases enc.peers[peer]? with
  | none => rfl
  | some state => rfl

end DeltaEncoder

namespace GattSyncProtocol

variable (g : GattSyncProtocol) (peer : NodeId) (now : UInt64) (op : CrdtOperation)

/-- A pending operation that the call turns from unsent to sent. -/
def NewlyRecorded : Prop :=
  op ∈ g.batch.pending ∧ g.delta.owes peer op = true ∧
    (g.prepareSync peer).1.delta.hasSent peer op = true

/-- What is newly recorded comes out of the returned chunks. If there are none, nothing is recorded
and nothing is discarded. -/
def SentCarried : Prop :=
  (∀ op, g.NewlyRecorded peer op →
    ∃ data ∈ ChunkReassembler.new.collect now (g.prepareSync peer).2,
      ∃ batch, OperationBatch.decode data = some batch ∧ op ∈ batch.operations) ∧
  ((g.prepareSync peer).2 = [] →
    (∀ op, ¬ g.NewlyRecorded peer op) ∧ (g.prepareSync peer).1.batch.pending = g.batch.pending)

/-- A pending operation that marking the selected ones turns from unsent to sent. -/
def Marked : Prop :=
  op ∈ g.batch.pending ∧ g.delta.owes peer op = true ∧
    (g.delta.markSent peer (g.preparedMessage peer).operations).hasSent peer op = true

/-- The operations that the 16-bit count of a message announces. -/
def Message.announced (m : Message) : List CrdtOperation :=
  m.operations.take (m.operations.length % 65536)

/-- The message can be put together, none of its operations is refused, and the marked ones are
read back. -/
structure ReadBack : Prop where
  count_le : (g.preparedMessage peer).cut.count ≤ 65535
  encoded_le : ∀ op ∈ (g.preparedMessage peer).announced, op.encode.length ≤ 65535
  accepted : ∀ op ∈ (g.preparedMessage peer).announced, ¬ op.Refused
  marked : ∀ op, g.Marked peer op →
    ∃ sent ∈ (g.preparedMessage peer).announced, CrdtOperation.decode sent.encode = some op

/-- There is nothing to sync, or there is and it takes the way to the peer unharmed. -/
def Fits : Prop :=
  g.batch.pending = [] ∨ (chunkHeaderSize < g.config.mtu ∧
    (g.preparedMessage peer).operations ≠ [] ∧ ((∃ op, g.Marked peer op) → g.ReadBack peer))

/-- The marked operations could be sent, but the message has more chunks than there are numbers, or
another operation in it is longer than its length field can say. -/
structure Overflows : Prop where
  marked : ∃ op, g.Marked peer op
  valid : ∀ op, g.Marked peer op → op.Valid ∧ op.encode.length ≤ 65535
  overlong : 65535 < (g.preparedMessage peer).cut.count ∨
    ∃ op ∈ (g.preparedMessage peer).announced, 65535 < op.encode.length

/-! ## The cases of a call -/

variable {g peer now op}

theorem not_newlyRecorded (hnone : (g.preparedMessage peer).operations = []) :
    ¬ g.NewlyRecorded peer op := by
  rintro ⟨-, howes, hsent⟩
  rcases g.prepareSync_cases peer with ⟨-, -, hdelta⟩ | ⟨hsome, -⟩
  · rw [hdelta] at hsent
    exact DeltaEncoder.not_owes_of_hasSent hsent howes
  · exact hsome hnone

theorem newlyRecorded_iff (hsome : (g.preparedMessage peer).operations ≠ []) :
    g.NewlyRecorded peer op ↔ g.Marked peer op := by
  rcases g.prepareSync_cases peer with ⟨hnone, -⟩ | ⟨-, -, hdelta⟩
  · exact absurd hnone hsome
  · rw [NewlyRecorded, Marked, hdelta, DeltaEncoder.hasSent_recordSent]

/-- The pending operations are gone, but none of them was for the peer. -/
theorem sentCarried_iff_of_none (hnone : (g.preparedMessage peer).operations = []) :
    g.SentCarried peer now ↔ g.batch.pending = [] := by
  have hchunks := g.prepareSync_chunks peer
  rw [if_pos hnone] at hchunks
  rw [SentCarried, prepareSync_batch_pending]
  constructor
  · intro h
    exact (h.2 hchunks).2.symm
  · intro hpending
    refine ⟨fun op hop => absurd hop (not_newlyRecorded hnone), fun _ => ?_⟩
    exact ⟨fun op => not_newlyRecorded hnone, hpending.symm⟩

/-- No chunk has room for a payload. -/
theorem not_sentCarried_of_mtu (hsome : (g.preparedMessage peer).operations ≠ [])
    (hmtu : g.config.mtu ≤ chunkHeaderSize) : ¬ g.SentCarried peer now := by
  intro h
  have hchunks := g.prepareSync_chunks peer
  rw [if_neg hsome, Message.chunks] at hchunks
  have hpending := (h.2 (hchunks.trans (CutMessage.chunks_eq_nil_iff.mpr hmtu))).2
  rw [prepareSync_batch_pending] at hpending
  obtain ⟨op, hop⟩ := List.exists_mem_of_ne_nil _ hsome
  have hmem := preparedMessage_subset g peer hop
  rw [← hpending] at hmem
  cases hmem

theorem sentCarried_iff_of_some (hsome : (g.preparedMessage peer).operations ≠ [])
    (hmtu : chunkHeaderSize < g.config.mtu) :
    g.SentCarried peer now ↔ ∀ op, g.Marked peer op →
      ∃ data ∈ ChunkReassembler.new.collect now (g.preparedMessage peer).chunks,
        ∃ batch, OperationBatch.decode data = some batch ∧ op ∈ batch.operations := by
  have hchunks := g.prepareSync_chunks peer
  rw [if_neg hsome] at hchunks
  have hsent : (g.prepareSync peer).2 ≠ [] := by
    rw [hchunks, Message.chunks, Ne, CutMessage.chunks_eq_nil_iff]
    exact Nat.not_le.mpr hmtu
  rw [SentCarried, hchunks, and_iff_left fun hnil => absurd (hchunks.trans hnil) hsent]
  simp only [newlyRecorded_iff hsome]

theorem collect_message {m : Message} (hmtu : chunkHeaderSize < m.mtu) (hcount : m.cut.count ≤ 65535)
    (now : UInt64) : ChunkReassembler.new.collect now m.chunks = [m.data] := by
  have hlength : m.cut.chunks.length ≤ 65535 := by
    have hchunks := Message.chunks_length hmtu
    rw [Message.chunks] at hchunks
    omega
  exact @Transfer.collect_chunks ⟨m.cut, hmtu, hlength⟩ m.data_ne_nil now

/-- What comes out of the chunks of a message without overflow. -/
theorem carried_iff {m : Message} (hmtu : chunkHeaderSize < m.mtu) (hcount : m.cut.count ≤ 65535)
    (hlen : ∀ op ∈ m.announced, op.encode.length ≤ 65535) :
    (∃ data ∈ ChunkReassembler.new.collect now m.chunks,
      ∃ batch, OperationBatch.decode data = some batch ∧ op ∈ batch.operations) ↔
      (∀ sent ∈ m.announced, ¬ sent.Refused) ∧
        ∃ sent ∈ m.announced, CrdtOperation.decode sent.encode = some op := by
  have hread := @OperationBatch.read_iff_of_aligned ⟨m.operations, 0, 0⟩ hlen op
  rw [collect_message hmtu hcount]
  simp only [List.mem_singleton, exists_eq_left]
  exact hread

/-- Only operations that fit the format come out of any chunks. -/
theorem valid_of_carried {chunks : List SyncChunk}
    (h : ∃ data ∈ ChunkReassembler.new.collect now chunks,
      ∃ batch, OperationBatch.decode data = some batch ∧ op ∈ batch.operations) :
    op.Valid ∧ op.encode.length ≤ 65535 := by
  obtain ⟨data, -, batch, hbatch, hop⟩ := h
  have hsendable := OperationBatch.sendable_of_decode hbatch
  exact ⟨hsendable.valid op hop, hsendable.encoded_le op hop⟩

theorem Fits.sentCarried (h : g.Fits peer) (now : UInt64) : g.SentCarried peer now := by
  rcases h with hpending | ⟨hmtu, hsome, hread⟩
  · refine (sentCarried_iff_of_none ?_).mpr hpending
    rw [preparedMessage, hpending, selectOperations_nil]
  · refine (sentCarried_iff_of_some hsome hmtu).mpr fun op hop => ?_
    obtain ⟨hcount, hlen, haccepted, hmarked⟩ := hread ⟨op, hop⟩
    exact (carried_iff hmtu hcount hlen).mpr ⟨haccepted, hmarked op hop⟩

theorem SentCarried.fits_or_overflows (h : g.SentCarried peer now) :
    g.Fits peer ∨ g.Overflows peer := by
  by_cases hnone : (g.preparedMessage peer).operations = []
  · exact Or.inl (Or.inl ((sentCarried_iff_of_none hnone).mp h))
  by_cases hmtu : g.config.mtu ≤ chunkHeaderSize
  · exact absurd h (not_sentCarried_of_mtu hnone hmtu)
  rw [Nat.not_le] at hmtu
  have hcarried := (sentCarried_iff_of_some hnone hmtu).mp h
  by_cases hmarked : ∃ op, g.Marked peer op
  · by_cases hover : 65535 < (g.preparedMessage peer).cut.count ∨
        ∃ op ∈ (g.preparedMessage peer).announced, 65535 < op.encode.length
    · exact Or.inr ⟨hmarked, fun op hop => valid_of_carried (hcarried op hop), hover⟩
    · obtain ⟨hcount, hlen⟩ := not_or.mp hover
      have hcount' := Nat.not_lt.mp hcount
      have hlen' : ∀ op ∈ (g.preparedMessage peer).announced, op.encode.length ≤ 65535 :=
        fun op hop => Nat.not_lt.mp fun hlong => hlen ⟨op, hop, hlong⟩
      have hread := fun op hop => (carried_iff hmtu hcount' hlen').mp (hcarried op hop)
      obtain ⟨op, hop⟩ := hmarked
      refine Or.inl (Or.inr ⟨hmtu, hnone, fun _ => ⟨hcount', hlen', (hread op hop).1, ?_⟩⟩)
      exact fun other hother => (hread other hother).2
  · exact Or.inl (Or.inr ⟨hmtu, hnone, fun h => absurd h hmarked⟩)

/-- What fits is carried; and what is carried fits, but for a message that overflows. -/
theorem sent_means_carried_iff (g : GattSyncProtocol) (peer : NodeId) (now : UInt64) :
    (g.Fits peer → g.SentCarried peer now) ∧
      (¬ g.Overflows peer → (g.SentCarried peer now ↔ g.Fits peer)) := by
  refine ⟨fun h => h.sentCarried now, fun hno => ⟨fun h => ?_, fun h => h.sentCarried now⟩⟩
  exact h.fits_or_overflows.resolve_right hno

/-- With an MTU of 8 there are no chunks, but the operation is marked and gone. -/
def cramped : GattSyncProtocol :=
  run (new 1 SyncConfig.default) [.addPeer 2, .queueOperation healthUpdate, .setMtu 8]

theorem cramped_loses_operation :
    cramped.NewlyRecorded 2 healthUpdate ∧ (cramped.prepareSync 2).2 = [] ∧
      (cramped.prepareSync 2).1.batch.pending = [] ∧ ¬ cramped.SentCarried 2 0 := by
  have hrecorded : cramped.NewlyRecorded 2 healthUpdate := by
    unfold NewlyRecorded
    decide
  have hchunks : (cramped.prepareSync 2).2 = [] := by decide
  exact ⟨hrecorded, hchunks, by decide, fun h => (h.2 hchunks).1 healthUpdate hrecorded⟩

end GattSyncProtocol

end PeatBtle
