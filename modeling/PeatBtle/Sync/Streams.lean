import PeatBtle.Sync.ProtocolRun

/-!
# Interleaved chunk streams

Several peers send prepared messages to one receiver, and their chunks arrive
interleaved. The receiver files chunks under the message identifier alone, while
every sender counts its messages from one. Streams stay apart as long as no chunk
arrives under an identifier that another peer has open at that moment.
-/

namespace PeatBtle.GattSyncProtocol

open Wire MapMerge

abbrev Arrival := NodeId × SyncChunk

/-- The results of a whole stream, each with the peer of the chunk that completed it. -/
def returned : GattSyncProtocol → List Arrival → List (NodeId × List CrdtOperation)
  | _, [] => []
  | g, (peer, chunk) :: rest =>
      ((g.processReceived chunk peer).2.map (Prod.mk peer)).toList ++
        returned (g.processReceived chunk peer).1 rest

/-- What a tagged list holds for one peer, in order. -/
def ofPeer {α : Type} (peer : NodeId) (xs : List (NodeId × α)) : List α :=
  xs.filterMap fun x => if x.1 = peer then some x.2 else none

/-- The identifier each peer has begun and not finished, after one more arrival. -/
def advance (opened : NodeId → Option UInt32) (peer : NodeId) (chunk : SyncChunk) :
    NodeId → Option UInt32 :=
  fun q =>
    if q = peer then
      if chunk.header.chunkIndex.toNat + 1 < chunk.header.totalChunks.toNat then
        some chunk.header.messageId
      else none
    else opened q

/-- No chunk of a longer message arrives under an identifier that another peer has open. -/
def Separate : (NodeId → Option UInt32) → List Arrival → Prop
  | _, [] => True
  | opened, (peer, chunk) :: rest =>
      (chunk.header.totalChunks ≠ 1 →
        ∀ q, q ≠ peer → opened q ≠ some chunk.header.messageId) ∧
      Separate (advance opened peer chunk) rest

@[simp] theorem ofPeer_nil {α : Type} (peer : NodeId) : ofPeer peer ([] : List (NodeId × α)) = [] :=
  rfl

theorem ofPeer_cons {α : Type} (peer : NodeId) (x : NodeId × α) (xs : List (NodeId × α)) :
    ofPeer peer (x :: xs) = if x.1 = peer then x.2 :: ofPeer peer xs else ofPeer peer xs := by
  simp only [ofPeer, List.filterMap_cons]
  split <;> simp_all

theorem ofPeer_append {α : Type} (peer : NodeId) (xs ys : List (NodeId × α)) :
    ofPeer peer (xs ++ ys) = ofPeer peer xs ++ ofPeer peer ys :=
  List.filterMap_append ..

/-! ## Chunks of one message -/

namespace Message

/-- The batch can be read back and its chunks can be numbered. -/
structure Deliverable (m : Message) : Prop where
  mtu_gt : chunkHeaderSize < m.mtu
  sendable : OperationBatch.Sendable m.operations
  chunks_le : m.chunks.length ≤ 65535

variable {m : Message}

theorem data_ne_nil (m : Message) : m.data ≠ [] := by
  rw [← List.length_pos_iff, data, OperationBatch.encodeOperations, List.length_append,
    u16ToLe_length]
  omega

@[simp] theorem cut_messageId (m : Message) : m.cut.messageId = m.id := rfl

theorem chunks_eq (hmtu : chunkHeaderSize < m.mtu) :
    m.chunks = (List.range m.cut.count).map m.cut.chunkAt := CutMessage.chunks_eq hmtu m.data_ne_nil

theorem count_pos (hmtu : chunkHeaderSize < m.mtu) : 0 < m.cut.count :=
  CutMessage.count_pos hmtu m.data_ne_nil

theorem chunks_length (hmtu : chunkHeaderSize < m.mtu) : m.chunks.length = m.cut.count :=
  CutMessage.length_chunks hmtu m.data_ne_nil

theorem chunks_drop (hmtu : chunkHeaderSize < m.mtu) {j : Nat} (hj : j < m.cut.count) :
    m.chunks.drop j = m.cut.chunkAt j :: m.chunks.drop (j + 1) := by
  have hlen : j < m.chunks.length := by rwa [chunks_length hmtu]
  rw [List.drop_eq_getElem_cons hlen]
  congr 1
  simp [chunks_eq hmtu]

theorem Deliverable.count_le (h : m.Deliverable) : m.cut.count ≤ 65535 := by
  rw [← chunks_length h.mtu_gt]
  exact h.chunks_le

theorem flatMap_piece (hmtu : chunkHeaderSize < m.mtu) :
    (List.range m.cut.count).flatMap m.cut.piece = m.data := CutMessage.flatMap_piece hmtu

end Message

/-! ## Collecting chunks -/

/-- A partial message that holds exactly the first `j` chunks of `m`. -/
structure Collects (m : Message) (j : Nat) (part : PartialMessage) : Prop where
  total : part.totalChunks = UInt16.ofNat m.cut.count
  size : part.chunks.size = j
  held : ∀ i, i < j → part.chunks[UInt16.ofNat i]? = some (m.cut.piece i)
  missing : ∀ i, j ≤ i → i < m.cut.count → part.chunks[UInt16.ofNat i]? = none

theorem Collects.start (m : Message) (startedAt : UInt64) :
    Collects m 0 ⟨UInt16.ofNat m.cut.count, ∅, startedAt⟩ where
  total := rfl
  size := by simp
  held := by
    intro i hi
    omega
  missing := by simp

theorem Collects.next {m : Message} {j : Nat} {part : PartialMessage} (h : Collects m j part)
    (hcount : m.cut.count ≤ 65535) (hj : j < m.cut.count) :
    Collects m (j + 1)
      { part with chunks := part.chunks.insert (UInt16.ofNat j) (m.cut.piece j) } where
  total := h.total
  size := by
    have hnew : UInt16.ofNat j ∉ part.chunks := by
      simp [Std.ExtTreeMap.mem_iff_isSome_getElem?, h.missing j (Nat.le_refl j) hj]
    rw [Std.ExtTreeMap.size_insert, if_neg (by simpa using hnew), h.size]
  held := by
    intro i hi
    rw [getElem?_insert_eq]
    by_cases hij : i = j
    · simp [hij]
    · have hne : UInt16.ofNat j ≠ UInt16.ofNat i := fun heq =>
        hij (ofNat16_inj (by omega) (by omega) heq).symm
      rw [if_neg hne]
      exact h.held i (by omega)
  missing := by
    intro i hi hlt
    have hne : UInt16.ofNat j ≠ UInt16.ofNat i := fun heq => by
      have := ofNat16_inj (by omega) (by omega) heq
      omega
    rw [getElem?_insert_eq, if_neg hne]
    exact h.missing i (by omega) hlt

/-- What one chunk of a longer message does to the reassembler. -/
theorem process_chunkAt {r : ChunkReassembler} {m : Message} {j : Nat} {now : UInt64}
    (hm : m.Deliverable) (hlong : 1 < m.cut.count) (hj : j < m.cut.count)
    (hcurrent : Collects m j (r.partials[m.id]?.getD ⟨UInt16.ofNat m.cut.count, ∅, now⟩)) :
    (j + 1 = m.cut.count ∧
      r.process (m.cut.chunkAt j) now =
        ({ r with partials := r.partials.erase m.id }, some m.data)) ∨
    (j + 1 < m.cut.count ∧ ∃ part, Collects m (j + 1) part ∧
      r.process (m.cut.chunkAt j) now =
        ({ r with partials := r.partials.insert m.id part }, none)) := by
  have hcount := hm.count_le
  have htotal : (UInt16.ofNat m.cut.count).toNat = m.cut.count := by
    rw [UInt16.toNat_ofNat']
    omega
  have hne : UInt16.ofNat m.cut.count ≠ 1 := by
    intro heq
    rw [heq] at htotal
    have : m.cut.count = 1 := htotal.symm
    omega
  have hnext := hcurrent.next hcount hj
  generalize hpart : r.partials[m.id]?.getD ⟨UInt16.ofNat m.cut.count, ∅, now⟩ = part at hnext
  let updated : PartialMessage :=
    { part with chunks := part.chunks.insert (UInt16.ofNat j) (m.cut.piece j) }
  have hprocess : r.process (m.cut.chunkAt j) now =
      if j + 1 = m.cut.count then
        ({ r with partials := r.partials.erase m.id },
          ChunkReassembler.gather updated.chunks (List.range m.cut.count))
      else ({ r with partials := r.partials.insert m.id updated }, none) := by
    have hexpected : part.totalChunks.toNat = m.cut.count :=
      (congrArg UInt16.toNat hnext.total).trans htotal
    unfold ChunkReassembler.process
    simp only [CutMessage.chunkAt, Message.cut_messageId, if_neg hne, hpart, hnext.size, hexpected]
    rfl
  by_cases hlast : j + 1 = m.cut.count
  · left
    refine ⟨hlast, ?_⟩
    have hgather : ChunkReassembler.gather updated.chunks (List.range m.cut.count) =
        some ((List.range m.cut.count).flatMap m.cut.piece) := by
      apply ChunkReassembler.gather_eq
      intro i hi
      exact hnext.held i (by rw [List.mem_range] at hi; omega)
    rw [hprocess, if_pos hlast, hgather, Message.flatMap_piece hm.mtu_gt]
  · right
    exact ⟨by omega, _, hnext, by rw [hprocess, if_neg hlast]⟩

theorem process_single {r : ChunkReassembler} {m : Message} {now : UInt64} (hm : m.Deliverable)
    (hone : m.cut.count = 1) : r.process (m.cut.chunkAt 0) now = (r, some m.data) := by
  have hdata : m.cut.piece 0 = m.data := by
    have hflat := Message.flatMap_piece hm.mtu_gt
    rw [hone] at hflat
    simpa using hflat
  have hheader : (m.cut.chunkAt 0).header.totalChunks = 1 := by
    simp only [CutMessage.chunkAt, hone]
    rfl
  rw [ChunkReassembler.process, if_pos hheader]
  exact congrArg (fun d => (r, some d)) hdata

/-! ## Peers and their feeds -/

/-- What a peer still has to deliver: a message of which `j` chunks have arrived, then the rest. -/
structure Feed where
  current : Option (Message × Nat)
  waiting : List Message

namespace Feed

def remaining (f : Feed) : List SyncChunk :=
  f.current.elim [] (fun c => c.1.chunks.drop c.2) ++ f.waiting.flatMap Message.chunks

def messages (f : Feed) : List Message := (f.current.map Prod.fst).toList ++ f.waiting

/-- A message is current only between its first and its last chunk. -/
structure Valid (f : Feed) : Prop where
  deliverable : ∀ m ∈ f.messages, m.Deliverable
  progress : ∀ m j, f.current = some (m, j) → 0 < j ∧ j < m.cut.count

/-- The feed after chunk `j` of `m`, with `rest` still waiting. -/
def after (m : Message) (j : Nat) (rest : List Message) : Feed :=
  if j + 1 = m.cut.count then ⟨none, rest⟩ else ⟨some (m, j + 1), rest⟩

/-- Chunk `j` of `m` is next, and `rest` waits behind `m`. -/
structure Next (f : Feed) (m : Message) (j : Nat) (rest : List Message) : Prop where
  messages_eq : f.messages = m :: rest
  index_lt : j < m.cut.count
  remaining_eq : f.remaining = m.cut.chunkAt j :: (after m j rest).remaining
  current_eq : f.current = if j = 0 then none else some (m, j)

theorem remaining_after {m : Message} {j : Nat} (hm : m.Deliverable) (rest : List Message) :
    (after m j rest).remaining = m.chunks.drop (j + 1) ++ rest.flatMap Message.chunks := by
  unfold after
  by_cases hlast : j + 1 = m.cut.count
  · rw [if_pos hlast, List.drop_eq_nil_of_le (by rw [Message.chunks_length hm.mtu_gt]; omega)]
    rfl
  · rw [if_neg hlast]
    rfl

theorem eq_nil_or_next {f : Feed} (h : f.Valid) :
    (f.messages = [] ∧ f.remaining = []) ∨ ∃ m j rest, f.Next m j rest := by
  obtain ⟨current, waiting⟩ := f
  cases current with
  | none =>
      cases waiting with
      | nil => exact Or.inl ⟨rfl, rfl⟩
      | cons m rest =>
          have hm : m.Deliverable := h.deliverable m (by simp [messages])
          refine Or.inr ⟨m, 0, rest, rfl, Message.count_pos hm.mtu_gt, ?_, rfl⟩
          have hdrop := Message.chunks_drop hm.mtu_gt (Message.count_pos hm.mtu_gt)
          rw [List.drop_zero] at hdrop
          rw [remaining_after hm]
          exact congrArg (· ++ rest.flatMap Message.chunks) hdrop
  | some progress =>
      obtain ⟨m, j⟩ := progress
      have hm : m.Deliverable := h.deliverable m (by simp [messages])
      obtain ⟨hpos, hlt⟩ := h.progress m j rfl
      refine Or.inr ⟨m, j, waiting, rfl, hlt, ?_, by simp [Nat.ne_of_gt hpos]⟩
      rw [remaining_after hm]
      simp [remaining, Message.chunks_drop hm.mtu_gt hlt]

theorem Valid.after {f : Feed} (h : f.Valid) {m : Message} {j : Nat} {rest : List Message}
    (hnext : f.Next m j rest) : (after m j rest).Valid := by
  have hall : ∀ x ∈ m :: rest, x.Deliverable := by
    rw [← hnext.messages_eq]
    exact h.deliverable
  have hj := hnext.index_lt
  unfold Feed.after
  by_cases hlast : j + 1 = m.cut.count
  · rw [if_pos hlast]
    refine ⟨fun x hx => hall x (List.mem_cons_of_mem _ hx), ?_⟩
    intro x k hx
    cases hx
  · rw [if_neg hlast]
    refine ⟨hall, ?_⟩
    intro x k hx
    cases hx
    omega

end Feed

/-! ## The receiver's invariant -/

/-- Every open message has its own partial, and every partial belongs to an open message. -/
structure Tracks (feeds : NodeId → Feed) (opened : NodeId → Option UInt32)
    (r : ChunkReassembler) : Prop where
  valid : ∀ p, (feeds p).Valid
  held : ∀ p m j, (feeds p).current = some (m, j) →
    opened p = some m.id ∧ ∃ part, r.partials[m.id]? = some part ∧ Collects m j part
  owned : ∀ id part, r.partials[id]? = some part →
    ∃ p m j, (feeds p).current = some (m, j) ∧ m.id = id

theorem processReceived_reassembler (g : GattSyncProtocol) (chunk : SyncChunk) (peer : NodeId) :
    (g.processReceived chunk peer).1.rxReassembler =
      (g.rxReassembler.process chunk g.currentTimeMs).1 := by
  unfold processReceived
  dsimp only
  split
  · rfl
  · split <;> rfl

theorem processReceived_result (g : GattSyncProtocol) (chunk : SyncChunk) (peer : NodeId) :
    (g.processReceived chunk peer).2 =
      ((g.rxReassembler.process chunk g.currentTimeMs).2.bind OperationBatch.decode).map
        OperationBatch.operations := by
  unfold processReceived
  dsimp only
  split
  · rename_i hnone
    simp [hnone]
  · rename_i complete hsome
    simp only [hsome, Option.bind_some]
    split
    · rename_i hdecode
      simp [hdecode]
    · rename_i batch hdecode
      simp [hdecode]

/-- The feeds after peer `p` has moved on to `f`. -/
def setFeed (feeds : NodeId → Feed) (p : NodeId) (f : Feed) : NodeId → Feed :=
  fun q => if q = p then f else feeds q

section Step

variable {feeds : NodeId → Feed} {opened : NodeId → Option UInt32} {r : ChunkReassembler}
  {p : NodeId} {m : Message} {j : Nat} {rest : List Message}

theorem deliverable_of_next (h : Tracks feeds opened r) (hnext : (feeds p).Next m j rest) :
    m.Deliverable :=
  (h.valid p).deliverable m (by rw [hnext.messages_eq]; simp)

/-- Other peers hold their partial under another identifier. -/
theorem id_ne_of_separate (h : Tracks feeds opened r)
    (hsep : ∀ q, q ≠ p → opened q ≠ some m.id) {q : NodeId} (hq : q ≠ p) {m' : Message} {j' : Nat}
    (hcurrent : (feeds q).current = some (m', j')) : m'.id ≠ m.id := by
  intro heq
  exact hsep q hq ((h.held q m' j' hcurrent).1.trans (congrArg some heq))

/-- The receiver's partial for the next chunk holds what `p` has sent of the message so far. -/
theorem collects_current (h : Tracks feeds opened r) (hnext : (feeds p).Next m j rest)
    (hsep : ∀ q, q ≠ p → opened q ≠ some m.id) (now : UInt64) :
    Collects m j (r.partials[m.id]?.getD ⟨UInt16.ofNat m.cut.count, ∅, now⟩) := by
  by_cases hfirst : j = 0
  · subst hfirst
    have hnone : (feeds p).current = none := by simpa using hnext.current_eq
    have hfree : r.partials[m.id]? = none := by
      cases hpart : r.partials[m.id]? with
      | none => rfl
      | some part =>
          obtain ⟨q, m', j', hcurrent, hid⟩ := h.owned m.id part hpart
          by_cases hq : q = p
          · rw [hq, hnone] at hcurrent
            cases hcurrent
          · exact absurd hid (id_ne_of_separate h hsep hq hcurrent)
    rw [hfree]
    exact Collects.start m now
  · have hcurrent : (feeds p).current = some (m, j) := by
      rw [hnext.current_eq, if_neg hfirst]
    obtain ⟨-, part, hpart, hcollects⟩ := h.held p m j hcurrent
    rw [hpart]
    exact hcollects

theorem advance_chunkAt (hm : m.Deliverable) (hj : j < m.cut.count) (q : NodeId) :
    advance opened p (m.cut.chunkAt j) q =
      if q = p then if j + 1 < m.cut.count then some m.id else none else opened q := by
  have hcount := hm.count_le
  have hindex : (UInt16.ofNat j).toNat = j := by
    rw [UInt16.toNat_ofNat']
    omega
  have htotal : (UInt16.ofNat m.cut.count).toNat = m.cut.count := by
    rw [UInt16.toNat_ofNat']
    omega
  simp only [advance, CutMessage.chunkAt, Message.cut_messageId, hindex, htotal]

theorem valid_setFeed (h : Tracks feeds opened r) (hnext : (feeds p).Next m j rest) (q : NodeId) :
    (setFeed feeds p (Feed.after m j rest) q).Valid := by
  unfold setFeed
  split
  · exact (h.valid p).after hnext
  · exact h.valid q

/-- A completed message: `p` has nothing open, and its partial is gone. -/
theorem Tracks.finish (h : Tracks feeds opened r) (hnext : (feeds p).Next m j rest)
    (hlast : j + 1 = m.cut.count) {r' : ChunkReassembler}
    (hfree : ∀ q m' j', q ≠ p → (feeds q).current = some (m', j') →
      r'.partials[m'.id]? = r.partials[m'.id]?)
    (howned : ∀ id part, r'.partials[id]? = some part → r.partials[id]? = some part ∧
      ∀ m' j', (feeds p).current = some (m', j') → m'.id ≠ id) :
    Tracks (setFeed feeds p (Feed.after m j rest)) (advance opened p (m.cut.chunkAt j)) r' where
  valid := valid_setFeed h hnext
  held := by
    intro q m' j' hcurrent
    have hm := deliverable_of_next h hnext
    rw [advance_chunkAt hm hnext.index_lt]
    by_cases hq : q = p
    · simp [setFeed, hq, Feed.after, hlast] at hcurrent
    · rw [setFeed, if_neg hq] at hcurrent
      rw [if_neg hq, hfree q m' j' hq hcurrent]
      exact h.held q m' j' hcurrent
  owned := by
    intro id part hpart
    obtain ⟨hold, hother⟩ := howned id part hpart
    obtain ⟨q, m', j', hcurrent, hid⟩ := h.owned id part hold
    by_cases hq : q = p
    · exact absurd hid (hother m' j' (by rw [← hq]; exact hcurrent))
    · exact ⟨q, m', j', by rw [setFeed, if_neg hq]; exact hcurrent, hid⟩

/-- One more chunk of an unfinished message. -/
theorem Tracks.collect (h : Tracks feeds opened r) (hnext : (feeds p).Next m j rest)
    (hsep : ∀ q, q ≠ p → opened q ≠ some m.id) (hmore : j + 1 < m.cut.count) {part : PartialMessage}
    (hpart : Collects m (j + 1) part) :
    Tracks (setFeed feeds p (Feed.after m j rest)) (advance opened p (m.cut.chunkAt j))
      { r with partials := r.partials.insert m.id part } where
  valid := valid_setFeed h hnext
  held := by
    intro q m' j' hcurrent
    have hm := deliverable_of_next h hnext
    rw [advance_chunkAt hm hnext.index_lt]
    by_cases hq : q = p
    · have hfeed : (some (m, j + 1) : Option (Message × Nat)) = some (m', j') := by
        simpa [setFeed, hq, Feed.after, Nat.ne_of_lt hmore] using hcurrent
      cases hfeed
      refine ⟨by simp [hq, hmore], part, ?_, hpart⟩
      rw [getElem?_insert_eq, if_pos rfl]
    · rw [setFeed, if_neg hq] at hcurrent
      have hid : m.id ≠ m'.id := (id_ne_of_separate h hsep hq hcurrent).symm
      rw [if_neg hq, getElem?_insert_eq, if_neg hid]
      exact h.held q m' j' hcurrent
  owned := by
    intro id found hfound
    rw [getElem?_insert_eq] at hfound
    by_cases hid : m.id = id
    · exact ⟨p, m, j + 1, by simp [setFeed, Feed.after, Nat.ne_of_lt hmore], hid⟩
    · rw [if_neg hid] at hfound
      obtain ⟨q, m', j', hcurrent, hid'⟩ := h.owned id found hfound
      by_cases hq : q = p
      · have hsame : m'.id = m.id := by
          rw [hq, hnext.current_eq] at hcurrent
          split at hcurrent
          · cases hcurrent
          · cases hcurrent
            rfl
        exact absurd (hsame.symm.trans hid') hid
      · exact ⟨q, m', j', by rw [setFeed, if_neg hq]; exact hcurrent, hid'⟩

theorem decode_data (hm : m.Deliverable) :
    ((some m.data).bind OperationBatch.decode).map OperationBatch.operations =
      some m.operations := by
  rw [Option.bind_some, Message.data, OperationBatch.decode_encode hm.sendable]
  rfl

/-- One arrival: the invariant holds for the advanced feed, and a result is returned exactly at
the last chunk of a message. -/
theorem processReceived_step {g : GattSyncProtocol} (h : Tracks feeds opened g.rxReassembler)
    (hnext : (feeds p).Next m j rest)
    (hsep : (m.cut.chunkAt j).header.totalChunks ≠ 1 → ∀ q, q ≠ p → opened q ≠ some m.id) :
    Tracks (setFeed feeds p (Feed.after m j rest)) (advance opened p (m.cut.chunkAt j))
        (g.processReceived (m.cut.chunkAt j) p).1.rxReassembler ∧
      (g.processReceived (m.cut.chunkAt j) p).2 =
        if j + 1 = m.cut.count then some m.operations else none := by
  have hm := deliverable_of_next h hnext
  have hcount := hm.count_le
  have hj := hnext.index_lt
  rw [processReceived_reassembler, processReceived_result]
  by_cases hone : m.cut.count = 1
  · have hzero : j = 0 := by omega
    subst hzero
    have hnone : (feeds p).current = none := by simpa using hnext.current_eq
    rw [process_single hm hone]
    refine ⟨h.finish hnext hone.symm (fun _ _ _ _ _ => rfl) ?_, ?_⟩
    · intro id part hpart
      refine ⟨hpart, ?_⟩
      intro m' j' hcurrent
      rw [hnone] at hcurrent
      cases hcurrent
    · rw [if_pos hone.symm]
      exact decode_data hm
  · have hlong : 1 < m.cut.count := by omega
    have htotal : (m.cut.chunkAt j).header.totalChunks ≠ 1 := by
      intro heq
      have hnat := congrArg UInt16.toNat heq
      rw [CutMessage.chunkAt, UInt16.toNat_ofNat'] at hnat
      change m.cut.count % 65536 = 1 at hnat
      omega
    have hopen := hsep htotal
    rcases process_chunkAt hm hlong hj (collects_current h hnext hopen g.currentTimeMs) with
      ⟨hlast, hprocess⟩ | ⟨hmore, part, hpart, hprocess⟩
    · rw [hprocess]
      refine ⟨h.finish hnext hlast ?_ ?_, ?_⟩
      · intro q m' j' hq hcurrent
        rw [getElem?_erase_eq, if_neg (id_ne_of_separate h hopen hq hcurrent).symm]
      · intro id part hpart
        rw [getElem?_erase_eq] at hpart
        split at hpart
        · cases hpart
        · rename_i hid
          refine ⟨hpart, ?_⟩
          intro m' j' hcurrent heq
          rw [hnext.current_eq, if_neg (by omega)] at hcurrent
          cases hcurrent
          exact hid heq
      · rw [if_pos hlast]
        exact decode_data hm
    · rw [hprocess]
      exact ⟨h.collect hnext hopen hmore hpart, by rw [if_neg (by omega)]; rfl⟩

end Step

/-! ## Whole streams -/

/-- The results for each peer are the messages it had left, in order. -/
theorem returned_of_tracks {stream : List Arrival} {feeds : NodeId → Feed}
    {opened : NodeId → Option UInt32} {g : GattSyncProtocol}
    (h : Tracks feeds opened g.rxReassembler) (hsep : Separate opened stream)
    (hstream : ∀ p, ofPeer p stream = (feeds p).remaining) (p : NodeId) :
    ofPeer p (returned g stream) = (feeds p).messages.map Message.operations := by
  induction stream generalizing feeds opened g with
  | nil =>
      have hempty : (feeds p).remaining = [] := (hstream p).symm
      rcases Feed.eq_nil_or_next (h.valid p) with ⟨hmessages, -⟩ | ⟨m, j, rest, hnext⟩
      · simp [returned, hmessages]
      · rw [hnext.remaining_eq] at hempty
        cases hempty
  | cons arrival stream ih =>
      obtain ⟨peer, chunk⟩ := arrival
      have hpeer := hstream peer
      rw [ofPeer_cons, if_pos rfl] at hpeer
      rcases Feed.eq_nil_or_next (h.valid peer) with ⟨-, hremaining⟩ | ⟨m, j, rest, hnext⟩
      · rw [hremaining] at hpeer
        cases hpeer
      · rw [hnext.remaining_eq] at hpeer
        obtain ⟨rfl, htail⟩ := List.cons.inj hpeer
        obtain ⟨htracks, hresult⟩ := processReceived_step h hnext hsep.1
        have hrest : ∀ q, ofPeer q stream =
            (setFeed feeds peer (Feed.after m j rest) q).remaining := by
          intro q
          unfold setFeed
          by_cases hq : q = peer
          · rw [if_pos hq, hq]
            exact htail
          · have hold := hstream q
            rw [ofPeer_cons, if_neg (fun heq => hq heq.symm)] at hold
            rw [if_neg hq]
            exact hold
        have hlater := ih htracks hsep.2 hrest
        rw [returned, ofPeer_append, hlater, hresult]
        by_cases hp : p = peer
        · subst hp
          simp only [setFeed, if_true, hnext.messages_eq, Feed.after]
          by_cases hlast : j + 1 = m.cut.count
          · simp [hlast, ofPeer, Feed.messages]
          · simp [hlast, ofPeer, Feed.messages]
        · have hskip : peer ≠ p := fun heq => hp heq.symm
          rw [setFeed, if_neg hp]
          split <;> simp [ofPeer, hskip]

/-- Any number of senders and a receiver with nothing open. -/
theorem returned_of_sent {receiver : GattSyncProtocol} {stream : List Arrival}
    {sent : NodeId → List Message} (hfree : receiver.rxReassembler.partials = ∅)
    (hvalid : ∀ p, ∀ m ∈ sent p, m.Deliverable)
    (hstream : ∀ p, ofPeer p stream = (sent p).flatMap Message.chunks)
    (hseparate : Separate (fun _ => none) stream) (p : NodeId) :
    ofPeer p (returned receiver stream) = (sent p).map Message.operations := by
  have htracks : Tracks (fun p => ⟨none, sent p⟩) (fun _ => none) receiver.rxReassembler := by
    refine ⟨fun p => ⟨hvalid p, ?_⟩, ?_, ?_⟩
    · intro m j hcurrent
      cases hcurrent
    · intro p m j hcurrent
      cases hcurrent
    · intro id part hpart
      rw [hfree] at hpart
      simp at hpart
  exact returned_of_tracks htracks hseparate hstream p

theorem ofPeer_eq_nil {stream : List Arrival} {p : NodeId}
    (h : ∀ arrival ∈ stream, arrival.1 ≠ p) : ofPeer p stream = [] := by
  rw [ofPeer, List.filterMap_eq_nil_iff]
  intro arrival harrival
  exact if_neg (h arrival harrival)

section TwoSenders

/-- What each node has sent if only two have. -/
def sentByTwo (P Q : NodeId) (fromP fromQ : List Message) (p : NodeId) : List Message :=
  if p = P then fromP else if p = Q then fromQ else []

variable {P Q : NodeId} {fromP fromQ : List Message}

theorem sentByTwo_left : sentByTwo P Q fromP fromQ P = fromP := if_pos rfl

theorem sentByTwo_right (hPQ : P ≠ Q) : sentByTwo P Q fromP fromQ Q = fromQ := by
  rw [sentByTwo, if_neg (Ne.symm hPQ), if_pos rfl]

theorem sentByTwo_other {p : NodeId} (hp : p ≠ P) (hq : p ≠ Q) :
    sentByTwo P Q fromP fromQ p = [] := by
  rw [sentByTwo, if_neg hp, if_neg hq]

theorem mem_of_mem_sentByTwo {p : NodeId} {m : Message} (h : m ∈ sentByTwo P Q fromP fromQ p) :
    m ∈ fromP ++ fromQ := by
  unfold sentByTwo at h
  split at h
  · exact List.mem_append_left _ h
  · split at h
    · exact List.mem_append_right _ h
    · cases h

theorem ofPeer_sentByTwo {stream : List Arrival}
    (hPQ : P ≠ Q) (hP : ofPeer P stream = fromP.flatMap Message.chunks)
    (hQ : ofPeer Q stream = fromQ.flatMap Message.chunks)
    (honly : ∀ arrival ∈ stream, arrival.1 = P ∨ arrival.1 = Q) (p : NodeId) :
    ofPeer p stream = (sentByTwo P Q fromP fromQ p).flatMap Message.chunks := by
  by_cases hp : p = P
  · rw [hp, sentByTwo_left]
    exact hP
  · by_cases hq : p = Q
    · rw [hq, sentByTwo_right hPQ]
      exact hQ
    · rw [sentByTwo_other hp hq, List.flatMap_nil]
      apply ofPeer_eq_nil
      rintro arrival harrival rfl
      rcases honly arrival harrival with h | h
      · exact hp h
      · exact hq h

end TwoSenders

/-- Two peers send to a receiver with nothing open. If their chunks stay separate and every
message is deliverable, each peer's messages are returned once, in order, and nothing else is. -/
theorem peer_streams_separate (receiver : GattSyncProtocol) (me P Q : NodeId) (hPQ : P ≠ Q)
    (configP configQ : SyncConfig) (actionsP actionsQ : List Action) (stream : List Arrival)
    (hfree : receiver.rxReassembler.partials = ∅)
    (hP : ofPeer P stream = (messagesTo me (new P configP) actionsP).flatMap Message.chunks)
    (hQ : ofPeer Q stream = (messagesTo me (new Q configQ) actionsQ).flatMap Message.chunks)
    (honly : ∀ arrival ∈ stream, arrival.1 = P ∨ arrival.1 = Q)
    (hdeliverable : ∀ m ∈ messagesTo me (new P configP) actionsP ++
        messagesTo me (new Q configQ) actionsQ,
      OperationBatch.Sendable m.operations ∧ m.chunks.length ≤ 65535)
    (hseparate : Separate (fun _ => none) stream) :
    ofPeer P (returned receiver stream) =
        (messagesTo me (new P configP) actionsP).map Message.operations ∧
      ofPeer Q (returned receiver stream) =
        (messagesTo me (new Q configQ) actionsQ).map Message.operations ∧
      ∀ peer, peer ≠ P → peer ≠ Q → ofPeer peer (returned receiver stream) = [] := by
  have hvalid : ∀ p, ∀ m ∈ sentByTwo P Q (messagesTo me (new P configP) actionsP)
      (messagesTo me (new Q configQ) actionsQ) p, m.Deliverable := by
    intro p m hm
    have hboth := mem_of_mem_sentByTwo hm
    have hmtu : chunkHeaderSize < m.mtu := by
      rcases List.mem_append.mp hboth with hmem | hmem
      · exact (messagesTo_sound hmem).2
      · exact (messagesTo_sound hmem).2
    exact ⟨hmtu, (hdeliverable m hboth).1, (hdeliverable m hboth).2⟩
  have hall := returned_of_sent hfree hvalid (ofPeer_sentByTwo hPQ hP hQ honly) hseparate
  refine ⟨?_, ?_, ?_⟩
  · rw [hall P, sentByTwo_left]
  · rw [hall Q, sentByTwo_right hPQ]
  · intro peer hp hq
    rw [hall peer, sentByTwo_other hp hq, List.map_nil]

/-! ## Two colliding streams -/

/-- A sender that queues and sends one increment after the other to node 9. -/
def incrementSender (node : NodeId) (amounts : List UInt64) : List Action :=
  amounts.flatMap fun amount =>
    [.queueOperation (.incrementCounter 0 node amount), .prepareSync 9]

def incrementMessage (id : UInt32) (node : NodeId) (amount : UInt64) : Message :=
  ⟨id, [.incrementCounter 0 node amount], defaultMtu⟩

/-- Nodes 1 and 2 each send their first message, in two chunks, one chunk at a time. -/
def crossedStream : List Arrival :=
  [(1, (incrementMessage 1 1 5).cut.chunkAt 0), (2, (incrementMessage 1 2 7).cut.chunkAt 0),
    (1, (incrementMessage 1 1 5).cut.chunkAt 1), (2, (incrementMessage 1 2 7).cut.chunkAt 1)]

/-- Node 1 is credited with the operation of node 2, and one message is lost. -/
theorem crossed_streams_mix :
    ofPeer 1 crossedStream = (messagesTo 9 (new 1 SyncConfig.default)
        (incrementSender 1 [5])).flatMap Message.chunks ∧
      ofPeer 2 crossedStream = (messagesTo 9 (new 2 SyncConfig.default)
        (incrementSender 2 [7])).flatMap Message.chunks ∧
      (∀ arrival ∈ crossedStream, arrival.1 = 1 ∨ arrival.1 = 2) ∧
      returned (new 9 SyncConfig.default) crossedStream =
        [(1, [.incrementCounter 0 2 7])] := by
  decide

/-- Node 2 sends two messages; node 1 sends its first while the second is under way. -/
def separateStream : List Arrival :=
  [(2, (incrementMessage 1 2 7).cut.chunkAt 0), (2, (incrementMessage 1 2 7).cut.chunkAt 1),
    (1, (incrementMessage 1 1 5).cut.chunkAt 0), (2, (incrementMessage 2 2 8).cut.chunkAt 0),
    (1, (incrementMessage 1 1 5).cut.chunkAt 1), (2, (incrementMessage 2 2 8).cut.chunkAt 1)]

theorem separate_streams_returned :
    ofPeer 1 (returned (new 9 SyncConfig.default) separateStream) =
        [[.incrementCounter 0 1 5]] ∧
      ofPeer 2 (returned (new 9 SyncConfig.default) separateStream) =
        [[.incrementCounter 0 2 7], [.incrementCounter 0 2 8]] := by
  have hone : messagesTo 9 (new 1 SyncConfig.default) (incrementSender 1 [5]) =
      [incrementMessage 1 1 5] := by decide
  have htwo : messagesTo 9 (new 2 SyncConfig.default) (incrementSender 2 [7, 8]) =
      [incrementMessage 1 2 7, incrementMessage 2 2 8] := by decide
  have hsendable : ∀ id node amount,
      OperationBatch.Sendable (incrementMessage id node amount).operations := by
    intro id node amount
    refine ⟨by simp [incrementMessage], ?_, ?_⟩
    · intro op hop
      rw [List.mem_singleton.mp hop]
      trivial
    · intro op hop
      rw [List.mem_singleton.mp hop]
      simp [CrdtOperation.encode]
  have hcount : ∀ id node amount, (incrementMessage id node amount).cut.count = 2 := by
    intro id node amount
    simp [CutMessage.count, Message.cut, Message.data, incrementMessage, OperationBatch.encodeOperations,
      OperationBatch.encodeOperation, CrdtOperation.encode, Chunks.count, defaultMtu,
      chunkHeaderSize]
  have hseparate : Separate (fun _ => none) separateStream := by
    have hheader : ∀ id node amount i, ((incrementMessage id node amount).cut.chunkAt i).header =
        ⟨id, UInt16.ofNat i, 2⟩ := by
      intro id node amount i
      rw [CutMessage.chunkAt, hcount]
      rfl
    have hsteps : ∀ i : Nat, i < 2 →
        ((UInt16.ofNat i).toNat + 1 < (2 : UInt16).toNat ↔ i = 0) := by decide
    simp only [Separate, separateStream, advance, hheader, hsteps 0 (by omega), hsteps 1 (by omega)]
    simp
    grind
  have hresult := peer_streams_separate (new 9 SyncConfig.default) 9 1 2 (by decide)
    SyncConfig.default SyncConfig.default (incrementSender 1 [5]) (incrementSender 2 [7, 8])
    separateStream rfl (by decide) (by decide) (by decide)
    (by
      rw [hone, htwo]
      intro m hm
      simp only [List.cons_append, List.nil_append, List.mem_cons, List.not_mem_nil,
        or_false] at hm
      rcases hm with rfl | rfl | rfl
      · exact ⟨hsendable 1 1 5, by decide⟩
      · exact ⟨hsendable 1 2 7, by decide⟩
      · exact ⟨hsendable 2 2 8, by decide⟩)
    hseparate
  rw [hone, htwo] at hresult
  exact ⟨hresult.1, hresult.2.1⟩

end PeatBtle.GattSyncProtocol
