import PeatBtle.Data.Collected
import PeatBtle.Data.LoggedRun
import PeatBtle.Sync.Protocol

/-!
# Chunks in any order

A message that was cut into chunks is put together again from any delivery of its chunks,
with duplicates and with chunks of other messages in between. A partial message counts what
it holds, though, whatever the indices are: a chunk with an index that the message does not
have is counted as well.
-/

namespace PeatBtle

open Wire Collected MapMerge LoggedRun

/-- A message that is cut into no more chunks than there are indices. -/
structure Transfer extends CutMessage where
  mtu_gt : chunkHeaderSize < mtu
  length_le : toCutMessage.chunks.length ≤ 65535

abbrev ChunkDelivery := SyncChunk × UInt64

namespace ChunkReassembler

def deliver (r : ChunkReassembler) (deliveries : List ChunkDelivery) : ChunkReassembler :=
  run (fun r d => (r.process d.1 d.2).1) r deliveries

@[simp] theorem deliver_nil (r : ChunkReassembler) : r.deliver [] = r := rfl

@[simp] theorem deliver_cons (r : ChunkReassembler) (d : ChunkDelivery) (ds : List ChunkDelivery) :
    r.deliver (d :: ds) = (r.process d.1 d.2).1.deliver ds := rfl

/-- What one chunk of a longer message does to the partial message it belongs to. -/
theorem process_cases {r : ChunkReassembler} {chunk : SyncChunk}
    (hlong : chunk.header.totalChunks ≠ 1) (now : UInt64) :
    let part := r.partials[chunk.header.messageId]?.getD ⟨chunk.header.totalChunks, ∅, now⟩
    let chunks := part.chunks.insert chunk.header.chunkIndex chunk.payload
    chunks.size = part.totalChunks.toNat ∧
      r.process chunk now =
        ({ r with partials := r.partials.erase chunk.header.messageId },
          gather chunks (List.range part.totalChunks.toNat)) ∨
    chunks.size ≠ part.totalChunks.toNat ∧
      r.process chunk now =
        ({ r with
            partials := r.partials.insert chunk.header.messageId { part with chunks := chunks } },
          none) := by
  intro part chunks
  unfold process
  simp only [if_neg hlong]
  by_cases hsize : chunks.size = part.totalChunks.toNat
  · exact Or.inl ⟨hsize, if_pos hsize⟩
  · exact Or.inr ⟨hsize, if_neg hsize⟩

/-- Chunks of other messages leave a partial message alone. -/
theorem getElem?_process_of_ne {r : ChunkReassembler} {chunk : SyncChunk} {id : UInt32}
    (hne : chunk.header.messageId ≠ id) (now : UInt64) :
    (r.process chunk now).1.partials[id]? = r.partials[id]? := by
  by_cases hone : chunk.header.totalChunks = 1
  · rw [process]
    simp only [if_pos hone]
  · rcases process_cases (r := r) hone now with ⟨-, hprocess⟩ | ⟨-, hprocess⟩
    · rw [hprocess, getElem?_erase_eq, if_neg hne]
    · rw [hprocess, getElem?_insert_eq, if_neg hne]

end ChunkReassembler

namespace Transfer

variable {t : Transfer} {r : ChunkReassembler} {got : Finset Nat} {i : Nat}

/-- All the indices of the message. -/
def all (t : Transfer) : Finset Nat := Finset.range t.count

theorem chunks_eq (hdata : t.data ≠ []) : t.chunks = (List.range t.count).map t.chunkAt :=
  CutMessage.chunks_eq t.mtu_gt hdata

theorem chunks_eq_nil (hdata : t.data = []) :
    t.chunks = [⟨⟨t.messageId, 0, 1⟩, []⟩] := by
  have hsize := t.mtu_gt
  have hcount : Chunks.count (t.mtu - chunkHeaderSize) ([] : Bytes) = 0 :=
    Nat.div_eq_of_lt (by simp only [List.length_nil]; omega)
  unfold CutMessage.chunks chunkData
  rw [hdata]
  simp only [if_neg (show ¬ t.mtu - chunkHeaderSize = 0 by omega), Chunks.pieces, hcount]
  rfl

theorem data_ne_nil (hlong : 1 < t.chunks.length) : t.data ≠ [] := by
  intro hnil
  rw [chunks_eq_nil hnil, List.length_singleton] at hlong
  omega

theorem length_chunks (hdata : t.data ≠ []) : t.chunks.length = t.count :=
  CutMessage.length_chunks t.mtu_gt hdata

theorem count_le (hdata : t.data ≠ []) : t.count ≤ 65535 := by
  rw [← length_chunks hdata]
  exact t.length_le

theorem mem_chunks (hdata : t.data ≠ []) {c : SyncChunk} :
    c ∈ t.chunks ↔ ∃ i < t.count, t.chunkAt i = c := by
  rw [chunks_eq hdata, List.mem_map]
  simp only [List.mem_range]

/-- A message of which the chunks at some positions have arrived. -/
structure Long (t : Transfer) : Prop where
  one_lt : 1 < t.count
  le : t.count ≤ 65535

theorem Long.of_chunks (hlong : 1 < t.chunks.length) : t.Long :=
  ⟨length_chunks (data_ne_nil hlong) ▸ hlong, count_le (data_ne_nil hlong)⟩

theorem Long.toNat_count (h : t.Long) : (UInt16.ofNat t.count).toNat = t.count :=
  toNat_ofNat16 (by have := h.le; omega)

theorem Long.count_ne_one (h : t.Long) : UInt16.ofNat t.count ≠ 1 := by
  intro heq
  have hcount := h.toNat_count
  rw [heq] at hcount
  have hone := h.one_lt
  have : t.count = 1 := hcount.symm
  omega

theorem Long.toNat_index (h : t.Long) (hi : i < t.count) : (UInt16.ofNat i).toNat = i :=
  toNat_ofNat16 (by have := h.le; omega)

/-! ## What a partial message holds -/

/-- The reassembler holds the chunks at these positions, and no others. -/
def Holds (t : Transfer) (got : Finset Nat) (r : ChunkReassembler) : Prop :=
  match r.partials[t.messageId]? with
  | none => got = ∅
  | some part =>
      part.totalChunks = UInt16.ofNat t.count ∧
        Holding UInt16.toNat t.piece got part.chunks

theorem Holds.getD (h : t.Holds got r) (now : UInt64) :
    let part := r.partials[t.messageId]?.getD ⟨UInt16.ofNat t.count, ∅, now⟩
    part.totalChunks = UInt16.ofNat t.count ∧ Holding UInt16.toNat t.piece got part.chunks := by
  unfold Holds at h
  cases hpart : r.partials[t.messageId]? with
  | none =>
      rw [hpart] at h
      obtain rfl := h
      exact ⟨rfl, holding_empty UInt16.toNat t.piece⟩
  | some part =>
      rw [hpart] at h
      exact h

theorem gather_of_holding {value : Nat → Bytes} {chunks : Map UInt16 Bytes} (hlong : t.Long)
    (h : Holding UInt16.toNat value got chunks) (hgot : t.all ⊆ got)
    (hvalue : ∀ i < t.count, value i = t.piece i) :
    ChunkReassembler.gather chunks (List.range t.count) = some t.data := by
  rw [← CutMessage.flatMap_piece t.mtu_gt]
  refine ChunkReassembler.gather_eq fun i hi => ?_
  have hlt := List.mem_range.mp hi
  rw [h.lookup, hlong.toNat_index hlt, if_pos (hgot (Finset.mem_range.mpr hlt)), hvalue i hlt]

/-- One more chunk under the identifier: the number of positions decides whether the message
is put together. -/
theorem process_holding {value : Nat → Bytes} {c : SyncChunk} {now : UInt64} (hlong : t.Long)
    (hid : c.header.messageId = t.messageId) (hc : c.header.totalChunks ≠ 1)
    (hpayload : c.payload = value c.header.chunkIndex.toNat)
    (hpart : let part := r.partials[t.messageId]?.getD ⟨c.header.totalChunks, ∅, now⟩
      part.totalChunks = UInt16.ofNat t.count ∧ Holding UInt16.toNat value got part.chunks) :
    (insert c.header.chunkIndex.toNat got).card = t.count ∧
      (∃ chunks, Holding UInt16.toNat value (insert c.header.chunkIndex.toNat got) chunks ∧
        r.process c now = ({ r with partials := r.partials.erase t.messageId },
          ChunkReassembler.gather chunks (List.range t.count))) ∨
    (insert c.header.chunkIndex.toNat got).card ≠ t.count ∧
      ∃ part : PartialMessage, part.totalChunks = UInt16.ofNat t.count ∧
        Holding UInt16.toNat value (insert c.header.chunkIndex.toNat got) part.chunks ∧
        r.process c now = ({ r with partials := r.partials.insert t.messageId part }, none) := by
  obtain ⟨htotal, hheld⟩ := hpart
  have hmore := hheld.insert (fun _ _ => UInt16.toNat_inj.mp) c.header.chunkIndex
  rw [← hpayload] at hmore
  have hcount := hlong.toNat_count
  have hcases := ChunkReassembler.process_cases (r := r) hc now
  dsimp only at hcases
  rw [hid, htotal, hcount, hmore.size] at hcases
  rcases hcases with ⟨hcard, hprocess⟩ | ⟨hcard, hprocess⟩
  · exact Or.inl ⟨hcard, _, hmore, hprocess⟩
  · exact Or.inr ⟨hcard, _, rfl, hmore, hprocess⟩

theorem holds_empty_erase (t : Transfer) (r : ChunkReassembler) :
    t.Holds ∅ { r with partials := r.partials.erase t.messageId } := by
  unfold Holds
  rw [getElem?_erase_eq, if_pos rfl]

theorem eq_all_iff (hgot : got ⊆ t.all) : got = t.all ↔ got.card = t.count := by
  have hcard : t.all.card = t.count := Finset.card_range t.count
  constructor
  · rintro rfl
    exact hcard
  · intro heq
    exact Finset.eq_of_subset_of_card_le hgot (by omega)

/-- A chunk completes the message or joins those that are held. -/
theorem Holds.process (h : t.Holds got r) (hlong : t.Long) (hgot : got ⊆ t.all)
    (hi : i < t.count) (now : UInt64) :
    insert i got = t.all ∧ (r.process (t.chunkAt i) now).2 = some t.data ∧
      t.Holds ∅ (r.process (t.chunkAt i) now).1 ∨
    insert i got ≠ t.all ∧ (r.process (t.chunkAt i) now).2 = none ∧
      t.Holds (insert i got) (r.process (t.chunkAt i) now).1 := by
  have hindex : (t.chunkAt i).header.chunkIndex.toNat = i := hlong.toNat_index hi
  have hsub : insert i got ⊆ t.all :=
    Finset.insert_subset (Finset.mem_range.mpr hi) hgot
  have hstep := @process_holding t r got t.piece (t.chunkAt i) now hlong rfl
    hlong.count_ne_one (by rw [hindex]; rfl) (h.getD now)
  rw [hindex] at hstep
  rcases hstep with ⟨hcard, chunks, hheld, hprocess⟩ | ⟨hcard, part, htotal, hheld, hprocess⟩
  · have hall := (eq_all_iff hsub).mpr hcard
    rw [hprocess]
    refine Or.inl ⟨hall, ?_, holds_empty_erase t r⟩
    exact gather_of_holding hlong hheld (subset_of_eq hall.symm) fun _ _ => rfl
  · rw [hprocess]
    refine Or.inr ⟨fun hall => hcard ((eq_all_iff hsub).mp hall), rfl, ?_⟩
    unfold Holds
    rw [getElem?_insert_eq, if_pos rfl]
    exact ⟨htotal, hheld⟩

/-! ## Deliveries -/

/-- What arrives under the identifier of the message are its own chunks. -/
def Genuine (t : Transfer) (deliveries : List ChunkDelivery) : Prop :=
  ∀ d ∈ deliveries, d.1.header.messageId = t.messageId → d.1 ∈ t.chunks

/-- The positions of the chunks that arrive. -/
def arrived (t : Transfer) (deliveries : List ChunkDelivery) : Finset Nat :=
  t.all.filter fun i => t.chunkAt i ∈ deliveries.map Prod.fst

theorem arrived_subset (t : Transfer) (ds : List ChunkDelivery) : t.arrived ds ⊆ t.all :=
  Finset.filter_subset _ _

theorem mem_arrived {ds : List ChunkDelivery} :
    i ∈ t.arrived ds ↔ i < t.count ∧ t.chunkAt i ∈ ds.map Prod.fst := by
  rw [arrived, Finset.mem_filter, all, Finset.mem_range]

theorem chunkAt_inj (hlong : t.Long) {j : Nat} (hi : i < t.count) (hj : j < t.count)
    (h : t.chunkAt i = t.chunkAt j) : i = j := by
  have hindex : UInt16.ofNat i = UInt16.ofNat j :=
    congrArg (fun c : SyncChunk => c.header.chunkIndex) h
  have hle := hlong.le
  exact ofNat16_inj (by omega) (by omega) hindex

@[simp] theorem arrived_nil (t : Transfer) : t.arrived [] = ∅ := by
  simp [arrived]

theorem arrived_cons_of_chunk (hlong : t.Long) (hi : i < t.count) (now : UInt64)
    (ds : List ChunkDelivery) : t.arrived ((t.chunkAt i, now) :: ds) = insert i (t.arrived ds) := by
  ext j
  rw [Finset.mem_insert, mem_arrived, mem_arrived, List.map_cons, List.mem_cons]
  constructor
  · rintro ⟨hj, heq | hmem⟩
    · exact Or.inl (chunkAt_inj hlong hj hi heq)
    · exact Or.inr ⟨hj, hmem⟩
  · rintro (rfl | ⟨hj, hmem⟩)
    · exact ⟨hi, Or.inl rfl⟩
    · exact ⟨hj, Or.inr hmem⟩

theorem arrived_cons_of_ne {d : ChunkDelivery} (hd : d.1.header.messageId ≠ t.messageId)
    (ds : List ChunkDelivery) : t.arrived (d :: ds) = t.arrived ds := by
  ext j
  rw [mem_arrived, mem_arrived, List.map_cons, List.mem_cons]
  have hne : t.chunkAt j ≠ d.1 := fun heq => hd (by rw [← heq]; rfl)
  simp only [hne, false_or]

theorem arrived_append (t : Transfer) (front back : List ChunkDelivery) :
    t.arrived (front ++ back) = t.arrived front ∪ t.arrived back := by
  ext j
  rw [Finset.mem_union, mem_arrived, mem_arrived, mem_arrived, List.map_append, List.mem_append]
  tauto

/-- A delivery is of another message or of one of the chunks. -/
theorem Genuine.cons_cases {d : ChunkDelivery} {ds : List ChunkDelivery} (hlong : t.Long)
    (h : t.Genuine (d :: ds)) :
    t.Genuine ds ∧ (d.1.header.messageId ≠ t.messageId ∨
      ∃ i < t.count, d = (t.chunkAt i, d.2)) := by
  refine ⟨fun other hother => h other (List.mem_cons_of_mem _ hother), ?_⟩
  by_cases hid : d.1.header.messageId = t.messageId
  · have hdata : t.data ≠ [] := by
      intro hnil
      have hone := hlong.one_lt
      rw [CutMessage.count, hnil, Chunks.count, List.length_nil] at hone
      have hsize := t.mtu_gt
      rw [Nat.div_eq_of_lt (by omega)] at hone
      omega
    obtain ⟨i, hi, hchunk⟩ := (mem_chunks hdata).mp (h d List.mem_cons_self hid)
    exact Or.inr ⟨i, hi, Prod.ext hchunk.symm rfl⟩
  · exact Or.inl hid

theorem Holds.process_of_ne {d : ChunkDelivery} (h : t.Holds got r)
    (hd : d.1.header.messageId ≠ t.messageId) : t.Holds got (r.process d.1 d.2).1 := by
  unfold Holds at h ⊢
  rw [ChunkReassembler.getElem?_process_of_ne hd]
  exact h

/-- Until the message is complete, the reassembler holds what has arrived. -/
theorem Holds.deliver (h : t.Holds got r) (hlong : t.Long) (hgot : got ⊆ t.all)
    {ds : List ChunkDelivery} (hds : t.Genuine ds) (hopen : got ∪ t.arrived ds ≠ t.all) :
    t.Holds (got ∪ t.arrived ds) (r.deliver ds) := by
  induction ds generalizing r got with
  | nil =>
      rw [arrived_nil, Finset.union_empty]
      exact h
  | cons d ds ih =>
      obtain ⟨hrest, hother | ⟨i, hi, hchunk⟩⟩ := hds.cons_cases hlong
      · rw [arrived_cons_of_ne hother] at hopen ⊢
        exact ih (h.process_of_ne hother) hgot hrest hopen
      · rw [hchunk, arrived_cons_of_chunk hlong hi, Finset.union_insert,
          ← Finset.insert_union] at hopen ⊢
        have hsub : insert i got ⊆ t.all := Finset.insert_subset (Finset.mem_range.mpr hi) hgot
        rcases h.process hlong hgot hi d.2 with ⟨hall, -⟩ | ⟨-, -, hnext⟩
        · refine absurd ?_ hopen
          rw [hall, Finset.union_eq_left.mpr (arrived_subset t ds)]
        · exact ih hnext hsub hrest hopen

/-- The last missing chunk brings the message, and no other chunk brings anything. -/
theorem Holds.result (h : t.Holds got r) (hlong : t.Long) (hgot : got ⊆ t.all)
    {ds : List ChunkDelivery} (hds : t.Genuine ds) (hopen : got ∪ t.arrived ds ≠ t.all)
    (hi : i < t.count) (now : UInt64) :
    ((r.deliver ds).process (t.chunkAt i) now).2 =
      if insert i (got ∪ t.arrived ds) = t.all then some t.data else none := by
  have hheld := h.deliver hlong hgot hds hopen
  have hsub := Finset.union_subset hgot (arrived_subset t ds)
  rcases hheld.process hlong hsub hi now with ⟨hall, hresult, -⟩ | ⟨hall, hresult, -⟩
  · rw [hresult, if_pos hall]
  · rw [hresult, if_neg hall]

theorem holds_of_fresh (hfresh : r.partials[t.messageId]? = none) : t.Holds ∅ r := by
  unfold Holds
  rw [hfresh]

/-! ## All chunks -/

theorem payload_length_le {c : SyncChunk} (hc : c ∈ t.chunks) :
    c.payload.length ≤ t.mtu - chunkHeaderSize := by
  by_cases hdata : t.data = []
  · rw [chunks_eq_nil hdata, List.mem_singleton] at hc
    rw [hc]
    exact Nat.zero_le _
  · obtain ⟨i, -, rfl⟩ := (mem_chunks hdata).mp hc
    exact List.length_take_le _ _

theorem encode_length_le {c : SyncChunk} (hc : c ∈ t.chunks) : c.encode.length ≤ t.mtu := by
  have hpayload := payload_length_le hc
  have hmtu := t.mtu_gt
  have hheader : c.header.encode.length = chunkHeaderSize := rfl
  rw [SyncChunk.encode, List.length_append, hheader]
  omega

/-- The only chunk of a message is the message. -/
theorem process_only {c : SyncChunk} (hone : t.chunks.length = 1) (hc : c ∈ t.chunks)
    (r : ChunkReassembler) (now : UInt64) : r.process c now = (r, some t.data) := by
  have hchunk : c.header.totalChunks = 1 ∧ c.payload = t.data := by
    by_cases hdata : t.data = []
    · rw [chunks_eq_nil hdata, List.mem_singleton] at hc
      rw [hc, hdata]
      exact ⟨rfl, rfl⟩
    · rw [length_chunks hdata] at hone
      obtain ⟨i, hi, rfl⟩ := (mem_chunks hdata).mp hc
      have hzero : i = 0 := by omega
      have hflat := CutMessage.flatMap_piece t.mtu_gt
      rw [hone] at hflat
      subst hzero
      have hpiece : t.piece 0 = t.data := by simpa using hflat
      exact ⟨congrArg UInt16.ofNat hone, hpiece⟩
  rw [ChunkReassembler.process, if_pos hchunk.1, hchunk.2]

theorem complete_iff (hlong : t.Long) (hdata : t.data ≠ []) (hi : i < t.count)
    (ds : List ChunkDelivery) :
    insert i (∅ ∪ t.arrived ds) = t.all ↔
      ∀ other ∈ t.chunks, other = t.chunkAt i ∨ other ∈ ds.map Prod.fst := by
  have hsub : insert i (∅ ∪ t.arrived ds) ⊆ t.all := by
    rw [Finset.empty_union]
    exact Finset.insert_subset (Finset.mem_range.mpr hi) (arrived_subset t ds)
  constructor
  · intro hall other hother
    obtain ⟨k, hk, rfl⟩ := (mem_chunks hdata).mp hother
    have hmem : k ∈ insert i (∅ ∪ t.arrived ds) := hall ▸ Finset.mem_range.mpr hk
    rw [Finset.mem_insert, Finset.empty_union, mem_arrived] at hmem
    exact hmem.imp (congrArg t.chunkAt) And.right
  · intro hevery
    refine Finset.Subset.antisymm hsub fun k hk => ?_
    have hlt := Finset.mem_range.mp hk
    rw [Finset.mem_insert, Finset.empty_union, mem_arrived]
    rcases hevery _ ((mem_chunks hdata).mpr ⟨k, hlt, rfl⟩) with heq | hmem
    · exact Or.inl (chunkAt_inj hlong hlt hi heq)
    · exact Or.inr ⟨hlt, hmem⟩

/-- A message is put together from its chunks in any order: the last missing one brings it, and
until then no chunk brings anything. -/
theorem chunks_reassembled (t : Transfer) :
    (∀ c ∈ t.chunks, c.encode.length ≤ t.mtu ∧ SyncChunk.decode c.encode = some c) ∧
    (t.chunks.length = 1 → ∀ c ∈ t.chunks, ∀ r now,
      ChunkReassembler.process r c now = (r, some t.data)) ∧
    (1 < t.chunks.length → ∀ r : ChunkReassembler, r.partials[t.messageId]? = none →
      ∀ front, t.Genuine front → (∃ c ∈ t.chunks, c ∉ front.map Prod.fst) →
      ∀ c ∈ t.chunks, ∀ now, ((r.deliver front).process c now).2 =
        if ∀ other ∈ t.chunks, other = c ∨ other ∈ front.map Prod.fst then some t.data
        else none) := by
  refine ⟨fun c hc => ⟨encode_length_le hc, SyncChunk.decode_encode c⟩, ?_, ?_⟩
  · exact fun hone c hc r now => process_only hone hc r now
  · intro hmany r hfresh front hfront hopen c hc now
    have hlong := Long.of_chunks hmany
    have hdata := data_ne_nil hmany
    obtain ⟨i, hi, rfl⟩ := (mem_chunks hdata).mp hc
    have hmissing : ∅ ∪ t.arrived front ≠ t.all := by
      obtain ⟨other, hother, hnot⟩ := hopen
      obtain ⟨k, hk, rfl⟩ := (mem_chunks hdata).mp hother
      intro hall
      have hmem : k ∈ ∅ ∪ t.arrived front := hall ▸ Finset.mem_range.mpr hk
      rw [Finset.empty_union, mem_arrived] at hmem
      exact hnot hmem.2
    rw [(holds_of_fresh hfresh).result hlong (Finset.empty_subset _) hfront hmissing hi now]
    simp only [complete_iff hlong hdata hi front]

/-- Two chunks of twelve bytes. -/
def twoChunks : Transfer where
  data := (List.range 24).map UInt8.ofNat
  mtu := 20
  messageId := 7
  mtu_gt := by decide
  length_le := by decide

/-- The second chunk comes first, twice and with a chunk of another message behind it. -/
theorem chunks_reassembled_twoChunks :
    ((ChunkReassembler.new.deliver [(twoChunks.chunkAt 1, 0), (twoChunks.chunkAt 1, 1),
      (⟨⟨8, 0, 3⟩, [1]⟩, 2)]).process (twoChunks.chunkAt 0) 3).2 = some twoChunks.data := by
  have h := (chunks_reassembled twoChunks).2.2 (by decide) ChunkReassembler.new rfl
    [(twoChunks.chunkAt 1, 0), (twoChunks.chunkAt 1, 1), (⟨⟨8, 0, 3⟩, [1]⟩, 2)]
    (by unfold Genuine; decide) (by decide) (twoChunks.chunkAt 0) (by decide) 3
  rw [h]
  exact if_pos (by decide)

/-! ## A chunk that the message does not have -/

/-- The pieces of the message, and one more under the index of an extra chunk. -/
def pieceOr (t : Transfer) (x : SyncChunk) (i : Nat) : Bytes :=
  if i = x.header.chunkIndex.toNat then x.payload else t.piece i

/-- The reassembler holds the chunks at these positions, and one under an index that the message
does not have. -/
def Spoiled (t : Transfer) (x : SyncChunk) (got : Finset Nat) (r : ChunkReassembler) : Prop :=
  ∃ part, r.partials[t.messageId]? = some part ∧ part.totalChunks = UInt16.ofNat t.count ∧
    Holding UInt16.toNat (t.pieceOr x) (insert x.header.chunkIndex.toNat got) part.chunks

variable {x : SyncChunk} {j : Nat}

theorem pieceOr_of_lt (hidx : t.count ≤ x.header.chunkIndex.toNat) (hi : i < t.count) :
    t.pieceOr x i = t.piece i := if_neg (by omega)

theorem not_mem_of_subset (hidx : t.count ≤ x.header.chunkIndex.toNat) (hgot : got ⊆ t.all) :
    x.header.chunkIndex.toNat ∉ got := fun hmem => by
  have hlt := Finset.mem_range.mp (hgot hmem)
  omega

/-- The extra chunk counts, and a message that seems complete with it is thrown away. -/
theorem Holds.process_stray (h : t.Holds got r) (hlong : t.Long)
    (hpart : r.partials[t.messageId]?.isSome = true) (hgot : got ⊆ t.all)
    (hid : x.header.messageId = t.messageId) (hidx : t.count ≤ x.header.chunkIndex.toNat)
    (hx : x.header.totalChunks ≠ 1) (now : UInt64) :
    got.card + 1 = t.count ∧ t.Holds ∅ (r.process x now).1 ∨
    got.card + 1 ≠ t.count ∧ t.Spoiled x got (r.process x now).1 := by
  obtain ⟨part, hpart⟩ := Option.isSome_iff_exists.mp hpart
  have hnew := not_mem_of_subset hidx hgot
  have hcard : (insert x.header.chunkIndex.toNat got).card = got.card + 1 :=
    Finset.card_insert_of_notMem hnew
  unfold Holds at h
  rw [hpart] at h
  have hheld : Holding UInt16.toNat (t.pieceOr x) got part.chunks :=
    h.2.congr fun i hi => pieceOr_of_lt hidx (Finset.mem_range.mp (hgot hi))
  have hstep := @process_holding t r got (t.pieceOr x) x now hlong hid hx (if_pos rfl).symm
    (by rw [hpart]; exact ⟨h.1, hheld⟩)
  rw [hcard] at hstep
  rcases hstep with ⟨hfull, chunks, -, hprocess⟩ | ⟨hfull, next, htotal, hmore, hprocess⟩
  · rw [hprocess]
    exact Or.inl ⟨hfull, holds_empty_erase t r⟩
  · rw [hprocess]
    refine Or.inr ⟨hfull, next, ?_, htotal, hmore⟩
    rw [getElem?_insert_eq, if_pos rfl]

theorem Spoiled.process (h : t.Spoiled x got r) (hlong : t.Long) (hgot : got ⊆ t.all)
    (hidx : t.count ≤ x.header.chunkIndex.toNat) (hi : i < t.count) (now : UInt64) :
    (insert i got).card + 1 = t.count ∧ t.Holds ∅ (r.process (t.chunkAt i) now).1 ∨
    (insert i got).card + 1 ≠ t.count ∧
      t.Spoiled x (insert i got) (r.process (t.chunkAt i) now).1 := by
  obtain ⟨part, hpart, htotal, hheld⟩ := h
  have hindex : (t.chunkAt i).header.chunkIndex.toNat = i := hlong.toNat_index hi
  have hsub : insert i got ⊆ t.all := Finset.insert_subset (Finset.mem_range.mpr hi) hgot
  have hcard : (insert x.header.chunkIndex.toNat (insert i got)).card = (insert i got).card + 1 :=
    Finset.card_insert_of_notMem (not_mem_of_subset hidx hsub)
  have hstep := @process_holding t r _ (t.pieceOr x) (t.chunkAt i) now hlong rfl
    hlong.count_ne_one (by rw [hindex, pieceOr_of_lt hidx hi]; rfl)
    (by rw [hpart]; exact ⟨htotal, hheld⟩)
  rw [hindex, Finset.insert_comm, hcard] at hstep
  rcases hstep with ⟨hfull, chunks, -, hprocess⟩ | ⟨hfull, next, hnext, hmore, hprocess⟩
  · rw [hprocess]
    exact Or.inl ⟨hfull, holds_empty_erase t r⟩
  · rw [hprocess]
    refine Or.inr ⟨hfull, next, ?_, hnext, hmore⟩
    rw [getElem?_insert_eq, if_pos rfl]

theorem Spoiled.process_of_ne {d : ChunkDelivery} (h : t.Spoiled x got r)
    (hd : d.1.header.messageId ≠ t.messageId) : t.Spoiled x got (r.process d.1 d.2).1 := by
  unfold Spoiled
  rw [ChunkReassembler.getElem?_process_of_ne hd]
  exact h

/-- All chunks but one are there at some moment of the deliveries, and all of them arrive again
behind it. -/
def ArriveAgain (t : Transfer) (j : Nat) (got : Finset Nat) (ds : List ChunkDelivery) : Prop :=
  ∃ earlier later, ds = earlier ++ later ∧ t.all.erase j ⊆ got ∪ t.arrived earlier ∧
    t.all.erase j ⊆ t.arrived later

theorem arriveAgain_of_all {ds : List ChunkDelivery} (hgot : t.all.erase j ⊆ got) :
    t.ArriveAgain j got ds ↔ t.all.erase j ⊆ t.arrived ds := by
  constructor
  · rintro ⟨earlier, later, rfl, -, hlater⟩
    rw [arrived_append]
    exact hlater.trans Finset.subset_union_right
  · intro h
    exact ⟨[], ds, rfl, hgot.trans Finset.subset_union_left, h⟩

theorem arriveAgain_cons {d : ChunkDelivery} {ds : List ChunkDelivery} {got' : Finset Nat}
    (hgot : ¬ t.all.erase j ⊆ got)
    (hnext : ∀ earlier, got ∪ t.arrived (d :: earlier) = got' ∪ t.arrived earlier) :
    t.ArriveAgain j got (d :: ds) ↔ t.ArriveAgain j got' ds := by
  constructor
  · rintro ⟨earlier, later, heq, hearlier, hlater⟩
    cases earlier with
    | nil =>
        rw [arrived_nil, Finset.union_empty] at hearlier
        exact absurd hearlier hgot
    | cons first earlier =>
        obtain ⟨rfl, rfl⟩ := List.cons.inj heq
        exact ⟨earlier, later, rfl, hnext earlier ▸ hearlier, hlater⟩
  · rintro ⟨earlier, later, rfl, hearlier, hlater⟩
    exact ⟨d :: earlier, later, rfl, (hnext earlier).symm ▸ hearlier, hlater⟩

/-- Where the message is started afresh, all other chunks have to arrive before the last. -/
theorem Holds.result_fresh (h : t.Holds ∅ r) (hlong : t.Long) {ds : List ChunkDelivery}
    (hds : t.Genuine ds) (hj : j < t.count) (hmissing : t.chunkAt j ∉ ds.map Prod.fst)
    (now : UInt64) :
    ((r.deliver ds).process (t.chunkAt j) now).2 = some t.data ↔
      t.all.erase j ⊆ t.arrived ds := by
  have hnot : j ∉ t.arrived ds := fun hmem => hmissing (mem_arrived.mp hmem).2
  have hopen : ∅ ∪ t.arrived ds ≠ t.all := by
    intro hall
    rw [Finset.empty_union] at hall
    exact hnot (hall ▸ Finset.mem_range.mpr hj)
  rw [h.result hlong (Finset.empty_subset _) hds hopen hj now, Finset.empty_union,
    ← Finset.subset_insert_iff]
  have hsub : insert j (t.arrived ds) ⊆ t.all :=
    Finset.insert_subset (Finset.mem_range.mpr hj) (arrived_subset t ds)
  by_cases hall : insert j (t.arrived ds) = t.all
  · rw [if_pos hall]
    exact iff_of_true rfl (subset_of_eq hall.symm)
  · rw [if_neg hall]
    refine iff_of_false (Option.some_ne_none _).symm fun hle => ?_
    exact hall (Finset.Subset.antisymm hsub hle)

theorem card_erase_all (hj : j < t.count) : (t.all.erase j).card + 1 = t.count := by
  rw [all, Finset.card_erase_add_one (Finset.mem_range.mpr hj), Finset.card_range]

/-- As long as the extra chunk is held, one genuine chunk too few completes the message. -/
theorem Spoiled.result (h : t.Spoiled x got r) (hlong : t.Long)
    (hidx : t.count ≤ x.header.chunkIndex.toNat) (hj : j < t.count) (hgot : got ⊆ t.all.erase j)
    (hcard : got.card + 1 ≠ t.count) {ds : List ChunkDelivery} (hds : t.Genuine ds)
    (hmissing : t.chunkAt j ∉ ds.map Prod.fst) (hall : t.all.erase j ⊆ got ∪ t.arrived ds)
    (now : UInt64) :
    ((r.deliver ds).process (t.chunkAt j) now).2 = some t.data ↔ t.ArriveAgain j got ds := by
  have hcount := card_erase_all (t := t) hj
  induction ds generalizing r got with
  | nil =>
      rw [arrived_nil, Finset.union_empty] at hall
      have hle := Finset.card_le_card hall
      have hge := Finset.card_le_card hgot
      omega
  | cons d ds ih =>
      have hfew : ¬ t.all.erase j ⊆ got := fun hle => by
        rw [Finset.Subset.antisymm hgot hle] at hcard
        exact hcard hcount
      have hmissing' : t.chunkAt j ∉ ds.map Prod.fst := fun hmem =>
        hmissing (List.mem_cons_of_mem _ hmem)
      obtain ⟨hrest, hother | ⟨i, hi, hchunk⟩⟩ := hds.cons_cases hlong
      · rw [arrived_cons_of_ne hother] at hall
        rw [arriveAgain_cons hfew fun earlier => by rw [arrived_cons_of_ne hother]]
        exact ih (h.process_of_ne hother) hgot hcard hrest hmissing' hall
      · have hij : i ≠ j := by
          rintro rfl
          refine hmissing ?_
          rw [hchunk]
          exact List.mem_cons_self
        have hsub : insert i got ⊆ t.all.erase j := Finset.insert_subset
          (Finset.mem_erase.mpr ⟨hij, Finset.mem_range.mpr hi⟩) hgot
        have hunion : ∀ earlier, got ∪ t.arrived (d :: earlier) =
            insert i got ∪ t.arrived earlier := by
          intro earlier
          rw [hchunk, arrived_cons_of_chunk hlong hi, Finset.union_insert, Finset.insert_union]
        rw [hunion] at hall
        rw [arriveAgain_cons hfew hunion, ChunkReassembler.deliver_cons]
        rcases h.process hlong (hgot.trans (Finset.erase_subset _ _)) hidx hi d.2 with
          ⟨hfull, hfresh⟩ | ⟨hfull, hspoiled⟩
        · have heq : insert i got = t.all.erase j :=
            Finset.eq_of_subset_of_card_le hsub (by omega)
          rw [arriveAgain_of_all (subset_of_eq heq.symm)]
          rw [hchunk]
          exact hfresh.result_fresh hlong hrest hj hmissing' now
        · rw [hchunk]
          exact ih hspoiled hsub hfull hrest hmissing' hall

/-- A message of which some chunks are held, and all others but one arrive. -/
structure OneMissing (t : Transfer) (got : Finset Nat) (ds : List ChunkDelivery) (j : Nat) :
    Prop where
  index : j < t.count
  held : got ⊆ t.all.erase j
  genuine : t.Genuine ds
  missing : t.chunkAt j ∉ ds.map Prod.fst
  others : t.all.erase j ⊆ got ∪ t.arrived ds

theorem Holds.result_last (h : t.Holds got r) (hlong : t.Long) {ds : List ChunkDelivery}
    (hlast : t.OneMissing got ds j) (now : UInt64) :
    ((r.deliver ds).process (t.chunkAt j) now).2 = some t.data := by
  have hgot : got ⊆ t.all := hlast.held.trans (Finset.erase_subset _ _)
  have hnot : j ∉ got ∪ t.arrived ds := by
    rw [Finset.mem_union, mem_arrived]
    rintro (hmem | ⟨-, hmem⟩)
    · exact (Finset.mem_erase.mp (hlast.held hmem)).1 rfl
    · exact hlast.missing hmem
  have hopen : got ∪ t.arrived ds ≠ t.all := fun hall =>
    hnot (hall ▸ Finset.mem_range.mpr hlast.index)
  have hall : insert j (got ∪ t.arrived ds) = t.all := by
    refine Finset.Subset.antisymm ?_ (Finset.subset_insert_iff.mpr hlast.others)
    exact Finset.insert_subset (Finset.mem_range.mpr hlast.index)
      (Finset.union_subset hgot (arrived_subset t ds))
  rw [h.result hlong hgot hlast.genuine hopen hlast.index now, if_pos hall]

/-- An extra chunk under the identifier of a message that is being received spares the message if
it is a message of its own, and otherwise only if all chunks but the last come a second time. -/
theorem stray_chunk_harmless_iff {t : Transfer} {r : ChunkReassembler} {got : Finset Nat}
    (hlong : 1 < t.chunks.length) (hpart : r.partials[t.messageId]?.isSome = true)
    (hheld : t.Holds got r) {ds : List ChunkDelivery} {j : Nat} (hlast : t.OneMissing got ds j)
    {x : SyncChunk} (hid : x.header.messageId = t.messageId)
    (hidx : t.count ≤ x.header.chunkIndex.toNat) (arrival now : UInt64) :
    (((r.process x arrival).1.deliver ds).process (t.chunkAt j) now).2 = some t.data ↔
      x.header.totalChunks = 1 ∨ t.ArriveAgain j got ds := by
  have hlong := Long.of_chunks hlong
  by_cases hone : x.header.totalChunks = 1
  · have hsame : (r.process x arrival).1 = r := by
      rw [ChunkReassembler.process]
      simp only [if_pos hone]
    rw [hsame]
    exact iff_of_true (hheld.result_last hlong hlast now) (Or.inl hone)
  · rw [or_iff_right hone]
    have hgot : got ⊆ t.all := hlast.held.trans (Finset.erase_subset _ _)
    rcases hheld.process_stray hlong hpart hgot hid hidx hone arrival with
      ⟨hfull, hfresh⟩ | ⟨hfew, hspoiled⟩
    · have hcount := card_erase_all (t := t) hlast.index
      have heq : got = t.all.erase j := Finset.eq_of_subset_of_card_le hlast.held (by omega)
      rw [arriveAgain_of_all (subset_of_eq heq.symm)]
      exact hfresh.result_fresh hlong hlast.genuine hlast.index hlast.missing now
    · exact hspoiled.result hlong hidx hlast.index hlast.held hfew hlast.genuine hlast.missing
        hlast.others now

/-- An index that neither of the two chunks has. -/
def strayChunk : SyncChunk := ⟨⟨7, 5, 2⟩, [0xFF]⟩

/-- With the extra chunk between them, the two chunks bring nothing. -/
theorem stray_chunk_destroys_message :
    (ChunkReassembler.new.deliver [(twoChunks.chunkAt 0, 0)]).partials[twoChunks.messageId]?.isSome ∧
    twoChunks.count ≤ strayChunk.header.chunkIndex.toNat ∧
    ((ChunkReassembler.new.deliver [(twoChunks.chunkAt 0, 0)]).process
      (twoChunks.chunkAt 1) 2).2 = some twoChunks.data ∧
    ((ChunkReassembler.new.deliver [(twoChunks.chunkAt 0, 0), (strayChunk, 1)]).process
      (twoChunks.chunkAt 1) 2).2 = none := by
  decide

theorem stray_chunk_harmless_iff_twoChunks :
    (((ChunkReassembler.new.deliver [(twoChunks.chunkAt 0, 0)]).process
      strayChunk 1).1.deliver [(twoChunks.chunkAt 0, 2)] |>.process (twoChunks.chunkAt 1) 3).2 =
      some twoChunks.data := by
  have hlast : twoChunks.OneMissing {0} [(twoChunks.chunkAt 0, 2)] 1 :=
    ⟨by decide, by decide, by unfold Genuine; decide, by decide, by decide⟩
  have hlong : 1 < twoChunks.chunks.length := by decide
  have hheld : twoChunks.Holds {0} (ChunkReassembler.new.deliver [(twoChunks.chunkAt 0, 0)]) := by
    have hgenuine : twoChunks.Genuine [(twoChunks.chunkAt 0, 0)] := by unfold Genuine; decide
    exact (holds_of_fresh (t := twoChunks) (r := ChunkReassembler.new) rfl).deliver
      (Long.of_chunks hlong) (Finset.empty_subset _) hgenuine (by decide)
  exact (stray_chunk_harmless_iff hlong (by decide) hheld hlast rfl (by decide) 1 3).mpr
    (Or.inr ⟨[], [(twoChunks.chunkAt 0, 2)], rfl, by decide, by decide⟩)

end Transfer

end PeatBtle
