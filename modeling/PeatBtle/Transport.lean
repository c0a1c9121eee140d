import PeatBtle.Data.LoggedRun
import PeatBtle.Sync.Protocol

/-!
# Sending through the transport

A send cuts its data into chunks for the connection's MTU and writes them one
after another; the first write that fails ends it. Every message goes out under
the same identifier, so what an interrupted message leaves at the receiver meets
the chunks of the next one.
-/

namespace PeatBtle

open Std Wire MapMerge

inductive SendError where
  | connectionFailed (message : String)
  | write
deriving DecidableEq

/-- One call of `send_to`, and how its writes fare. -/
structure Send where
  data : Bytes
  /-- The MTU of the connection, if there is one. -/
  mtu : Option UInt16
  /-- The first write to fail, if any. -/
  failingWrite : Option Nat
  /-- When each write is processed by the receiver. -/
  arrivedAt : Nat → UInt64

namespace Send

/-- The writes that succeed, and whether all did. -/
def writeAll (failingWrite : Option Nat) : Nat → List SyncChunk → List Bytes × Bool
  | _, [] => ([], true)
  | i, chunk :: chunks =>
      if failingWrite = some i then ([], false)
      else
        let rest := writeAll failingWrite (i + 1) chunks
        (chunk.encode :: rest.1, rest.2)

def sendTo (peerId : NodeId) (s : Send) : List Bytes × Except SendError Nat :=
  match s.mtu with
  | none => ([], .error (.connectionFailed ("No connection to " ++ peerId.display)))
  | some mtu =>
      let chunks := chunkData s.data mtu.toNat 0
      let sent := writeAll s.failingWrite 0 chunks
      (sent.1, if sent.2 then .ok s.data.length else .error .write)

end Send

namespace ChunkReassembler

/-- What the receiver does with the writes of one send, and the messages it returns. -/
def receive (r : ChunkReassembler) (arrivedAt : Nat → UInt64) : Nat → List Bytes →
    ChunkReassembler × List Bytes
  | _, [] => (r, [])
  | i, data :: rest =>
      match SyncChunk.decode data with
      | none => receive r arrivedAt (i + 1) rest
      | some chunk =>
          let processed := r.process chunk (arrivedAt i)
          let done := receive processed.1 arrivedAt (i + 1) rest
          (done.1, processed.2.toList ++ done.2)

end ChunkReassembler

/-! ## The chunks of one send -/

/-- The number of chunks. Empty data still makes one. -/
def chunkCount (size : Nat) (data : Bytes) : Nat := max (Chunks.count size data) 1

/-- Chunk `i` of `n`, each number cut to 16 bits. -/
def transportChunk (n : Nat) (piece : Nat → Bytes) (i : Nat) : SyncChunk :=
  ⟨⟨0, UInt16.ofNat i, UInt16.ofNat n⟩, piece i⟩

theorem chunkData_zero {data : Bytes} {mtu : Nat} (hmtu : chunkHeaderSize < mtu) :
    chunkData data mtu 0 = (List.range (chunkCount (mtu - chunkHeaderSize) data)).map
      (transportChunk (chunkCount (mtu - chunkHeaderSize) data)
        (Chunks.piece (mtu - chunkHeaderSize) data)) := by
  have hsize : 0 < mtu - chunkHeaderSize := by omega
  by_cases hdata : data = []
  · subst hdata
    have hcount : Chunks.count (mtu - chunkHeaderSize) ([] : Bytes) = 0 := by
      rw [Chunks.count, List.length_nil, Nat.zero_add, Nat.div_eq_of_lt (by omega)]
    have hnone : Chunks.pieces (mtu - chunkHeaderSize) ([] : Bytes) = [] := by
      rw [Chunks.pieces, hcount, List.range_zero, List.map_nil]
    rw [chunkData, if_neg (by omega), chunkCount, hcount, hnone]
    simp [transportChunk, Chunks.piece]
  · have hpos := Chunks.count_pos hsize hdata
    rw [chunkData_eq hmtu hdata, chunkCount, Nat.max_eq_left hpos]
    rfl

theorem flatMap_piece {size : Nat} (hsize : 0 < size) (data : Bytes) :
    (List.range (chunkCount size data)).flatMap (Chunks.piece size data) = data := by
  rw [Chunks.flatMap_piece_range]
  refine List.take_of_length_le (Nat.le_trans (Chunks.length_le_count_mul hsize data) ?_)
  exact Nat.mul_le_mul_right _ (Nat.le_max_left ..)

/-- Fewer pieces than there are do not make up the data. -/
theorem flatMap_piece_ne {size n : Nat} (data : Bytes) (hsize : 0 < size)
    (h : n < chunkCount size data) (hn : 0 < n) :
    (List.range n).flatMap (Chunks.piece size data) ≠ data := by
  have hcount : n < Chunks.count size data := by
    rw [chunkCount] at h
    omega
  have hshort : n * size < data.length := by
    have hdiv := Nat.div_mul_le_self (data.length + size - 1) size
    have hmul := Nat.mul_le_mul_right size (Nat.succ_le_of_lt hcount)
    rw [Nat.succ_mul] at hmul
    rw [Chunks.count] at hmul
    omega
  intro heq
  have hlength := congrArg List.length heq
  rw [Chunks.flatMap_piece_range, List.length_take, Nat.min_eq_left (by omega)] at hlength
  omega

theorem writeAll_eq {failingWrite : Option Nat} {i : Nat} (chunks : List SyncChunk)
    (h : ∀ k, failingWrite = some k → i ≤ k) :
    Send.writeAll failingWrite i chunks =
      ((chunks.take (failingWrite.elim chunks.length fun k => min (k - i) chunks.length)).map
          SyncChunk.encode,
        decide ((failingWrite.elim chunks.length fun k => min (k - i) chunks.length) =
          chunks.length)) := by
  induction chunks generalizing i with
  | nil =>
      cases failingWrite with
      | none => rfl
      | some k => simp [Send.writeAll]
  | cons chunk chunks ih =>
      rw [Send.writeAll]
      by_cases hfails : failingWrite = some i
      · subst hfails
        simp
      · have hlater : ∀ k, failingWrite = some k → i + 1 ≤ k := by
          intro k hk
          have hle := h k hk
          have hne : k ≠ i := fun heq => hfails (heq ▸ hk)
          omega
        rw [if_neg hfails, ih hlater]
        cases failingWrite with
        | none => simp
        | some k =>
            have hle := hlater k rfl
            have hstep : min (k - i) (chunks.length + 1) = min (k - (i + 1)) chunks.length + 1 := by
              omega
            simp only [Option.elim_some, List.length_cons, hstep, List.take_succ_cons, List.map_cons,
              Nat.add_right_cancel_iff]
            exact congrArg (Prod.mk _) (decide_eq_decide.mpr Iff.rfl)

/-! ## What the receiver holds -/

/-- The partial message with one more chunk. -/
def PartialMessage.fill (part : PartialMessage) (j : Nat) (data : Bytes) : PartialMessage :=
  { part with chunks := part.chunks.insert (UInt16.ofNat j) data }

/-- The chunks held are those with an index below `k`. -/
structure Level (part : PartialMessage) (k : Nat) : Prop where
  mem : ∀ key : UInt16, key ∈ part.chunks ↔ key.toNat < k
  size : part.chunks.size = k

theorem Level.empty (totalChunks : UInt16) (startedAt : UInt64) :
    Level ⟨totalChunks, ∅, startedAt⟩ 0 where
  mem := by simp
  size := by simp

theorem Level.fill {part : PartialMessage} {k j : Nat} (h : Level part k) (hj : j ≤ k)
    (hlt : j < 65536) (data : Bytes) : Level (part.fill j data) (max k (j + 1)) where
  mem := by
    intro key
    have hkey : UInt16.ofNat j = key ↔ key.toNat = j := by
      rw [← UInt16.toNat_inj, toNat_ofNat16 hlt, eq_comm]
    rw [PartialMessage.fill, ExtTreeMap.mem_insert, LawfulEqCmp.compare_eq_iff_eq, hkey, h.mem]
    omega
  size := by
    have hmem := h.mem (UInt16.ofNat j)
    rw [toNat_ofNat16 hlt] at hmem
    rw [PartialMessage.fill, ExtTreeMap.size_insert]
    split
    · rename_i hin
      have hbelow := hmem.mp hin
      rw [h.size]
      omega
    · rename_i hout
      have habove := mt hmem.mpr hout
      rw [h.size]
      omega

/-- A partial message that expects `total` chunks, of which an old message left the first `k` and
the current one has brought the first `j`. -/
structure Holds (piece : Nat → Bytes) (total k j : Nat) (part : PartialMessage) : Prop where
  expects : part.totalChunks.toNat = total
  level : Level part (max k j)
  fresh : ∀ i < j, part.chunks[UInt16.ofNat i]? = some (piece i)

theorem Holds.fill {piece : Nat → Bytes} {total k j : Nat} {part : PartialMessage}
    (h : Holds piece total k j part) (hlt : j < 65536) :
    Holds piece total k (j + 1) (part.fill j (piece j)) where
  expects := h.expects
  level := by
    have hfill := h.level.fill (Nat.le_max_right k j) hlt (piece j)
    rwa [show max (max k j) (j + 1) = max k (j + 1) by omega] at hfill
  fresh := by
    intro i hi
    rw [PartialMessage.fill, getElem?_insert_eq]
    by_cases hij : i = j
    · rw [if_pos (by rw [hij]), hij]
    · have hne : UInt16.ofNat j ≠ UInt16.ofNat i := fun heq =>
        hij (ofNat16_inj (by omega) (by omega) heq).symm
      rw [if_neg hne]
      exact h.fresh i (by omega)

namespace ChunkReassembler

variable {r : ChunkReassembler} {n total k j : Nat} {piece : Nat → Bytes} {now : UInt64}
  {arrivedAt : Nat → UInt64}

/-- The partial message that a chunk goes to: the open one, whatever its total. -/
def target (r : ChunkReassembler) (n : Nat) (now : UInt64) : PartialMessage :=
  r.partials[(0 : UInt32)]?.getD ⟨UInt16.ofNat n, ∅, now⟩

theorem process_transportChunk (hone : UInt16.ofNat n ≠ 1) {part : PartialMessage}
    (hpart : (r.target n now).fill j (piece j) = part) :
    r.process (transportChunk n piece j) now =
      if part.chunks.size = part.totalChunks.toNat then
        ({ r with partials := r.partials.erase 0 },
          gather part.chunks (List.range part.totalChunks.toNat))
      else ({ r with partials := r.partials.insert 0 part }, none) := by
  subst hpart
  exact if_neg hone

theorem receive_cons (r : ChunkReassembler) (arrivedAt : Nat → UInt64) (i : Nat) (chunk : SyncChunk)
    (chunks : List SyncChunk) :
    r.receive arrivedAt i ((chunk :: chunks).map SyncChunk.encode) =
      (((r.process chunk (arrivedAt i)).1.receive arrivedAt (i + 1)
          (chunks.map SyncChunk.encode)).1,
        (r.process chunk (arrivedAt i)).2.toList ++
          ((r.process chunk (arrivedAt i)).1.receive arrivedAt (i + 1)
            (chunks.map SyncChunk.encode)).2) := by
  rw [List.map_cons, receive, SyncChunk.decode_encode]

/-- Chunks `j` to `j + m - 1` of a message. -/
def stretch (n : Nat) (piece : Nat → Bytes) (j m : Nat) : List Bytes :=
  ((List.range' j m).map (transportChunk n piece)).map SyncChunk.encode

theorem receive_stretch_succ (j m : Nat) :
    r.receive arrivedAt j (stretch n piece j (m + 1)) =
      (((r.process (transportChunk n piece j) (arrivedAt j)).1.receive arrivedAt (j + 1)
          (stretch n piece (j + 1) m)).1,
        (r.process (transportChunk n piece j) (arrivedAt j)).2.toList ++
          ((r.process (transportChunk n piece j) (arrivedAt j)).1.receive arrivedAt (j + 1)
            (stretch n piece (j + 1) m)).2) := by
  rw [stretch, List.range'_succ, List.map_cons, receive_cons]
  rfl

/-- A total of one returns every chunk by itself. -/
theorem receive_each (hone : UInt16.ofNat n = 1) (j m : Nat) :
    r.receive arrivedAt j (stretch n piece j m) = (r, (List.range' j m).map piece) := by
  induction m generalizing j with
  | zero => rfl
  | succ m ih =>
      have hprocess : r.process (transportChunk n piece j) (arrivedAt j) = (r, some (piece j)) :=
        if_pos hone
      rw [receive_stretch_succ, hprocess, ih]
      rfl

variable (arrivedAt piece) in
/-- A partial message that expects no chunks is never complete. -/
theorem receive_endless (hone : UInt16.ofNat n ≠ 1)
    (h : ∀ now, (r.target n now).totalChunks.toNat = 0) (j m : Nat) :
    (r.receive arrivedAt j (stretch n piece j m)).2 = [] ∧
      ((r.receive arrivedAt j (stretch n piece j m)).1 = r ∨
        ∃ part, (r.receive arrivedAt j (stretch n piece j m)).1.partials[(0 : UInt32)]? = some part ∧
          part.totalChunks.toNat = 0) := by
  induction m generalizing r j with
  | zero => exact ⟨rfl, Or.inl rfl⟩
  | succ m ih =>
      have hprocess : r.process (transportChunk n piece j) (arrivedAt j) = _ :=
        process_transportChunk hone rfl
      have htotal : ((r.target n (arrivedAt j)).fill j (piece j)).totalChunks.toNat = 0 :=
        h (arrivedAt j)
      have hsize : ¬ ((r.target n (arrivedAt j)).fill j (piece j)).chunks.size = 0 :=
        mt ExtTreeMap.eq_empty_iff_size_eq_zero.mpr ExtTreeMap.insert_ne_empty
      rw [htotal, if_neg hsize] at hprocess
      generalize (r.target n (arrivedAt j)).fill j (piece j) = part at hprocess htotal
      have hopen : (r.partials.insert 0 part)[(0 : UInt32)]? = some part :=
        ExtTreeMap.getElem?_insert_self
      have hlater := ih (r := { r with partials := r.partials.insert 0 part })
        (fun now => by rw [target, hopen]; exact htotal) (j + 1)
      rw [receive_stretch_succ, hprocess]
      refine ⟨hlater.1, Or.inr ?_⟩
      rcases hlater.2 with hsame | hsome
      · rw [hsame]
        exact ⟨part, hopen, htotal⟩
      · exact hsome

theorem target_of_open {part : PartialMessage} (h : r.partials[(0 : UInt32)]? = some part) :
    r.target n now = part := by
  rw [target, h]
  rfl

variable (arrivedAt) in
/-- Short of the expected number of chunks nothing comes out. -/
theorem receive_part (hone : UInt16.ofNat n ≠ 1) (htotal : total < 65536) (hk : k < total)
    (h : ∀ now, Holds piece total k j (r.target n now)) {m : Nat} (hm : j + m < total) :
    (r.receive arrivedAt j (stretch n piece j m)).2 = [] ∧
      (∀ now, Holds piece total k (j + m)
        ((r.receive arrivedAt j (stretch n piece j m)).1.target n now)) ∧
      (0 < m → ∃ part, (r.receive arrivedAt j (stretch n piece j m)).1.partials[(0 : UInt32)]? =
        some part) := by
  induction m generalizing r j with
  | zero => exact ⟨rfl, h, fun hpos => absurd hpos (Nat.lt_irrefl 0)⟩
  | succ m ih =>
      have hfill := (h (arrivedAt j)).fill (by omega)
      have hprocess : r.process (transportChunk n piece j) (arrivedAt j) = _ :=
        process_transportChunk hone rfl
      generalize (r.target n (arrivedAt j)).fill j (piece j) = part at hprocess hfill
      rw [hfill.level.size, hfill.expects, if_neg (by omega)] at hprocess
      have hopen : (r.partials.insert 0 part)[(0 : UInt32)]? = some part :=
        ExtTreeMap.getElem?_insert_self
      have hlater := ih (r := { r with partials := r.partials.insert 0 part })
        (fun now => by rw [target_of_open hopen]; exact hfill) (by omega)
      rw [receive_stretch_succ, hprocess, show j + (m + 1) = j + 1 + m by omega]
      refine ⟨hlater.1, hlater.2.1, fun _ => ?_⟩
      cases m with
      | zero => exact ⟨part, hopen⟩
      | succ m => exact hlater.2.2 (Nat.succ_pos m)

/-- With the last chunk expected, the chunks so far come out as one message. -/
theorem receive_last (hone : UInt16.ofNat n ≠ 1) (htotal : total < 65536) (hk : k < total)
    (h : ∀ now, Holds piece total k j (r.target n now)) (hlast : j + 1 = total) :
    r.process (transportChunk n piece j) now =
      ({ r with partials := r.partials.erase 0 }, some ((List.range total).flatMap piece)) := by
  have hfill := (h now).fill (by omega)
  rw [process_transportChunk hone rfl]
  generalize (r.target n now).fill j (piece j) = part at hfill
  rw [hfill.level.size, hfill.expects, if_pos (by omega), gather_eq]
  intro i hi
  exact hfill.fresh i (by rw [List.mem_range] at hi; omega)

theorem receive_stretch_add (j a b : Nat) :
    r.receive arrivedAt j (stretch n piece j (a + b)) =
      (((r.receive arrivedAt j (stretch n piece j a)).1.receive arrivedAt (j + a)
          (stretch n piece (j + a) b)).1,
        (r.receive arrivedAt j (stretch n piece j a)).2 ++
          ((r.receive arrivedAt j (stretch n piece j a)).1.receive arrivedAt (j + a)
            (stretch n piece (j + a) b)).2) := by
  induction a generalizing r j with
  | zero => rw [Nat.zero_add]; rfl
  | succ a ih =>
      rw [show a + 1 + b = (a + b) + 1 by omega, receive_stretch_succ, ih, receive_stretch_succ,
        List.append_assoc, show j + 1 + a = j + (a + 1) by omega]

variable (arrivedAt) in
/-- As many chunks as expected or more: the first of them come out as one message. -/
theorem receive_enough (hone : UInt16.ofNat n ≠ 1) (htotal : total < 65536) (hk : k < total)
    (h : ∀ now, Holds piece total k 0 (r.target n now)) {m : Nat} (hm : total ≤ m) :
    ∃ rest, (r.receive arrivedAt 0 (stretch n piece 0 m)).2 =
        (List.range total).flatMap piece :: rest ∧
      (m = total → rest = [] ∧
        (r.receive arrivedAt 0 (stretch n piece 0 m)).1.partials[(0 : UInt32)]? = none) := by
  obtain ⟨extra, rfl⟩ := Nat.exists_eq_add_of_le hm
  have hsplit : total + extra = (total - 1) + (1 + extra) := by omega
  have hpart := receive_part arrivedAt hone htotal hk h (show 0 + (total - 1) < total by omega)
  have hlast : 0 + (total - 1) + 1 = total := by omega
  rw [hsplit, receive_stretch_add, hpart.1, Nat.add_comm 1 extra, receive_stretch_succ,
    receive_last hone htotal hk hpart.2.1 hlast]
  refine ⟨_, rfl, fun hexact => ?_⟩
  obtain rfl : extra = 0 := by omega
  exact ⟨rfl, ExtTreeMap.getElem?_erase_self⟩

end ChunkReassembler

/-! ## Runs of sends -/

namespace Send

variable {s : Send} {mtu : UInt16}

/-- The number of chunks of a send. -/
def count (s : Send) (mtu : UInt16) : Nat := chunkCount (mtu.toNat - chunkHeaderSize) s.data

/-- The number of them that are written. -/
def written (s : Send) (mtu : UInt16) : Nat :=
  s.failingWrite.elim (s.count mtu) fun k => min k (s.count mtu)

def piece (s : Send) (mtu : UInt16) : Nat → Bytes :=
  Chunks.piece (mtu.toNat - chunkHeaderSize) s.data

theorem count_pos (s : Send) (mtu : UInt16) : 0 < s.count mtu := Nat.lt_of_lt_of_le Nat.one_pos
  (Nat.le_max_right ..)

theorem written_le (s : Send) (mtu : UInt16) : s.written mtu ≤ s.count mtu := by
  unfold written
  cases s.failingWrite with
  | none => exact Nat.le_refl _
  | some k => exact Nat.min_le_right ..

theorem sendTo_none (peerId : NodeId) (h : s.mtu = none) :
    s.sendTo peerId =
      ([], .error (.connectionFailed ("No connection to " ++ peerId.display))) := by
  rw [sendTo, h]

/-- An MTU that leaves no room behind the header: nothing is written, and the send succeeds. -/
theorem sendTo_narrow (peerId : NodeId) (h : s.mtu = some mtu) (hmtu : mtu.toNat ≤ chunkHeaderSize) :
    s.sendTo peerId = ([], .ok s.data.length) := by
  rw [sendTo, h]
  simp only [(chunkData_eq_nil_iff s.data mtu.toNat 0).mpr hmtu, writeAll, if_true]

theorem sendTo_wide (peerId : NodeId) (h : s.mtu = some mtu) (hmtu : chunkHeaderSize < mtu.toNat) :
    s.sendTo peerId =
      (ChunkReassembler.stretch (s.count mtu) (s.piece mtu) 0 (s.written mtu),
        if s.written mtu = s.count mtu then .ok s.data.length else .error .write) := by
  have hle := s.written_le mtu
  have hcut : chunkData s.data mtu.toNat 0 =
      (List.range (s.count mtu)).map (transportChunk (s.count mtu) (s.piece mtu)) :=
    chunkData_zero hmtu
  have hlength : (chunkData s.data mtu.toNat 0).length = s.count mtu := by
    rw [hcut, List.length_map, List.length_range]
  have hwrites := writeAll_eq (chunkData s.data mtu.toNat 0)
    (fun k (_ : s.failingWrite = some k) => Nat.zero_le k)
  have hwritten : (s.failingWrite.elim (s.count mtu) fun k => min (k - 0) (s.count mtu)) =
      s.written mtu := rfl
  rw [hlength, hwritten] at hwrites
  have hchunks : ((chunkData s.data mtu.toNat 0).take (s.written mtu)).map SyncChunk.encode =
      ChunkReassembler.stretch (s.count mtu) (s.piece mtu) 0 (s.written mtu) := by
    rw [hcut, ← List.map_take, List.take_range, Nat.min_eq_left hle, List.range_eq_range']
    rfl
  rw [sendTo, h]
  simp only [hwrites, hchunks, decide_eq_true_eq]

end Send

namespace ChunkReassembler

variable (peerId : NodeId)

/-- The receiver after the writes of a send. -/
def link (r : ChunkReassembler) (s : Send) : ChunkReassembler :=
  (r.receive s.arrivedAt 0 (s.sendTo peerId).1).1

/-- What it returns during them. -/
def answers (r : ChunkReassembler) (s : Send) : List Bytes :=
  (r.receive s.arrivedAt 0 (s.sendTo peerId).1).2

/-- A send that succeeds reports its length and comes out whole, once; one that fails leaves no
message behind. -/
def Exact (r : ChunkReassembler) (s : Send) : Prop :=
  match (s.sendTo peerId).2 with
  | .ok n => n = s.data.length ∧ r.answers peerId s = [s.data]
  | .error _ => r.answers peerId s = []

/-- The number of chunks after which the receiver takes a message for complete: one if the header
says one, else that of the message it has open, else that of the header. -/
def expected (r : ChunkReassembler) (count : Nat) : Nat :=
  if UInt16.ofNat count = 1 then 1 else (r.target count 0).totalChunks.toNat

/-- The MTU leaves room for data; a send that succeeds has as many chunks as are expected, and one
that fails is cut off before that (none may be expected at all: the count is cut to 16 bits). -/
def Fits (r : ChunkReassembler) (s : Send) : Prop :=
  ∀ mtu, s.mtu = some mtu → chunkHeaderSize < mtu.toNat ∧
    if s.written mtu = s.count mtu then r.expected (s.count mtu) = s.count mtu
    else s.written mtu < r.expected (s.count mtu) ∨ r.expected (s.count mtu) = 0

/-- The chunks of an open message are the first few, fewer than it expects. -/
def Tidy (r : ChunkReassembler) : Prop :=
  ∀ part, r.partials[(0 : UInt32)]? = some part → part.totalChunks.toNat = 0 ∨
    ∃ k, 0 < k ∧ k < part.totalChunks.toNat ∧ Level part k

variable {peerId} {r : ChunkReassembler} {s : Send} {mtu : UInt16}

theorem tidy_of_none (h : r.partials[(0 : UInt32)]? = none) : r.Tidy := by
  intro part hpart
  rw [h] at hpart
  cases hpart

/-- What a tidy receiver is ready for: it expects nothing ever, or a number of chunks of which it
has the first few. -/
theorem expected_of_tidy (htidy : r.Tidy) {n : Nat} (hone : UInt16.ofNat n ≠ 1)
    (piece : Nat → Bytes) :
    r.expected n < 65536 ∧ ((∀ now, (r.target n now).totalChunks.toNat = r.expected n) ∧
      (r.expected n = 0 ∨ ∃ k, k < r.expected n ∧
        ∀ now, Holds piece (r.expected n) k 0 (r.target n now))) := by
  have hexpected : r.expected n = (r.target n 0).totalChunks.toNat := if_neg hone
  refine ⟨hexpected ▸ UInt16.toNat_lt _, ?_⟩
  cases hopen : r.partials[(0 : UInt32)]? with
  | none =>
      have htarget : ∀ now, r.target n now = ⟨UInt16.ofNat n, ∅, now⟩ := by
        intro now
        rw [target, hopen]
        rfl
      refine ⟨fun now => by rw [hexpected, htarget, htarget], ?_⟩
      by_cases hzero : r.expected n = 0
      · exact Or.inl hzero
      · refine Or.inr ⟨0, Nat.pos_of_ne_zero hzero, fun now => ?_⟩
        rw [hexpected, htarget, htarget]
        exact ⟨rfl, Level.empty _ _, fun i hi => absurd hi (Nat.not_lt_zero i)⟩
  | some part =>
      have htarget : ∀ now, r.target n now = part := fun now => target_of_open hopen
      refine ⟨fun now => by rw [hexpected, htarget, htarget], ?_⟩
      rcases htidy part hopen with hzero | ⟨k, -, hk, hlevel⟩
      · exact Or.inl (by rw [hexpected, htarget, hzero])
      · refine Or.inr ⟨k, by rwa [hexpected, htarget], fun now => ?_⟩
        rw [hexpected, htarget, htarget]
        exact ⟨rfl, by rwa [Nat.max_zero], fun i hi => absurd hi (Nat.not_lt_zero i)⟩

/-- A single chunk, or none of several that claim to be single. -/
theorem exact_iff_of_one (hmtu : s.mtu = some mtu) (hwide : chunkHeaderSize < mtu.toNat)
    (hone : UInt16.ofNat (s.count mtu) = 1) :
    (r.Exact peerId s ↔
      if s.written mtu = s.count mtu then 1 = s.count mtu else s.written mtu < 1 ∨ 1 = 0) ∧
      r.link peerId s = r := by
  have hpos := s.count_pos mtu
  have hle := s.written_le mtu
  have hreceive : r.receive s.arrivedAt 0
      (stretch (s.count mtu) (s.piece mtu) 0 (s.written mtu)) = _ := receive_each hone 0 _
  have hanswers : r.answers peerId s = (List.range' 0 (s.written mtu)).map (s.piece mtu) := by
    rw [answers, Send.sendTo_wide peerId hmtu hwide, hreceive]
  refine ⟨?_, by rw [link, Send.sendTo_wide peerId hmtu hwide, hreceive]⟩
  rw [Exact, Send.sendTo_wide peerId hmtu hwide, hanswers]
  by_cases hall : s.written mtu = s.count mtu
  · rw [if_pos hall, if_pos hall, hall]
    constructor
    · rintro ⟨-, hanswer⟩
      have hlength := congrArg List.length hanswer
      rwa [List.length_map, List.length_range', List.length_singleton, eq_comm] at hlength
    · intro hcount
      have hwhole : (List.range (s.count mtu)).flatMap (s.piece mtu) = s.data :=
        flatMap_piece (Nat.sub_pos_of_lt hwide) s.data
      rw [← hcount] at hwhole ⊢
      rw [List.range_one, List.flatMap_singleton] at hwhole
      rw [← hwhole]
      exact ⟨rfl, rfl⟩
  · rw [if_neg hall, if_neg hall]
    simp [List.range'_eq_nil_iff]

section Several

variable (htidy : r.Tidy) (hmtu : s.mtu = some mtu) (hwide : chunkHeaderSize < mtu.toNat)
  (hone : UInt16.ofNat (s.count mtu) ≠ 1)
include htidy hmtu hwide hone

/-- Nothing comes out while chunks are missing, or if none are expected. -/
theorem answers_of_short
    (hshort : s.written mtu < r.expected (s.count mtu) ∨ r.expected (s.count mtu) = 0) :
    r.answers peerId s = [] := by
  obtain ⟨htotal, hexpects, hready⟩ := expected_of_tidy htidy hone (s.piece mtu)
  rw [answers, Send.sendTo_wide peerId hmtu hwide]
  rcases hready with hzero | ⟨k, hk, hholds⟩
  · exact (receive_endless _ _ hone (fun now => (hexpects now).trans hzero) 0 _).1
  · have hlt : 0 + s.written mtu < r.expected (s.count mtu) := by omega
    exact (receive_part _ hone htotal hk hholds hlt).1

/-- With enough chunks the expected ones come out as one message. -/
theorem answers_of_enough
    (henough : ¬ (s.written mtu < r.expected (s.count mtu) ∨ r.expected (s.count mtu) = 0)) :
    ∃ rest, r.answers peerId s =
        (List.range (r.expected (s.count mtu))).flatMap (s.piece mtu) :: rest ∧
      (s.written mtu = r.expected (s.count mtu) → rest = []) := by
  obtain ⟨htotal, hexpects, hready⟩ := expected_of_tidy htidy hone (s.piece mtu)
  rw [answers, Send.sendTo_wide peerId hmtu hwide]
  rcases hready with hzero | ⟨k, hk, hholds⟩
  · exact absurd (Or.inr hzero) henough
  · obtain ⟨rest, hrest, hexact⟩ := receive_enough s.arrivedAt hone htotal hk hholds
      (Nat.le_of_not_lt fun hlt => henough (Or.inl hlt))
    exact ⟨rest, hrest, fun heq => (hexact heq).1⟩

/-- A message of several chunks. -/
theorem exact_iff_of_several :
    r.Exact peerId s ↔
      if s.written mtu = s.count mtu then r.expected (s.count mtu) = s.count mtu
      else s.written mtu < r.expected (s.count mtu) ∨ r.expected (s.count mtu) = 0 := by
  have hpos := s.count_pos mtu
  have hle := s.written_le mtu
  rw [Exact, Send.sendTo_wide peerId hmtu hwide]
  by_cases hall : s.written mtu = s.count mtu
  · rw [if_pos hall, if_pos hall]
    have hsize : 0 < mtu.toNat - chunkHeaderSize := Nat.sub_pos_of_lt hwide
    constructor
    · rintro ⟨-, hanswer⟩
      by_cases hshort : s.written mtu < r.expected (s.count mtu) ∨ r.expected (s.count mtu) = 0
      · rw [answers_of_short htidy hmtu hwide hone hshort] at hanswer
        cases hanswer
      · obtain ⟨rest, hrest, -⟩ := answers_of_enough htidy hmtu hwide hone hshort
        rw [hrest] at hanswer
        by_contra hne
        exact flatMap_piece_ne s.data hsize
          (show r.expected (s.count mtu) < s.count mtu by omega) (by omega)
          (List.cons.inj hanswer).1
    · intro hcount
      obtain ⟨rest, hrest, hexact⟩ := answers_of_enough htidy hmtu hwide hone (by omega)
      refine ⟨rfl, ?_⟩
      rw [hrest, hexact (by omega), hcount]
      exact congrArg (fun data => [data]) (flatMap_piece hsize s.data)
  · rw [if_neg hall, if_neg hall]
    refine ⟨fun hnone => ?_, answers_of_short htidy hmtu hwide hone⟩
    by_contra hlong
    obtain ⟨rest, hrest, -⟩ := answers_of_enough htidy hmtu hwide hone hlong
    have hcons : [] = _ := hnone.symm.trans hrest
    cases hcons

/-- A send of several chunks that fits leaves the receiver tidy. -/
theorem tidy_link_of_several
    (hfits : if s.written mtu = s.count mtu then r.expected (s.count mtu) = s.count mtu
      else s.written mtu < r.expected (s.count mtu) ∨ r.expected (s.count mtu) = 0) :
    (r.link peerId s).Tidy := by
  obtain ⟨htotal, hexpects, hready⟩ := expected_of_tidy htidy hone (s.piece mtu)
  rw [link, Send.sendTo_wide peerId hmtu hwide]
  rcases hready with hzero | ⟨k, hk, hholds⟩
  · rcases (receive_endless (s.piece mtu) s.arrivedAt hone
      (fun now => (hexpects now).trans hzero) 0 (s.written mtu)).2 with
      hsame | ⟨part, hopen, hpart⟩
    · rw [hsame]
      exact htidy
    · intro other hother
      rw [hopen] at hother
      rw [← Option.some.inj hother]
      exact Or.inl hpart
  · by_cases hall : s.written mtu = s.count mtu
    · rw [if_pos hall] at hfits
      obtain ⟨rest, -, hexact⟩ := receive_enough s.arrivedAt hone htotal hk
        hholds (Nat.le_of_eq (hfits.trans hall.symm))
      exact tidy_of_none (hexact (hall.trans hfits.symm)).2
    · rw [if_neg hall] at hfits
      have hlt : 0 + s.written mtu < r.expected (s.count mtu) := by omega
      have hpart := receive_part s.arrivedAt hone htotal hk hholds hlt
      cases hwritten : s.written mtu with
      | zero => exact htidy
      | succ w =>
          rw [hwritten] at hpart hlt
          obtain ⟨part, hopen⟩ := hpart.2.2 (Nat.succ_pos w)
          intro other hother
          rw [hopen] at hother
          obtain rfl := Option.some.inj hother
          have hheld := hpart.2.1 0
          rw [target_of_open hopen] at hheld
          refine Or.inr ⟨max k (0 + (w + 1)), by omega, ?_, hheld.level⟩
          rw [hheld.expects]
          omega

end Several

/-- A send behaves exactly when it fits the state it finds. -/
theorem exact_iff_fits (htidy : r.Tidy) : r.Exact peerId s ↔ r.Fits s := by
  cases hmtu : s.mtu with
  | none =>
      refine iff_of_true ?_ (fun mtu h => ?_)
      · rw [Exact, answers, Send.sendTo_none peerId hmtu]
        rfl
      · rw [hmtu] at h
        cases h
  | some mtu =>
      have hfits : r.Fits s ↔ chunkHeaderSize < mtu.toNat ∧
          if s.written mtu = s.count mtu then r.expected (s.count mtu) = s.count mtu
          else s.written mtu < r.expected (s.count mtu) ∨ r.expected (s.count mtu) = 0 := by
        refine ⟨fun h => h mtu hmtu, fun h other hother => ?_⟩
        rw [hmtu] at hother
        rwa [← Option.some.inj hother]
      rw [hfits]
      by_cases hwide : chunkHeaderSize < mtu.toNat
      · rw [and_iff_right hwide]
        by_cases hone : UInt16.ofNat (s.count mtu) = 1
        · rw [expected, if_pos hone]
          exact (exact_iff_of_one hmtu hwide hone).1
        · exact exact_iff_of_several htidy hmtu hwide hone
      · refine iff_of_false ?_ (fun h => hwide h.1)
        rw [Exact, answers, Send.sendTo_narrow peerId hmtu (Nat.le_of_not_lt hwide)]
        rintro ⟨-, hanswer⟩
        cases hanswer

/-- A send that fits leaves the receiver tidy. -/
theorem tidy_link (htidy : r.Tidy) (hfits : r.Fits s) : (r.link peerId s).Tidy := by
  cases hmtu : s.mtu with
  | none =>
      rw [link, Send.sendTo_none peerId hmtu]
      exact htidy
  | some mtu =>
      obtain ⟨hwide, hcount⟩ := hfits mtu hmtu
      by_cases hone : UInt16.ofNat (s.count mtu) = 1
      · rw [(exact_iff_of_one hmtu hwide hone).2]
        exact htidy
      · exact tidy_link_of_several htidy hmtu hwide hone hcount

/-! ## The whole run -/

/-- Everything the receiver returns during a run of sends. -/
def allAnswers (peerId : NodeId) : ChunkReassembler → List Send → List Bytes
  | _, [] => []
  | r, s :: sends => r.answers peerId s ++ allAnswers peerId (r.link peerId s) sends

/-- All or error, and nothing mixed: every message returned is the data of a send, and a send that
reports success reports its length and has its data returned. -/
def Delivers (peerId : NodeId) (r : ChunkReassembler) (sends : List Send) : Prop :=
  (∀ message ∈ allAnswers peerId r sends, ∃ s ∈ sends, message = s.data) ∧
    ∀ s ∈ sends, ∀ n, (s.sendTo peerId).2 = .ok n →
      n = s.data.length ∧ s.data ∈ allAnswers peerId r sends

theorem delivers_of_exact {sends : List Send}
    (h : LoggedRun.Along (link peerId) (Exact peerId) r sends) : Delivers peerId r sends := by
  induction sends generalizing r with
  | nil => exact ⟨fun _ hmem => (nomatch hmem), fun _ hmem => (nomatch hmem)⟩
  | cons s sends ih =>
      obtain ⟨hexact, hrest⟩ := h
      obtain ⟨hreturned, hkept⟩ := ih hrest
      constructor
      · intro message hmessage
        rcases List.mem_append.mp hmessage with hnow | hlater
        · refine ⟨s, List.mem_cons_self .., ?_⟩
          rw [Exact] at hexact
          split at hexact
          · rw [hexact.2] at hnow
            exact List.mem_singleton.mp hnow
          · rw [hexact] at hnow
            cases hnow
        · obtain ⟨other, hother, hdata⟩ := hreturned message hlater
          exact ⟨other, List.mem_cons_of_mem _ hother, hdata⟩
      · intro other hother n hok
        rcases List.mem_cons.mp hother with rfl | hlater
        · rw [Exact, hok] at hexact
          refine ⟨hexact.1, List.mem_append_left _ ?_⟩
          rw [hexact.2]
          exact List.mem_singleton_self _
        · obtain ⟨hlength, hmem⟩ := hkept other hlater n hok
          exact ⟨hlength, List.mem_append_right _ hmem⟩

/-- A run of sends to a fresh receiver, each of which fits, delivers; and a send of such a run
behaves exactly if it fits. -/
theorem delivers_of_fits (peerId : NodeId) (sends : List Send) :
    (LoggedRun.Along (link peerId) (Exact peerId) new sends ↔
        LoggedRun.Along (link peerId) Fits new sends) ∧
      (LoggedRun.Along (link peerId) Fits new sends → Delivers peerId new sends) := by
  have hnew : Tidy new := tidy_of_none ExtTreeMap.getElem?_empty
  have hiff : LoggedRun.Along (link peerId) (Exact peerId) new sends ↔
      LoggedRun.Along (link peerId) Fits new sends :=
    LoggedRun.along_congr_of_good hnew (fun _ _ => tidy_link) (fun _ _ htidy => exact_iff_fits htidy)
  exact ⟨hiff, fun hfits => delivers_of_exact (hiff.mpr hfits)⟩

/-- Three chunks of which one is written, then four that are. -/
def interrupted : List Send :=
  [⟨[1, 2, 3], some 9, some 1, fun _ => 0⟩, ⟨[4, 5, 6, 7], some 9, none, fun _ => 1⟩]

/-- The second message is cut to the length of the first. -/
theorem interrupted_mixed :
    (interrupted.map fun s => (s.sendTo 7).2.toOption) = [none, some 4] ∧
      allAnswers 7 new interrupted = [[4, 5, 6]] ∧ ¬ Delivers 7 new interrupted := by
  have hanswers : allAnswers 7 new interrupted = [[4, 5, 6]] := by decide +kernel
  refine ⟨by decide +kernel, hanswers, fun h => ?_⟩
  have hmem : [4, 5, 6] ∈ allAnswers 7 new interrupted := by
    rw [hanswers]
    exact List.mem_singleton_self _
  obtain ⟨s, hs, hdata⟩ := h.1 _ hmem
  simp only [interrupted, List.mem_cons, List.not_mem_nil, or_false] at hs
  rcases hs with rfl | rfl
  · cases hdata
  · cases hdata

end ChunkReassembler

end PeatBtle
