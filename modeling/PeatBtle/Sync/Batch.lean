import PeatBtle.Sync.Crdt.Operation

/-!
# Operation batches

Queued operations wait in an accumulator until it is flushed. A batch is written
as a 16-bit count followed by length-prefixed operations.
-/

namespace PeatBtle

open Wire

structure BatchConfig where
  maxWaitMs : UInt64
  maxBytes : Nat
  maxOperations : Nat
  minIntervalMs : UInt64
deriving DecidableEq

namespace BatchConfig

def default : BatchConfig := ⟨5000, 512, 20, 1000⟩
def lowPower : BatchConfig := ⟨30000, 1024, 50, 10000⟩
def responsive : BatchConfig := ⟨1000, 256, 10, 500⟩

end BatchConfig

structure OperationBatch where
  operations : List CrdtOperation
  totalBytes : Nat
  createdAt : UInt64
deriving DecidableEq

namespace OperationBatch

def totalSize (operations : List CrdtOperation) : Nat := (operations.map CrdtOperation.size).sum

def encodeOperation (op : CrdtOperation) : Bytes :=
  u16ToLe (UInt16.ofNat op.encode.length) ++ op.encode

def encodeOperations (operations : List CrdtOperation) : Bytes :=
  u16ToLe (UInt16.ofNat operations.length) ++ operations.flatMap encodeOperation

def encode (batch : OperationBatch) : Bytes := encodeOperations batch.operations

/-- The counted loop: any short or undecodable operation rejects the whole batch. -/
def readOperations (data : Bytes) : Nat → Nat → Option (List CrdtOperation)
  | 0, _ => some []
  | count + 1, offset =>
      if offset + 2 > data.length then none
      else
        let opLen := (u16At data offset).toNat
        let start := offset + 2
        if start + opLen > data.length then none
        else do
          let op ← CrdtOperation.decode (slice data start (start + opLen))
          let rest ← readOperations data count (start + opLen)
          some (op :: rest)

def decode (data : Bytes) : Option OperationBatch :=
  if data.length < 2 then none
  else (readOperations data (u16At data 0).toNat 2).map fun operations =>
    { operations, totalBytes := totalSize operations, createdAt := 0 }

/-- Batches the wire format can carry. -/
structure Sendable (operations : List CrdtOperation) : Prop where
  length_le : operations.length ≤ 65535
  valid : ∀ op ∈ operations, op.Valid
  encoded_le : ∀ op ∈ operations, op.encode.length ≤ 65535

/-- One round of the loop, on a frame whose length fits its prefix. -/
theorem readOperations_frame (front frame rest : Bytes) (count : Nat)
    (hlen : frame.length ≤ 65535) :
    readOperations (front ++ (u16ToLe (UInt16.ofNat frame.length) ++ (frame ++ rest))) (count + 1)
        front.length =
      (CrdtOperation.decode frame).bind fun op =>
        (readOperations (front ++ (u16ToLe (UInt16.ofNat frame.length) ++ frame) ++ rest) count
          (front ++ (u16ToLe (UInt16.ofNat frame.length) ++ frame)).length).bind fun later =>
            some (op :: later) := by
  let data := front ++ (u16ToLe (UInt16.ofNat frame.length) ++ (frame ++ rest))
  have hword : (u16At data front.length).toNat = frame.length := by
    rw [u16At_skip (Nat.le_refl _), Nat.sub_self, u16At_toLe, UInt16.toNat_ofNat']
    exact Nat.mod_eq_of_lt (by omega)
  have hslice : slice data (front.length + 2) (front.length + 2 + frame.length) = frame := by
    rw [slice_skip (by omega), Nat.add_sub_cancel_left, Nat.add_assoc, Nat.add_sub_cancel_left,
      slice_skip (by simp), u16ToLe_length, Nat.sub_self, Nat.add_sub_cancel_left,
      slice_append_left rfl]
  have htotal : data.length = front.length + 2 + frame.length + rest.length := by
    simp only [data, List.length_append, u16ToLe_length]
    omega
  -- The frame just read joins the prefix of the remaining loop.
  have hsplit : front ++ (u16ToLe (UInt16.ofNat frame.length) ++ frame) ++ rest = data := by
    simp [data]
  have hnext : (front ++ (u16ToLe (UInt16.ofNat frame.length) ++ frame)).length =
      front.length + 2 + frame.length := by
    simp only [List.length_append, u16ToLe_length]
    omega
  rw [hsplit, hnext, readOperations]
  simp only [data, hword, hslice, htotal, Option.bind_eq_bind]
  rw [if_neg (by omega), if_neg (by omega)]

/-- Frames whose length fits are read one after the other, up to the first that is refused. -/
theorem readOperations_flatMap (operations : List CrdtOperation) (count : Nat)
    (hcount : count ≤ operations.length)
    (hlen : ∀ op ∈ operations.take count, op.encode.length ≤ 65535) (front : Bytes) :
    readOperations (front ++ operations.flatMap encodeOperation) count front.length =
      (operations.take count).mapM fun op => CrdtOperation.decode op.encode := by
  induction count generalizing operations front with
  | zero => rfl
  | succ count ih =>
      obtain ⟨op, operations, rfl⟩ := List.exists_cons_of_length_pos (Nat.zero_lt_of_lt hcount)
      rw [List.take_succ_cons] at hlen ⊢
      have hframe := readOperations_frame front op.encode (operations.flatMap encodeOperation) count
        (hlen op (by simp))
      rw [ih operations (Nat.le_of_succ_le_succ hcount)
        fun later hlater => hlen later (List.mem_cons_of_mem _ hlater)] at hframe
      rw [List.flatMap_cons, encodeOperation, List.append_assoc, hframe, List.mapM_cons]
      cases CrdtOperation.decode op.encode with
      | none => rfl
      | some read =>
          cases (operations.take count).mapM fun op => CrdtOperation.decode op.encode <;> rfl

theorem mapM_decode_encode {operations : List CrdtOperation}
    (hvalid : ∀ op ∈ operations, op.Valid) :
    (operations.mapM fun op => CrdtOperation.decode op.encode) = some operations := by
  induction operations with
  | nil => rfl
  | cons op operations ih =>
      rw [List.mapM_cons, CrdtOperation.decode_encode (hvalid op (by simp)),
        ih fun o ho => hvalid o (List.mem_cons_of_mem _ ho)]
      rfl

/-- What is read of a batch: the operations that its 16-bit count announces. -/
theorem decode_encodeOperations (operations : List CrdtOperation) :
    decode (encodeOperations operations) =
      (readOperations (encodeOperations operations) (operations.length % 65536) 2).map
        fun operations => { operations, totalBytes := totalSize operations, createdAt := 0 } := by
  have hcount : (u16At (encodeOperations operations) 0).toNat = operations.length % 65536 := by
    rw [encodeOperations, u16At_toLe]
    exact UInt16.toNat_ofNat'
  have hmin : ¬ (encodeOperations operations).length < 2 := by
    rw [encodeOperations, List.length_append, u16ToLe_length]
    omega
  rw [decode, if_neg hmin, hcount]

theorem readOperations_encodeOperations {operations : List CrdtOperation}
    (hlen : ∀ op ∈ operations.take (operations.length % 65536), op.encode.length ≤ 65535) :
    readOperations (encodeOperations operations) (operations.length % 65536) 2 =
      (operations.take (operations.length % 65536)).mapM
        fun op => CrdtOperation.decode op.encode := by
  have hread := readOperations_flatMap operations _ (Nat.mod_le _ _) hlen
    (u16ToLe (UInt16.ofNat operations.length))
  rwa [u16ToLe_length] at hread

theorem decode_encode {operations : List CrdtOperation} (h : Sendable operations) :
    decode (encodeOperations operations) =
      some { operations, totalBytes := totalSize operations, createdAt := 0 } := by
  have hall : operations.take (operations.length % 65536) = operations := by
    have := h.length_le
    rw [Nat.mod_eq_of_lt (by omega), List.take_length]
  rw [decode_encodeOperations, readOperations_encodeOperations (hall.symm ▸ h.encoded_le), hall,
    mapM_decode_encode h.valid]
  rfl

/-! ## What is accepted -/

theorem of_readOperations {data : Bytes} {count offset : Nat} {operations : List CrdtOperation}
    (h : readOperations data count offset = some operations) :
    operations.length = count ∧ ∀ op ∈ operations, op.Valid ∧ op.encode.length ≤ 65535 := by
  induction count generalizing offset operations with
  | zero =>
      obtain rfl := Option.some.inj h
      exact ⟨rfl, fun op hop => absurd hop List.not_mem_nil⟩
  | succ count ih =>
      rw [readOperations] at h
      dsimp only at h
      split_ifs at h with hheader hframe
      obtain ⟨op, hop, h⟩ := Option.bind_eq_some_iff.mp h
      obtain ⟨rest, hrest, h⟩ := Option.bind_eq_some_iff.mp h
      obtain rfl := Option.some.inj h
      obtain ⟨hlength, hall⟩ := ih hrest
      obtain ⟨hvalid, hroom⟩ := CrdtOperation.of_decode hop
      refine ⟨by rw [List.length_cons, hlength], List.forall_mem_cons.mpr ⟨⟨hvalid, ?_⟩, hall⟩⟩
      have hword := (u16At data offset).toNat_lt
      rw [slice, List.length_take] at hroom
      omega

/-- What is read back can be sent on. -/
theorem sendable_of_decode {data : Bytes} {batch : OperationBatch} (h : decode data = some batch) :
    Sendable batch.operations := by
  unfold decode at h
  split_ifs at h with hshort
  obtain ⟨operations, hread, rfl⟩ := Option.map_eq_some_iff.mp h
  obtain ⟨hlength, hall⟩ := of_readOperations hread
  have hword := (u16At data 0).toNat_lt
  exact ⟨by dsimp only; omega, fun op hop => (hall op hop).1, fun op hop => (hall op hop).2⟩

end OperationBatch

/-! ## The accumulator -/

structure BatchAccumulator where
  config : BatchConfig
  pending : List CrdtOperation
  bytesAccumulated : Nat
  firstPendingTime : Option UInt64
  lastSyncTime : UInt64
deriving DecidableEq

namespace BatchAccumulator

def new (config : BatchConfig) : BatchAccumulator := ⟨config, [], 0, none, 0⟩

/-- The batch has room for the operation; an empty batch has room for any size. -/
def hasRoom (acc : BatchAccumulator) (op : CrdtOperation) : Bool :=
  !(decide (acc.bytesAccumulated + op.size > acc.config.maxBytes) && !acc.pending.isEmpty) &&
    !decide (acc.pending.length ≥ acc.config.maxOperations)

def add (acc : BatchAccumulator) (op : CrdtOperation) (currentTimeMs : UInt64) :
    BatchAccumulator × Bool :=
  if acc.hasRoom op then
    ({ acc with
        firstPendingTime := some (acc.firstPendingTime.getD currentTimeMs)
        pending := acc.pending ++ [op]
        bytesAccumulated := acc.bytesAccumulated + op.size }, true)
  else (acc, false)

def shouldFlush (acc : BatchAccumulator) (currentTimeMs : UInt64) : Bool :=
  if acc.pending.isEmpty then false
  else if currentTimeMs < acc.lastSyncTime + acc.config.minIntervalMs then false
  else if acc.bytesAccumulated ≥ acc.config.maxBytes then true
  else if acc.pending.length ≥ acc.config.maxOperations then true
  else acc.firstPendingTime.any fun first => currentTimeMs ≥ first + acc.config.maxWaitMs

def flush (acc : BatchAccumulator) (currentTimeMs : UInt64) :
    BatchAccumulator × Option OperationBatch :=
  if acc.pending.isEmpty then (acc, none)
  else
    ({ acc with
        pending := []
        bytesAccumulated := 0
        firstPendingTime := none
        lastSyncTime := currentTimeMs },
      some
        { operations := acc.pending
          totalBytes := acc.bytesAccumulated
          createdAt := currentTimeMs })

end BatchAccumulator

end PeatBtle
