import PeatBtle.Sync.Batch

/-!
# Operations that change on the wire

Three length prefixes are written by narrowing casts. Most operations come back as
they were or not at all; a key or a value that is too long can come back as
another, and so can a batch. These are the exact conditions.
-/

namespace PeatBtle

open Wire

namespace CrdtOperation

/-- No decoder accepts what is written for the operation. -/
def Refused : CrdtOperation → Prop
  | updatePosition _ position _ => ¬ position.Valid
  | updateHealth _ status _ =>
      maxBatteryPercent < status.batteryPercent ∨ 3 < status.activity ∨
        ∃ rate, status.heartRate = some rate ∧ rate ≠ 0 ∧
          ¬ (minHeartRate ≤ rate ∧ rate ≤ maxHeartRate)
  | incrementCounter .. => False
  | updateRegister key value _ _ =>
      255 < (utf8 key).length ∧ (fromUtf8 ((utf8 key).take (readKeyLen key)) = none ∨
        (utf8 key).length + value.length < readKeyLen key + readValueLen key value)

/-- A heart rate of zero in a sample that is otherwise in range, a value that is too long behind a
key that is not, and a key that is too long unless it is refused. -/
def Misread : CrdtOperation → Prop
  | updatePosition .. => False
  | updateHealth _ status _ =>
      status.heartRate = some 0 ∧ status.batteryPercent ≤ maxBatteryPercent ∧ status.activity ≤ 3
  | incrementCounter .. => False
  | updateRegister key value timestamp nodeId =>
      ((utf8 key).length ≤ 255 ∧ 65535 < value.length) ∨
        (255 < (utf8 key).length ∧ ¬ Refused (updateRegister key value timestamp nodeId))

theorem valid_iff (op : CrdtOperation) : op.Valid ↔ ¬ op.Refused ∧ ¬ op.Misread := by
  cases op with
  | updatePosition nodeId position timestamp => simp [Valid, Refused, Misread]
  | updateHealth nodeId status timestamp =>
      constructor
      · intro h
        refine ⟨?_, fun hmisread => absurd (h.heart_rate_ok 0 hmisread.1) (by decide)⟩
        rintro (hbattery | hactivity | ⟨rate, hrate, -, hrange⟩)
        · exact UInt8.not_le.mpr hbattery h.battery_le
        · exact UInt8.not_le.mpr hactivity h.activity_le
        · exact hrange (h.heart_rate_ok rate hrate)
      · rintro ⟨hrefused, hmisread⟩
        simp only [Refused, not_or, UInt8.not_lt] at hrefused
        obtain ⟨hbattery, hactivity, hnone⟩ := hrefused
        refine ⟨hbattery, hactivity, fun rate hrate => ?_⟩
        by_contra hrange
        refine hnone ⟨rate, hrate, ?_, hrange⟩
        rintro rfl
        exact hmisread ⟨hrate, hbattery, hactivity⟩
  | incrementCounter counterId nodeId amount => simp [Valid, Refused, Misread]
  | updateRegister key value timestamp nodeId =>
      by_cases hkey : (utf8 key).length ≤ 255
      · simp [Valid, Refused, Misread, hkey]
      · simp [Valid, Refused, Misread, hkey, Nat.not_le.mp hkey]

theorem Refused.not_misread {op : CrdtOperation} (h : op.Refused) : ¬ op.Misread := by
  cases op with
  | updatePosition nodeId position timestamp => exact id
  | updateHealth nodeId status timestamp =>
      rintro ⟨hzero, hbattery, hactivity⟩
      rcases h with hover | hover | ⟨rate, hrate, hpos, -⟩
      · exact UInt8.not_le.mpr hover hbattery
      · exact UInt8.not_le.mpr hover hactivity
      · exact hpos (Option.some.inj (hrate.symm.trans hzero))
  | incrementCounter counterId nodeId amount => exact id
  | updateRegister key value timestamp nodeId =>
      rintro (⟨hkey, -⟩ | ⟨-, hnot⟩)
      · exact Nat.not_lt.mpr hkey h.1
      · exact hnot h

theorem decode_encode_eq_some_iff (op : CrdtOperation) : decode op.encode = some op ↔ op.Valid :=
  ⟨fun h => (of_decode h).1, decode_encode⟩

/-! ## Refusals -/

theorem position_refused_iff (position : Position) :
    Position.decode position.encode = none ↔ ¬ position.Valid := by
  constructor
  · intro hnone hvalid
    rw [Position.decode_encode hvalid] at hnone
    cases hnone
  · intro hinvalid
    cases hread : Position.decode position.encode with
    | none => rfl
    | some read =>
        have hvalid := Position.valid_of_decode hread
        rw [Position.eq_of_decode_encode hread] at hvalid
        exact absurd hvalid hinvalid

theorem health_refused_iff (status : HealthStatus) :
    HealthStatus.decode status.encode = none ↔
      maxBatteryPercent < status.batteryPercent ∨ 3 < status.activity ∨
        ∃ rate, status.heartRate = some rate ∧ rate ≠ 0 ∧
          ¬ (minHeartRate ≤ rate ∧ rate ≤ maxHeartRate) := by
  obtain ⟨battery, rate, activity, alerts⟩ := status
  by_cases hbattery : maxBatteryPercent < battery
  · simp [HealthStatus.decode, HealthStatus.encode, byteAt, hbattery]
  · by_cases hactivity : 3 < activity
    · simp [HealthStatus.decode, HealthStatus.encode, byteAt, hbattery, hactivity]
    · cases rate with
      | none => simp [HealthStatus.decode, HealthStatus.encode, byteAt, hbattery, hactivity]
      | some rate =>
          by_cases hzero : rate = 0
          · simp [HealthStatus.decode, HealthStatus.encode, byteAt, hbattery, hactivity, hzero]
          · have hpos : 0 < rate := UInt8.pos_iff_ne_zero.mpr hzero
            simp [HealthStatus.decode, HealthStatus.encode, byteAt, hbattery, hactivity, hzero, hpos]

theorem register_refused_iff (key : String) (value : Bytes) (timestamp : Timestamp)
    (nodeId : NodeId) :
    decodeRegister (updateRegister key value timestamp nodeId).encode = none ↔
      255 < (utf8 key).length ∧ (fromUtf8 ((utf8 key).take (readKeyLen key)) = none ∨
        (utf8 key).length + value.length < readKeyLen key + readValueLen key value) := by
  rw [decodeRegister_encode]
  by_cases hkey : (utf8 key).length ≤ 255
  · have hmod : value.length % 65536 ≤ value.length := Nat.mod_le _ _
    rw [readKeyLen_of_le hkey, readValueLen_of_le hkey, List.take_length, fromUtf8_utf8,
      Option.bind_some, if_neg (by omega)]
    exact iff_of_false (Option.some_ne_none _) fun h => Nat.not_lt.mpr hkey h.1
  · rw [and_iff_right (Nat.not_le.mp hkey)]
    cases fromUtf8 ((utf8 key).take (readKeyLen key)) with
    | none => simp
    | some read => simp

theorem decode_encode_eq_none_iff (op : CrdtOperation) : decode op.encode = none ↔ op.Refused := by
  cases op with
  | updatePosition nodeId position timestamp =>
      rw [decode_updatePosition, Option.map_eq_none_iff]
      exact position_refused_iff position
  | updateHealth nodeId status timestamp =>
      rw [decode_updateHealth, Option.map_eq_none_iff]
      exact health_refused_iff status
  | incrementCounter counterId nodeId amount =>
      rw [decode_incrementCounter]
      exact iff_of_false (Option.some_ne_none _) id
  | updateRegister key value timestamp nodeId =>
      rw [decode_updateRegister]
      exact register_refused_iff key value timestamp nodeId

/-- It comes back as it was or not at all. -/
def Faithful (op : CrdtOperation) : Prop := decode op.encode = none ∨ decode op.encode = some op

theorem faithful_iff (op : CrdtOperation) : op.Faithful ↔ ¬ op.Misread := by
  rw [Faithful, decode_encode_eq_none_iff, decode_encode_eq_some_iff, valid_iff]
  constructor
  · rintro (hrefused | ⟨-, hread⟩)
    · exact hrefused.not_misread
    · exact hread
  · intro hread
    by_cases hrefused : op.Refused
    · exact Or.inl hrefused
    · exact Or.inr ⟨hrefused, hread⟩

/-- It respects the widths of the length prefixes, and a sensor value passes its own decoder. -/
def WithinLimits : CrdtOperation → Prop
  | updatePosition _ position _ => (Position.decode position.encode).isSome
  | updateHealth _ status _ => (HealthStatus.decode status.encode).isSome
  | incrementCounter .. => True
  | updateRegister key value _ _ => (utf8 key).length ≤ 255 ∧ value.length ≤ 65535

theorem WithinLimits.decoded {op : CrdtOperation} (h : op.WithinLimits) :
    (decode op.encode).isSome := by
  cases op with
  | updatePosition nodeId position timestamp =>
      rw [decode_updatePosition, Option.isSome_map]
      exact h
  | updateHealth nodeId status timestamp =>
      rw [decode_updateHealth, Option.isSome_map]
      exact h
  | incrementCounter counterId nodeId amount =>
      rw [decode_incrementCounter, Option.isSome_some]
  | updateRegister key value timestamp nodeId =>
      rw [(decode_encode_eq_some_iff (updateRegister key value timestamp nodeId)).mpr h,
        Option.isSome_some]

end CrdtOperation

namespace OperationBatch

/-- It comes back with the same operations or not at all. -/
def Faithful (batch : OperationBatch) : Prop :=
  decode batch.encode = none ∨
    ∃ read, decode batch.encode = some read ∧ read.operations = batch.operations

/-- How many operations the 16-bit count announces. -/
def announced (batch : OperationBatch) : Nat := batch.operations.length % 65536

/-- The bytes begin with so many frames: a length, as many bytes, and an operation in them. -/
inductive Spelled : Nat → Bytes → Prop
  | done (rest : Bytes) : Spelled 0 rest
  | frame {count : Nat} {frame rest : Bytes} {op : CrdtOperation} (hlen : frame.length ≤ 65535)
      (hop : CrdtOperation.decode frame = some op) (hrest : Spelled count rest) :
      Spelled (count + 1) (u16ToLe (UInt16.ofNat frame.length) ++ (frame ++ rest))

/-- Enough bytes for a header and for what it says begin with a frame. -/
theorem exists_frame {body : Bytes} (hheader : 2 ≤ body.length)
    (hframe : 2 + (u16At body 0).toNat ≤ body.length) :
    ∃ frame rest : Bytes, frame.length ≤ 65535 ∧
      body = u16ToLe (UInt16.ofNat frame.length) ++ (frame ++ rest) := by
  have hlen : ((body.drop 2).take (u16At body 0).toNat).length = (u16At body 0).toNat := by
    rw [List.length_take, List.length_drop]
    omega
  have hword := (u16At body 0).toNat_lt
  refine ⟨(body.drop 2).take (u16At body 0).toNat, (body.drop 2).drop (u16At body 0).toNat,
    by omega, ?_⟩
  rw [hlen, UInt16.ofNat_toNat, List.take_append_drop, u16ToLe_u16At hheader]

theorem isSome_readOperations_iff (count : Nat) (front body : Bytes) :
    (readOperations (front ++ body) count front.length).isSome ↔ Spelled count body := by
  induction count generalizing front body with
  | zero => exact iff_of_true rfl (Spelled.done body)
  | succ count ih =>
      constructor
      · intro h
        have hword : u16At (front ++ body) front.length = u16At body 0 := by
          rw [u16At_skip (Nat.le_refl _), Nat.sub_self]
        have hheader : 2 ≤ body.length := by
          by_contra hshort
          rw [readOperations, if_pos (by rw [List.length_append]; omega)] at h
          cases h
        have hframe : 2 + (u16At body 0).toNat ≤ body.length := by
          by_contra hshort
          rw [readOperations, if_neg (by rw [List.length_append]; omega)] at h
          dsimp only at h
          rw [hword, if_pos (by rw [List.length_append]; omega)] at h
          cases h
        obtain ⟨frame, rest, hlen, rfl⟩ := exists_frame hheader hframe
        rw [readOperations_frame _ _ _ _ hlen, Option.isSome_iff_exists] at h
        obtain ⟨read, h⟩ := h
        obtain ⟨op, hop, h⟩ := Option.bind_eq_some_iff.mp h
        obtain ⟨later, hlater, -⟩ := Option.bind_eq_some_iff.mp h
        refine Spelled.frame hlen hop ((ih (front ++ (u16ToLe (UInt16.ofNat frame.length) ++ frame))
          rest).mp ?_)
        rw [hlater, Option.isSome_some]
      · intro h
        cases h with
        | @frame _ frame rest op hlen hop hrest =>
            obtain ⟨later, hlater⟩ := Option.isSome_iff_exists.mp ((ih (front ++
              (u16ToLe (UInt16.ofNat frame.length) ++ frame)) rest).mpr hrest)
            rw [readOperations_frame _ _ _ _ hlen, hop, Option.bind_some, hlater, Option.bind_some,
              Option.isSome_some]

theorem decode_encode_eq_none_iff (batch : OperationBatch) :
    decode batch.encode = none ↔
      ¬ Spelled batch.announced (batch.operations.flatMap encodeOperation) := by
  have hread := isSome_readOperations_iff batch.announced
    (u16ToLe (UInt16.ofNat batch.operations.length)) (batch.operations.flatMap encodeOperation)
  rw [u16ToLe_length] at hread
  rw [encode, decode_encodeOperations, Option.map_eq_none_iff, ← hread, Option.not_isSome_iff_eq_none]
  rfl

/-- What is read back can be sent, and what can be sent is read back. -/
theorem decode_encode_eq_some_iff (batch : OperationBatch) :
    (∃ read, decode batch.encode = some read ∧ read.operations = batch.operations) ↔
      Sendable batch.operations := by
  constructor
  · rintro ⟨read, hread, hsame⟩
    exact hsame ▸ sendable_of_decode hread
  · intro h
    exact ⟨_, decode_encode h, rfl⟩

theorem mapM_eq_none_iff (operations : List CrdtOperation) :
    (operations.mapM fun op => CrdtOperation.decode op.encode) = none ↔
      ∃ op ∈ operations, op.Refused := by
  induction operations with
  | nil => simp
  | cons op operations ih =>
      rw [List.mapM_cons, List.exists_mem_cons_iff, ← ih, ← op.decode_encode_eq_none_iff]
      cases CrdtOperation.decode op.encode with
      | none => simp
      | some read =>
          cases operations.mapM fun op => CrdtOperation.decode op.encode <;> simp

theorem mem_mapM_iff {operations read : List CrdtOperation}
    (h : (operations.mapM fun op => CrdtOperation.decode op.encode) = some read)
    (op : CrdtOperation) :
    op ∈ read ↔ ∃ sent ∈ operations, CrdtOperation.decode sent.encode = some op := by
  induction operations generalizing read with
  | nil =>
      obtain rfl := Option.some.inj h
      simp
  | cons first operations ih =>
      rw [List.mapM_cons] at h
      obtain ⟨head, hhead, h⟩ := Option.bind_eq_some_iff.mp h
      obtain ⟨tail, htail, h⟩ := Option.bind_eq_some_iff.mp h
      obtain rfl := Option.some.inj h
      rw [List.mem_cons, List.exists_mem_cons_iff, ih htail, hhead, Option.some_inj, eq_comm]

/-- Frames that start where their predecessors end are refused one by one. -/
theorem decode_encode_eq_none_of_aligned {batch : OperationBatch}
    (h : ∀ op ∈ batch.operations.take batch.announced, op.encode.length ≤ 65535) :
    decode batch.encode = none ↔ ∃ op ∈ batch.operations.take batch.announced, op.Refused := by
  rw [encode, decode_encodeOperations, Option.map_eq_none_iff, readOperations_encodeOperations h,
    mapM_eq_none_iff]
  rfl

/-- What is read of a batch that is not refused is what is read of its operations. -/
theorem read_iff_of_aligned {batch : OperationBatch}
    (h : ∀ op ∈ batch.operations.take batch.announced, op.encode.length ≤ 65535)
    (op : CrdtOperation) :
    (∃ read, decode batch.encode = some read ∧ op ∈ read.operations) ↔
      (∀ sent ∈ batch.operations.take batch.announced, ¬ sent.Refused) ∧
        ∃ sent ∈ batch.operations.take batch.announced,
          CrdtOperation.decode sent.encode = some op := by
  have hread : decode batch.encode =
      ((batch.operations.take batch.announced).mapM fun op => CrdtOperation.decode op.encode).map
        fun operations => { operations, totalBytes := totalSize operations, createdAt := 0 } := by
    rw [encode, decode_encodeOperations, readOperations_encodeOperations h]
    rfl
  cases hall : (batch.operations.take batch.announced).mapM
      fun op => CrdtOperation.decode op.encode with
  | none =>
      obtain ⟨sent, hsent, hrefused⟩ := (mapM_eq_none_iff _).mp hall
      rw [hread, hall]
      exact iff_of_false (fun h => by simp at h) fun h => h.1 sent hsent hrefused
  | some read =>
      have hnone : ∀ sent ∈ batch.operations.take batch.announced, ¬ sent.Refused := by
        intro sent hsent hrefused
        rw [(mapM_eq_none_iff _).mpr ⟨sent, hsent, hrefused⟩] at hall
        cases hall
      rw [hread, hall, and_iff_right hnone, ← mem_mapM_iff hall]
      simp

structure WithinLimits (batch : OperationBatch) : Prop where
  length_le : batch.operations.length ≤ 65535
  operation : ∀ op ∈ batch.operations, op.WithinLimits
  encoded_le : ∀ op ∈ batch.operations, op.encode.length ≤ 65535

theorem WithinLimits.decoded {batch : OperationBatch} (h : batch.WithinLimits) :
    (decode batch.encode).isSome := by
  rw [← Option.ne_none_iff_isSome, Ne, decode_encode_eq_none_of_aligned
    fun op hop => h.encoded_le op (List.mem_of_mem_take hop)]
  rintro ⟨op, hop, hrefused⟩
  have hread := (h.operation op (List.mem_of_mem_take hop)).decoded
  rw [op.decode_encode_eq_none_iff.mpr hrefused] at hread
  cases hread

/-- An operation comes back changed exactly if it is misread. A batch does so exactly if it cannot
be sent and its bytes still spell frames; where every length fits its prefix, that is if none of
the announced operations is refused. Within the limits everything is accepted. -/
theorem operation_decoding_faithful_iff (op : CrdtOperation) (batch : OperationBatch) :
    (op.Faithful ↔ ¬ op.Misread) ∧
      (op.WithinLimits → (CrdtOperation.decode op.encode).isSome) ∧
      (batch.Faithful ↔ Sendable batch.operations ∨
        ¬ Spelled batch.announced (batch.operations.flatMap encodeOperation)) ∧
      ((∀ sent ∈ batch.operations.take batch.announced, sent.encode.length ≤ 65535) →
        (batch.Faithful ↔ Sendable batch.operations ∨
          ∃ sent ∈ batch.operations.take batch.announced, sent.Refused)) ∧
      (batch.WithinLimits → (decode batch.encode).isSome) := by
  refine ⟨op.faithful_iff, CrdtOperation.WithinLimits.decoded, ?_, ?_, WithinLimits.decoded⟩
  · rw [Faithful, decode_encode_eq_none_iff, decode_encode_eq_some_iff, or_comm]
  · intro haligned
    rw [Faithful, decode_encode_eq_none_of_aligned haligned, decode_encode_eq_some_iff, or_comm]

theorem decode_encode_of_wrapped {batch : OperationBatch}
    (h : batch.operations.length = 65536) : decode batch.encode = some ⟨[], 0, 0⟩ := by
  rw [encode, decode_encodeOperations, h, Nat.mod_self, readOperations]
  rfl

/-- A value of 65536 bytes comes back empty, and so do 65536 operations. -/
theorem long_value_emptied :
    CrdtOperation.decode (CrdtOperation.updateRegister "" (List.replicate 65536 0) 1000 1).encode =
        some (.updateRegister "" [] 1000 1) ∧
      decode (encode ⟨List.replicate 65536 (.incrementCounter 0 1 1), 0, 0⟩) = some ⟨[], 0, 0⟩ := by
  constructor
  · rw [CrdtOperation.decode_encode_of_key_le (Nat.zero_le _), List.length_replicate, Nat.mod_self,
      List.take_zero]
  · exact decode_encode_of_wrapped List.length_replicate

end OperationBatch

end PeatBtle
