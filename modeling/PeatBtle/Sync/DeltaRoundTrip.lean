import PeatBtle.Sync.DeltaDocument

/-!
# Delta documents on the wire

Operations stand next to each other without separators, so each decoder has to
take exactly the bytes that its encoder wrote. What a decoder accepts is in turn
within the limits of the format.
-/

namespace PeatBtle

open Wire

/-! ## App operations -/

namespace AppOperation

/-- The limits of the wire format. -/
structure Fits (op : AppOperation) : Prop where
  typeId_ge : appTypeMin ≤ op.typeId
  typeId_le : op.typeId ≤ appTypeMax
  payload_le : op.payload.length ≤ 65535

theorem encode_length (op : AppOperation) : op.encode.length = 16 + op.payload.length := by
  simp only [encode, List.length_cons, List.length_append, u32ToLe_length, u64ToLe_length,
    u16ToLe_length]
  omega

theorem Fits.typeId_range {op : AppOperation} (h : op.Fits) :
    192 ≤ op.typeId.toNat ∧ op.typeId.toNat ≤ 207 :=
  ⟨UInt8.le_iff_toNat_le.mp h.typeId_ge, UInt8.le_iff_toNat_le.mp h.typeId_le⟩

theorem toNat_opTypeByte {op : AppOperation} (h : op.Fits) :
    op.opTypeByte.toNat + 176 = op.typeId.toNat := by
  obtain ⟨hge, hle⟩ := h.typeId_range
  have hsub : (op.typeId - appTypeMin).toNat = op.typeId.toNat - 192 :=
    UInt8.toNat_sub_of_le _ _ h.typeId_ge
  rw [opTypeByte, UInt8.toNat_add, hsub]
  change (16 + (op.typeId.toNat - 192)) % 256 + 176 = _
  omega

theorem isAppOpType_iff (opType : UInt8) :
    isAppOpType opType = true ↔ 16 ≤ opType.toNat ∧ opType.toNat < 32 := by
  unfold isAppOpType
  rw [Bool.and_eq_true, decide_eq_true_iff, decide_eq_true_iff, UInt8.le_iff_toNat_le,
    UInt8.lt_iff_toNat_lt]
  rfl

theorem isAppOpType_opTypeByte {op : AppOperation} (h : op.Fits) :
    isAppOpType op.opTypeByte = true := by
  have hbyte := toNat_opTypeByte h
  obtain ⟨hge, hle⟩ := h.typeId_range
  rw [isAppOpType_iff]
  omega

/-- The type identifier is read back from the type byte. -/
theorem typeId_opTypeByte (op : AppOperation) :
    appTypeMin + (op.opTypeByte - appOpBase) = op.typeId := by
  rw [opTypeByte, UInt8.add_comm appOpBase, UInt8.add_sub_cancel, UInt8.add_comm,
    UInt8.sub_add_cancel]

theorem decode_encode {op : AppOperation} (h : op.Fits) (rest : Bytes) :
    decode (op.encode ++ rest) = some (op, op.encode.length) := by
  have hlen := op.encode_length
  have hpayload := h.payload_le
  have hfit : (UInt16.ofNat op.payload.length).toNat = op.payload.length := by
    rw [UInt16.toNat_ofNat']
    omega
  have htype : byteAt (op.encode ++ rest) 0 = op.opTypeByte := rfl
  have hcode : byteAt (op.encode ++ rest) 1 = op.opCode := rfl
  have hsource : u32At (op.encode ++ rest) 2 = op.sourceNode := by simp [encode]
  have htime : u64At (op.encode ++ rest) 6 = op.timestamp := by
    simp (disch := simp) [encode, u64At_skip]
  have hcount : u16At (op.encode ++ rest) 14 = UInt16.ofNat op.payload.length := by
    simp (disch := simp) [encode, u16At_skip]
  have hread : slice (op.encode ++ rest) 16 (16 + op.payload.length) = op.payload := by
    have hshape : op.encode ++ rest =
        (op.opTypeByte :: op.opCode :: (u32ToLe op.sourceNode ++ (u64ToLe op.timestamp ++
          u16ToLe (UInt16.ofNat op.payload.length)))) ++ (op.payload ++ rest) := by simp [encode]
    rw [hshape, slice_middle (by simp)]
  unfold decode
  simp only [htype, hcode, hsource, htime, hcount, hfit, hread, isAppOpType_opTypeByte h,
    typeId_opTypeByte, List.length_append, hlen]
  rw [if_neg (by omega), if_pos trivial, if_neg (by omega)]

theorem fits_of_decode {data : Bytes} {op : AppOperation} {size : Nat}
    (h : decode data = some (op, size)) : op.Fits := by
  unfold decode at h
  dsimp only at h
  split_ifs at h with hshort htype hlen
  obtain ⟨rfl, -⟩ := Prod.mk.inj (Option.some.inj h)
  obtain ⟨hge, hlt⟩ := (isAppOpType_iff _).mp htype
  have hsub : (byteAt data 0 - appOpBase).toNat = (byteAt data 0).toNat - 16 :=
    UInt8.toNat_sub_of_le _ _ (UInt8.le_iff_toNat_le.mpr hge)
  have hid : (appTypeMin + (byteAt data 0 - appOpBase)).toNat = 176 + (byteAt data 0).toNat := by
    rw [UInt8.toNat_add, hsub]
    change (192 + ((byteAt data 0).toNat - 16)) % 256 = _
    omega
  refine ⟨?_, ?_, ?_⟩
  · rw [UInt8.le_iff_toNat_le]
    dsimp only
    rw [hid]
    change 192 ≤ _
    omega
  · rw [UInt8.le_iff_toNat_le]
    dsimp only
    rw [hid]
    change _ ≤ 207
    omega
  · have hcount := (u16At data 14).toNat_lt
    simp only [slice, List.length_take]
    omega

end AppOperation

/-! ## Vector clocks -/

namespace VectorClock

theorem encode_length (clock : VectorClock) : clock.encode.length = 4 + clock.clocks.size * 12 := by
  simp [encode, u64Codec]

theorem decode_encode {clock : VectorClock} (h : clock.clocks.size < 2 ^ 32) (rest : Bytes) :
    decode (clock.encode ++ rest) = some clock := by
  have hsize : (UInt32.ofNat clock.clocks.size).toNat = clock.clocks.size := by
    rw [UInt32.toNat_ofNat']
    omega
  have hread := readEntries_toList u64Codec (fun _ => true) clock.clocks
    (u32ToLe (UInt32.ofNat clock.clocks.size)) rest
  rw [u32ToLe_length, MapMerge.filter_eq_self (fun _ _ => rfl)] at hread
  have hlen : (clock.encode ++ rest).length = 4 + clock.clocks.size * 12 + rest.length := by
    rw [List.length_append, encode_length]
  simp only [decode, encode, List.append_assoc, u32At_toLe, hsize] at hlen ⊢
  rw [if_neg (by omega), if_neg (by omega), hread]

/-- A clock with every identifier announces no entry. -/
theorem decode_encode_of_full {clock : VectorClock} (h : clock.clocks.size = 2 ^ 32) (rest : Bytes) :
    decode (clock.encode ++ rest) = some new := by
  have hlen : (clock.encode ++ rest).length = 4 + clock.clocks.size * 12 + rest.length := by
    rw [List.length_append, encode_length]
  have hread : (u32At (clock.encode ++ rest) 0).toNat = 0 := by
    rw [encode, List.append_assoc, u32At_toLe, UInt32.toNat_ofNat', h, Nat.mod_self]
  simp only [decode, hread]
  rw [if_neg (by omega), if_neg (by omega)]
  rfl

end VectorClock

/-! ## Operations -/

namespace Operation

/-- The limits of the wire format. -/
def Fits : Operation → Prop
  | .updatePeripheral peripheral _ => Peripheral.decode peripheral.encode = some peripheral
  | .setEmergency _ _ knownPeers => knownPeers.length ≤ 255
  | .app op => op.Fits
  | _ => True

theorem encode_length_pos (op : Operation) : 0 < op.encode.length := by
  cases op with
  | app op =>
      rw [encode, AppOperation.encode_length]
      omega
  | _ => exact Nat.succ_pos _

/-- Words written one after another are found at every fourth byte. -/
theorem u32At_flatMap (words : List UInt32) (rest : Bytes) (i : Nat) (h : i < words.length) :
    u32At (words.flatMap u32ToLe ++ rest) (i * 4) = words[i] := by
  induction words generalizing i with
  | nil => cases h
  | cons word words ih =>
      rw [List.flatMap_cons, List.append_assoc]
      cases i with
      | zero => simp
      | succ i =>
          have hskip : (u32ToLe word).length ≤ (i + 1) * 4 := by
            rw [u32ToLe_length]
            omega
          rw [u32At_skip hskip, u32ToLe_length, show (i + 1) * 4 - 4 = i * 4 by omega]
          exact ih i (by simpa using h)

theorem length_flatMap_u32ToLe (words : List UInt32) :
    (words.flatMap u32ToLe).length = words.length * 4 := by
  induction words with
  | nil => rfl
  | cons word words ih =>
      rw [List.flatMap_cons, List.length_append, ih, u32ToLe_length, List.length_cons]
      omega

section Tags

variable (rest : Bytes)

private theorem decode_increment :
    decode (OpType.incrementCounter :: rest) =
      decodeIncrementCounter (OpType.incrementCounter :: rest) := rfl

private theorem decode_update :
    decode (OpType.updatePeripheral :: rest) =
      decodeUpdatePeripheral (OpType.updatePeripheral :: rest) := rfl

private theorem decode_set :
    decode (OpType.setEmergency :: rest) = decodeSetEmergency (OpType.setEmergency :: rest) := rfl

private theorem decode_ack :
    decode (OpType.ackEmergency :: rest) = decodeAckEmergency (OpType.ackEmergency :: rest) := rfl

private theorem decode_clear :
    decode (OpType.clearEmergency :: rest) = decodeClearEmergency (OpType.clearEmergency :: rest) :=
  rfl

/-- The tags of app operations are apart from the others. -/
private theorem decode_app {tag : UInt8} (htag : AppOperation.isAppOpType tag = true) :
    decode (tag :: rest) =
      (AppOperation.decode (tag :: rest)).map fun found => (.app found.1, found.2) := by
  have hrange := (AppOperation.isAppOpType_iff tag).mp htag
  have hne : ∀ other : UInt8, other.toNat < 16 → tag ≠ other := by
    rintro other hother rfl
    omega
  unfold decode
  simp only [List.isEmpty_cons, Bool.false_eq_true, if_false, byteAt_cons_zero, htag, if_true]
  rw [if_neg (hne _ (by decide)), if_neg (hne _ (by decide)), if_neg (hne _ (by decide)),
    if_neg (hne _ (by decide)), if_neg (hne _ (by decide))]

end Tags

theorem decodeIncrementCounter_encode (counterId : UInt8) (nodeId : NodeId)
    (amount timestamp : UInt64) (rest : Bytes) :
    decodeIncrementCounter ((incrementCounter counterId nodeId amount timestamp).encode ++ rest) =
      some (.incrementCounter counterId nodeId amount timestamp, 22) := by
  have hlen : ¬ ((incrementCounter counterId nodeId amount timestamp).encode ++ rest).length < 22 := by
    simp only [encode, List.length_append, List.length_cons, u32ToLe_length, u64ToLe_length]
    omega
  unfold decodeIncrementCounter
  rw [if_neg hlen]
  simp (disch := simp) [encode, u64At_skip]

theorem decodeUpdatePeripheral_encode {peripheral : Peripheral}
    (h : Peripheral.decode peripheral.encode = some peripheral) (timestamp : UInt64) (rest : Bytes) :
    decodeUpdatePeripheral ((updatePeripheral peripheral timestamp).encode ++ rest) =
      some (.updatePeripheral peripheral timestamp, 11 + peripheral.encode.length) := by
  have hle := peripheral.encode_length_le
  have hfit : (UInt16.ofNat peripheral.encode.length).toNat = peripheral.encode.length := by
    rw [UInt16.toNat_ofNat']
    omega
  have hshape : (updatePeripheral peripheral timestamp).encode ++ rest =
      (OpType.updatePeripheral :: (u64ToLe timestamp ++
        u16ToLe (UInt16.ofNat peripheral.encode.length))) ++ (peripheral.encode ++ rest) := by
    simp [encode]
  have hlen : ((updatePeripheral peripheral timestamp).encode ++ rest).length =
      11 + peripheral.encode.length + rest.length := by
    rw [hshape]
    simp only [List.length_append, List.length_cons, u64ToLe_length, u16ToLe_length]
    omega
  have hcount : u16At ((updatePeripheral peripheral timestamp).encode ++ rest) 9 =
      UInt16.ofNat peripheral.encode.length := by
    simp (disch := simp) [encode, u16At_skip]
  have htime : u64At ((updatePeripheral peripheral timestamp).encode ++ rest) 1 = timestamp := by
    simp [encode]
  have hread : slice ((updatePeripheral peripheral timestamp).encode ++ rest) 11
      (11 + peripheral.encode.length) = peripheral.encode := by
    rw [hshape, slice_middle (by simp)]
  unfold decodeUpdatePeripheral
  simp only [hcount, htime, hfit, hread, hlen, h, Option.map_some]
  rw [if_neg (by omega), if_neg (by omega)]

theorem decodeSetEmergency_encode {knownPeers : List UInt32} (h : knownPeers.length ≤ 255)
    (sourceNode : NodeId) (timestamp : UInt64) (rest : Bytes) :
    decodeSetEmergency ((setEmergency sourceNode timestamp knownPeers).encode ++ rest) =
      some (.setEmergency sourceNode timestamp knownPeers, 14 + knownPeers.length * 4) := by
  have hfit : (UInt8.ofNat knownPeers.length).toNat = knownPeers.length := by
    rw [UInt8.toNat_ofNat']
    omega
  have hshape : (setEmergency sourceNode timestamp knownPeers).encode ++ rest =
      (OpType.setEmergency :: (u32ToLe sourceNode ++ (u64ToLe timestamp ++
        [UInt8.ofNat knownPeers.length]))) ++ (knownPeers.flatMap u32ToLe ++ rest) := by
    simp [encode]
  have hlen : ((setEmergency sourceNode timestamp knownPeers).encode ++ rest).length =
      14 + knownPeers.length * 4 + rest.length := by
    rw [hshape]
    simp only [List.length_append, List.length_cons, u32ToLe_length, u64ToLe_length,
      List.length_nil, length_flatMap_u32ToLe]
    omega
  have hcount : byteAt ((setEmergency sourceNode timestamp knownPeers).encode ++ rest) 13 =
      UInt8.ofNat knownPeers.length := by
    simp (disch := simp) [encode, byteAt_skip]
  have hsource : u32At ((setEmergency sourceNode timestamp knownPeers).encode ++ rest) 1 =
      sourceNode := by simp [encode]
  have htime : u64At ((setEmergency sourceNode timestamp knownPeers).encode ++ rest) 5 =
      timestamp := by simp (disch := simp) [encode, u64At_skip]
  have hpeers : ((List.range knownPeers.length).map fun i =>
      u32At ((setEmergency sourceNode timestamp knownPeers).encode ++ rest) (14 + i * 4)) =
        knownPeers := by
    apply List.ext_getElem
    · simp
    · intro i hleft hright
      rw [List.getElem_map, List.getElem_range, hshape, u32At_skip (by simp)]
      simp only [List.length_cons, List.length_append, u32ToLe_length, u64ToLe_length,
        List.length_nil, Nat.reduceAdd, Nat.add_sub_cancel_left]
      exact u32At_flatMap knownPeers rest i hright
  unfold decodeSetEmergency
  simp only [hcount, hfit, hsource, htime, hpeers, hlen]
  rw [if_neg (by omega), if_neg (by omega)]

theorem decode_encode {op : Operation} (h : op.Fits) (rest : Bytes) :
    decode (op.encode ++ rest) = some (op, op.encode.length) := by
  cases op with
  | incrementCounter counterId nodeId amount timestamp =>
      have hlen : (incrementCounter counterId nodeId amount timestamp).encode.length = 22 := by
        simp [encode]
      rw [hlen]
      exact (decode_increment _).trans
        (decodeIncrementCounter_encode counterId nodeId amount timestamp rest)
  | updatePeripheral peripheral timestamp =>
      have hlen : (updatePeripheral peripheral timestamp).encode.length =
          11 + peripheral.encode.length := by
        simp only [encode, List.length_cons, List.length_append, u64ToLe_length, u16ToLe_length]
        omega
      rw [hlen]
      exact (decode_update _).trans (decodeUpdatePeripheral_encode h timestamp rest)
  | setEmergency sourceNode timestamp knownPeers =>
      have hlen : (setEmergency sourceNode timestamp knownPeers).encode.length =
          14 + knownPeers.length * 4 := by
        simp only [encode, List.length_cons, List.length_append, u32ToLe_length, u64ToLe_length,
          length_flatMap_u32ToLe]
        omega
      rw [hlen]
      exact (decode_set _).trans (decodeSetEmergency_encode h sourceNode timestamp rest)
  | ackEmergency nodeId emergencyTimestamp =>
      have hlen : ¬ ((ackEmergency nodeId emergencyTimestamp).encode ++ rest).length < 13 := by
        simp only [encode, List.length_append, List.length_cons, u32ToLe_length, u64ToLe_length]
        omega
      refine (decode_ack _).trans ((if_neg hlen).trans ?_)
      simp (disch := simp) [encode, u64At_skip]
  | clearEmergency emergencyTimestamp =>
      refine (decode_clear _).trans ?_
      simp [decodeClearEmergency, encode]
  | app op =>
      have hfits : op.Fits := h
      refine (decode_app _ (AppOperation.isAppOpType_opTypeByte hfits)).trans ?_
      exact congrArg (Option.map _) (AppOperation.decode_encode hfits rest)

/-- What a decoder accepts is within the limits. -/
theorem fits_of_decode {data : Bytes} {op : Operation} {size : Nat}
    (h : decode data = some (op, size)) : op.Fits := by
  unfold decode at h
  dsimp only at h
  split_ifs at h with hempty hincrement hupdate hset hack hclear happ
  · unfold decodeIncrementCounter at h
    split_ifs at h
    obtain ⟨rfl, -⟩ := Prod.mk.inj (Option.some.inj h)
    trivial
  · unfold decodeUpdatePeripheral at h
    dsimp only at h
    split_ifs at h
    obtain ⟨peripheral, hdecode, hfound⟩ := Option.map_eq_some_iff.mp h
    obtain ⟨rfl, -⟩ := Prod.mk.inj hfound
    exact Peripheral.decode_encode (Peripheral.valid_of_decode hdecode)
  · unfold decodeSetEmergency at h
    dsimp only at h
    split_ifs at h
    obtain ⟨rfl, -⟩ := Prod.mk.inj (Option.some.inj h)
    have hcount := (byteAt data 13).toNat_lt
    simp only [Fits, List.length_map, List.length_range]
    omega
  · unfold decodeAckEmergency at h
    split_ifs at h
    obtain ⟨rfl, -⟩ := Prod.mk.inj (Option.some.inj h)
    trivial
  · unfold decodeClearEmergency at h
    split_ifs at h
    obtain ⟨rfl, -⟩ := Prod.mk.inj (Option.some.inj h)
    trivial
  · obtain ⟨found, hdecode, hfound⟩ := Option.map_eq_some_iff.mp h
    obtain ⟨rfl, -⟩ := Prod.mk.inj hfound
    exact AppOperation.fits_of_decode hdecode

end Operation

/-! ## Documents -/

namespace DeltaDocument

/-- Each operation is found where the one before it ends. -/
theorem decodeOperations_flatMap {operations : List Operation}
    (h : ∀ op ∈ operations, op.Fits) (front : Bytes) :
    decodeOperations (front ++ operations.flatMap Operation.encode) operations.length front.length =
      some operations := by
  induction operations generalizing front with
  | nil => rfl
  | cons op operations ih =>
      have hpos := op.encode_length_pos
      have hdecode := Operation.decode_encode (h op (by simp))
        (operations.flatMap Operation.encode)
      have hrest := ih (fun other hother => h other (List.mem_cons_of_mem _ hother))
        (front ++ op.encode)
      rw [List.append_assoc, List.length_append] at hrest
      have hmore : ¬ front.length ≥
          (front ++ (op.encode ++ operations.flatMap Operation.encode)).length := by
        simp only [List.length_append]
        omega
      rw [List.flatMap_cons, List.length_cons, decodeOperations, if_neg hmore,
        List.drop_left, hdecode]
      simp only [Option.bind_eq_bind, Option.bind_some, hrest]

theorem fits_of_decodeOperations {data : Bytes} {count offset : Nat} {operations : List Operation}
    (h : decodeOperations data count offset = some operations) :
    operations.length = count ∧ ∀ op ∈ operations, op.Fits := by
  induction count generalizing offset operations with
  | zero =>
      obtain rfl := Option.some.inj h
      exact ⟨rfl, fun _ hop => absurd hop List.not_mem_nil⟩
  | succ count ih =>
      unfold decodeOperations at h
      split_ifs at h
      obtain ⟨⟨op, size⟩, hop, hrest⟩ := Option.bind_eq_some_iff.mp h
      obtain ⟨rest, htail, hcons⟩ := Option.bind_eq_some_iff.mp hrest
      obtain rfl := Option.some.inj hcons
      obtain ⟨hlength, hfits⟩ := ih htail
      exact ⟨by rw [List.length_cons, hlength],
        List.forall_mem_cons.mpr ⟨Operation.fits_of_decode hop, hfits⟩⟩

/-- The limits of the wire format; the flag announces the clock. -/
structure Fits (d : DeltaDocument) : Prop where
  flag_eq : d.flags.hasVectorClock = d.vectorClock.isSome
  operations_le : d.operations.length ≤ 65535
  operations_fit : ∀ op ∈ d.operations, op.Fits

section Reads

variable (d : DeltaDocument)

/-- The part before the clock. -/
def header : Bytes :=
  deltaDocumentMarker :: d.flags.toByte :: (u32ToLe d.originNode ++ u64ToLe d.timestampMs)

def clockBytes : Bytes := d.vectorClock.elim [] VectorClock.encode

@[simp] theorem header_length : d.header.length = 14 := by simp [header]

theorem encode_eq_append :
    d.encode = d.header ++ (d.clockBytes ++ (u16ToLe (UInt16.ofNat d.operations.length) ++
      d.operations.flatMap Operation.encode)) := by
  simp [encode, header, clockBytes]

private theorem origin_read : u32At d.encode 2 = d.originNode := by simp [encode]

private theorem timestamp_read : u64At d.encode 6 = d.timestampMs := by
  simp (disch := simp) [encode, u64At_skip]

theorem encodedSize_eq : d.encodedSize = d.encode.length := by
  rw [encode_eq_append, encodedSize, clockBytes, List.length_append, List.length_append,
    List.length_append, header_length, u16ToLe_length, List.length_flatMap]
  cases d.vectorClock with
  | none =>
      simp only [Option.elim, List.length_nil]
      omega
  | some clock =>
      simp only [Option.elim]
      omega

end Reads

/-- The clock is read back and its end is where the operations start. -/
theorem decodeClock_encode {d : DeltaDocument} (hflag : d.flags.hasVectorClock = d.vectorClock.isSome)
    (hclock : ∀ clock, d.vectorClock = some clock → clock.clocks.size < 2 ^ 32) :
    decodeClock d.encode d.flags = some (d.vectorClock, 14 + d.clockBytes.length) := by
  unfold decodeClock
  rw [hflag]
  cases hsome : d.vectorClock with
  | none => simp [clockBytes, hsome]
  | some clock =>
      have hsize := hclock clock hsome
      have hbytes : d.clockBytes = clock.encode := by rw [clockBytes, hsome]; rfl
      have hdrop : d.encode.drop 14 = clock.encode ++ (u16ToLe (UInt16.ofNat d.operations.length) ++
          d.operations.flatMap Operation.encode) := by
        rw [encode_eq_append, hbytes, List.drop_left' d.header_length]
      have hcount : (u32At d.encode 14).toNat = clock.clocks.size := by
        rw [← Nat.add_zero 14, ← u32At_drop, hdrop, VectorClock.encode, List.append_assoc,
          u32At_toLe, UInt32.toNat_ofNat']
        omega
      rw [hdrop, VectorClock.decode_encode hsize, hcount, hbytes, VectorClock.encode_length]
      rfl

theorem decode_encode {d : DeltaDocument} (h : d.Fits)
    (hclock : ∀ clock, d.vectorClock = some clock → clock.clocks.size < 2 ^ 32) :
    decode d.encode = some d := by
  have hmarker : byteAt d.encode 0 = deltaDocumentMarker := rfl
  have hflags : DeltaFlags.fromByte (byteAt d.encode 1) = d.flags := d.flags.fromByte_toByte
  have hlen := congrArg List.length d.encode_eq_append
  simp only [List.length_append, header_length, u16ToLe_length] at hlen
  have hfit : (UInt16.ofNat d.operations.length).toNat = d.operations.length := by
    have hle := h.operations_le
    rw [UInt16.toNat_ofNat']
    omega
  have hcount : u16At d.encode (14 + d.clockBytes.length) = UInt16.ofNat d.operations.length := by
    rw [encode_eq_append, u16At_skip (by simp), header_length, u16At_skip (by omega),
      Nat.add_sub_cancel_left, Nat.sub_self, u16At_toLe]
  have hoperations : decodeOperations d.encode d.operations.length
      (14 + d.clockBytes.length + 2) = some d.operations := by
    have hread := decodeOperations_flatMap h.operations_fit (d.header ++ (d.clockBytes ++
      u16ToLe (UInt16.ofNat d.operations.length)))
    simp only [List.append_assoc, List.length_append, header_length, u16ToLe_length] at hread
    rwa [← encode_eq_append, ← Nat.add_assoc] at hread
  unfold decode
  rw [if_neg (by omega), if_neg (by simp [hmarker])]
  simp only [hflags, decodeClock_encode h.flag_eq hclock, Option.bind_eq_bind, Option.bind_some,
    origin_read, timestamp_read, hcount, hfit, hoperations]
  rw [if_neg (by omega)]

theorem decode_parts {data : Bytes} {d : DeltaDocument} (h : decode data = some d) :
    ∃ offset, decodeClock data (DeltaFlags.fromByte (byteAt data 1)) = some (d.vectorClock, offset) ∧
      decodeOperations data (u16At data offset).toNat (offset + 2) = some d.operations := by
  unfold decode at h
  split_ifs at h
  obtain ⟨⟨clock, offset⟩, hclock, hrest⟩ := Option.bind_eq_some_iff.mp h
  dsimp only at hrest
  split_ifs at hrest
  obtain ⟨operations, hoperations, hd⟩ := Option.bind_eq_some_iff.mp hrest
  obtain rfl := Option.some.inj hd
  exact ⟨offset, hclock, hoperations⟩

/-- What is accepted is within the limits. -/
theorem operations_fit_of_decode {data : Bytes} {d : DeltaDocument} (h : decode data = some d) :
    d.operations.length ≤ 65535 ∧ ∀ op ∈ d.operations, op.Fits := by
  obtain ⟨offset, -, hoperations⟩ := decode_parts h
  obtain ⟨hlength, hfits⟩ := fits_of_decodeOperations hoperations
  have hcount := (u16At data offset).toNat_lt
  exact ⟨by omega, hfits⟩

/-- A clock with every identifier is read back as an empty one. -/
theorem decode_encode_of_full {d : DeltaDocument} (hflag : d.flags.hasVectorClock = true)
    {clock : VectorClock} (hclock : d.vectorClock = some clock)
    (hfull : clock.clocks.size = 2 ^ 32) : decode d.encode ≠ some d := by
  intro hdecode
  obtain ⟨offset, hread, -⟩ := decode_parts hdecode
  have hflags : DeltaFlags.fromByte (byteAt d.encode 1) = d.flags := d.flags.fromByte_toByte
  have hbytes : d.clockBytes = clock.encode := by
    rw [clockBytes, hclock]
    rfl
  rw [decodeClock, hflags, if_pos hflag, encode_eq_append, hbytes, List.drop_left' d.header_length,
    VectorClock.decode_encode_of_full hfull, hclock] at hread
  obtain ⟨hnew, -⟩ := Prod.mk.inj (Option.some.inj hread)
  rw [← Option.some.inj hnew] at hfull
  change (∅ : Map UInt32 UInt64).size = 2 ^ 32 at hfull
  rw [Std.ExtTreeMap.size_empty] at hfull
  omega

/-- A delta document within the limits round-trips, its size is as announced and its operations
can stand before anything, as long as its clock does not have an entry for every identifier. -/
theorem delta_round_trip_iff (d : DeltaDocument) (h : d.Fits) :
    (decode d.encode = some d ∧ d.encodedSize = d.encode.length ∧
        ∀ op : Operation, op.Fits → ∀ rest,
          Operation.decode (op.encode ++ rest) = some (op, op.encode.length)) ↔
      ∀ clock, d.vectorClock = some clock → clock.clocks.size < 2 ^ 32 := by
  constructor
  · rintro ⟨hdecode, -, -⟩ clock hclock
    refine Nat.lt_of_le_of_ne (size_le_keys clock.clocks) ?_
    intro hfull
    have hflag : d.flags.hasVectorClock = true := by
      rw [h.flag_eq, hclock]
      rfl
    exact decode_encode_of_full hflag hclock hfull hdecode
  · intro hclock
    exact ⟨decode_encode h hclock, d.encodedSize_eq, fun _ hop rest => Operation.decode_encode hop rest⟩

/-- One operation of each kind, with a clock. -/
def patrol : DeltaDocument where
  originNode := 1
  timestampMs := 1700000000000
  flags := ⟨true, false⟩
  vectorClock := some ((VectorClock.new.update 1 3).update 2 9)
  operations :=
    [.incrementCounter 0 1 3 1700000000000, .updatePeripheral (Peripheral.new 1 .soldierSensor) 7,
      .setEmergency 2 1700000000000 [1, 2], .ackEmergency 1 1700000000000, .clearEmergency 5,
      .app ⟨0xC1, 4, 1, 1700000000000, [1, 2, 3]⟩]

theorem patrol_round_trip :
    decode patrol.encode = some patrol ∧ patrol.encodedSize = patrol.encode.length ∧
      ∀ op : Operation, op.Fits → ∀ rest,
        Operation.decode (op.encode ++ rest) = some (op, op.encode.length) := by
  have hperipheral : Peripheral.decode (Peripheral.new 1 .soldierSensor).encode =
      some (Peripheral.new 1 .soldierSensor) := by decide +kernel
  have hfits : patrol.Fits := by
    refine ⟨rfl, by decide, ?_⟩
    intro op hop
    simp only [patrol, List.mem_cons, List.not_mem_nil, or_false] at hop
    rcases hop with rfl | rfl | rfl | rfl | rfl | rfl
    · trivial
    · exact hperipheral
    · exact (by decide : [(1 : UInt32), 2].length ≤ 255)
    · trivial
    · trivial
    · exact ⟨by decide, by decide, by decide⟩
  refine (delta_round_trip_iff patrol hfits).mpr ?_
  rintro clock ⟨⟩
  decide +kernel

/-- A clock with an entry for each of the first `n` identifiers. -/
def clockBelow (n : Nat) : VectorClock :=
  ⟨(List.range n).foldl (fun m i => m.insert (UInt32.ofNat i) 0) ∅⟩

theorem mem_clockBelow {n i : Nat} (h : i < n) : UInt32.ofNat i ∈ (clockBelow n).clocks := by
  have hfold : ∀ (xs : List Nat) (m : Map UInt32 UInt64), (UInt32.ofNat i ∈ m ∨ i ∈ xs) →
      UInt32.ofNat i ∈ xs.foldl (fun m i => m.insert (UInt32.ofNat i) 0) m := by
    intro xs
    induction xs with
    | nil =>
        rintro m (hmem | hnil)
        · exact hmem
        · cases hnil
    | cons x xs ih =>
        rintro m hmem
        refine ih _ ?_
        rw [Std.ExtTreeMap.mem_insert, Std.LawfulEqCmp.compare_eq_iff_eq]
        rcases hmem with hold | hnew
        · exact Or.inl (Or.inr hold)
        · rcases List.mem_cons.mp hnew with rfl | hlater
          · exact Or.inl (Or.inl rfl)
          · exact Or.inr hlater
  exact hfold _ _ (Or.inr (List.mem_range.mpr h))

/-- A document whose clock has an entry for every identifier. -/
def census : DeltaDocument :=
  { DeltaDocument.new 1 0 with
    flags := ⟨true, false⟩
    vectorClock := some (clockBelow (2 ^ 32)) }

theorem census_not_read_back : census.Fits ∧ decode census.encode ≠ some census := by
  have hall : ∀ k, k ∈ (clockBelow (2 ^ 32)).clocks := by
    intro k
    have hmem := mem_clockBelow k.toNat_lt
    rwa [UInt32.ofNat_toNat] at hmem
  refine ⟨⟨rfl, Nat.zero_le _, fun _ hop => absurd hop List.not_mem_nil⟩, ?_⟩
  exact decode_encode_of_full rfl rfl (size_of_forall_mem _ hall)

end DeltaDocument

end PeatBtle
