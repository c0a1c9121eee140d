import PeatBtle.Sync.Crdt.Sensor

/-!
# Sync operations

The tagged operations exchanged by the chunked sync protocol. Key lengths take
one byte and value lengths two, so longer ones lose their high bits; sensor
payloads go through their own validating decoders.
-/

namespace PeatBtle

open Wire

inductive CrdtOperation where
  | updatePosition (nodeId : NodeId) (position : Position) (timestamp : Timestamp)
  | updateHealth (nodeId : NodeId) (status : HealthStatus) (timestamp : Timestamp)
  | incrementCounter (counterId : UInt8) (nodeId : NodeId) (amount : UInt64)
  | updateRegister (key : String) (value : Bytes) (timestamp : Timestamp) (nodeId : NodeId)
deriving DecidableEq

namespace CrdtOperation

/-- The approximate size used by the batch limits. -/
def size : CrdtOperation → Nat
  | updatePosition _ position _ => 4 + 8 + position.encode.length
  | updateHealth _ status _ => 4 + 8 + status.encode.length
  | incrementCounter .. => 1 + 4 + 8
  | updateRegister key value _ _ => 4 + 8 + (utf8 key).length + value.length

def encode : CrdtOperation → Bytes
  | updatePosition nodeId position timestamp =>
      0x01 :: (u32ToLe nodeId ++ (u64ToLe timestamp ++ position.encode))
  | updateHealth nodeId status timestamp =>
      0x02 :: (u32ToLe nodeId ++ (u64ToLe timestamp ++ status.encode))
  | incrementCounter counterId nodeId amount =>
      0x03 :: counterId :: (u32ToLe nodeId ++ u64ToLe amount)
  | updateRegister key value timestamp nodeId =>
      0x04 :: (u32ToLe nodeId ++ (u64ToLe timestamp ++ (UInt8.ofNat (utf8 key).length ::
        (utf8 key ++ (u16ToLe (UInt16.ofNat value.length) ++ value)))))

def decodeRegister (data : Bytes) : Option CrdtOperation :=
  if data.length < 14 then none
  else
    let nodeId := u32At data 1
    let timestamp := u64At data 5
    let keyLen := (byteAt data 13).toNat
    if data.length < 14 + keyLen + 2 then none
    else do
      let key ← fromUtf8 (slice data 14 (14 + keyLen))
      let valueLen := (u16At data (14 + keyLen)).toNat
      if data.length < 16 + keyLen + valueLen then none
      else
        let value := slice data (16 + keyLen) (16 + keyLen + valueLen)
        some (updateRegister key value timestamp nodeId)

def decode (data : Bytes) : Option CrdtOperation :=
  if data.isEmpty then none
  else if byteAt data 0 = 0x01 then
    if data.length < 13 then none
    else (Position.decode (data.drop 13)).map fun position =>
      updatePosition (u32At data 1) position (u64At data 5)
  else if byteAt data 0 = 0x02 then
    if data.length < 13 then none
    else (HealthStatus.decode (data.drop 13)).map fun status =>
      updateHealth (u32At data 1) status (u64At data 5)
  else if byteAt data 0 = 0x03 then
    if data.length < 14 then none
    else some (incrementCounter (byteAt data 1) (u32At data 2) (u64At data 6))
  else if byteAt data 0 = 0x04 then decodeRegister data
  else none

/-- Operations the wire format can carry. -/
def Valid : CrdtOperation → Prop
  | updatePosition _ position _ => position.Valid
  | updateHealth _ status _ => status.Valid
  | incrementCounter .. => True
  | updateRegister key value _ _ => (utf8 key).length ≤ 255 ∧ value.length ≤ 65535

/-! ## Round trip -/

section Stamped

/-! Three of the four layouts start with a tag, a node and a timestamp. -/

variable (tag : UInt8) (nodeId : NodeId) (timestamp : Timestamp) (rest : Bytes)

private theorem stamped_node : u32At (tag :: (u32ToLe nodeId ++ (u64ToLe timestamp ++ rest))) 1 =
    nodeId := by
  rw [u32At_cons_succ, u32At_toLe]

private theorem stamped_time : u64At (tag :: (u32ToLe nodeId ++ (u64ToLe timestamp ++ rest))) 5 =
    timestamp := by
  rw [u64At_cons_succ, u64At_skip (by simp), u32ToLe_length, Nat.sub_self, u64At_toLe]

private theorem stamped_drop :
    (tag :: (u32ToLe nodeId ++ (u64ToLe timestamp ++ rest))).drop 13 = rest := by
  rw [List.drop_succ_cons, ← List.append_assoc, List.drop_left' (by simp)]

private theorem stamped_length :
    (tag :: (u32ToLe nodeId ++ (u64ToLe timestamp ++ rest))).length = 13 + rest.length := by
  simp only [List.length_cons, List.length_append, u32ToLe_length, u64ToLe_length]
  omega

end Stamped

/-- A register behind the length of its key. -/
def registerBody (key : String) (value : Bytes) : Bytes :=
  utf8 key ++ (u16ToLe (UInt16.ofNat value.length) ++ value)

/-- The key length that is read back. -/
def readKeyLen (key : String) : Nat := (utf8 key).length % 256

/-- The value length that is read back, where the key that is read back ends. -/
def readValueLen (key : String) (value : Bytes) : Nat :=
  (u16At (registerBody key value) (readKeyLen key)).toNat

theorem readKeyLen_le (key : String) : readKeyLen key ≤ (utf8 key).length := Nat.mod_le _ _

/-- What stands before the key of a register. -/
def registerHeader (key : String) (timestamp : Timestamp) (nodeId : NodeId) : Bytes :=
  0x04 :: (u32ToLe nodeId ++ (u64ToLe timestamp ++ [UInt8.ofNat (utf8 key).length]))

section Register

variable (key : String) (value : Bytes) (timestamp : Timestamp) (nodeId : NodeId)

theorem registerHeader_length : (registerHeader key timestamp nodeId).length = 14 := by
  simp [registerHeader]

theorem encode_updateRegister : (updateRegister key value timestamp nodeId).encode =
    registerHeader key timestamp nodeId ++ registerBody key value := by
  simp [encode, registerHeader, registerBody]

theorem registerHeader_node (rest : Bytes) :
    u32At (registerHeader key timestamp nodeId ++ rest) 1 = nodeId := by
  simp only [registerHeader, List.cons_append, List.append_assoc]
  exact stamped_node ..

theorem registerHeader_time (rest : Bytes) :
    u64At (registerHeader key timestamp nodeId ++ rest) 5 = timestamp := by
  simp only [registerHeader, List.cons_append, List.append_assoc]
  exact stamped_time ..

theorem registerHeader_keyLen (rest : Bytes) :
    (byteAt (registerHeader key timestamp nodeId ++ rest) 13).toNat = readKeyLen key := by
  rw [byteAt_front (by rw [registerHeader_length]; omega)]
  simp only [registerHeader, byteAt_cons_succ]
  rw [byteAt_skip (by simp), byteAt_skip (by simp), u32ToLe_length, u64ToLe_length]
  exact UInt8.toNat_ofNat'

theorem registerBody_key :
    slice (registerBody key value) 0 (readKeyLen key) = (utf8 key).take (readKeyLen key) := by
  rw [slice, List.drop_zero, Nat.sub_zero, registerBody,
    List.take_append_of_le_length (readKeyLen_le key)]

theorem registerBody_length :
    (registerBody key value).length = (utf8 key).length + 2 + value.length := by
  simp only [registerBody, List.length_append, u16ToLe_length]
  omega

/-- What is read of a register of any size. -/
theorem decodeRegister_encode :
    decodeRegister (updateRegister key value timestamp nodeId).encode =
      (fromUtf8 ((utf8 key).take (readKeyLen key))).bind fun read =>
        if (utf8 key).length + value.length < readKeyLen key + readValueLen key value then none
        else some (updateRegister read (slice (registerBody key value) (2 + readKeyLen key)
          (2 + readKeyLen key + readValueLen key value)) timestamp nodeId) := by
  have hnode := registerHeader_node key timestamp nodeId (registerBody key value)
  have htime := registerHeader_time key timestamp nodeId (registerBody key value)
  have hbyte := registerHeader_keyLen key timestamp nodeId (registerBody key value)
  have hheader := registerHeader_length key timestamp nodeId
  rw [encode_updateRegister]
  generalize registerHeader key timestamp nodeId = header at hnode htime hbyte hheader ⊢
  have hslice (i j : Nat) : slice (header ++ registerBody key value) (14 + i) (14 + j) =
      slice (registerBody key value) i j := by
    rw [slice_skip (by omega), hheader, Nat.add_sub_cancel_left, Nat.add_sub_cancel_left]
  have hkey : slice (header ++ registerBody key value) 14 (14 + readKeyLen key) =
      (utf8 key).take (readKeyLen key) := (hslice 0 _).trans (registerBody_key key value)
  have hread : (u16At (header ++ registerBody key value) (14 + readKeyLen key)).toNat =
      readValueLen key value := by
    rw [u16At_skip (by omega), hheader, Nat.add_sub_cancel_left, readValueLen]
  have hvalue (n : Nat) : slice (header ++ registerBody key value) (16 + readKeyLen key)
      (16 + readKeyLen key + n) =
        slice (registerBody key value) (2 + readKeyLen key) (2 + readKeyLen key + n) := by
    rw [← hslice, ← Nat.add_assoc, ← Nat.add_assoc, ← Nat.add_assoc]
  have hlen : (header ++ registerBody key value).length =
      16 + (utf8 key).length + value.length := by
    rw [List.length_append, hheader, registerBody_length]
    omega
  have hcut := readKeyLen_le key
  simp only [decodeRegister, hnode, htime, hbyte, hkey, hread, hvalue, hlen, Option.bind_eq_bind]
  rw [if_neg (by omega), if_neg (by omega)]
  congr 1
  funext read
  congr 1
  exact propext ⟨fun h => by omega, fun h => by omega⟩

end Register

section Fits

variable {key : String} {value : Bytes}

theorem readKeyLen_of_le (hkey : (utf8 key).length ≤ 255) : readKeyLen key = (utf8 key).length :=
  Nat.mod_eq_of_lt (by omega)

/-- Behind a key that fits, the length of the value is where it was written. -/
theorem readValueLen_of_le (hkey : (utf8 key).length ≤ 255) :
    readValueLen key value = value.length % 65536 := by
  rw [readValueLen, readKeyLen_of_le hkey, registerBody, u16At_skip (Nat.le_refl _), Nat.sub_self,
    u16At_toLe]
  exact UInt16.toNat_ofNat'

theorem readValue_of_le (hkey : (utf8 key).length ≤ 255) :
    slice (registerBody key value) (2 + readKeyLen key) (2 + readKeyLen key +
      readValueLen key value) = value.take (value.length % 65536) := by
  rw [readValueLen_of_le hkey, readKeyLen_of_le hkey, registerBody, slice_skip (by omega),
    slice_skip (by rw [u16ToLe_length]; omega), u16ToLe_length, slice,
    show 2 + (utf8 key).length - (utf8 key).length - 2 = 0 by omega, List.drop_zero]
  congr 1
  omega

end Fits

section Tags

variable (nodeId : NodeId) (timestamp : Timestamp)

theorem decode_updatePosition (position : Position) :
    decode (updatePosition nodeId position timestamp).encode =
      (Position.decode position.encode).map fun read => updatePosition nodeId read timestamp := by
  simp only [decode, encode, List.isEmpty_cons, byteAt_cons_zero, stamped_length, stamped_drop,
    stamped_node, stamped_time]
  simp

theorem decode_updateHealth (status : HealthStatus) :
    decode (updateHealth nodeId status timestamp).encode =
      (HealthStatus.decode status.encode).map fun read => updateHealth nodeId read timestamp := by
  simp only [decode, encode, List.isEmpty_cons, byteAt_cons_zero, stamped_length, stamped_drop,
    stamped_node, stamped_time]
  simp

theorem decode_incrementCounter (counterId : UInt8) (amount : UInt64) :
    decode (incrementCounter counterId nodeId amount).encode =
      some (incrementCounter counterId nodeId amount) := by
  have hamount : u64At (u32ToLe nodeId ++ u64ToLe amount) 4 = amount := by
    rw [← List.append_nil (u64ToLe amount), u64At_skip (by simp), u32ToLe_length, Nat.sub_self,
      u64At_toLe]
  simp [decode, encode, hamount]

theorem decode_updateRegister (key : String) (value : Bytes) :
    decode (updateRegister key value timestamp nodeId).encode =
      decodeRegister (updateRegister key value timestamp nodeId).encode := by
  simp only [decode, encode, List.isEmpty_cons, byteAt_cons_zero]
  simp

end Tags

/-- Behind a key that fits, a value that is too long loses what its length loses. -/
theorem decode_encode_of_key_le {key : String} (hkey : (utf8 key).length ≤ 255) (value : Bytes)
    (timestamp : Timestamp) (nodeId : NodeId) :
    decode (updateRegister key value timestamp nodeId).encode =
      some (updateRegister key (value.take (value.length % 65536)) timestamp nodeId) := by
  have hmod : value.length % 65536 ≤ value.length := Nat.mod_le _ _
  rw [decode_updateRegister, decodeRegister_encode, readValue_of_le hkey, readValueLen_of_le hkey,
    readKeyLen_of_le hkey, List.take_length, fromUtf8_utf8, Option.bind_some, if_neg (by omega)]

theorem decode_encode {op : CrdtOperation} (h : op.Valid) : decode op.encode = some op := by
  cases op with
  | updatePosition nodeId position timestamp =>
      rw [decode_updatePosition, Position.decode_encode h, Option.map_some]
  | updateHealth nodeId status timestamp =>
      rw [decode_updateHealth, HealthStatus.decode_encode h, Option.map_some]
  | incrementCounter counterId nodeId amount => exact decode_incrementCounter ..
  | updateRegister key value timestamp nodeId =>
      obtain ⟨hkey, hvalue⟩ := h
      have hmod : value.length % 65536 = value.length := Nat.mod_eq_of_lt (by omega)
      rw [decode_encode_of_key_le hkey, hmod, List.take_length]

/-! ## What is accepted -/

theorem of_decodeRegister {data : Bytes} {op : CrdtOperation} (h : decodeRegister data = some op) :
    op.Valid ∧ op.encode.length ≤ data.length := by
  unfold decodeRegister at h
  dsimp only at h
  split_ifs at h with hshort hkeyShort hvalueShort
  · obtain ⟨-, -, h⟩ := Option.bind_eq_some_iff.mp h
    cases h
  obtain ⟨key, hkey, h⟩ := Option.bind_eq_some_iff.mp h
  obtain rfl := Option.some.inj h
  have hkeyLen : (utf8 key).length = (byteAt data 13).toNat := by
    rw [utf8_of_fromUtf8 hkey, slice, List.length_take, List.length_drop]
    omega
  have hvalueLen : (slice data (16 + (byteAt data 13).toNat) (16 + (byteAt data 13).toNat +
      (u16At data (14 + (byteAt data 13).toNat)).toNat)).length =
        (u16At data (14 + (byteAt data 13).toNat)).toNat := by
    rw [slice, List.length_take, List.length_drop]
    omega
  have hbyte := (byteAt data 13).toNat_lt
  have hword := (u16At data (14 + (byteAt data 13).toNat)).toNat_lt
  refine ⟨⟨by omega, by omega⟩, ?_⟩
  simp only [encode, List.length_cons, List.length_append, u32ToLe_length, u64ToLe_length,
    u16ToLe_length, hkeyLen, hvalueLen]
  omega

/-- What is read back fits the format, and takes no more room than the bytes that it was read
from. -/
theorem of_decode {data : Bytes} {op : CrdtOperation} (h : decode data = some op) :
    op.Valid ∧ op.encode.length ≤ data.length := by
  unfold decode at h
  split_ifs at h with hempty hposition hshort hhealth hshort hcounter hshort hregister
  · obtain ⟨position, hread, rfl⟩ := Option.map_eq_some_iff.mp h
    refine ⟨Position.valid_of_decode hread, ?_⟩
    have hroom := Position.encode_length_le_of_decode hread
    rw [List.length_drop] at hroom
    simp only [encode, List.length_cons, List.length_append, u32ToLe_length, u64ToLe_length]
    omega
  · obtain ⟨status, hread, rfl⟩ := Option.map_eq_some_iff.mp h
    refine ⟨HealthStatus.valid_of_decode hread, ?_⟩
    have hroom := HealthStatus.encode_length_le_of_decode hread
    rw [List.length_drop] at hroom
    simp only [encode, List.length_cons, List.length_append, u32ToLe_length, u64ToLe_length]
    omega
  · obtain rfl := Option.some.inj h
    refine ⟨trivial, ?_⟩
    simp only [encode, List.length_cons, List.length_append, u32ToLe_length, u64ToLe_length]
    omega
  · exact of_decodeRegister h

end CrdtOperation

end PeatBtle
