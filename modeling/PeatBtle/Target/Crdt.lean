import PeatBtle.Data.Machine
import PeatBtle.Sync.Delta
import PeatBtle.Document

/-!
# Reading the replicated types on a target

The decoders once more, with every index, every range and every sum or product
of offsets made explicit, for a machine whose words have a limit. Casts of 16-
and 32-bit fields to the word lose nothing. On a target that can hold the bytes
the decoders of records, counters and emergencies are safe; the clock's are safe
where the announced table fits the word.
-/

namespace PeatBtle

open Wire Machine

/-! ## Fields -/

namespace Machine.Target

variable (t : Target)

/-- The bytes at constant distances from an offset, from the first distance on. -/
def bytesAt (data : Bytes) (offset : Nat) : Nat → Nat → Run Bytes
  | _, 0 => pure []
  | first, width + 1 => do
      let byte ← index data (← t.add offset first)
      let rest ← bytesAt data offset (first + 1) width
      return byte :: rest

def readU16 (data : Bytes) (offset first : Nat) : Run UInt16 := do
  return UInt16.ofNat (leNat (← t.bytesAt data offset first 2))

def readU32 (data : Bytes) (offset first : Nat) : Run UInt32 := do
  return UInt32.ofNat (leNat (← t.bytesAt data offset first 4))

def readU64 (data : Bytes) (offset first : Nat) : Run UInt64 := do
  return UInt64.ofNat (leNat (← t.bytesAt data offset first 8))

/-- A slice takes up at most half of the memory that a word can address. -/
def Holds (data : Bytes) : Prop := 2 * data.length < t.limit

variable {t} {data : Bytes}

theorem Holds.slice (h : t.Holds data) (start stop : Nat) : t.Holds (slice data start stop) := by
  have hle : (Wire.slice data start stop).length ≤ data.length := by simp [Wire.slice]
  unfold Holds at *
  omega

theorem Holds.drop (h : t.Holds data) (start : Nat) : t.Holds (data.drop start) := by
  unfold Holds at *
  rw [List.length_drop]
  omega

theorem Holds.lt (h : t.Holds data) : data.length < t.limit := by
  unfold Holds at h
  omega

theorem slice_succ {i : Nat} (h : i < data.length) (width : Nat) :
    Wire.slice data i (i + (width + 1)) =
      data.getD i 0 :: Wire.slice data (i + 1) (i + 1 + width) := by
  rw [Wire.slice, Wire.slice, List.drop_eq_getElem_cons h, Nat.add_sub_cancel_left,
    Nat.add_sub_cancel_left, List.take_succ_cons]
  simp [h]

theorem bytesAt_eq (h : t.Holds data) {offset first width : Nat}
    (hin : offset + first + width ≤ data.length) :
    t.bytesAt data offset first width =
      pure (Wire.slice data (offset + first) (offset + first + width)) := by
  induction width generalizing first with
  | zero => simp [bytesAt, Wire.slice]
  | succ width ih =>
      have hlt := h.lt
      have hbyte : offset + first < data.length := by omega
      rw [bytesAt, t.add_eq (by omega), pure_bind, index_eq hbyte 0, pure_bind, ih (by omega),
        pure_bind, slice_succ hbyte]
      rfl

theorem readU16_eq (h : t.Holds data) {offset first : Nat}
    (hin : offset + first + 2 ≤ data.length) :
    t.readU16 data offset first = pure (u16At data (offset + first)) := by
  rw [readU16, bytesAt_eq h hin, pure_bind, u16At]

theorem readU32_eq (h : t.Holds data) {offset first : Nat}
    (hin : offset + first + 4 ≤ data.length) :
    t.readU32 data offset first = pure (u32At data (offset + first)) := by
  rw [readU32, bytesAt_eq h hin, pure_bind, u32At]

theorem readU64_eq (h : t.Holds data) {offset first : Nat}
    (hin : offset + first + 8 ≤ data.length) :
    t.readU64 data offset first = pure (u64At data (offset + first)) := by
  rw [readU64, bytesAt_eq h hin, pure_bind, u64At]

end Machine.Target

section Bytes

variable {data : Bytes}

theorem index_byteAt {i : Nat} (h : i < data.length) : index data i = pure (byteAt data i) :=
  index_eq h 0

theorem range_slice {start stop : Nat} (hle : start ≤ stop) (h : stop ≤ data.length) :
    range data start stop = pure (slice data start stop) := range_eq hle h

end Bytes

open Target

/-! ## Samples -/

namespace Position

def optionalFieldOn (t : Target) (present : Bool) (ok : F32 → Bool) (data : Bytes)
    (offset : Nat) : Run (Option (Option F32 × Nat)) := do
  if present then
    if data.length < (← t.add offset 4) then return none
    let x ← t.readU32 data offset 0
    if ok x then return some (some x, ← t.add offset 4) else return none
  else return some (none, offset)

def decodeOn (t : Target) (data : Bytes) : Run (Option Position) := do
  if data.length < 9 then return none
  let latitude ← t.readU32 data 0 0
  let longitude ← t.readU32 data 0 4
  let flags ← index data 8
  if !F32.isFinite latitude || !F32.isFinite longitude then return none
  if !latitudeOk latitude then return none
  if !longitudeOk longitude then return none
  match ← optionalFieldOn t (flags &&& 0x01 != 0) altitudeOk data 9 with
  | none => return none
  | some (altitude, offset) =>
      match ← optionalFieldOn t (flags &&& 0x02 != 0) accuracyOk data offset with
      | none => return none
      | some (accuracy, _) => return some { latitude, longitude, altitude, accuracy }

variable {t : Target} {data : Bytes}

theorem optionalFieldOn_eq (h : t.Holds data) (present : Bool) (ok : F32 → Bool) {offset : Nat}
    (hoffset : offset ≤ data.length) :
    optionalFieldOn t present ok data offset = pure (optionalField present ok data offset) := by
  have hlimit := t.limit_ge
  have hhalf : 2 * data.length < t.limit := h
  unfold optionalFieldOn optionalField
  cases present with
  | false => rfl
  | true =>
      rw [if_pos rfl, if_pos rfl, t.add_eq (by omega), pure_bind]
      by_cases hlen : data.length < offset + 4
      · rw [if_pos hlen, if_pos hlen]
      · rw [if_neg hlen, if_neg hlen, readU32_eq h (by omega), pure_bind, Nat.add_zero]
        split
        · rw [pure_bind]
        · rfl

theorem offset_optionalField {present : Bool} {ok : F32 → Bool} {offset next : Nat}
    {field : Option F32} (hoffset : offset ≤ data.length)
    (h : optionalField present ok data offset = some (field, next)) : next ≤ data.length := by
  unfold optionalField at h
  split_ifs at h with hpresent hlen hok
  · obtain ⟨-, rfl⟩ := Prod.mk.inj (Option.some.inj h)
    omega
  · obtain ⟨-, rfl⟩ := Prod.mk.inj (Option.some.inj h)
    exact hoffset

theorem decodeOn_eq (h : t.Holds data) : decodeOn t data = pure (decode data) := by
  unfold decodeOn decode
  by_cases hlen : data.length < 9
  · simp only [if_pos hlen]
  · rw [if_neg hlen, if_neg hlen, readU32_eq h (by omega), pure_bind, readU32_eq h (by omega),
      pure_bind, index_byteAt (by omega), pure_bind]
    simp only [Nat.zero_add]
    split_ifs
    · rfl
    · rfl
    · rfl
    · rw [optionalFieldOn_eq h _ _ (by omega), pure_bind]
      cases haltitude : optionalField (byteAt data 8 &&& 0x01 != 0) altitudeOk data 9 with
      | none => rfl
      | some found =>
          obtain ⟨altitude, offset⟩ := found
          dsimp only [Option.bind_eq_bind, Option.bind_some]
          rw [optionalFieldOn_eq h _ _ (offset_optionalField (by omega) haltitude), pure_bind]
          cases optionalField (byteAt data 8 &&& 0x02 != 0) accuracyOk data offset with
          | none => rfl
          | some found => rfl

end Position

namespace HealthStatus

def decodeOn (data : Bytes) : Run (Option HealthStatus) := do
  if data.length < 4 then return none
  let batteryPercent ← index data 0
  let activity ← index data 1
  let alerts ← index data 2
  let heartRateRaw ← index data 3
  if batteryPercent > maxBatteryPercent then return none
  if activity > 3 then return none
  if heartRateRaw > 0 then
    if minHeartRate ≤ heartRateRaw ∧ heartRateRaw ≤ maxHeartRate then
      return some { batteryPercent, activity, alerts, heartRate := some heartRateRaw }
    else return none
  else return some { batteryPercent, activity, alerts, heartRate := none }

theorem decodeOn_eq (data : Bytes) : decodeOn data = pure (decode data) := by
  unfold decodeOn decode
  by_cases hlen : data.length < 4
  · simp only [if_pos hlen]
  · rw [if_neg hlen, if_neg hlen, index_byteAt (by omega), pure_bind, index_byteAt (by omega),
      pure_bind, index_byteAt (by omega), pure_bind, index_byteAt (by omega), pure_bind]
    dsimp only
    split_ifs <;> rfl

end HealthStatus

namespace PeripheralEvent

def decodeOn (t : Target) (data : Bytes) : Run (Option PeripheralEvent) := do
  if data.length < 9 then return none
  let eventType := EventType.fromU8 (← index data 0)
  let timestamp ← t.readU64 data 0 1
  if timestamp ≠ 0 ∧ timestamp < minValidTimestamp then return none
  return some { eventType, timestamp }

theorem decodeOn_eq {t : Target} {data : Bytes} (h : t.Holds data) :
    decodeOn t data = pure (decode data) := by
  unfold decodeOn decode
  by_cases hlen : data.length < 9
  · simp only [if_pos hlen]
  · rw [if_neg hlen, if_neg hlen, index_byteAt (by omega), pure_bind, readU64_eq h (by omega),
      pure_bind]
    simp only [Nat.zero_add]
    split_ifs <;> rfl

end PeripheralEvent

/-! ## Peripherals -/

namespace Peripheral

/-- The text is checked only where there is one. -/
def callsignOkOn (callsign : Vector UInt8 12) : Run Bool := do
  let len := callsignLen callsign
  if len > 0 then return isUtf8 (← range callsign.toList 0 len) else return true

/-- The event, if any, and the offset behind it. -/
def eventOn (t : Target) (data : Bytes) : Run (Option (Option PeripheralEvent × Nat)) := do
  if (← index data 25) != 0 then
    if data.length < 43 then return none
    return some (← PeripheralEvent.decodeOn t (← range data 26 35), 35)
  else return some (none, 26)

def decodeLocationOn (t : Target) (data : Bytes) (offset : Nat) : Run (Option Position) := do
  if data.length > offset then
    if (← index data offset) != 0 then
      let start ← t.add offset 1
      if data.length > start then Position.decodeOn t (← behind data start) else return none
    else return none
  else return none

/-- The timestamp and the location that follow the event. -/
def stampOn (t : Target) (data : Bytes) (timestampOffset : Nat) :
    Run (Option (UInt64 × Option Position)) := do
  if data.length < (← t.add timestampOffset 8) then return none
  let timestamp ← t.readU64 data timestampOffset 0
  if timestamp ≠ 0 ∧ timestamp < minValidTimestamp then return none
  return some (timestamp, ← decodeLocationOn t data (← t.add timestampOffset 8))

def decodeOn (t : Target) (data : Bytes) : Run (Option Peripheral) := do
  if data.length < 34 then return none
  let id ← t.readU32 data 0 0
  let parentNode ← t.readU32 data 0 4
  let peripheralType := PeripheralType.fromU8 (← index data 8)
  if id = 0 then return none
  let copied ← range data 9 21
  let callsign : Vector UInt8 12 := Vector.ofFn fun i => byteAt copied i
  if (← callsignOkOn callsign) = false then return none
  match ← HealthStatus.decodeOn (← range data 21 25) with
  | none => return none
  | some health =>
      match ← eventOn t data with
      | none => return none
      | some (lastEvent, timestampOffset) =>
          match ← stampOn t data timestampOffset with
          | none => return none
          | some (timestamp, location) =>
              return some
                { id, parentNode, peripheralType, callsign, health, lastEvent, location, timestamp }

variable {t : Target} {data : Bytes}

theorem callsignOkOn_eq (callsign : Vector UInt8 12) :
    callsignOkOn callsign = pure (!decide (callsignLen callsign > 0 ∧
      isUtf8 (callsign.toList.take (callsignLen callsign)) = false)) := by
  have hle : callsignLen callsign ≤ callsign.toList.length := List.findIdx_le_length
  unfold callsignOkOn
  dsimp only
  by_cases hlen : callsignLen callsign > 0
  · rw [if_pos hlen, range_eq (Nat.zero_le _) hle, pure_bind]
    simp [hlen]
  · rw [if_neg hlen]
    simp [hlen]

theorem eventOn_eq (h : t.Holds data) (hlen : 34 ≤ data.length) :
    eventOn t data =
      pure (if byteAt data 25 != 0 && decide (data.length < 43) then none
        else some (if byteAt data 25 != 0 then PeripheralEvent.decode (slice data 26 35) else none,
          if byteAt data 25 != 0 then 35 else 26)) := by
  unfold eventOn
  rw [index_byteAt (by omega), pure_bind]
  cases hevent : byteAt data 25 != 0 with
  | false => rfl
  | true =>
      rw [if_pos rfl]
      by_cases hshort : data.length < 43
      · simp [hshort]
      · rw [if_neg hshort, range_slice (by omega) (by omega), pure_bind,
          PeripheralEvent.decodeOn_eq (h.slice 26 35), pure_bind]
        simp [hshort]

theorem decodeLocationOn_eq (h : t.Holds data) (offset : Nat) :
    decodeLocationOn t data offset = pure (decodeLocation data offset) := by
  have hlt := h.lt
  unfold decodeLocationOn decodeLocation
  by_cases hlong : data.length > offset
  · rw [if_pos hlong, if_pos hlong, index_byteAt hlong, pure_bind]
    cases byteAt data offset != 0 with
    | false => rfl
    | true =>
        rw [if_pos rfl, t.add_eq (by omega), pure_bind]
        by_cases hmore : data.length > offset + 1
        · rw [if_pos hmore, behind_eq (by omega), pure_bind, Position.decodeOn_eq (h.drop _)]
          simp [hmore]
        · rw [if_neg hmore]
          simp [hmore]
  · rw [if_neg hlong, if_neg hlong]

theorem stampOn_eq (h : t.Holds data) {offset : Nat} (hoffset : offset ≤ data.length) :
    stampOn t data offset =
      pure (if data.length < offset + 8 then none
        else if u64At data offset ≠ 0 ∧ u64At data offset < minValidTimestamp then none
        else some (u64At data offset, decodeLocation data (offset + 8))) := by
  have hlimit := t.limit_ge
  have hhalf : 2 * data.length < t.limit := h
  have hend : t.add offset 8 = pure (offset + 8) := t.add_eq (by omega)
  unfold stampOn
  rw [hend, pure_bind]
  by_cases hlen : data.length < offset + 8
  · rw [if_pos hlen, if_pos hlen]
  · rw [if_neg hlen, if_neg hlen, readU64_eq h (by omega), pure_bind, Nat.add_zero]
    by_cases hold : u64At data offset ≠ 0 ∧ u64At data offset < minValidTimestamp
    · rw [if_pos hold, if_pos hold]
    · rw [if_neg hold, if_neg hold, pure_bind, decodeLocationOn_eq h, pure_bind]

theorem decodeOn_eq (h : t.Holds data) : decodeOn t data = pure (decode data) := by
  unfold decodeOn decode
  by_cases hlen : data.length < 34
  · simp only [if_pos hlen]
  · rw [if_neg hlen, if_neg hlen, readU32_eq h (by omega), pure_bind, readU32_eq h (by omega),
      pure_bind, index_byteAt (by omega), pure_bind]
    simp only [Nat.zero_add]
    by_cases hid : u32At data 0 = 0
    · rw [if_pos hid, if_pos hid]
    · rw [if_neg hid, if_neg hid, range_slice (by omega) (by omega), pure_bind, callsignOkOn_eq,
        pure_bind]
      by_cases hcallsign : callsignLen (Vector.ofFn fun i : Fin 12 => byteAt (slice data 9 21) i) > 0 ∧
          isUtf8 ((Vector.ofFn fun i : Fin 12 => byteAt (slice data 9 21) i).toList.take
            (callsignLen (Vector.ofFn fun i : Fin 12 => byteAt (slice data 9 21) i))) = false
      · rw [if_pos hcallsign, if_pos (by simp [hcallsign])]
      · rw [if_neg hcallsign, if_neg (by simp [hcallsign]), range_slice (by omega) (by omega),
          pure_bind, HealthStatus.decodeOn_eq, pure_bind]
        cases HealthStatus.decode (slice data 21 25) with
        | none => rfl
        | some health =>
            dsimp only [Option.bind_eq_bind, Option.bind_some]
            rw [eventOn_eq h (by omega), pure_bind]
            by_cases hshort : (byteAt data 25 != 0 && decide (data.length < 43)) = true
            · rw [if_pos hshort, if_pos hshort]
            · have hoffset : (if (byteAt data 25 != 0) = true then 35 else 26) ≤ data.length := by
                by_cases hevent : (byteAt data 25 != 0) = true
                · rw [if_pos hevent]
                  simp only [hevent, Bool.true_and, decide_eq_true_eq] at hshort
                  omega
                · rw [if_neg hevent]
                  omega
              rw [if_neg hshort, if_neg hshort]
              dsimp only
              rw [stampOn_eq h hoffset, pure_bind]
              split_ifs <;> rfl

end Peripheral

/-! ## Tables -/

section Tables

variable (t : Target)

/-- The loop over entries of a node and a count. -/
def readCountsOn (keep : UInt32 → Bool) (data : Bytes) :
    Nat → Nat → Map UInt32 UInt64 → Run (Map UInt32 UInt64)
  | 0, _, acc => pure acc
  | count + 1, offset, acc => do
      let node ← t.readU32 data offset 0
      let value ← t.readU64 data offset 4
      let next ← t.add offset 12
      readCountsOn keep data count next (MapMerge.insertIf keep acc (node, value))

/-- One entry of a node and a flag; the flag of node zero is not looked at. -/
def readAckOn (data : Bytes) (offset : Nat) (acc : Map UInt32 Bool) : Run (Map UInt32 Bool) := do
  let node ← t.readU32 data offset 0
  if node != 0 then return acc.insert node ((← index data (← t.add offset 4)) != 0)
  else return acc

def readAcksOn (data : Bytes) : Nat → Nat → Map UInt32 Bool → Run (Map UInt32 Bool)
  | 0, _, acc => pure acc
  | count + 1, offset, acc => do
      let after ← readAckOn t data offset acc
      let next ← t.add offset 5
      readAcksOn data count next after

variable {t} {data : Bytes}

theorem readCountsOn_eq (h : t.Holds data) (keep : UInt32 → Bool) {count offset : Nat}
    (acc : Map UInt32 UInt64) (hin : offset + count * 12 ≤ data.length) :
    readCountsOn t keep data count offset acc =
      pure (readEntries u64Codec keep data count offset acc) := by
  induction count generalizing offset acc with
  | zero => rfl
  | succ count ih =>
      have hlt := h.lt
      rw [readCountsOn, readU32_eq h (by omega), pure_bind, readU64_eq h (by omega), pure_bind,
        t.add_eq (by omega), pure_bind, ih _ (by omega)]
      rfl

theorem readAckOn_eq (h : t.Holds data) {offset : Nat} (acc : Map UInt32 Bool)
    (hin : offset + 5 ≤ data.length) :
    readAckOn t data offset acc =
      pure (MapMerge.insertIf (· != 0) acc (u32At data offset, byteAt data (offset + 4) != 0)) := by
  have hlt := h.lt
  unfold readAckOn MapMerge.insertIf
  rw [readU32_eq h (by omega), pure_bind, Nat.add_zero]
  dsimp only
  split
  · rw [t.add_eq (by omega), pure_bind, index_byteAt (by omega), pure_bind]
  · rfl

theorem readAcksOn_eq (h : t.Holds data) {count offset : Nat} (acc : Map UInt32 Bool)
    (hin : offset + count * 5 ≤ data.length) :
    readAcksOn t data count offset acc =
      pure (readEntries flagCodec (· != 0) data count offset acc) := by
  induction count generalizing offset acc with
  | zero => rfl
  | succ count ih =>
      have hlt := h.lt
      rw [readAcksOn, readAckOn_eq h _ (by omega), pure_bind, t.add_eq (by omega), pure_bind,
        ih _ (by omega)]
      rfl

end Tables

namespace GCounter

def decodeOn (t : Target) (data : Bytes) : Run (Option GCounter) := do
  if data.length < 4 then return none
  let numEntries := (← t.readU32 data 0 0).toNat
  if numEntries > maxCounterEntries then return none
  if data.length < (← t.add 4 (← t.mul numEntries 12)) then return none
  return some ⟨← readCountsOn t (· != 0) data numEntries 4 ∅⟩

theorem decodeOn_eq {t : Target} {data : Bytes} (h : t.Holds data) :
    decodeOn t data = pure (decode data) := by
  have hlimit := t.limit_ge
  unfold decodeOn decode
  by_cases hlen : data.length < 4
  · simp only [if_pos hlen]
  · rw [if_neg hlen, if_neg hlen, readU32_eq h (by omega), pure_bind, Nat.zero_add]
    dsimp only
    by_cases hmany : (u32At data 0).toNat > maxCounterEntries
    · rw [if_pos hmany, if_pos hmany]
    · have hcap : maxCounterEntries = 256 := rfl
      rw [if_neg hmany, if_neg hmany, t.mul_eq (by omega), pure_bind, t.add_eq (by omega),
        pure_bind]
      by_cases hshort : data.length < 4 + (u32At data 0).toNat * 12
      · rw [if_pos hshort, if_pos hshort]
      · rw [if_neg hshort, if_neg hshort, readCountsOn_eq h _ _ (by omega), pure_bind]

end GCounter

namespace EmergencyEvent

def decodeOn (t : Target) (data : Bytes) : Run (Option EmergencyEvent) := do
  if data.length < 16 then return none
  let sourceNode ← t.readU32 data 0 0
  let timestamp ← t.readU64 data 0 4
  let numAcks := (← t.readU32 data 0 12).toNat
  if sourceNode = 0 then return none
  if timestamp < minValidTimestamp then return none
  if numAcks > maxEmergencyAcks then return none
  if data.length < (← t.add 16 (← t.mul numAcks 5)) then return none
  return some { sourceNode, timestamp, acks := ← readAcksOn t data numAcks 16 ∅ }

theorem decodeOn_eq {t : Target} {data : Bytes} (h : t.Holds data) :
    decodeOn t data = pure (decode data) := by
  have hlimit := t.limit_ge
  have hcap : maxEmergencyAcks = 256 := rfl
  unfold decodeOn decode
  by_cases hlen : data.length < 16
  · simp only [if_pos hlen]
  · rw [if_neg hlen, if_neg hlen, readU32_eq h (by omega), pure_bind, readU64_eq h (by omega),
      pure_bind, readU32_eq h (by omega), pure_bind]
    simp only [Nat.zero_add]
    split_ifs with hsource htime hmany hshort
    · rfl
    · rfl
    · rfl
    · rw [t.mul_eq (by omega), pure_bind, t.add_eq (by omega), pure_bind, if_pos hshort]
    · rw [t.mul_eq (by omega), pure_bind, t.add_eq (by omega), pure_bind, if_neg hshort,
        readAcksOn_eq h _ (by omega), pure_bind]

end EmergencyEvent

namespace VectorClock

/-- The number of entries is not limited before it is multiplied. -/
def decodeOn (t : Target) (data : Bytes) : Run (Option VectorClock) := do
  if data.length < 4 then return none
  let count := (← t.readU32 data 0 0).toNat
  if data.length < (← t.add 4 (← t.mul count 12)) then return none
  return some ⟨← readCountsOn t (fun _ => true) data count 4 ∅⟩

/-- The announced table fits the word. -/
def TableFits (t : Target) (data : Bytes) : Prop :=
  4 ≤ data.length → 4 + (u32At data 0).toNat * 12 < t.limit

instance (t : Target) (data : Bytes) : Decidable (TableFits t data) :=
  inferInstanceAs (Decidable (_ → _))

variable {t : Target} {data : Bytes}

theorem decodeOn_eq (h : t.Holds data) (hfits : TableFits t data) :
    decodeOn t data = pure (decode data) := by
  unfold decodeOn decode
  by_cases hlen : data.length < 4
  · simp only [if_pos hlen]
  · have htable := hfits (by omega)
    rw [if_neg hlen, if_neg hlen, readU32_eq h (by omega), pure_bind, Nat.zero_add]
    dsimp only
    rw [t.mul_eq (by omega), pure_bind, t.add_eq htable, pure_bind]
    by_cases hshort : data.length < 4 + (u32At data 0).toNat * 12
    · rw [if_pos hshort, if_pos hshort]
    · rw [if_neg hshort, if_neg hshort, readCountsOn_eq h _ _ (by omega), pure_bind]

theorem safe_decodeOn_iff (h : t.Holds data) : (decodeOn t data).Safe ↔ TableFits t data := by
  constructor
  · intro hsafe hlen
    by_contra hbig
    revert hsafe
    unfold decodeOn
    rw [if_neg (by omega), readU32_eq h (by omega), pure_bind, Nat.zero_add]
    dsimp only
    by_cases hproduct : (u32At data 0).toNat * 12 < t.limit
    · rw [t.mul_eq hproduct, pure_bind]
      exact Run.not_safe_bind (t.overflowed_add (Nat.not_lt.mp hbig)) _
    · exact Run.not_safe_bind (t.overflowed_mul (Nat.not_lt.mp hproduct)) _
  · intro hfits
    rw [decodeOn_eq h hfits]
    exact Run.safe_pure _

end VectorClock

end PeatBtle
