import PeatBtle.Sync.Crdt.Sensor

/-!
# Peripherals

The record a node publishes about the device attached to it. A malformed health
sample, callsign or timestamp rejects the record; a malformed event or location
is dropped and the rest is kept.
-/

namespace PeatBtle

open Wire

structure Peripheral where
  id : UInt32
  parentNode : UInt32
  peripheralType : PeripheralType
  callsign : Vector UInt8 12
  health : HealthStatus
  lastEvent : Option PeripheralEvent
  location : Option Position
  timestamp : UInt64
deriving DecidableEq

namespace Peripheral

def new (id : UInt32) (kind : PeripheralType) : Peripheral where
  id := id
  parentNode := 0
  peripheralType := kind
  callsign := Vector.replicate 12 0
  health := HealthStatus.default
  lastEvent := none
  location := none
  timestamp := 0

/-- The first twelve bytes of the text; positions behind a shorter text keep `old`. -/
def copyCallsign (old : Vector UInt8 12) (callsign : String) : Vector UInt8 12 :=
  Vector.ofFn fun i => (utf8 callsign).getD i (old.get i)

def withCallsign (p : Peripheral) (callsign : String) : Peripheral :=
  { p with callsign := copyCallsign p.callsign callsign }

def setCallsign (p : Peripheral) (callsign : String) : Peripheral :=
  { p with callsign := copyCallsign (Vector.replicate 12 0) callsign }

/-- Number of bytes before the first NUL. -/
def callsignLen (callsign : Vector UInt8 12) : Nat := callsign.toList.findIdx (· == 0)

def callsignStr (p : Peripheral) : String :=
  (fromUtf8 (p.callsign.toList.take (callsignLen p.callsign))).getD ""

def setLocation (p : Peripheral) (latitude longitude : F32) (altitude : Option F32) : Peripheral :=
  let pos := Position.new latitude longitude
  { p with location := some (altitude.elim pos pos.withAltitude) }

def clearLocation (p : Peripheral) : Peripheral := { p with location := none }

def setEvent (p : Peripheral) (eventType : EventType) (timestamp : UInt64) : Peripheral :=
  { p with lastEvent := some ⟨eventType, timestamp⟩, timestamp := timestamp }

def clearEvent (p : Peripheral) : Peripheral := { p with lastEvent := none }

/-! ## Wire format -/

def eventBytes : Option PeripheralEvent → Bytes
  | none => [0]
  | some event => 1 :: event.encode

def locationBytes : Option Position → Bytes
  | none => [0]
  | some location => 1 :: location.encode

/-- Everything before the event flag: 25 bytes. -/
def fixedBytes (p : Peripheral) : Bytes :=
  u32ToLe p.id ++ (u32ToLe p.parentNode ++ (p.peripheralType.toU8 ::
    (p.callsign.toList ++ p.health.encode)))

def encode (p : Peripheral) : Bytes :=
  p.fixedBytes ++ (eventBytes p.lastEvent ++ (u64ToLe p.timestamp ++ locationBytes p.location))

/-- A missing flag byte reads as "no location". -/
def decodeLocation (data : Bytes) (offset : Nat) : Option Position :=
  if data.length > offset then
    if byteAt data offset != 0 && decide (data.length > offset + 1) then
      Position.decode (data.drop (offset + 1))
    else none
  else none

def decode (data : Bytes) : Option Peripheral :=
  if data.length < 34 then none
  else
    let id := u32At data 0
    let parentNode := u32At data 4
    let peripheralType := PeripheralType.fromU8 (byteAt data 8)
    if id = 0 then none
    else
      let callsign : Vector UInt8 12 := Vector.ofFn fun i => byteAt (slice data 9 21) i
      let len := callsignLen callsign
      if len > 0 ∧ isUtf8 (callsign.toList.take len) = false then none
      else do
        let health ← HealthStatus.decode (slice data 21 25)
        let hasEvent := byteAt data 25 != 0
        if hasEvent && decide (data.length < 43) then none
        else
          let lastEvent := if hasEvent then PeripheralEvent.decode (slice data 26 35) else none
          let timestampOffset := if hasEvent then 35 else 26
          if data.length < timestampOffset + 8 then none
          else
            let timestamp := u64At data timestampOffset
            if timestamp ≠ 0 ∧ timestamp < minValidTimestamp then none
            else
              let location := decodeLocation data (timestampOffset + 8)
              some { id, parentNode, peripheralType, callsign, health, lastEvent, location, timestamp }

/-- The checks of `decode`, field by field. -/
structure Valid (p : Peripheral) : Prop where
  id_ne_zero : p.id ≠ 0
  callsign_utf8 : isUtf8 (p.callsign.toList.take (callsignLen p.callsign)) = true
  health_valid : p.health.Valid
  event_valid : ∀ event, p.lastEvent = some event → event.Valid
  location_valid : ∀ location, p.location = some location → location.Valid
  timestamp_ok : timestampOk p.timestamp

/-! ## Round trip -/

@[simp] theorem fixedBytes_length (p : Peripheral) : p.fixedBytes.length = 25 := by
  simp [fixedBytes]

theorem eventBytes_length (event : Option PeripheralEvent) :
    (eventBytes event).length = if event.isSome then 10 else 1 := by
  cases event <;> simp [eventBytes]

theorem encode_length_le (p : Peripheral) : p.encode.length ≤ 61 := by
  have hevent := eventBytes_length p.lastEvent
  have hlocation : (locationBytes p.location).length ≤ 18 := by
    rcases p.location with - | ⟨lat, lon, alt, acc⟩
    · simp [locationBytes]
    · cases alt <;> cases acc <;> simp [locationBytes, Position.encode]
  simp only [encode, List.length_append, fixedBytes_length, u64ToLe_length]
  split at hevent <;> omega

section FixedReads

variable (p : Peripheral) (rest : Bytes)

private theorem id_read : u32At (p.fixedBytes ++ rest) 0 = p.id := by
  rw [fixedBytes, List.append_assoc, u32At_toLe]

private theorem parent_read : u32At (p.fixedBytes ++ rest) 4 = p.parentNode := by
  rw [fixedBytes, List.append_assoc, u32At_skip (by simp), u32ToLe_length, Nat.sub_self,
    List.append_assoc, u32At_toLe]

private theorem type_read : byteAt (p.fixedBytes ++ rest) 8 = p.peripheralType.toU8 := by
  rw [fixedBytes, List.append_assoc, byteAt_skip (by simp), u32ToLe_length, List.append_assoc,
    byteAt_skip (by simp), u32ToLe_length]
  rfl

private theorem callsign_read : slice (p.fixedBytes ++ rest) 9 21 = p.callsign.toList := by
  rw [fixedBytes, List.append_assoc, slice_skip (by simp), u32ToLe_length, List.append_assoc,
    slice_skip (by simp), u32ToLe_length, List.cons_append, List.append_assoc]
  exact (slice_cons_succ ..).trans (slice_append_left (by simp))

private theorem health_read : slice (p.fixedBytes ++ rest) 21 25 = p.health.encode := by
  rw [fixedBytes, List.append_assoc, slice_skip (by simp), u32ToLe_length, List.append_assoc,
    slice_skip (by simp), u32ToLe_length, List.cons_append, List.append_assoc]
  refine (slice_cons_succ ..).trans ?_
  rw [slice_skip (by simp), Vector.length_toList]
  exact slice_append_left rfl

end FixedReads

private theorem decodeLocation_locationBytes {location : Option Position}
    (h : ∀ value, location = some value → value.Valid) (front : Bytes) :
    decodeLocation (front ++ locationBytes location) front.length = location := by
  have hflag : ∀ byte tail, byteAt (front ++ byte :: tail) front.length = byte := by
    intro byte tail
    rw [byteAt_skip (Nat.le_refl _), Nat.sub_self, byteAt_cons_zero]
  cases location with
  | none => simp [decodeLocation, locationBytes, hflag]
  | some value =>
      have hpos : 0 < value.encode.length := by
        simp only [Position.encode, List.length_append, u32ToLe_length]
        omega
      have hdrop : (front ++ 1 :: value.encode).drop (front.length + 1) = value.encode := by
        rw [List.drop_append, List.drop_eq_nil_of_le (by omega), Nat.add_sub_cancel_left]
        rfl
      simp [decodeLocation, locationBytes, hflag, hdrop, hpos,
        Position.decode_encode (h value rfl)]

/-- Where the timestamp starts, given whether an event precedes it. -/
private theorem timestampOffset_eq (event : Option PeripheralEvent) :
    (if event.isSome then 35 else 26) = 25 + (eventBytes event).length := by
  cases event <;> simp [eventBytes]

private theorem event_read {p : Peripheral} (h : ∀ event, p.lastEvent = some event → event.Valid) :
    (if p.lastEvent.isSome then PeripheralEvent.decode (slice p.encode 26 35) else none) =
      p.lastEvent := by
  cases hevent : p.lastEvent with
  | none => rfl
  | some event =>
      have hread : slice p.encode 26 35 = event.encode := by
        rw [encode, slice_skip (by simp), fixedBytes_length, hevent]
        exact (slice_cons_succ ..).trans (slice_append_left (by simp))
      rw [hread, PeripheralEvent.decode_encode (h event hevent)]
      rfl

theorem decode_encode {p : Peripheral} (h : p.Valid) : decode p.encode = some p := by
  have hid : u32At p.encode 0 = p.id := id_read ..
  have hparent : u32At p.encode 4 = p.parentNode := parent_read ..
  have htype : byteAt p.encode 8 = p.peripheralType.toU8 := type_read ..
  have hcallsign : slice p.encode 9 21 = p.callsign.toList := callsign_read ..
  have hhealth : slice p.encode 21 25 = p.health.encode := health_read ..
  have htime : ¬ (p.timestamp ≠ 0 ∧ p.timestamp < minValidTimestamp) := by
    rintro ⟨hne, hlt⟩
    rcases h.timestamp_ok with hzero | hge
    · exact hne hzero
    · exact UInt64.not_lt.mpr hge hlt
  have hflag : (byteAt p.encode 25 != 0) = p.lastEvent.isSome := by
    rw [encode, byteAt_skip (by simp), fixedBytes_length, Nat.sub_self]
    cases p.lastEvent <;> rfl
  have htimestamp : u64At p.encode (25 + (eventBytes p.lastEvent).length) = p.timestamp := by
    rw [encode, u64At_skip (by simp), fixedBytes_length, Nat.add_sub_cancel_left,
      u64At_skip (Nat.le_refl _), Nat.sub_self, u64At_toLe]
  have hlocation : decodeLocation p.encode (25 + (eventBytes p.lastEvent).length + 8) =
      p.location := by
    have hread := decodeLocation_locationBytes h.location_valid
      (p.fixedBytes ++ (eventBytes p.lastEvent ++ u64ToLe p.timestamp))
    simpa only [encode, List.append_assoc, List.length_append, fixedBytes_length, u64ToLe_length,
      ← Nat.add_assoc] using hread
  have hlength : p.encode.length =
      25 + (eventBytes p.lastEvent).length + 8 + (locationBytes p.location).length := by
    simp only [encode, List.length_append, fixedBytes_length, u64ToLe_length]
    omega
  have hevent := eventBytes_length p.lastEvent
  have hshort : ¬ p.encode.length < 34 := by
    split at hevent <;> omega
  have hfull : (p.lastEvent.isSome && decide (p.encode.length < 43)) = false := by
    cases hsome : p.lastEvent.isSome with
    | false => rfl
    | true =>
        rw [hsome, if_pos rfl] at hevent
        simp
        omega
  have htail : ¬ p.encode.length < 25 + (eventBytes p.lastEvent).length + 8 := by omega
  unfold decode
  simp only [hid, h.id_ne_zero, hparent, htype, hcallsign, ofFn_byteAt, h.callsign_utf8, hhealth,
    HealthStatus.decode_encode h.health_valid, hflag, PeripheralType.fromU8_toU8, hshort, hfull,
    timestampOffset_eq, htail, htimestamp, htime, hlocation, event_read h.event_valid, if_false,
    Bool.true_eq_false, Bool.false_eq_true, and_false, Option.bind_eq_bind, Option.bind_some]

/-! ## What is accepted -/

theorem valid_of_decodeLocation {data : Bytes} {offset : Nat} {location : Position}
    (h : decodeLocation data offset = some location) : location.Valid := by
  unfold decodeLocation at h
  split_ifs at h
  exact Position.valid_of_decode h

theorem valid_of_decode {data : Bytes} {p : Peripheral} (h : decode data = some p) : p.Valid := by
  unfold decode at h
  dsimp only at h
  split at h
  · cases h
  split at h
  · cases h
  rename_i hid
  split at h
  · cases h
  rename_i hcallsign
  obtain ⟨health, hhealth, h⟩ := Option.bind_eq_some_iff.mp h
  generalize hlast : (if (byteAt data 25 != 0) = true then
    PeripheralEvent.decode (slice data 26 35) else none) = lastEvent at h
  generalize (if (byteAt data 25 != 0) = true then 35 else 26) = timestampOffset at h
  split at h
  · cases h
  split at h
  · cases h
  split at h
  · cases h
  rename_i htime
  obtain rfl := Option.some.inj h
  refine ⟨hid, ?_, HealthStatus.valid_of_decode hhealth, ?_, ?_, timestampOk_of_not htime⟩
  · dsimp only
    generalize (Vector.ofFn fun i : Fin 12 => byteAt (slice data 9 21) i) = callsign at hcallsign ⊢
    by_cases hlen : callsignLen callsign > 0
    · by_contra hinvalid
      exact hcallsign ⟨hlen, Bool.not_eq_true _ ▸ hinvalid⟩
    · rw [Nat.eq_zero_of_not_pos hlen, List.take_zero]
      decide
  · rintro event rfl
    split at hlast
    · exact PeripheralEvent.valid_of_decode hlast
    · cases hlast
  · intro location hlocation
    exact valid_of_decodeLocation hlocation

end Peripheral

end PeatBtle
