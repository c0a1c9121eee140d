import PeatBtle.Basic

/-!
# Sensor records

Positions, health samples and peripheral events. Each decoder checks the ranges
of the fields it reads; `Valid` collects those checks for a value, and a valid
value survives its own encoding.

Floats are 32-bit patterns. Only classification and order are needed, and both
are read off the sign and the magnitude bits.
-/

namespace PeatBtle

open Wire

def minValidTimestamp : UInt64 := 1577836800000
def maxBatteryPercent : UInt8 := 100
def minHeartRate : UInt8 := 20
def maxHeartRate : UInt8 := 250

/-! ## Binary32 bit patterns -/

abbrev F32 := UInt32

namespace F32

def magnitude (x : F32) : Nat := x.toNat % 2 ^ 31

def isNegative (x : F32) : Bool := 2 ^ 31 ≤ x.toNat

/-- The exponent field is not all ones. -/
def isFinite (x : F32) : Bool := magnitude x < 0x7F800000

def isNan (x : F32) : Bool := 0x7F800000 < magnitude x

/-- Order of the represented values; both zeros have rank zero. -/
def rank (x : F32) : Int := if isNegative x then -(magnitude x : Int) else magnitude x

def le (x y : F32) : Bool := !isNan x && !isNan y && decide (rank x ≤ rank y)

def lt (x y : F32) : Bool := !isNan x && !isNan y && decide (rank x < rank y)

/-- Membership in the closed range `low..=high`. -/
def within (low high x : F32) : Bool := le low x && le x high

end F32

/-! ## Positions -/

structure Position where
  latitude : F32
  longitude : F32
  altitude : Option F32
  accuracy : Option F32
deriving DecidableEq, Repr

namespace Position

def new (latitude longitude : F32) : Position := ⟨latitude, longitude, none, none⟩

def withAltitude (p : Position) (altitude : F32) : Position := { p with altitude := some altitude }

def withAccuracy (p : Position) (accuracy : F32) : Position := { p with accuracy := some accuracy }

/-- Bit 0: altitude present; bit 1: accuracy present. -/
def flags (p : Position) : UInt8 :=
  (if p.altitude.isSome then 0x01 else 0) ||| (if p.accuracy.isSome then 0x02 else 0)

def encode (p : Position) : Bytes :=
  u32ToLe p.latitude ++ (u32ToLe p.longitude ++ (p.flags ::
    (p.altitude.elim [] u32ToLe ++ p.accuracy.elim [] u32ToLe)))

/-- `-90.0..=90.0` -/
def latitudeOk (x : F32) : Bool := F32.within 0xC2B40000 0x42B40000 x

/-- `-180.0..=180.0` -/
def longitudeOk (x : F32) : Bool := F32.within 0xC3340000 0x43340000 x

/-- Finite and in `-1000.0..=100000.0`. -/
def altitudeOk (x : F32) : Bool := F32.isFinite x && F32.within 0xC47A0000 0x47C35000 x

/-- Finite and not below `0.0`. -/
def accuracyOk (x : F32) : Bool := F32.isFinite x && !F32.lt x 0

/-- An optional trailing field: its value and the offset behind it. -/
def optionalField (present : Bool) (ok : F32 → Bool) (data : Bytes) (offset : Nat) :
    Option (Option F32 × Nat) :=
  if present then
    if data.length < offset + 4 then none
    else if ok (u32At data offset) then some (some (u32At data offset), offset + 4)
    else none
  else some (none, offset)

def decode (data : Bytes) : Option Position :=
  if data.length < 9 then none
  else
    let latitude := u32At data 0
    let longitude := u32At data 4
    let flags := byteAt data 8
    if !F32.isFinite latitude || !F32.isFinite longitude then none
    else if !latitudeOk latitude then none
    else if !longitudeOk longitude then none
    else do
      let (altitude, offset) ← optionalField (flags &&& 0x01 != 0) altitudeOk data 9
      let (accuracy, _) ← optionalField (flags &&& 0x02 != 0) accuracyOk data offset
      some { latitude, longitude, altitude, accuracy }

structure Valid (p : Position) : Prop where
  latitude_finite : F32.isFinite p.latitude = true
  longitude_finite : F32.isFinite p.longitude = true
  latitude_ok : latitudeOk p.latitude = true
  longitude_ok : longitudeOk p.longitude = true
  altitude_ok : ∀ x, p.altitude = some x → altitudeOk x = true
  accuracy_ok : ∀ x, p.accuracy = some x → accuracyOk x = true

/-- A present field is read where it was written; an absent one takes no room. -/
private theorem optionalField_elim (ok : F32 → Bool) (field : Option F32) (front rest : Bytes) :
    optionalField field.isSome ok (front ++ (field.elim [] u32ToLe ++ rest)) front.length =
      if field.all ok then some (field, front.length + (field.elim [] u32ToLe).length) else none := by
  cases field with
  | none => rfl
  | some x =>
      have hread : u32At (front ++ (u32ToLe x ++ rest)) front.length = x := by
        rw [u32At_skip (Nat.le_refl _), Nat.sub_self, u32At_toLe]
      have hlen : ¬ (front ++ (u32ToLe x ++ rest)).length < front.length + 4 := by
        simp only [List.length_append, u32ToLe_length]
        omega
      simp only [optionalField, Option.isSome_some, if_true, Option.elim_some, Option.all_some, hread,
        u32ToLe_length]
      rw [if_neg hlen]

private theorem flags_altitude (p : Position) : (p.flags &&& 0x01 != 0) = p.altitude.isSome := by
  unfold flags
  cases p.altitude.isSome <;> cases p.accuracy.isSome <;> rfl

private theorem flags_accuracy (p : Position) : (p.flags &&& 0x02 != 0) = p.accuracy.isSome := by
  unfold flags
  cases p.altitude.isSome <;> cases p.accuracy.isSome <;> rfl

private theorem decode_encode_eq (p : Position) :
    decode p.encode =
      if !F32.isFinite p.latitude || !F32.isFinite p.longitude then none
      else if !latitudeOk p.latitude then none
      else if !longitudeOk p.longitude then none
      else if p.altitude.all altitudeOk && p.accuracy.all accuracyOk then some p
      else none := by
  let front : Bytes := u32ToLe p.latitude ++ (u32ToLe p.longitude ++ [p.flags])
  have hshape : p.encode = front ++ (p.altitude.elim [] u32ToLe ++ p.accuracy.elim [] u32ToLe) := by
    simp [encode, front]
  have hfront : front.length = 9 := by simp [front]
  have hlat : u32At p.encode 0 = p.latitude := by simp [encode]
  have hlon : u32At p.encode 4 = p.longitude := by
    rw [encode, u32At_skip (by simp), u32ToLe_length, Nat.sub_self, u32At_toLe]
  have hflags : byteAt p.encode 8 = p.flags := by
    rw [encode, byteAt_skip (by simp), byteAt_skip (by simp)]
    simp
  have halt := optionalField_elim altitudeOk p.altitude front (p.accuracy.elim [] u32ToLe)
  have hacc := optionalField_elim accuracyOk p.accuracy (front ++ p.altitude.elim [] u32ToLe) []
  rw [hfront, ← hshape] at halt
  rw [List.append_nil, List.append_assoc, ← hshape, List.length_append, hfront] at hacc
  have hlen : ¬ p.encode.length < 9 := by
    rw [hshape, List.length_append, hfront]
    omega
  unfold decode
  rw [if_neg hlen]
  simp only [hlat, hlon, hflags, flags_altitude, flags_accuracy, halt, Option.bind_eq_bind]
  cases p.altitude.all altitudeOk with
  | false => rfl
  | true =>
      simp only [if_true, Option.bind_some, hacc, Bool.true_and]
      cases p.accuracy.all accuracyOk <;> rfl

theorem decode_encode {p : Position} (h : p.Valid) : decode p.encode = some p := by
  have haltitude : p.altitude.all altitudeOk = true := (Option.all_eq_true _ _).mpr h.altitude_ok
  have haccuracy : p.accuracy.all accuracyOk = true := (Option.all_eq_true _ _).mpr h.accuracy_ok
  rw [decode_encode_eq]
  simp only [h.latitude_finite, h.longitude_finite, h.latitude_ok, h.longitude_ok, haltitude,
    haccuracy, Bool.not_true, Bool.or_self, Bool.and_self, Bool.false_eq_true, if_false, if_true]

/-- Nothing is read differently. -/
theorem eq_of_decode_encode {p q : Position} (h : decode p.encode = some q) : q = p := by
  rw [decode_encode_eq] at h
  split_ifs at h
  exact (Option.some.inj h).symm

theorem optionalField_ok {present : Bool} {ok : F32 → Bool} {data : Bytes} {offset next : Nat}
    {field : Option F32} (h : optionalField present ok data offset = some (field, next)) :
    ∀ x, field = some x → ok x = true := by
  unfold optionalField at h
  split_ifs at h with hpresent hshort hok
  · obtain ⟨rfl, -⟩ := Prod.mk.inj (Option.some.inj h)
    rintro x ⟨⟩
    exact hok
  · obtain ⟨rfl, -⟩ := Prod.mk.inj (Option.some.inj h)
    rintro x ⟨⟩

theorem valid_of_decode {data : Bytes} {p : Position} (h : decode data = some p) : p.Valid := by
  unfold decode at h
  dsimp only at h
  split_ifs at h with hshort hfinite hlatitude hlongitude
  obtain ⟨⟨altitude, offset⟩, haltitude, h⟩ := Option.bind_eq_some_iff.mp h
  obtain ⟨⟨accuracy, next⟩, haccuracy, h⟩ := Option.bind_eq_some_iff.mp h
  obtain rfl := Option.some.inj h
  simp only [Bool.or_eq_true, Bool.not_eq_true', not_or, Bool.not_eq_false] at hfinite
  simp only [Bool.not_eq_true', Bool.not_eq_false] at hlatitude hlongitude
  exact ⟨hfinite.1, hfinite.2, hlatitude, hlongitude, optionalField_ok haltitude,
    optionalField_ok haccuracy⟩

theorem optionalField_room {present : Bool} {ok : F32 → Bool} {data : Bytes} {offset next : Nat}
    {field : Option F32} (h : optionalField present ok data offset = some (field, next))
    (hoffset : offset ≤ data.length) :
    next = offset + (field.elim [] u32ToLe).length ∧ next ≤ data.length := by
  unfold optionalField at h
  split_ifs at h with hpresent hshort hok
  · obtain ⟨rfl, rfl⟩ := Prod.mk.inj (Option.some.inj h)
    exact ⟨by simp, Nat.not_lt.mp hshort⟩
  · obtain ⟨rfl, rfl⟩ := Prod.mk.inj (Option.some.inj h)
    exact ⟨rfl, hoffset⟩

/-- A position takes no more room than the bytes that it was read from. -/
theorem encode_length_le_of_decode {data : Bytes} {p : Position} (h : decode data = some p) :
    p.encode.length ≤ data.length := by
  unfold decode at h
  dsimp only at h
  split_ifs at h with hshort
  obtain ⟨⟨altitude, offset⟩, haltitude, h⟩ := Option.bind_eq_some_iff.mp h
  obtain ⟨⟨accuracy, next⟩, haccuracy, h⟩ := Option.bind_eq_some_iff.mp h
  obtain rfl := Option.some.inj h
  obtain ⟨hoffset, hbound⟩ := optionalField_room haltitude (Nat.not_lt.mp hshort)
  obtain ⟨hnext, hend⟩ := optionalField_room haccuracy hbound
  simp only [encode, List.length_append, List.length_cons, u32ToLe_length]
  omega

end Position

/-! ## Health -/

structure HealthStatus where
  batteryPercent : UInt8
  heartRate : Option UInt8
  activity : UInt8
  alerts : UInt8
deriving DecidableEq, Repr

namespace HealthStatus

def new (batteryPercent : UInt8) : HealthStatus := ⟨batteryPercent, none, 0, 0⟩

def default : HealthStatus := ⟨0, none, 0, 0⟩

/-- A heart rate of zero stands for an absent one. -/
def encode (s : HealthStatus) : Bytes :=
  [s.batteryPercent, s.activity, s.alerts, s.heartRate.getD 0]

def decode (data : Bytes) : Option HealthStatus :=
  if data.length < 4 then none
  else
    let batteryPercent := byteAt data 0
    let activity := byteAt data 1
    let alerts := byteAt data 2
    let heartRateRaw := byteAt data 3
    if batteryPercent > maxBatteryPercent then none
    else if activity > 3 then none
    else if heartRateRaw > 0 then
      if minHeartRate ≤ heartRateRaw ∧ heartRateRaw ≤ maxHeartRate then
        some { batteryPercent, activity, alerts, heartRate := some heartRateRaw }
      else none
    else some { batteryPercent, activity, alerts, heartRate := none }

structure Valid (s : HealthStatus) : Prop where
  battery_le : s.batteryPercent ≤ maxBatteryPercent
  activity_le : s.activity ≤ 3
  heart_rate_ok : ∀ rate, s.heartRate = some rate → minHeartRate ≤ rate ∧ rate ≤ maxHeartRate

@[simp] theorem encode_length (s : HealthStatus) : s.encode.length = 4 := rfl

theorem decode_encode {s : HealthStatus} (h : s.Valid) : decode s.encode = some s := by
  obtain ⟨battery, rate, activity, alerts⟩ := s
  have hbattery : ¬ battery > maxBatteryPercent := UInt8.not_lt.mpr h.battery_le
  have hactivity : ¬ activity > 3 := UInt8.not_lt.mpr h.activity_le
  cases rate with
  | none => simp [decode, encode, byteAt, hbattery, hactivity]
  | some rate =>
      have hrate := h.heart_rate_ok rate rfl
      have hpos : rate > 0 := UInt8.lt_of_lt_of_le (by decide : (0 : UInt8) < minHeartRate) hrate.1
      simp [decode, encode, byteAt, hbattery, hactivity, hpos, hrate]

theorem valid_of_decode {data : Bytes} {s : HealthStatus} (h : decode data = some s) : s.Valid := by
  unfold decode at h
  dsimp only at h
  split_ifs at h with hshort hbattery hactivity hrate hrange
  · obtain rfl := Option.some.inj h
    refine ⟨UInt8.not_lt.mp hbattery, UInt8.not_lt.mp hactivity, ?_⟩
    rintro rate ⟨⟩
    exact hrange
  · obtain rfl := Option.some.inj h
    refine ⟨UInt8.not_lt.mp hbattery, UInt8.not_lt.mp hactivity, ?_⟩
    rintro rate ⟨⟩

theorem encode_length_le_of_decode {data : Bytes} {s : HealthStatus} (h : decode data = some s) :
    s.encode.length ≤ data.length := by
  unfold decode at h
  split_ifs at h with hshort
  · exact Nat.not_lt.mp hshort

end HealthStatus

/-! ## Peripheral kinds and events -/

inductive PeripheralType where
  | unknown
  | soldierSensor
  | fixedSensor
  | relay
deriving DecidableEq, Repr

namespace PeripheralType

def toU8 : PeripheralType → UInt8
  | unknown => 0
  | soldierSensor => 1
  | fixedSensor => 2
  | relay => 3

def fromU8 (v : UInt8) : PeripheralType :=
  if v = 1 then soldierSensor else if v = 2 then fixedSensor else if v = 3 then relay else unknown

@[simp] theorem fromU8_toU8 (kind : PeripheralType) : fromU8 kind.toU8 = kind := by
  cases kind <;> rfl

end PeripheralType

inductive EventType where
  | none
  | ping
  | needAssist
  | emergency
  | moving
  | inPosition
  | ack
deriving DecidableEq, Repr

namespace EventType

def toU8 : EventType → UInt8
  | none => 0
  | ping => 1
  | needAssist => 2
  | emergency => 3
  | moving => 4
  | inPosition => 5
  | ack => 6

def fromU8 (v : UInt8) : EventType :=
  if v = 1 then ping else if v = 2 then needAssist else if v = 3 then emergency
  else if v = 4 then moving else if v = 5 then inPosition else if v = 6 then ack else none

@[simp] theorem fromU8_toU8 (kind : EventType) : fromU8 kind.toU8 = kind := by
  cases kind <;> rfl

end EventType

/-- Zero means "not set"; anything else must not predate 2020. -/
def timestampOk (timestamp : UInt64) : Prop := timestamp = 0 ∨ minValidTimestamp ≤ timestamp

instance (timestamp : UInt64) : Decidable (timestampOk timestamp) :=
  inferInstanceAs (Decidable (_ ∨ _))

theorem timestampOk_of_not {timestamp : UInt64}
    (h : ¬ (timestamp ≠ 0 ∧ timestamp < minValidTimestamp)) : timestampOk timestamp := by
  by_cases hzero : timestamp = 0
  · exact Or.inl hzero
  · exact Or.inr (UInt64.not_lt.mp fun hlt => h ⟨hzero, hlt⟩)

structure PeripheralEvent where
  eventType : EventType
  timestamp : UInt64
deriving DecidableEq, Repr

namespace PeripheralEvent

def encode (e : PeripheralEvent) : Bytes := e.eventType.toU8 :: u64ToLe e.timestamp

def decode (data : Bytes) : Option PeripheralEvent :=
  if data.length < 9 then none
  else
    let eventType := EventType.fromU8 (byteAt data 0)
    let timestamp := u64At data 1
    if timestamp ≠ 0 ∧ timestamp < minValidTimestamp then none
    else some { eventType, timestamp }

def Valid (e : PeripheralEvent) : Prop := timestampOk e.timestamp

@[simp] theorem encode_length (e : PeripheralEvent) : e.encode.length = 9 := by simp [encode]

theorem decode_encode {e : PeripheralEvent} (h : e.Valid) : decode e.encode = some e := by
  have htime : u64At e.encode 1 = e.timestamp := by
    simpa [encode] using u64At_toLe e.timestamp []
  have hok : ¬ (e.timestamp ≠ 0 ∧ e.timestamp < minValidTimestamp) := by
    rintro ⟨hne, hlt⟩
    rcases h with hzero | hge
    · exact hne hzero
    · exact UInt64.not_lt.mpr hge hlt
  simp only [decode, encode_length, htime, if_neg hok]
  simp [encode]

theorem valid_of_decode {data : Bytes} {e : PeripheralEvent} (h : decode data = some e) :
    e.Valid := by
  unfold decode at h
  dsimp only at h
  split_ifs at h with hshort htime
  obtain rfl := Option.some.inj h
  exact timestampOk_of_not htime

end PeripheralEvent

end PeatBtle
