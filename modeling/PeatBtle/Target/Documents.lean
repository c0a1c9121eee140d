import PeatBtle.Target.Crdt
import PeatBtle.Relay
import PeatBtle.Sync.DeltaDocument

/-!
# Reading documents and envelopes on a target

The length of a relayed payload and the size of a vector clock come from the
wire with 32 bits and are added to an offset before they are compared with what
is there. The documents' own lengths have at most 16 bits, and the section loop
moves on with every round.
-/

namespace PeatBtle

open Wire Machine Target

/-! ## Relay envelopes -/

namespace RelayEnvelope

def decodeOn (t : Target) (data : Bytes) : Run (Option RelayEnvelope) := do
  if data.length < 28 then return none
  if (← index data 0) ≠ relayEnvelopeMarker then return none
  let flags := RelayFlags.fromByte (← index data 1)
  let idBytes ← range data 2 18
  let messageId : Vector UInt8 16 := Vector.ofFn fun i => byteAt idBytes i
  let hopCount ← index data 18
  let maxHops ← index data 19
  let originNode ← t.readU32 data 0 20
  let payloadLen := (← t.readU32 data 0 24).toNat
  if data.length < (← t.add 28 payloadLen) then return none
  let payload ← range data 28 (← t.add 28 payloadLen)
  return some { messageId, hopCount, maxHops, originNode, flags, payload }

/-- The announced payload fits the word. -/
def PayloadFits (t : Target) (data : Bytes) : Prop :=
  28 ≤ data.length → byteAt data 0 = relayEnvelopeMarker → 28 + (u32At data 24).toNat < t.limit

variable {t : Target} {data : Bytes}

theorem decodeOn_eq (h : t.Holds data) (hfits : PayloadFits t data) :
    decodeOn t data = pure (decode data) := by
  unfold decodeOn decode
  by_cases hlen : data.length < 28
  · simp only [if_pos hlen]
  · rw [if_neg hlen, if_neg hlen, index_byteAt (by omega), pure_bind]
    by_cases hmarker : byteAt data 0 ≠ relayEnvelopeMarker
    · rw [if_pos hmarker, if_pos hmarker]
    · have hpayload := hfits (by omega) (not_not.mp hmarker)
      rw [if_neg hmarker, if_neg hmarker, index_byteAt (by omega), pure_bind,
        range_slice (by omega) (by omega), pure_bind, index_byteAt (by omega), pure_bind,
        index_byteAt (by omega), pure_bind, readU32_eq h (by omega), pure_bind,
        readU32_eq h (by omega), pure_bind, Nat.zero_add, Nat.zero_add]
      dsimp only
      rw [t.add_eq hpayload, pure_bind]
      by_cases hshort : data.length < 28 + (u32At data 24).toNat
      · rw [if_pos hshort, if_pos hshort]
      · rw [if_neg hshort, if_neg hshort, pure_bind, range_slice (by omega) (by omega), pure_bind]

theorem safe_decodeOn_iff (h : t.Holds data) : (decodeOn t data).Safe ↔ PayloadFits t data := by
  constructor
  · intro hsafe hlen hmarker
    by_contra hbig
    revert hsafe
    unfold decodeOn
    rw [if_neg (by omega), index_byteAt (by omega), pure_bind, if_neg (not_not.mpr hmarker),
      index_byteAt (by omega), pure_bind, range_slice (by omega) (by omega), pure_bind,
      index_byteAt (by omega), pure_bind, index_byteAt (by omega), pure_bind,
      readU32_eq h (by omega), pure_bind, readU32_eq h (by omega), pure_bind, Nat.zero_add]
    exact Run.not_safe_bind (t.overflowed_add (Nat.not_lt.mp hbig)) _
  · intro hfits
    rw [decodeOn_eq h hfits]
    exact Run.safe_pure _

end RelayEnvelope

/-! ## Operations -/

namespace AppOperation

def decodeOn (t : Target) (data : Bytes) : Run (Option (AppOperation × Nat)) := do
  if data.length < 16 then return none
  let opType ← index data 0
  if isAppOpType opType then
    let opCode ← index data 1
    let sourceNode ← t.readU32 data 0 2
    let timestamp ← t.readU64 data 0 6
    let payloadLen := (← t.readU16 data 0 14).toNat
    if data.length < (← t.add 16 payloadLen) then return none
    let payload ← range data 16 (← t.add 16 payloadLen)
    return some
      ({ typeId := appTypeMin + (opType - appOpBase), opCode, sourceNode, timestamp, payload },
        ← t.add 16 payloadLen)
  else return none

theorem decodeOn_eq {t : Target} {data : Bytes} (h : t.Holds data) :
    decodeOn t data = pure (decode data) := by
  have hlimit := t.limit_ge
  have hshort := (u16At data 14).toNat_lt
  unfold decodeOn decode
  by_cases hlen : data.length < 16
  · simp only [if_pos hlen]
  · rw [if_neg hlen, if_neg hlen, index_byteAt (by omega), pure_bind]
    dsimp only
    by_cases hop : isAppOpType (byteAt data 0) = true
    · rw [if_pos hop, if_pos hop, index_byteAt (by omega), pure_bind, readU32_eq h (by omega),
        pure_bind, readU64_eq h (by omega), pure_bind, readU16_eq h (by omega), pure_bind]
      simp only [Nat.zero_add]
      rw [t.add_eq (by omega), pure_bind]
      by_cases hcut : data.length < 16 + (u16At data 14).toNat
      · rw [if_pos hcut, if_pos hcut]
      · rw [if_neg hcut, if_neg hcut, pure_bind, range_slice (by omega) (by omega), pure_bind,
          pure_bind]
    · rw [if_neg hop, if_neg hop]

end AppOperation

namespace Operation

def decodeIncrementCounterOn (t : Target) (data : Bytes) : Run (Option (Operation × Nat)) := do
  if data.length < 22 then return none
  let counterId ← index data 1
  let nodeId ← t.readU32 data 0 2
  let amount ← t.readU64 data 0 6
  let timestamp ← t.readU64 data 0 14
  return some (.incrementCounter counterId nodeId amount timestamp, 22)

def decodeUpdatePeripheralOn (t : Target) (data : Bytes) : Run (Option (Operation × Nat)) := do
  if data.length < 11 then return none
  let timestamp ← t.readU64 data 0 1
  let len := (← t.readU16 data 0 9).toNat
  if data.length < (← t.add 11 len) then return none
  match ← Peripheral.decodeOn t (← range data 11 (← t.add 11 len)) with
  | none => return none
  | some peripheral => return some (.updatePeripheral peripheral timestamp, ← t.add 11 len)

/-- The peers from an offset on and the offset behind them. -/
def readPeersOn (t : Target) (data : Bytes) : Nat → Nat → Run (List UInt32 × Nat)
  | 0, offset => pure ([], offset)
  | count + 1, offset => do
      let peer ← t.readU32 data offset 0
      let next ← t.add offset 4
      let (peers, behind) ← readPeersOn t data count next
      return (peer :: peers, behind)

def decodeSetEmergencyOn (t : Target) (data : Bytes) : Run (Option (Operation × Nat)) := do
  if data.length < 14 then return none
  let sourceNode ← t.readU32 data 0 1
  let timestamp ← t.readU64 data 0 5
  let peerCount := (← index data 13).toNat
  if data.length < (← t.add 14 (← t.mul peerCount 4)) then return none
  let (knownPeers, offset) ← readPeersOn t data peerCount 14
  return some (.setEmergency sourceNode timestamp knownPeers, offset)

def decodeAckEmergencyOn (t : Target) (data : Bytes) : Run (Option (Operation × Nat)) := do
  if data.length < 13 then return none
  let nodeId ← t.readU32 data 0 1
  let emergencyTimestamp ← t.readU64 data 0 5
  return some (.ackEmergency nodeId emergencyTimestamp, 13)

def decodeClearEmergencyOn (t : Target) (data : Bytes) : Run (Option (Operation × Nat)) := do
  if data.length < 9 then return none
  let emergencyTimestamp ← t.readU64 data 0 1
  return some (.clearEmergency emergencyTimestamp, 9)

def decodeOn (t : Target) (data : Bytes) : Run (Option (Operation × Nat)) := do
  if data.isEmpty then return none
  let opType ← index data 0
  if opType = OpType.incrementCounter then decodeIncrementCounterOn t data
  else if opType = OpType.updatePeripheral then decodeUpdatePeripheralOn t data
  else if opType = OpType.setEmergency then decodeSetEmergencyOn t data
  else if opType = OpType.ackEmergency then decodeAckEmergencyOn t data
  else if opType = OpType.clearEmergency then decodeClearEmergencyOn t data
  else if AppOperation.isAppOpType opType then
    match ← AppOperation.decodeOn t data with
    | none => return none
    | some (op, size) => return some (.app op, size)
  else return none

variable {t : Target} {data : Bytes}

theorem decodeIncrementCounterOn_eq (h : t.Holds data) :
    decodeIncrementCounterOn t data = pure (decodeIncrementCounter data) := by
  unfold decodeIncrementCounterOn decodeIncrementCounter
  by_cases hlen : data.length < 22
  · simp only [if_pos hlen]
  · rw [if_neg hlen, if_neg hlen, index_byteAt (by omega), pure_bind, readU32_eq h (by omega),
      pure_bind, readU64_eq h (by omega), pure_bind, readU64_eq h (by omega), pure_bind]

theorem decodeUpdatePeripheralOn_eq (h : t.Holds data) :
    decodeUpdatePeripheralOn t data = pure (decodeUpdatePeripheral data) := by
  have hlimit := t.limit_ge
  have hshort := (u16At data 9).toNat_lt
  have hend : t.add 11 (u16At data 9).toNat = pure (11 + (u16At data 9).toNat) :=
    t.add_eq (by omega)
  unfold decodeUpdatePeripheralOn decodeUpdatePeripheral
  by_cases hlen : data.length < 11
  · simp only [if_pos hlen]
  · rw [if_neg hlen, if_neg hlen, readU64_eq h (by omega), pure_bind, readU16_eq h (by omega),
      pure_bind]
    simp only [Nat.zero_add, hend, pure_bind]
    by_cases hcut : data.length < 11 + (u16At data 9).toNat
    · rw [if_pos hcut, if_pos hcut]
    · rw [if_neg hcut, if_neg hcut, range_slice (by omega) (by omega), pure_bind,
        Peripheral.decodeOn_eq (h.slice _ _), pure_bind]
      cases Peripheral.decode (slice data 11 (11 + (u16At data 9).toNat)) <;> rfl

theorem readPeersOn_eq (h : t.Holds data) {count offset : Nat}
    (hin : offset + count * 4 ≤ data.length) :
    readPeersOn t data count offset =
      pure ((List.range count).map (fun i => u32At data (offset + i * 4)), offset + count * 4) := by
  induction count generalizing offset with
  | zero => simp [readPeersOn]
  | succ count ih =>
      have hlt := h.lt
      rw [readPeersOn, readU32_eq h (by omega), pure_bind, t.add_eq (by omega), pure_bind,
        ih (by omega), pure_bind, List.range_succ_eq_map, List.map_cons, List.map_map]
      have hstep : ∀ i, offset + 4 + i * 4 = offset + (i + 1) * 4 := by
        intro i
        omega
      simp only [hstep, Function.comp_def, Nat.succ_eq_add_one, Nat.zero_mul]

theorem decodeSetEmergencyOn_eq (h : t.Holds data) :
    decodeSetEmergencyOn t data = pure (decodeSetEmergency data) := by
  have hlimit := t.limit_ge
  have hfew := (byteAt data 13).toNat_lt
  unfold decodeSetEmergencyOn decodeSetEmergency
  by_cases hlen : data.length < 14
  · simp only [if_pos hlen]
  · rw [if_neg hlen, if_neg hlen, readU32_eq h (by omega), pure_bind, readU64_eq h (by omega),
      pure_bind, index_byteAt (by omega), pure_bind]
    simp only [Nat.zero_add]
    rw [t.mul_eq (by omega), pure_bind, t.add_eq (by omega), pure_bind]
    by_cases hcut : data.length < 14 + (byteAt data 13).toNat * 4
    · rw [if_pos hcut, if_pos hcut]
    · rw [if_neg hcut, if_neg hcut, readPeersOn_eq h (by omega), pure_bind]

theorem decodeAckEmergencyOn_eq (h : t.Holds data) :
    decodeAckEmergencyOn t data = pure (decodeAckEmergency data) := by
  unfold decodeAckEmergencyOn decodeAckEmergency
  by_cases hlen : data.length < 13
  · simp only [if_pos hlen]
  · rw [if_neg hlen, if_neg hlen, readU32_eq h (by omega), pure_bind, readU64_eq h (by omega),
      pure_bind]

theorem decodeClearEmergencyOn_eq (h : t.Holds data) :
    decodeClearEmergencyOn t data = pure (decodeClearEmergency data) := by
  unfold decodeClearEmergencyOn decodeClearEmergency
  by_cases hlen : data.length < 9
  · simp only [if_pos hlen]
  · rw [if_neg hlen, if_neg hlen, readU64_eq h (by omega), pure_bind, Nat.zero_add]

theorem decodeOn_eq (h : t.Holds data) : decodeOn t data = pure (decode data) := by
  unfold decodeOn decode
  by_cases hempty : data.isEmpty = true
  · simp only [if_pos hempty]
  · have hlen : 0 < data.length := List.length_pos_iff.mpr fun hnil => hempty (by rw [hnil]; rfl)
    rw [if_neg hempty, if_neg hempty, index_byteAt hlen, pure_bind]
    dsimp only
    split_ifs
    · exact decodeIncrementCounterOn_eq h
    · exact decodeUpdatePeripheralOn_eq h
    · exact decodeSetEmergencyOn_eq h
    · exact decodeAckEmergencyOn_eq h
    · exact decodeClearEmergencyOn_eq h
    · rw [AppOperation.decodeOn_eq h, pure_bind]
      cases AppOperation.decode data <;> rfl
    · rfl

/-- An operation does not take more bytes than there are. -/
theorem size_le_of_decode {op : Operation} {size : Nat} (h : decode data = some (op, size)) :
    size ≤ data.length := by
  unfold decode at h
  dsimp only at h
  split_ifs at h
  · unfold decodeIncrementCounter at h
    split_ifs at h
    cases h
    omega
  · unfold decodeUpdatePeripheral at h
    dsimp only at h
    split_ifs at h
    obtain ⟨peripheral, -, hfound⟩ := Option.map_eq_some_iff.mp h
    cases hfound
    omega
  · unfold decodeSetEmergency at h
    dsimp only at h
    split_ifs at h
    cases h
    omega
  · unfold decodeAckEmergency at h
    split_ifs at h
    cases h
    omega
  · unfold decodeClearEmergency at h
    split_ifs at h
    cases h
    omega
  · obtain ⟨found, hdecode, hfound⟩ := Option.map_eq_some_iff.mp h
    unfold AppOperation.decode at hdecode
    dsimp only at hdecode
    split_ifs at hdecode
    cases hdecode
    cases hfound
    omega

end Operation

/-! ## Delta documents -/

namespace DeltaDocument

def decodeOperationsOn (t : Target) (data : Bytes) : Nat → Nat → Run (Option (List Operation))
  | 0, _ => return some []
  | count + 1, offset => do
      if offset ≥ data.length then return none
      match ← Operation.decodeOn t (← behind data offset) with
      | none => return none
      | some (op, size) =>
          match ← decodeOperationsOn t data count (← t.add offset size) with
          | none => return none
          | some rest => return some (op :: rest)

def decodeClockOn (t : Target) (data : Bytes) (flags : DeltaFlags) :
    Run (Option (Option VectorClock × Nat)) := do
  if flags.hasVectorClock then
    match ← VectorClock.decodeOn t (← behind data 14) with
    | none => return none
    | some clock =>
        let count := (← t.readU32 data 14 0).toNat
        let size ← t.add 4 (← t.mul count 12)
        return some (some clock, ← t.add 14 size)
  else return some (none, 14)

def decodeOn (t : Target) (data : Bytes) : Run (Option DeltaDocument) := do
  if data.length < 16 then return none
  if (← index data 0) ≠ deltaDocumentMarker then return none
  let flags := DeltaFlags.fromByte (← index data 1)
  let originNode ← t.readU32 data 0 2
  let timestampMs ← t.readU64 data 0 6
  match ← decodeClockOn t data flags with
  | none => return none
  | some (vectorClock, offset) =>
      if data.length < (← t.add offset 2) then return none
      let opCount := (← t.readU16 data offset 0).toNat
      match ← decodeOperationsOn t data opCount (← t.add offset 2) with
      | none => return none
      | some operations => return some { originNode, timestampMs, flags, vectorClock, operations }

/-- Where there is a clock, its announced table fits the word. -/
def ClockFits (t : Target) (data : Bytes) : Prop :=
  16 ≤ data.length → byteAt data 0 = deltaDocumentMarker →
    (DeltaFlags.fromByte (byteAt data 1)).hasVectorClock = true →
      VectorClock.TableFits t (data.drop 14)

variable {t : Target} {data : Bytes}

theorem decodeOperationsOn_eq (h : t.Holds data) (count offset : Nat) :
    decodeOperationsOn t data count offset = pure (decodeOperations data count offset) := by
  induction count generalizing offset with
  | zero => rfl
  | succ count ih =>
      rw [decodeOperationsOn, decodeOperations]
      by_cases hend : offset ≥ data.length
      · rw [if_pos hend, if_pos hend]
      · rw [if_neg hend, if_neg hend, behind_eq (by omega), pure_bind,
          Operation.decodeOn_eq (h.drop offset), pure_bind]
        cases hop : Operation.decode (data.drop offset) with
        | none => rfl
        | some found =>
            obtain ⟨op, size⟩ := found
            have hsize := Operation.size_le_of_decode hop
            have hlt := h.lt
            rw [List.length_drop] at hsize
            dsimp only [Option.bind_eq_bind, Option.bind_some]
            rw [t.add_eq (by omega), pure_bind, ih, pure_bind]
            cases decodeOperations data count (offset + size) <;> rfl

theorem table_of_decodeClock {clock : VectorClock} (hlen : 14 ≤ data.length)
    (h : VectorClock.decode (data.drop 14) = some clock) :
    14 + (4 + (u32At data 14).toNat * 12) ≤ data.length := by
  unfold VectorClock.decode at h
  dsimp only at h
  split_ifs at h with hshort hcut
  rw [u32At_drop, Nat.add_zero, List.length_drop] at hcut
  omega

theorem length_of_decodeClock {flags : DeltaFlags} {clock : Option VectorClock} {offset : Nat}
    (hlen : 16 ≤ data.length) (h : decodeClock data flags = some (clock, offset)) :
    offset ≤ data.length := by
  unfold decodeClock at h
  split_ifs at h with hclock
  · obtain ⟨decoded, hdecode, hfound⟩ := Option.map_eq_some_iff.mp h
    cases hfound
    exact table_of_decodeClock (by omega) hdecode
  · cases h
    omega

theorem decodeClockOn_eq (h : t.Holds data) (hlen : 16 ≤ data.length) {flags : DeltaFlags}
    (hfits : flags.hasVectorClock = true → VectorClock.TableFits t (data.drop 14)) :
    decodeClockOn t data flags = pure (decodeClock data flags) := by
  unfold decodeClockOn decodeClock
  by_cases hclock : flags.hasVectorClock = true
  · rw [if_pos hclock, if_pos hclock, behind_eq (by omega), pure_bind,
      VectorClock.decodeOn_eq (h.drop 14) (hfits hclock), pure_bind]
    cases hdecode : VectorClock.decode (data.drop 14) with
    | none => rfl
    | some clock =>
        have htable := table_of_decodeClock (by omega) hdecode
        have hlt := h.lt
        dsimp only
        rw [readU32_eq h (by omega), pure_bind, Nat.add_zero, t.mul_eq (by omega), pure_bind,
          t.add_eq (by omega), pure_bind, t.add_eq (by omega), pure_bind]
        rfl
  · rw [if_neg hclock, if_neg hclock]

theorem decodeOn_eq (h : t.Holds data) (hfits : ClockFits t data) :
    decodeOn t data = pure (decode data) := by
  unfold decodeOn decode
  by_cases hlen : data.length < 16
  · simp only [if_pos hlen]
  · rw [if_neg hlen, if_neg hlen, index_byteAt (by omega), pure_bind]
    by_cases hmarker : byteAt data 0 ≠ deltaDocumentMarker
    · rw [if_pos hmarker, if_pos hmarker]
    · have hclock := hfits (by omega) (not_not.mp hmarker)
      rw [if_neg hmarker, if_neg hmarker, index_byteAt (by omega), pure_bind,
        readU32_eq h (by omega), pure_bind, readU64_eq h (by omega), pure_bind]
      dsimp only
      rw [decodeClockOn_eq h (by omega) hclock, pure_bind]
      cases hfound : decodeClock data (DeltaFlags.fromByte (byteAt data 1)) with
      | none => rfl
      | some found =>
          obtain ⟨vectorClock, offset⟩ := found
          have hoffset := length_of_decodeClock (by omega) hfound
          have hlimit := t.limit_ge
          have hhalf : 2 * data.length < t.limit := h
          have hbehind : t.add offset 2 = pure (offset + 2) := t.add_eq (by omega)
          dsimp only [Option.bind_eq_bind, Option.bind_some]
          rw [hbehind, pure_bind]
          by_cases hcut : data.length < offset + 2
          · rw [if_pos hcut, if_pos hcut]
          · rw [if_neg hcut, if_neg hcut, readU16_eq h (by omega), pure_bind, Nat.add_zero,
              pure_bind, decodeOperationsOn_eq h, pure_bind]
            cases decodeOperations data (u16At data offset).toNat (offset + 2) <;> rfl

theorem safe_decodeOn_iff (h : t.Holds data) : (decodeOn t data).Safe ↔ ClockFits t data := by
  constructor
  · intro hsafe hlen hmarker hclock
    unfold decodeOn at hsafe
    rw [if_neg (by omega), index_byteAt (by omega), pure_bind, if_neg (not_not.mpr hmarker),
      index_byteAt (by omega), pure_bind, readU32_eq h (by omega), pure_bind,
      readU64_eq h (by omega), pure_bind] at hsafe
    have hclockSafe := hsafe.of_bind
    unfold decodeClockOn at hclockSafe
    rw [if_pos hclock, behind_eq (by omega), pure_bind] at hclockSafe
    exact (VectorClock.safe_decodeOn_iff (h.drop 14)).mp hclockSafe.of_bind
  · intro hfits
    rw [decodeOn_eq h hfits]
    exact Run.safe_pure _

end DeltaDocument

/-! ## Documents -/

namespace PeatDocument

/-- Where the section at an offset begins and ends, unless it is cut short. -/
def sectionAtOn (t : Target) (data : Bytes) (offset : Nat) : Run (Option (Nat × Nat)) := do
  if data.length < (← t.add offset 4) then return none
  let _reserved ← index data (← t.add offset 1)
  let sectionLen := (← t.readU16 data offset 2).toNat
  let sectionStart ← t.add offset 4
  let sectionEnd ← t.add sectionStart sectionLen
  if data.length < sectionEnd then return none
  return some (sectionStart, sectionEnd)

/-- The section loop, if it ends within so many rounds. -/
def parseSectionsOn (t : Target) (data : Bytes) :
    Nat → Nat → Option Peripheral → Option EmergencyEvent →
      Run (Option Peripheral × Option EmergencyEvent)
  | 0, offset, peripheral, emergency =>
      if offset < data.length then Run.fault .unfinished else return (peripheral, emergency)
  | rounds + 1, offset, peripheral, emergency => do
      if offset < data.length then
        let marker ← index data offset
        if marker = extendedMarker then
          match ← sectionAtOn t data offset with
          | none => return (peripheral, emergency)
          | some (start, stop) =>
              let found ← Peripheral.decodeOn t (← range data start stop)
              parseSectionsOn t data rounds stop found emergency
        else if marker = emergencyMarker then
          match ← sectionAtOn t data offset with
          | none => return (peripheral, emergency)
          | some (start, stop) =>
              let found ← EmergencyEvent.decodeOn t (← range data start stop)
              parseSectionsOn t data rounds stop peripheral found
        else if marker = chatMarker then
          match ← sectionAtOn t data offset with
          | none => return (peripheral, emergency)
          | some (_, stop) => parseSectionsOn t data rounds stop peripheral emergency
        else return (peripheral, emergency)
      else return (peripheral, emergency)

def decodeOn (t : Target) (rounds : Nat) (data : Bytes) : Run (Option PeatDocument) := do
  if data.length < minDocumentSize then return none
  let version ← t.readU32 data 0 0
  let nodeId ← t.readU32 data 0 4
  match ← GCounter.decodeOn t (← behind data 8) with
  | none => return none
  | some counter =>
      let numEntries := (← t.readU32 data 0 8).toNat
      let offset ← t.add (8 + 4) (← t.mul numEntries 12)
      let (peripheral, emergency) ← parseSectionsOn t data rounds offset none none
      return some { version, nodeId, counter, peripheral, emergency }

variable {t : Target} {data : Bytes}

theorem sectionAtOn_eq (h : t.Holds data) {offset : Nat} (hoffset : offset < data.length) :
    sectionAtOn t data offset =
      pure ((sectionAt data offset).map fun found => (offset + 4, found.2)) := by
  have hlimit := t.limit_ge
  have hhalf : 2 * data.length < t.limit := h
  have hshort := (u16At data (offset + 2)).toNat_lt
  have hstart : t.add offset 4 = pure (offset + 4) := t.add_eq (by omega)
  unfold sectionAtOn sectionAt
  rw [hstart, pure_bind]
  by_cases hlen : data.length < offset + 4
  · rw [if_pos hlen, if_pos hlen]
    rfl
  · rw [if_neg hlen, if_neg hlen, t.add_eq (by omega), pure_bind, index_byteAt (by omega),
      pure_bind, readU16_eq h (by omega), pure_bind]
    dsimp only
    rw [pure_bind, t.add_eq (by omega), pure_bind]
    split_ifs <;> rfl

theorem body_of_sectionAt {offset next : Nat} {body : Bytes}
    (h : sectionAt data offset = some (body, next)) : body = slice data (offset + 4) next := by
  unfold sectionAt at h
  dsimp only at h
  split_ifs at h
  cases h
  rfl

/-- With a round for every byte that is left, the loop ends. -/
theorem parseSectionsOn_eq (h : t.Holds data) {rounds offset : Nat}
    {peripheral : Option Peripheral} {emergency : Option EmergencyEvent}
    (henough : data.length ≤ offset + rounds) :
    parseSectionsOn t data rounds offset peripheral emergency =
      pure (parseSections data rounds offset peripheral emergency) := by
  induction rounds generalizing offset peripheral emergency with
  | zero => rw [parseSectionsOn, if_neg (by omega), parseSections]
  | succ rounds ih =>
      rw [parseSectionsOn, parseSections]
      by_cases hmore : offset < data.length
      · rw [if_pos hmore, if_pos hmore, index_byteAt hmore, pure_bind, sectionAtOn_eq h hmore]
        cases hsection : sectionAt data offset with
        | none => split_ifs <;> rfl
        | some found =>
            obtain ⟨body, next⟩ := found
            obtain ⟨hstart, hnext⟩ := sectionAt_next_gt hsection
            have hbody := body_of_sectionAt hsection
            have hrest := fun p e => @ih next p e (by omega)
            have hrange : range data (offset + 4) next = pure body := by
              rw [range_slice hstart hnext, hbody]
            have hholds : t.Holds body := hbody ▸ h.slice _ _
            simp only [Option.map_some, pure_bind, hrange, Peripheral.decodeOn_eq hholds,
              EmergencyEvent.decodeOn_eq hholds, hrest]
            split_ifs <;> rfl
      · rw [if_neg hmore, if_neg hmore]

theorem table_of_decodeCounter {counter : GCounter} (hlen : 8 ≤ data.length)
    (h : GCounter.decode (data.drop 8) = some counter) :
    12 + (u32At data 8).toNat * 12 ≤ data.length := by
  unfold GCounter.decode at h
  dsimp only at h
  split_ifs at h with hshort hmany hcut
  rw [u32At_drop, Nat.add_zero, List.length_drop] at hcut
  omega

theorem decodeOn_eq (h : t.Holds data) {rounds : Nat} (henough : data.length ≤ rounds) :
    decodeOn t rounds data = pure (decode data) := by
  have hlt := h.lt
  unfold decodeOn decode
  by_cases hlen : data.length < minDocumentSize
  · simp only [if_pos hlen]
  · have hmin : minDocumentSize = 8 := rfl
    rw [if_neg hlen, if_neg hlen, readU32_eq h (by omega), pure_bind, readU32_eq h (by omega),
      pure_bind, behind_eq (by omega), pure_bind, GCounter.decodeOn_eq (h.drop 8), pure_bind]
    cases hcounter : GCounter.decode (data.drop 8) with
    | none => rfl
    | some counter =>
        have htable := table_of_decodeCounter (by omega) hcounter
        have hfuel := fun offset => @parseSections_fuel data none none data.length offset (by omega)
          (rounds - data.length)
        rw [Nat.add_sub_cancel' henough] at hfuel
        dsimp only [Option.bind_eq_bind, Option.bind_some]
        rw [readU32_eq h (by omega), pure_bind, Nat.zero_add, t.mul_eq (by omega), pure_bind,
          t.add_eq (by omega), pure_bind, parseSectionsOn_eq h (by omega), pure_bind, hfuel]

end PeatDocument

end PeatBtle
