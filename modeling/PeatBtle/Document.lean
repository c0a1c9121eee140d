import PeatBtle.Sync.Crdt.Counter
import PeatBtle.Sync.Crdt.Peripheral
import PeatBtle.Sync.Crdt.Emergency

/-!
# Documents

A document is a header, a counter and up to two tagged sections. Section
lengths are 16-bit. The decoder walks the sections until the buffer ends, a
section is cut short, or a tag is unknown; a section that fails its own decoder
clears the corresponding field.
-/

namespace PeatBtle

open Wire

def extendedMarker : UInt8 := 0xAB
def emergencyMarker : UInt8 := 0xAC
def chatMarker : UInt8 := 0xAD
def encryptedMarker : UInt8 := 0xAE
def peerE2eeMarker : UInt8 := 0xAF
def keyExchangeMarker : UInt8 := 0xB0
def relayEnvelopeMarker : UInt8 := 0xB1
def deltaDocumentMarker : UInt8 := 0xB2

def minDocumentSize : Nat := 8
def targetDocumentSize : Nat := 244
def maxDocumentSize : Nat := 512

@[ext] structure PeatDocument where
  version : UInt32
  nodeId : NodeId
  counter : GCounter
  peripheral : Option Peripheral
  emergency : Option EmergencyEvent
deriving DecidableEq

namespace PeatDocument

def new (nodeId : NodeId) : PeatDocument := ⟨1, nodeId, GCounter.new, none, none⟩

def incrementVersion (d : PeatDocument) : PeatDocument := { d with version := d.version + 1 }

def incrementCounter (d : PeatDocument) : PeatDocument :=
  incrementVersion { d with counter := d.counter.increment d.nodeId 1 }

/-- The emergency after hearing of another one, and whether it changed. -/
def mergeEmergency (ours : Option EmergencyEvent) (theirs : Option EmergencyEvent) :
    Option EmergencyEvent × Bool :=
  match theirs with
  | none => (ours, false)
  | some other =>
      match ours with
      | none => (some other, true)
      | some e => (some (e.merge other).1, (e.merge other).2)

/-- Whether our state changed. The peripheral stays ours. -/
def merge (d other : PeatDocument) : PeatDocument × Bool :=
  let counter := d.counter.merge other.counter
  let emergency := mergeEmergency d.emergency other.emergency
  let changed := counter.value != d.counter.value || emergency.2
  let merged := { d with counter := counter, emergency := emergency.1 }
  (if changed then incrementVersion merged else merged, changed)

/-- Our emergency already says all that theirs does. -/
def EmergencyKnown (ours theirs : Option EmergencyEvent) : Prop :=
  ∀ other, theirs = some other → ∃ e, ours = some e ∧ e.Covers other

theorem mergeEmergency_eq_self_iff {ours theirs : Option EmergencyEvent} :
    (mergeEmergency ours theirs).1 = ours ↔ EmergencyKnown ours theirs := by
  unfold mergeEmergency EmergencyKnown
  cases theirs with
  | none => simp
  | some other =>
      cases ours with
      | none => simp
      | some e => simp [EmergencyEvent.merge_eq_self_iff]

theorem mergeEmergency_unreported {ours theirs : Option EmergencyEvent}
    (h : EmergencyKnown ours theirs) : (mergeEmergency ours theirs).2 = false := by
  cases theirs with
  | none => rfl
  | some other =>
      obtain ⟨e, rfl, hcovers⟩ := h other rfl
      exact EmergencyEvent.merge_unreported_of_covers hcovers

theorem mergeEmergency_again (ours theirs : Option EmergencyEvent) :
    (mergeEmergency (mergeEmergency ours theirs).1 theirs).2 = false := by
  apply mergeEmergency_unreported
  rintro other rfl
  cases ours with
  | none => exact ⟨other, rfl, other.covers_self⟩
  | some e => exact ⟨_, rfl, e.covers_merge other⟩

def currentEvent (d : PeatDocument) : Option EventType :=
  d.peripheral.bind fun p => p.lastEvent.map PeripheralEvent.eventType

/-! ## Wire format -/

/-- Tag, reserved byte, 16-bit length, body. A longer body keeps its low 16 length bits. -/
def encodeSection (marker : UInt8) (body : Bytes) : Bytes :=
  marker :: 0 :: (u16ToLe (UInt16.ofNat body.length) ++ body)

/-- The optional sections, in the order they are written. -/
def sections (d : PeatDocument) : Bytes :=
  d.peripheral.elim [] (fun p => encodeSection extendedMarker p.encode) ++
    d.emergency.elim [] (fun e => encodeSection emergencyMarker e.encode)

def encode (d : PeatDocument) : Bytes :=
  u32ToLe d.version ++ (u32ToLe d.nodeId ++ (d.counter.encode ++ d.sections))

/-- The body of the section at an offset and the offset behind it, unless cut short. -/
def sectionAt (data : Bytes) (offset : Nat) : Option (Bytes × Nat) :=
  if data.length < offset + 4 then none
  else
    let sectionLen := (u16At data (offset + 2)).toNat
    let sectionStart := offset + 4
    if data.length < sectionStart + sectionLen then none
    else some (slice data sectionStart (sectionStart + sectionLen), sectionStart + sectionLen)

/-- The section loop. An unknown tag and a section cut short both end it. Each round
consumes at least four bytes, so fuel equal to the buffer length never runs out. -/
def parseSections (data : Bytes) : Nat → Nat → Option Peripheral → Option EmergencyEvent →
    Option Peripheral × Option EmergencyEvent
  | 0, _, peripheral, emergency => (peripheral, emergency)
  | fuel + 1, offset, peripheral, emergency =>
      if offset < data.length then
        let marker := byteAt data offset
        match sectionAt data offset with
        | none => (peripheral, emergency)
        | some (body, next) =>
            if marker = extendedMarker then
              parseSections data fuel next (Peripheral.decode body) emergency
            else if marker = emergencyMarker then
              parseSections data fuel next peripheral (EmergencyEvent.decode body)
            else if marker = chatMarker then parseSections data fuel next peripheral emergency
            else (peripheral, emergency)
      else (peripheral, emergency)

def decode (data : Bytes) : Option PeatDocument :=
  if data.length < minDocumentSize then none
  else do
    let version := u32At data 0
    let nodeId := u32At data 4
    let counter ← GCounter.decode (data.drop 8)
    let numEntries := (u32At data 8).toNat
    let offset := 8 + 4 + numEntries * 12
    let (peripheral, emergency) := parseSections data data.length offset none none
    some { version, nodeId, counter, peripheral, emergency }

def encodedSize (d : PeatDocument) : Nat :=
  let counterSize := 4 + d.counter.nodeCountTotal * 12
  let peripheralSize := d.peripheral.elim 0 fun p => 4 + p.encode.length
  let emergencySize := d.emergency.elim 0 fun e => 4 + e.encode.length
  8 + counterSize + peripheralSize + emergencySize

def exceedsTargetSize (d : PeatDocument) : Bool := d.encodedSize > targetDocumentSize

def exceedsMaxSize (d : PeatDocument) : Bool := d.encodedSize > maxDocumentSize

/-! ## The section loop -/

section Sections

variable {data : Bytes} {peripheral : Option Peripheral} {emergency : Option EmergencyEvent}

theorem sectionAt_next_gt {offset next : Nat} {body : Bytes}
    (h : sectionAt data offset = some (body, next)) : offset + 4 ≤ next ∧ next ≤ data.length := by
  unfold sectionAt at h
  split at h
  · cases h
  · dsimp only at h
    split at h
    · cases h
    · cases h
      omega

theorem parseSections_end {fuel offset : Nat} (h : data.length ≤ offset) :
    parseSections data fuel offset peripheral emergency = (peripheral, emergency) := by
  cases fuel with
  | zero => rfl
  | succ fuel => simp only [parseSections, if_neg (Nat.not_lt.mpr h)]

/-- More fuel than remaining bytes changes nothing. -/
theorem parseSections_fuel {fuel offset : Nat} (h : data.length ≤ offset + fuel) (extra : Nat) :
    parseSections data (fuel + extra) offset peripheral emergency =
      parseSections data fuel offset peripheral emergency := by
  induction fuel generalizing offset peripheral emergency with
  | zero => rw [parseSections_end (by omega), parseSections_end (by omega)]
  | succ fuel ih =>
      rw [Nat.succ_add]
      simp only [parseSections]
      cases hsection : sectionAt data offset with
      | none => rfl
      | some found =>
          obtain ⟨body, next⟩ := found
          have hnext := (sectionAt_next_gt hsection).1
          simp only [ih (show data.length ≤ next + fuel by omega)]

theorem sectionAt_skip (front rest : Bytes) (offset : Nat) :
    sectionAt (front ++ rest) (front.length + offset) =
      (sectionAt rest offset).map fun found => (found.1, front.length + found.2) := by
  have hread : u16At (front ++ rest) (front.length + offset + 2) = u16At rest (offset + 2) := by
    rw [u16At_skip (by omega), Nat.add_assoc, Nat.add_sub_cancel_left]
  have hslice : ∀ len, slice (front ++ rest) (front.length + offset + 4)
      (front.length + offset + 4 + len) = slice rest (offset + 4) (offset + 4 + len) := by
    intro len
    rw [slice_skip (by omega)]
    congr 1 <;> omega
  have hlen : ∀ n, (front ++ rest).length < front.length + n ↔ rest.length < n := by
    intro n
    rw [List.length_append]
    omega
  simp only [sectionAt, hread, hslice]
  simp only [Nat.add_assoc, hlen]
  split
  · rfl
  · split <;> rfl

theorem byteAt_behind (front rest : Bytes) (offset : Nat) :
    byteAt (front ++ rest) (front.length + offset) = byteAt rest offset := by
  rw [byteAt_skip (by omega), Nat.add_sub_cancel_left]

theorem behind_lt_length (front rest : Bytes) (offset : Nat) :
    front.length + offset < (front ++ rest).length ↔ offset < rest.length := by
  rw [List.length_append]
  omega

/-- The loop sees only what lies behind its offset. -/
theorem parseSections_skip (front rest : Bytes) (fuel offset : Nat) :
    parseSections (front ++ rest) fuel (front.length + offset) peripheral emergency =
      parseSections rest fuel offset peripheral emergency := by
  induction fuel generalizing offset peripheral emergency with
  | zero => rfl
  | succ fuel ih =>
      simp only [parseSections, byteAt_behind, behind_lt_length, sectionAt_skip]
      cases sectionAt rest offset with
      | none => rfl
      | some found => simp only [Option.map_some, ih]

theorem encodeSection_length (marker : UInt8) (body : Bytes) :
    (encodeSection marker body).length = 4 + body.length := by
  simp only [encodeSection, List.length_cons, List.length_append, u16ToLe_length]
  omega

theorem sectionAt_encodeSection {marker : UInt8} {body : Bytes} (hbody : body.length < 65536)
    (rest : Bytes) :
    sectionAt (encodeSection marker body ++ rest) 0 =
      some (body, (encodeSection marker body).length) := by
  have hlen : (UInt16.ofNat body.length).toNat = body.length := by
    rw [UInt16.toNat_ofNat']
    exact Nat.mod_eq_of_lt hbody
  have hread : u16At (encodeSection marker body ++ rest) 2 = UInt16.ofNat body.length := by
    simp only [encodeSection, List.cons_append, List.append_assoc, u16At_cons_succ, u16At_toLe]
  have hslice : slice (encodeSection marker body ++ rest) 4 (4 + body.length) = body := by
    simp only [encodeSection, List.cons_append, List.append_assoc, Nat.add_comm 4]
    rw [slice_cons_succ, slice_cons_succ, slice_skip (by simp), u16ToLe_length, Nat.sub_self,
      Nat.add_sub_cancel, slice_append_left rfl]
  simp only [sectionAt, Nat.zero_add, hread, hlen, hslice]
  rw [List.length_append, encodeSection_length, if_neg (by omega), if_neg (by omega)]

theorem parseSections_extended {body : Bytes} (hbody : body.length < 65536) (rest : Bytes)
    (fuel : Nat) :
    parseSections (encodeSection extendedMarker body ++ rest) (fuel + 1) 0 peripheral emergency =
      parseSections rest fuel 0 (Peripheral.decode body) emergency := by
  have hpos : 0 < (encodeSection extendedMarker body ++ rest).length := by simp [encodeSection]
  rw [parseSections, if_pos hpos, sectionAt_encodeSection hbody]
  exact parseSections_skip (encodeSection extendedMarker body) rest fuel 0

theorem parseSections_emergency {body : Bytes} (hbody : body.length < 65536) (rest : Bytes)
    (fuel : Nat) :
    parseSections (encodeSection emergencyMarker body ++ rest) (fuel + 1) 0 peripheral emergency =
      parseSections rest fuel 0 peripheral (EmergencyEvent.decode body) := by
  have hpos : 0 < (encodeSection emergencyMarker body ++ rest).length := by simp [encodeSection]
  rw [parseSections, if_pos hpos, sectionAt_encodeSection hbody]
  exact parseSections_skip (encodeSection emergencyMarker body) rest fuel 0

theorem parseSections_lone_emergency {e : EmergencyEvent} (hbody : e.encode.length < 65536) :
    parseSections (encodeSection emergencyMarker e.encode)
        (encodeSection emergencyMarker e.encode).length 0 peripheral none =
      (peripheral, EmergencyEvent.decode e.encode) := by
  have hnone : ([] : Bytes).length ≤ 0 := Nat.le_refl 0
  have hread : parseSections (encodeSection emergencyMarker e.encode ++ [])
      (3 + e.encode.length + 1) 0 peripheral none =
        parseSections [] (3 + e.encode.length) 0 peripheral (EmergencyEvent.decode e.encode) :=
    parseSections_emergency hbody [] _
  rw [List.append_nil, parseSections_end hnone] at hread
  rw [encodeSection_length, show 4 + e.encode.length = 3 + e.encode.length + 1 by omega, hread]

/-- The peripheral always fits and comes back first. -/
theorem parseSections_peripheral (d : PeatDocument) :
    parseSections d.sections d.sections.length 0 none none =
      parseSections (d.emergency.elim [] fun e => encodeSection emergencyMarker e.encode)
        (d.emergency.elim [] fun e => encodeSection emergencyMarker e.encode).length 0
        (d.peripheral.bind fun p => Peripheral.decode p.encode) none := by
  unfold sections
  cases d.peripheral with
  | none => rfl
  | some p =>
      have hsize : p.encode.length < 65536 := Nat.lt_of_le_of_lt p.encode_length_le (by decide)
      have hfuel : ∀ n, 4 + p.encode.length + n = n + (3 + p.encode.length) + 1 := by
        intro n
        omega
      simp only [Option.elim_some, Option.bind_some]
      rw [List.length_append, encodeSection_length, hfuel, parseSections_extended hsize,
        parseSections_fuel (by omega)]

/-- Sections whose length fits the 16-bit field are read back one by one. -/
theorem parseSections_sections {d : PeatDocument}
    (h : ∀ e, d.emergency = some e → e.encode.length < 65536) :
    parseSections d.sections d.sections.length 0 none none =
      (d.peripheral.bind fun p => Peripheral.decode p.encode,
        d.emergency.bind fun e => EmergencyEvent.decode e.encode) := by
  rw [parseSections_peripheral]
  cases hevent : d.emergency with
  | none => exact parseSections_end (Nat.zero_le _)
  | some e => exact parseSections_lone_emergency (h e hevent)

end Sections

/-! ## Decoding an encoded document -/

theorem encode_length (d : PeatDocument) :
    d.encode.length = 12 + d.counter.counts.size * 12 + d.sections.length := by
  simp only [encode, List.length_append, u32ToLe_length, GCounter.encode_length]
  omega

section Header

variable (d : PeatDocument) (rest : Bytes)

private theorem version_read : u32At (d.encode ++ rest) 0 = d.version := by
  rw [encode, List.append_assoc, u32At_toLe]

private theorem node_read : u32At (d.encode ++ rest) 4 = d.nodeId := by
  rw [encode, List.append_assoc, u32At_skip (by simp), u32ToLe_length, Nat.sub_self,
    List.append_assoc, u32At_toLe]

private theorem counter_read :
    (d.encode ++ rest).drop 8 = d.counter.encode ++ (d.sections ++ rest) := by
  rw [encode, ← List.append_assoc, List.append_assoc, List.drop_left' (by simp),
    List.append_assoc]

private theorem count_read :
    u32At (d.encode ++ rest) 8 = UInt32.ofNat d.counter.counts.size := by
  rw [show 8 = 8 + 0 by rfl, ← u32At_drop, counter_read, GCounter.encode, List.append_assoc,
    u32At_toLe]

/-- Behind the counter. -/
theorem sections_start :
    ∃ front : Bytes, front.length = 8 + 4 + d.counter.counts.size * 12 ∧
      d.encode ++ rest = front ++ (d.sections ++ rest) := by
  refine ⟨u32ToLe d.version ++ (u32ToLe d.nodeId ++ d.counter.encode), ?_, ?_⟩
  · simp only [List.length_append, u32ToLe_length, GCounter.encode_length]
    omega
  · simp only [encode, List.append_assoc]

end Header

section Sections

variable {d : PeatDocument} (hcounts : d.counter.counts.size ≤ maxCounterEntries) (rest : Bytes)
include hcounts

/-- The offset that the decoder computes. -/
theorem sections_offset :
    8 + 4 + (u32At (d.encode ++ rest) 8).toNat * 12 = 8 + 4 + d.counter.counts.size * 12 := by
  unfold maxCounterEntries at hcounts
  rw [count_read, UInt32.toNat_ofNat', Nat.mod_eq_of_lt (by omega)]

/-- The header and the counter come back; the rest is up to the section loop. -/
theorem decode_encode_append :
    decode (d.encode ++ rest) = some
      { d with
        counter := ⟨d.counter.counts.filter fun node _ => node != 0⟩
        peripheral := (parseSections (d.sections ++ rest) (d.sections ++ rest).length 0 none none).1
        emergency :=
          (parseSections (d.sections ++ rest) (d.sections ++ rest).length 0 none none).2 } := by
  obtain ⟨front, hfront, hshape⟩ := d.sections_start rest
  have hlen : (d.encode ++ rest).length = front.length + (d.sections ++ rest).length := by
    rw [hshape, List.length_append]
  have hmin : ¬ (d.encode ++ rest).length < minDocumentSize := by
    unfold minDocumentSize
    omega
  have hsections : parseSections (d.encode ++ rest) (d.encode ++ rest).length
      (8 + 4 + (u32At (d.encode ++ rest) 8).toNat * 12) none none =
        parseSections (d.sections ++ rest) (d.sections ++ rest).length 0 none none := by
    have hskip : parseSections (d.encode ++ rest) (d.encode ++ rest).length (front.length + 0)
        none none = parseSections (d.sections ++ rest) (d.encode ++ rest).length 0 none none := by
      nth_rewrite 1 [hshape]
      exact parseSections_skip ..
    rw [Nat.add_zero] at hskip
    rw [sections_offset hcounts, ← hfront, hskip, hlen, Nat.add_comm, parseSections_fuel (by omega)]
  simp only [decode, if_neg hmin, version_read, node_read, counter_read, hsections,
    GCounter.decode_encode hcounts, Option.bind_eq_bind, Option.bind_some]

end Sections

theorem decode_encode_sections {d : PeatDocument}
    (h : d.counter.counts.size ≤ maxCounterEntries) :
    decode d.encode = some
      { d with
        counter := ⟨d.counter.counts.filter fun node _ => node != 0⟩
        peripheral := (parseSections d.sections d.sections.length 0 none none).1
        emergency := (parseSections d.sections d.sections.length 0 none none).2 } := by
  have happend := decode_encode_append h []
  rwa [List.append_nil, List.append_nil] at happend

theorem parseSections_unknown {data : Bytes} {offset : Nat} (h : byteAt data offset = 0)
    (fuel : Nat) (peripheral : Option Peripheral) (emergency : Option EmergencyEvent) :
    parseSections data fuel offset peripheral emergency = (peripheral, emergency) := by
  cases fuel with
  | zero => rfl
  | succ fuel =>
      have hextended : ¬ (0 : UInt8) = extendedMarker := by decide
      have hemergency : ¬ (0 : UInt8) = emergencyMarker := by decide
      have hchat : ¬ (0 : UInt8) = chatMarker := by decide
      simp only [parseSections, h, if_neg hextended, if_neg hemergency, if_neg hchat]
      cases sectionAt data offset with
      | none => exact ite_self _
      | some found => exact ite_self _

/-- A document with more counts than the decoder takes is refused. Only one with a count for every
identifier passes, as an empty document: its first count is then read as an unknown section. -/
theorem decode_encode_of_many {d : PeatDocument} (h : maxCounterEntries < d.counter.counts.size) :
    decode d.encode = none ∨
      decode d.encode =
        some { d with counter := GCounter.new, peripheral := none, emergency := none } := by
  have hlen := d.encode_length
  have hversion := d.version_read []
  have hnode := d.node_read []
  have hcounter := d.counter_read []
  have hentries := d.count_read []
  simp only [List.append_nil] at hversion hnode hcounter hentries
  have hmin : ¬ d.encode.length < minDocumentSize := by
    unfold minDocumentSize
    omega
  rcases GCounter.decode_encode_of_many h d.sections with ⟨-, hrefused⟩ | ⟨hfull, hempty⟩
  · left
    simp only [decode, if_neg hmin, hcounter, hrefused, Option.bind_eq_bind, Option.bind_none]
  · right
    obtain ⟨value, rest, hlist⟩ := toList_of_full d.counter.counts hfull
    have hcount : (u32At d.encode 8).toNat = 0 := by
      rw [hentries, UInt32.toNat_ofNat', hfull, Nat.mod_self]
    have hfirst : byteAt d.encode 12 = 0 := by
      rw [encode, byteAt_skip (by simp), byteAt_skip (by simp), GCounter.encode, List.append_assoc,
        byteAt_skip (by simp), hlist, encodeEntries_cons]
      simp only [u32ToLe_length]
      rfl
    simp only [decode, if_neg hmin, hversion, hnode, hcounter, hcount, hempty,
      Option.bind_eq_bind, Option.bind_some]
    rw [show 8 + 4 + 0 * 12 = 12 by rfl, parseSections_unknown hfirst]

/-- What the wire format can carry: exactly the limits and checks of the decoders. -/
structure Representable (d : PeatDocument) : Prop where
  counter_le : d.counter.counts.size ≤ maxCounterEntries
  zero_not_mem : 0 ∉ d.counter.counts
  peripheral_valid : ∀ p, d.peripheral = some p → p.Valid
  emergency_valid : ∀ e, d.emergency = some e → e.Valid

theorem encodedSize_eq (d : PeatDocument) : d.encodedSize = d.encode.length := by
  rw [encode_length]
  unfold encodedSize sections GCounter.nodeCountTotal
  cases d.peripheral <;> cases d.emergency <;>
    simp only [Option.elim, List.length_append, List.length_nil, encodeSection_length] <;> omega

namespace Representable

variable {d : PeatDocument} (h : d.Representable)
include h

theorem peripheral_read :
    (d.peripheral.bind fun p => Peripheral.decode p.encode) = d.peripheral := by
  cases hp : d.peripheral with
  | none => rfl
  | some p => exact Peripheral.decode_encode (h.peripheral_valid p hp)

theorem emergency_read :
    (d.emergency.bind fun e => EmergencyEvent.decode e.encode) = d.emergency := by
  cases he : d.emergency with
  | none => rfl
  | some e => exact EmergencyEvent.decode_encode_of_valid (h.emergency_valid e he)

theorem emergency_fits (e : EmergencyEvent) (he : d.emergency = some e) :
    e.encode.length < 65536 := by
  have hacks := (h.emergency_valid e he).acks_le
  unfold maxEmergencyAcks at hacks
  rw [EmergencyEvent.encode_length]
  omega

end Representable

theorem decode_encode {d : PeatDocument} (h : d.Representable) : decode d.encode = some d := by
  rw [decode_encode_sections h.counter_le, parseSections_sections h.emergency_fits,
    h.peripheral_read, h.emergency_read, GCounter.filter_ne_zero h.zero_not_mem]

/-- The counter comes back whatever becomes of the sections. -/
theorem exists_decode_encode {d : PeatDocument} (h : d.counter.counts.size ≤ maxCounterEntries)
    (hzero : 0 ∉ d.counter.counts) :
    ∃ received, decode d.encode = some received ∧ received.nodeId = d.nodeId ∧
      received.counter = d.counter := by
  exact ⟨_, decode_encode_sections h, rfl, GCounter.filter_ne_zero hzero⟩

theorem document_round_trip {d : PeatDocument} (h : d.Representable) :
    decode d.encode = some d ∧ d.encodedSize = d.encode.length :=
  ⟨decode_encode h, d.encodedSize_eq⟩

/-- A document with every optional part present. -/
def fieldReport : PeatDocument where
  version := 7
  nodeId := 0x12345678
  counter := (GCounter.new.increment 0x12345678 5).increment 9 2
  peripheral := some
    { ((Peripheral.new 0x12345678 .soldierSensor).setCallsign "ALPHA-1").setEvent .emergency
        1700000000000 with
      health := ⟨85, some 72, 1, 2⟩
      location := some ⟨0x4216B3D0, 0xC2F4D5A1, some 0x42C80000, some 0x40A00000⟩ }
  emergency := some (EmergencyEvent.new 0x12345678 1700000000000 [9, 11])

theorem fieldReport_round_trip :
    decode fieldReport.encode = some fieldReport ∧
      fieldReport.encodedSize = fieldReport.encode.length := by
  refine document_round_trip ⟨by decide, by decide, ?_, ?_⟩
  · intro p hp
    obtain rfl := Option.some.inj hp
    refine ⟨by decide, by decide, ⟨by decide, by decide, ?_⟩, ?_, ?_, by decide⟩
    · rintro rate hrate
      obtain rfl := Option.some.inj hrate
      decide
    · rintro event hevent
      obtain rfl := Option.some.inj hevent
      exact Or.inr (by decide)
    · rintro location hlocation
      obtain rfl := Option.some.inj hlocation
      refine ⟨by decide, by decide, by decide, by decide, ?_, ?_⟩ <;>
        · rintro x hx
          obtain rfl := Option.some.inj hx
          decide
  · intro e he
    obtain rfl := Option.some.inj he
    exact ⟨⟨by decide, by decide⟩, by decide, by decide⟩

/-! ## What is accepted -/

theorem valid_of_parseSections {data : Bytes} {fuel offset : Nat} {p : Option Peripheral}
    {e : Option EmergencyEvent} (hp : ∀ x, p = some x → x.Valid) (he : ∀ x, e = some x → x.Valid) :
    (∀ x, (parseSections data fuel offset p e).1 = some x → x.Valid) ∧
      ∀ x, (parseSections data fuel offset p e).2 = some x → x.Valid := by
  induction fuel generalizing offset p e with
  | zero => exact ⟨hp, he⟩
  | succ fuel ih =>
      simp only [parseSections]
      by_cases hend : offset < data.length
      · rw [if_pos hend]
        cases sectionAt data offset with
        | none => exact ⟨hp, he⟩
        | some found =>
            dsimp only
            split_ifs
            · exact ih (fun x hx => Peripheral.valid_of_decode hx) he
            · exact ih hp fun x hx => EmergencyEvent.valid_of_decode hx
            · exact ih hp he
            · exact ⟨hp, he⟩
      · rw [if_neg hend]
        exact ⟨hp, he⟩

/-- Whatever the decoder accepts can be sent again. -/
theorem representable_of_decode {data : Bytes} {d : PeatDocument} (h : decode data = some d) :
    d.Representable := by
  unfold decode at h
  split at h
  · cases h
  obtain ⟨counter, hcounter, h⟩ := Option.bind_eq_some_iff.mp h
  dsimp only at h
  obtain rfl := Option.some.inj h
  have hcounter := GCounter.valid_of_decode hcounter
  have hnone : ∀ {α : Type} {P : α → Prop}, ∀ x, (none : Option α) = some x → P x := by simp
  have hsections := @valid_of_parseSections data data.length
    (8 + 4 + (u32At data 8).toNat * 12) none none hnone hnone
  exact ⟨hcounter.1, hcounter.2, hsections.1, hsections.2⟩

end PeatDocument

end PeatBtle
