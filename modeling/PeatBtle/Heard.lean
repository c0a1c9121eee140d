import Mathlib.Data.List.GetD
import Mathlib.Data.List.Dedup
import PeatBtle.Data.LoggedRun
import PeatBtle.DocumentSync

/-!
# Being heard

A node is heard when its document decodes to what it holds. Decoders check more
than mutators do, so being heard is a matter of the arguments: each operation
has a condition under which it keeps a node heard, and no weaker one would do.
-/

namespace PeatBtle

open Wire MapMerge

namespace Peripheral

/-- What is left of a callsign after twelve bytes, or before its first NUL, is still text. -/
def CallsignFits (callsign : String) : Prop :=
  isUtf8 (((utf8 callsign).take 12).takeWhile fun byte => !(byte == 0)) = true

instance (callsign : String) : Decidable (CallsignFits callsign) :=
  inferInstanceAs (Decidable (_ = true))

theorem take_callsignLen (callsign : Vector UInt8 12) :
    callsign.toList.take (callsignLen callsign) =
      callsign.toList.takeWhile fun byte => !(byte == 0) := by
  rw [callsignLen]
  generalize callsign.toList = bytes
  induction bytes with
  | nil => rfl
  | cons byte bytes ih =>
      by_cases hzero : (byte == 0) = true
      · simp [List.findIdx_cons, hzero]
      · simp [List.findIdx_cons, hzero, ih]

theorem toList_copyCallsign (callsign : String) :
    (copyCallsign (Vector.replicate 12 0) callsign).toList =
      (utf8 callsign).take 12 ++ List.replicate (12 - (utf8 callsign).length) 0 := by
  apply List.ext_getElem
  · simp only [Vector.length_toList, List.length_append, List.length_take, List.length_replicate]
    omega
  · intro i hleft hright
    have hi : i < 12 := by simpa using hleft
    simp only [copyCallsign, Vector.getElem_toList, Vector.getElem_ofFn]
    by_cases hshort : i < (utf8 callsign).length
    · rw [List.getElem_append_left (by simp; omega), List.getElem_take,
        List.getD_eq_getElem _ _ hshort]
    · rw [List.getElem_append_right (by simp; omega), List.getD_eq_default _ _ (by omega)]
      simp [Vector.get]

theorem takeWhile_append_zeros (bytes : Bytes) (n : Nat) :
    (bytes ++ List.replicate n 0).takeWhile (fun byte => !(byte == 0)) =
      bytes.takeWhile fun byte => !(byte == 0) := by
  induction bytes with
  | nil =>
      cases n with
      | zero => rfl
      | succ n => rfl
  | cons byte bytes ih => simp [List.takeWhile_cons, ih]

/-- The callsign check of the decoder, in terms of the text. -/
theorem callsign_utf8_iff (callsign : String) :
    isUtf8 ((copyCallsign (Vector.replicate 12 0) callsign).toList.take
        (callsignLen (copyCallsign (Vector.replicate 12 0) callsign))) = true ↔
      CallsignFits callsign := by
  rw [take_callsignLen, toList_copyCallsign, takeWhile_append_zeros, CallsignFits]

/-! ## One field at a time -/

section Fields

variable {p : Peripheral}

theorem Valid.callsign_iff (h : p.Valid) (callsign : String) :
    (p.setCallsign callsign).Valid ↔ CallsignFits callsign := by
  rw [← callsign_utf8_iff]
  exact ⟨fun v => v.callsign_utf8, fun v => { h with callsign_utf8 := v }⟩

theorem Valid.health_iff (h : p.Valid) (health : HealthStatus) :
    Valid { p with health := health } ↔ health.Valid :=
  ⟨fun v => v.health_valid, fun v => { h with health_valid := v }⟩

theorem Valid.location_iff (h : p.Valid) (location : Option Position) :
    Valid { p with location := location } ↔ ∀ pos, location = some pos → pos.Valid :=
  ⟨fun v => v.location_valid, fun v => { h with location_valid := v }⟩

theorem Valid.setEvent_iff (h : p.Valid) (eventType : EventType) (timestamp : UInt64) :
    (p.setEvent eventType timestamp).Valid ↔ timestampOk timestamp := by
  refine ⟨fun v => v.timestamp_ok, fun v => { h with event_valid := ?_, timestamp_ok := v }⟩
  rintro event ⟨⟩
  exact v

theorem Valid.clearEvent (h : p.Valid) : p.clearEvent.Valid :=
  { h with event_valid := fun _ hnone => by cases hnone }

theorem elim_withAltitude (latitude longitude : F32) (altitude : Option F32) :
    altitude.elim (Position.new latitude longitude) (Position.new latitude longitude).withAltitude =
      ⟨latitude, longitude, altitude, none⟩ := by
  cases altitude <;> rfl

end Fields

end Peripheral

namespace HealthStatus

variable {s : HealthStatus}

def RateFits (rate : UInt8) : Prop := minHeartRate ≤ rate ∧ rate ≤ maxHeartRate

theorem Valid.battery_iff (h : s.Valid) (percent : UInt8) :
    Valid { s with batteryPercent := percent } ↔ percent ≤ maxBatteryPercent :=
  ⟨fun v => v.battery_le, fun v => { h with battery_le := v }⟩

theorem Valid.activity_iff (h : s.Valid) (activity : UInt8) :
    Valid { s with activity := activity } ↔ activity ≤ 3 :=
  ⟨fun v => v.activity_le, fun v => { h with activity_le := v }⟩

theorem Valid.rate_iff (h : s.Valid) (rate : UInt8) :
    Valid { s with heartRate := some rate } ↔ RateFits rate := by
  refine ⟨fun v => v.heart_rate_ok rate rfl, fun v => { h with heart_rate_ok := ?_ }⟩
  rintro other ⟨⟩
  exact v

end HealthStatus

namespace GCounter

/-- What the decoder takes of a counter. -/
def Fits (c : GCounter) : Prop := c.counts.size ≤ maxCounterEntries ∧ 0 ∉ c.counts

variable {c other : GCounter}

theorem Fits.increment_iff (h : c.Fits) {node : NodeId} (hnode : node ≠ 0) (amount : UInt64) :
    (c.increment node amount).Fits ↔ node ∈ c.counts ∨ c.counts.size < maxCounterEntries := by
  have hzero : 0 ∉ upsert 0 saturatingAdd c.counts (node, amount) := by
    rw [mem_upsert]
    rintro (heq | hmem)
    · exact hnode heq.symm
    · exact h.2 hmem
  have hle := h.1
  rw [Fits, increment, and_iff_left hzero, size_upsert]
  by_cases hmem : node ∈ c.counts
  · simp only [hmem, if_true, true_or, iff_true]
    exact hle
  · simp only [hmem, if_false, false_or]
    omega

/-- The entries of another counter for nodes that this one does not have. -/
def newEntries (c other : GCounter) : List (UInt32 × UInt64) :=
  other.entries.filter fun entry => decide (entry.1 ∉ c.counts)

theorem Fits.merge_iff (h : c.Fits) (hother : other.Fits) :
    (c.merge other).Fits ↔ c.counts.size + (c.newEntries other).length ≤ maxCounterEntries := by
  have hzero : 0 ∉ mergeWith 0 max c.counts other.counts := by
    rw [mem_mergeWith]
    rintro (hmem | hmem)
    · exact h.2 hmem
    · exact hother.2 hmem
  rw [Fits, merge, and_iff_left hzero, size_mergeWith]
  rfl

end GCounter

namespace EmergencyEvent

variable {e other : EmergencyEvent}

theorem mem_track {acks : Map UInt32 Bool} {node k : UInt32} :
    k ∈ track acks node ↔ k = node ∨ k ∈ acks := by
  rw [track, Std.ExtTreeMap.mem_alter]
  by_cases hkey : k = node
  · simp [hkey]
  · simp [hkey, Ne.symm hkey]

theorem mem_new {source k : UInt32} {timestamp : UInt64} {peers : List UInt32} :
    k ∈ (new source timestamp peers).acks ↔ k ∈ source :: peers := by
  have hfold : ∀ acks : Map UInt32 Bool, source ∈ acks →
      (k ∈ peers.foldl (fun acks peer => if peer ≠ source then track acks peer else acks) acks ↔
        k ∈ acks ∨ k ∈ peers) := by
    intro acks hsource
    induction peers generalizing acks with
    | nil => simp
    | cons peer peers ih =>
        rw [List.foldl_cons]
        by_cases hpeer : peer = source
        · subst hpeer
          rw [if_neg (by simp), ih acks hsource, List.mem_cons]
          constructor
          · rintro (hmem | hmem)
            · exact Or.inl hmem
            · exact Or.inr (Or.inr hmem)
          · rintro (hmem | rfl | hmem)
            · exact Or.inl hmem
            · exact Or.inl hsource
            · exact Or.inr hmem
        · rw [if_pos hpeer, ih _ (mem_track.mpr (Or.inr hsource)), mem_track, List.mem_cons]
          tauto
  rw [new, hfold _ (by simp), Std.ExtTreeMap.mem_insert, Std.LawfulEqCmp.compare_eq_iff_eq,
    List.mem_cons]
  simp [eq_comm]

/-- One entry for the source and for each different peer. -/
theorem size_new (source : UInt32) (timestamp : UInt64) (peers : List UInt32) :
    (new source timestamp peers).acks.size = (source :: peers).dedup.length := by
  rw [← Std.ExtTreeMap.length_keys]
  apply List.Perm.length_eq
  rw [List.perm_ext_iff_of_nodup Std.ExtTreeMap.nodup_keys (List.nodup_dedup _)]
  intro k
  rw [Std.ExtTreeMap.mem_keys, mem_new, List.mem_dedup]

theorem new_valid_iff {source : UInt32} (hsource : source ≠ 0) (timestamp : UInt64)
    (peers : List UInt32) :
    (new source timestamp peers).Valid ↔
      minValidTimestamp ≤ timestamp ∧ 0 ∉ peers ∧
        (source :: peers).dedup.length ≤ maxEmergencyAcks := by
  have hzero : 0 ∉ (new source timestamp peers).acks ↔ 0 ∉ peers := by
    rw [mem_new, List.mem_cons, or_iff_right hsource.symm]
  constructor
  · intro h
    exact ⟨h.timestamp_ge, hzero.mp h.zero_not_mem, by rw [← size_new]; exact h.acks_le⟩
  · rintro ⟨htime, hpeers, hsize⟩
    exact ⟨⟨hsource, htime⟩, by rw [size_new]; exact hsize, hzero.mpr hpeers⟩

theorem Valid.ack_iff (h : e.Valid) {node : NodeId} (hnode : node ≠ 0) :
    (e.ack node).1.Valid ↔ node ∈ e.acks ∨ e.acks.size < maxEmergencyAcks := by
  have hzero : 0 ∉ e.acks.insert node true := by
    rw [Std.ExtTreeMap.mem_insert, Std.LawfulEqCmp.compare_eq_iff_eq]
    rintro (heq | hmem)
    · exact hnode heq
    · exact h.zero_not_mem hmem
  have hsize : (e.acks.insert node true).size ≤ maxEmergencyAcks ↔
      node ∈ e.acks ∨ e.acks.size < maxEmergencyAcks := by
    have hle := h.acks_le
    rw [Std.ExtTreeMap.size_insert]
    by_cases hmem : node ∈ e.acks
    · simp only [Std.ExtTreeMap.contains_iff_mem, hmem, if_true, true_or, iff_true]
      exact hle
    · simp only [Std.ExtTreeMap.contains_iff_mem, hmem, if_false, false_or]
      omega
  rw [← hsize]
  exact ⟨fun v => v.acks_le, fun v => ⟨⟨h.source_ne_zero, h.timestamp_ge⟩, v, hzero⟩⟩

/-- The acknowledgements of another event for nodes that this one does not track. -/
def newAcks (e other : EmergencyEvent) : List (UInt32 × Bool) :=
  other.acks.toList.filter fun entry => decide (entry.1 ∉ e.acks)

theorem Valid.merge_iff (h : e.Valid) (hother : other.Valid) :
    (e.merge other).1.Valid ↔
      (e.SameEvent other → e.acks.size + (e.newAcks other).length ≤ maxEmergencyAcks) := by
  by_cases hsame : e.SameEvent other
  · have hzero : 0 ∉ mergeWith false or e.acks other.acks := by
      rw [mem_mergeWith]
      rintro (hmem | hmem)
      · exact h.zero_not_mem hmem
      · exact hother.zero_not_mem hmem
    have hsize := size_mergeWith false or e.acks other.acks
    rw [merge_of_sameEvent hsame]
    constructor
    · intro v _
      have hle := v.acks_le
      dsimp only at hle
      rwa [hsize] at hle
    · intro v
      refine ⟨⟨h.source_ne_zero, h.timestamp_ge⟩, ?_, hzero⟩
      dsimp only
      rw [hsize]
      exact v hsame
  · refine iff_of_true ?_ (fun hs => absurd hs hsame)
    by_cases hle : other.timestamp ≤ e.timestamp
    · rw [merge_of_not_newer hsame hle]
      exact h
    · rw [merge_of_newer (UInt64.not_le.mp hle)]
      exact hother

end EmergencyEvent

namespace DocumentSync

/-- The document decodes to the node's own counter, peripheral and emergency. -/
def Heard (s : DocumentSync) : Prop :=
  ∃ received, PeatDocument.decode s.buildDocument = some received ∧ received.counter = s.counter ∧
    received.peripheral = some s.peripheral ∧ received.emergency = s.emergency

/-- A node is heard exactly when what it holds passes the decoders' checks. -/
theorem heard_iff {s : DocumentSync} :
    s.Heard ↔ s.counter.Fits ∧ s.peripheral.Valid ∧ ∀ e, s.emergency = some e → e.Valid := by
  constructor
  · rintro ⟨received, hdecode, hcounter, hperipheral, hemergency⟩
    have hvalid := PeatDocument.representable_of_decode hdecode
    refine ⟨?_, hvalid.peripheral_valid _ hperipheral, ?_⟩
    · rw [← hcounter]
      exact ⟨hvalid.counter_le, hvalid.zero_not_mem⟩
    · rw [← hemergency]
      exact hvalid.emergency_valid
  · rintro ⟨hcounter, hperipheral, hemergency⟩
    have hvalid : s.toDocument.Representable := by
      refine ⟨hcounter.1, hcounter.2, ?_, hemergency⟩
      rintro p ⟨⟩
      exact hperipheral
    exact ⟨s.toDocument, PeatDocument.decode_encode hvalid, rfl, rfl, rfl⟩

/-! ## Conditions on the operations -/

/-- The node's own entry exists or there is room for it. -/
def CountRoom (s : DocumentSync) : Prop :=
  s.nodeId ∈ s.counter.counts ∨ s.counter.counts.size < maxCounterEntries

def PeripheralUpdate.Fits (u : PeripheralUpdate) : Prop :=
  Peripheral.CallsignFits u.callsign ∧ u.batteryPercent ≤ maxBatteryPercent ∧
    (∀ rate, u.heartRate = some rate → HealthStatus.RateFits rate) ∧
    (∀ latitude longitude, u.latitude = some latitude → u.longitude = some longitude →
      Position.Valid ⟨latitude, longitude, u.altitude, none⟩) ∧
    timestampOk u.timestamp

/-- The arguments that keep a node heard. -/
def MutationFits (s : DocumentSync) : Mutation → Prop
  | .sendEmergency timestamp => timestampOk timestamp ∧ s.CountRoom
  | .sendAck timestamp => timestampOk timestamp ∧ s.CountRoom
  | .clearEvent => True
  | .incrementCounter => s.CountRoom
  | .updateHealth batteryPercent => batteryPercent ≤ maxBatteryPercent
  | .updateActivity activity => activity ≤ 3
  | .updateHealthFull batteryPercent activity => batteryPercent ≤ maxBatteryPercent ∧ activity ≤ 3
  | .updateHeartRate heartRate => HealthStatus.RateFits heartRate
  | .updateLocation latitude longitude altitude =>
      Position.Valid ⟨latitude, longitude, altitude, none⟩
  | .clearLocation => True
  | .updateCallsign callsign => Peripheral.CallsignFits callsign
  | .setPeripheralEvent _ timestamp => timestampOk timestamp
  | .clearPeripheralEvent => True
  | .updatePeripheralState update => update.Fits
  | .startEmergency timestamp knownPeers =>
      minValidTimestamp ≤ timestamp ∧ 0 ∉ knownPeers ∧
        (s.nodeId :: knownPeers).dedup.length ≤ maxEmergencyAcks ∧ s.CountRoom
  | .ackEmergency timestamp => ∀ e, s.emergency = some e → e.hasAcked s.nodeId = false →
      (s.nodeId ∈ e.acks ∨ e.acks.size < maxEmergencyAcks) ∧ timestampOk timestamp ∧ s.CountRoom
  | .clearEmergency => True

/-- A received document leaves room for all nodes it brings. -/
def MergeFits (s : DocumentSync) (received : PeatDocument) : Prop :=
  s.counter.counts.size + (s.counter.newEntries received.counter).length ≤ maxCounterEntries ∧
    ∀ e other, s.emergency = some e → received.emergency = some other → e.SameEvent other →
      e.acks.size + (e.newAcks other).length ≤ maxEmergencyAcks

def Fits (s : DocumentSync) : Action → Prop
  | .mutate mutation => s.MutationFits mutation
  | .merge data => ∀ received, PeatDocument.decode data = some received →
      received.nodeId ≠ s.nodeId → s.MergeFits received

namespace PeripheralUpdate

variable (u : PeripheralUpdate) (p : Peripheral)

theorem callsign_apply : (u.apply p).callsign = (p.setCallsign u.callsign).callsign := by
  obtain ⟨_, _, rate, latitude, longitude, _, event, _⟩ := u
  cases rate <;> cases latitude <;> cases longitude <;> cases event <;> rfl

theorem health_apply :
    (u.apply p).health =
      { p.health with
        batteryPercent := u.batteryPercent
        heartRate := u.heartRate.elim p.health.heartRate some } := by
  obtain ⟨_, _, rate, latitude, longitude, _, event, _⟩ := u
  cases rate <;> cases latitude <;> cases longitude <;> cases event <;> rfl

theorem location_apply :
    (u.apply p).location =
      u.latitude.bind fun latitude => u.longitude.map fun longitude =>
        ⟨latitude, longitude, u.altitude, none⟩ := by
  obtain ⟨_, _, rate, latitude, longitude, altitude, event, _⟩ := u
  cases rate <;> cases latitude <;> cases longitude <;> cases event <;> cases altitude <;> rfl

theorem lastEvent_apply :
    (u.apply p).lastEvent = u.eventType.elim p.lastEvent fun event => some ⟨event, u.timestamp⟩ := by
  obtain ⟨_, _, rate, latitude, longitude, _, event, _⟩ := u
  cases rate <;> cases latitude <;> cases longitude <;> cases event <;>
    simp [apply, Peripheral.setCallsign, Peripheral.setLocation, Peripheral.clearLocation,
      Peripheral.setEvent]

theorem id_apply : (u.apply p).id = p.id := by
  obtain ⟨_, _, rate, latitude, longitude, _, event, _⟩ := u
  cases rate <;> cases latitude <;> cases longitude <;> cases event <;>
    simp [apply, Peripheral.setCallsign, Peripheral.setLocation, Peripheral.clearLocation,
      Peripheral.setEvent]

variable {p}

/-- All fields of a state update are set at once, and each is checked on its own. -/
theorem valid_iff (h : p.Valid) : (u.apply p).Valid ↔ u.Fits := by
  have hcallsign := h.callsign_iff u.callsign
  constructor
  · intro v
    refine ⟨hcallsign.mp ?_, ?_, ?_, ?_, v.timestamp_ok⟩
    · have hutf8 := v.callsign_utf8
      rw [callsign_apply] at hutf8
      exact { h with callsign_utf8 := hutf8 }
    · have hbattery := v.health_valid.battery_le
      rwa [health_apply] at hbattery
    · intro rate hrate
      have hok := v.health_valid.heart_rate_ok rate
      rw [health_apply, hrate] at hok
      exact hok rfl
    · intro latitude longitude hlatitude hlongitude
      refine v.location_valid _ ?_
      rw [location_apply, hlatitude, hlongitude]
      rfl
  · rintro ⟨hname, hbattery, hrate, hlocation, htime⟩
    refine ⟨?_, ?_, ?_, ?_, ?_, htime⟩
    · rw [id_apply]
      exact h.id_ne_zero
    · rw [callsign_apply]
      exact (hcallsign.mpr hname).callsign_utf8
    · rw [health_apply]
      refine ⟨hbattery, h.health_valid.activity_le, ?_⟩
      intro rate hheld
      cases hnew : u.heartRate with
      | none =>
          rw [hnew] at hheld
          exact h.health_valid.heart_rate_ok rate hheld
      | some other =>
          rw [hnew] at hheld
          obtain rfl := Option.some.inj hheld
          exact hrate _ hnew
    · rw [lastEvent_apply]
      cases u.eventType with
      | none => exact h.event_valid
      | some event =>
          rintro signalled ⟨⟩
          exact htime
    · rw [location_apply]
      intro location hheld
      obtain ⟨latitude, hlatitude, hrest⟩ := Option.bind_eq_some_iff.mp hheld
      obtain ⟨longitude, hlongitude, rfl⟩ := Option.map_eq_some_iff.mp hrest
      exact hlocation latitude longitude hlatitude hlongitude

end PeripheralUpdate

section Steps

variable {s : DocumentSync}

theorem Heard.modifyPeripheral_iff (h : s.Heard) (f : Peripheral → Peripheral) :
    (s.modifyPeripheral f).Heard ↔ (f s.peripheral).Valid := by
  rw [heard_iff] at h ⊢
  exact ⟨fun v => v.2.1, fun v => ⟨h.1, v, h.2.2⟩⟩

theorem Heard.increment_iff (h : s.Heard) (hnode : s.nodeId ≠ 0) :
    s.incrementCounterInternal.Heard ↔ s.CountRoom := by
  rw [heard_iff] at h ⊢
  refine Iff.trans ?_ (h.1.increment_iff hnode 1)
  exact ⟨fun v => v.1, fun v => ⟨v, h.2⟩⟩

/-- An event together with an increment. -/
theorem heard_signal_iff (hcounter : s.counter.Fits) (hperipheral : s.peripheral.Valid)
    (hnode : s.nodeId ≠ 0) (emergency : Option EmergencyEvent) (eventType : EventType)
    (timestamp : UInt64) :
    ((setEvent { s with emergency := emergency } eventType timestamp).incrementCounterInternal).Heard ↔
      (∀ e, emergency = some e → e.Valid) ∧ timestampOk timestamp ∧ s.CountRoom := by
  have hevent := hperipheral.setEvent_iff eventType timestamp
  have hroom := hcounter.increment_iff hnode 1
  rw [heard_iff]
  constructor
  · rintro ⟨hc, hp, he⟩
    exact ⟨he, hevent.mp hp, hroom.mp hc⟩
  · rintro ⟨he, htime, hc⟩
    exact ⟨hroom.mpr hc, hevent.mpr htime, he⟩

theorem Heard.startEmergency_iff (h : s.Heard) (hnode : s.nodeId ≠ 0) (timestamp : UInt64)
    (knownPeers : List UInt32) :
    (s.startEmergency timestamp knownPeers).1.Heard ↔
      s.MutationFits (.startEmergency timestamp knownPeers) := by
  obtain ⟨hcounter, hperipheral, -⟩ := heard_iff.mp h
  have hnew := EmergencyEvent.new_valid_iff hnode timestamp knownPeers
  refine (heard_signal_iff hcounter hperipheral hnode _ _ timestamp).trans ?_
  constructor
  · rintro ⟨he, -, hroom⟩
    obtain ⟨htime, hpeers, hsize⟩ := hnew.mp (he _ rfl)
    exact ⟨htime, hpeers, hsize, hroom⟩
  · rintro ⟨htime, hpeers, hsize, hroom⟩
    refine ⟨?_, Or.inr htime, hroom⟩
    rintro e ⟨⟩
    exact hnew.mpr ⟨htime, hpeers, hsize⟩

theorem Heard.ackEmergency_iff (h : s.Heard) (hnode : s.nodeId ≠ 0) (timestamp : UInt64) :
    (s.ackEmergency timestamp).1.Heard ↔ s.MutationFits (.ackEmergency timestamp) := by
  obtain ⟨hcounter, hperipheral, hemergency⟩ := heard_iff.mp h
  unfold ackEmergency MutationFits
  cases he : s.emergency with
  | none => exact iff_of_true h (fun _ hnone => by cases hnone)
  | some e =>
      have hack := (hemergency e he).ack_iff hnode
      cases hacked : e.hasAcked s.nodeId with
      | false =>
          simp only [EmergencyEvent.ack, hacked, Bool.not_false, if_true]
          refine (heard_signal_iff hcounter hperipheral hnode _ _ timestamp).trans ?_
          constructor
          · rintro ⟨hvalid, htime, hroom⟩ event ⟨⟩ -
            exact ⟨hack.mp (hvalid _ rfl), htime, hroom⟩
          · intro hfits
            obtain ⟨hmem, htime, hroom⟩ := hfits e rfl hacked
            refine ⟨?_, htime, hroom⟩
            rintro event ⟨⟩
            exact hack.mpr hmem
      | true =>
          -- already acknowledged, so the node is tracked and no entry is added
          have hmem : s.nodeId ∈ e.acks := by
            by_contra hnot
            simp [EmergencyEvent.hasAcked, hnot] at hacked
          have hvalid := hack.mpr (Or.inl hmem)
          simp only [EmergencyEvent.ack, hacked, Bool.not_true, Bool.false_eq_true, if_false]
          refine iff_of_true (heard_iff.mpr ⟨hcounter, hperipheral, ?_⟩) ?_
          · rintro event ⟨⟩
            exact hvalid
          · rintro event ⟨⟩ hfresh
            rw [hacked] at hfresh
            cases hfresh

theorem Heard.clearEmergency (h : s.Heard) : s.clearEmergency.Heard := by
  obtain ⟨hcounter, hperipheral, hemergency⟩ := heard_iff.mp h
  unfold DocumentSync.clearEmergency
  by_cases hsome : s.emergency.isSome
  · rw [if_pos hsome]
    exact heard_iff.mpr ⟨hcounter, hperipheral.clearEvent, fun _ hnone => by cases hnone⟩
  · rw [if_neg hsome]
    exact h

theorem Heard.mutate_iff (h : s.Heard) (hnode : s.nodeId ≠ 0) (mutation : Mutation) :
    (s.mutate mutation).Heard ↔ s.MutationFits mutation := by
  obtain ⟨hcounter, hperipheral, hemergency⟩ := heard_iff.mp h
  have hhealth := hperipheral.health_valid
  cases mutation with
  | sendEmergency timestamp =>
      exact (heard_signal_iff hcounter hperipheral hnode s.emergency _ timestamp).trans
        (and_iff_right hemergency)
  | sendAck timestamp =>
      exact (heard_signal_iff hcounter hperipheral hnode s.emergency _ timestamp).trans
        (and_iff_right hemergency)
  | clearEvent => exact iff_of_true ((h.modifyPeripheral_iff _).mpr hperipheral.clearEvent) trivial
  | incrementCounter => exact h.increment_iff hnode
  | updateHealth batteryPercent =>
      exact (h.modifyPeripheral_iff _).trans
        ((hperipheral.health_iff _).trans (hhealth.battery_iff batteryPercent))
  | updateActivity activity =>
      exact (h.modifyPeripheral_iff _).trans
        ((hperipheral.health_iff _).trans (hhealth.activity_iff activity))
  | updateHealthFull batteryPercent activity =>
      refine (h.modifyPeripheral_iff _).trans ((hperipheral.health_iff _).trans ?_)
      exact ⟨fun v => ⟨v.battery_le, v.activity_le⟩, fun v => ⟨v.1, v.2, hhealth.heart_rate_ok⟩⟩
  | updateHeartRate heartRate =>
      exact (h.modifyPeripheral_iff _).trans
        ((hperipheral.health_iff _).trans (hhealth.rate_iff heartRate))
  | updateLocation latitude longitude altitude =>
      refine (h.modifyPeripheral_iff _).trans ((hperipheral.location_iff _).trans ?_)
      rw [Peripheral.elim_withAltitude]
      exact ⟨fun v => v _ rfl, by rintro v pos ⟨⟩; exact v⟩
  | clearLocation =>
      refine iff_of_true ((h.modifyPeripheral_iff _).mpr ?_) trivial
      exact (hperipheral.location_iff none).mpr (fun _ hnone => by cases hnone)
  | updateCallsign callsign =>
      exact (h.modifyPeripheral_iff _).trans (hperipheral.callsign_iff callsign)
  | setPeripheralEvent eventType timestamp =>
      exact (h.modifyPeripheral_iff _).trans (hperipheral.setEvent_iff eventType timestamp)
  | clearPeripheralEvent =>
      exact iff_of_true ((h.modifyPeripheral_iff _).mpr hperipheral.clearEvent) trivial
  | updatePeripheralState update =>
      exact (h.modifyPeripheral_iff _).trans (update.valid_iff hperipheral)
  | startEmergency timestamp knownPeers => exact h.startEmergency_iff hnode timestamp knownPeers
  | ackEmergency timestamp => exact h.ackEmergency_iff hnode timestamp
  | clearEmergency => exact iff_of_true h.clearEmergency trivial

theorem Heard.mergeReceived_iff (h : s.Heard) {received : PeatDocument}
    (hreceived : received.Representable) :
    (s.mergeReceived received).1.Heard ↔ s.MergeFits received := by
  obtain ⟨hcounter, hperipheral, hemergency⟩ := heard_iff.mp h
  have hkept : (s.mergeReceived received).1.peripheral = s.peripheral := by
    unfold mergeReceived
    dsimp only
    split_ifs <;> rfl
  have hsize := hcounter.merge_iff ⟨hreceived.counter_le, hreceived.zero_not_mem⟩
  rw [heard_iff, counter_mergeReceived, emergency_mergeReceived, hkept, hsize,
    and_iff_right hperipheral, MergeFits]
  refine and_congr_right fun _ => ?_
  cases htheirs : received.emergency with
  | none => exact iff_of_true hemergency (fun _ _ _ hnone => by cases hnone)
  | some other =>
      have hother := hreceived.emergency_valid other htheirs
      cases hours : s.emergency with
      | none =>
          refine iff_of_true ?_ (fun _ _ hnone => by cases hnone)
          rintro e ⟨⟩
          exact hother
      | some e =>
          have hmerge := (hemergency e hours).merge_iff hother
          constructor
          · rintro hvalid e' other' ⟨⟩ ⟨⟩
            exact hmerge.mp (hvalid _ rfl)
          · rintro hfits e' ⟨⟩
            exact hmerge.mpr (hfits e other rfl rfl)

theorem Heard.act_iff (h : s.Heard) (hnode : s.nodeId ≠ 0) (action : Action) :
    (s.act action).Heard ↔ s.Fits action := by
  cases action with
  | mutate mutation => exact h.mutate_iff hnode mutation
  | merge data =>
      change (s.mergeDocument data).1.Heard ↔ _
      unfold mergeDocument Fits
      dsimp only
      generalize hdecode : PeatDocument.decode data = decoded
      cases decoded with
      | none => exact iff_of_true h (fun _ hnone => by cases hnone)
      | some received =>
          have hmerge := h.mergeReceived_iff (PeatDocument.representable_of_decode hdecode)
          dsimp only
          by_cases hown : received.nodeId = s.nodeId
          · rw [if_pos hown]
            refine iff_of_true h ?_
            rintro other ⟨⟩ hother
            exact absurd hown hother
          · rw [if_neg hown, hmerge]
            constructor
            · rintro hfits other ⟨⟩ -
              exact hfits
            · intro hfits
              exact hfits received rfl hown

end Steps

/-! ## Runs -/

theorem heard_withPeripheralType_iff {nodeId : NodeId} (hnode : nodeId ≠ 0) (callsign : String)
    (kind : PeripheralType) :
    (withPeripheralType nodeId callsign kind).Heard ↔ Peripheral.CallsignFits callsign := by
  have hcounter : GCounter.new.Fits := ⟨by decide, Std.ExtTreeMap.not_mem_empty⟩
  have hhealth : HealthStatus.default.Valid := ⟨by decide, by decide, fun _ hnone => by cases hnone⟩
  have hcallsign := Peripheral.callsign_utf8_iff callsign
  rw [heard_iff]
  constructor
  · rintro ⟨-, hperipheral, -⟩
    exact hcallsign.mp hperipheral.callsign_utf8
  · intro hfits
    refine ⟨hcounter, ⟨hnode, hcallsign.mpr hfits, hhealth, ?_, ?_, Or.inl rfl⟩, ?_⟩
    · exact fun _ hnone => by cases hnone
    · exact fun _ hnone => by cases hnone
    · exact fun _ hnone => by cases hnone

/-- From a state where it is heard, a node stays heard as long as the arguments fit. -/
theorem Heard.run_iff {s : DocumentSync} (h : s.Heard) (hnode : s.nodeId ≠ 0)
    (actions : List Action) :
    (∀ front, front <+: actions → (s.run front).Heard) ↔
      LoggedRun.Along act Fits s actions := by
  refine LoggedRun.forall_prefix_iff_along hnode h ?_ fun _ action hnode h => h.act_iff hnode action
  intro s action hnode
  rw [(s.act_frame action).1]
  exact hnode

/-- A node is heard all along a run if and only if its callsign at the start and the arguments
of every operation pass the checks that its peers make. -/
theorem heard_along_iff {nodeId : NodeId} (hnode : nodeId ≠ 0) (callsign : String)
    (kind : PeripheralType) (actions : List Action) :
    (∀ front, front <+: actions → ((withPeripheralType nodeId callsign kind).run front).Heard) ↔
      Peripheral.CallsignFits callsign ∧
        LoggedRun.Along act Fits (withPeripheralType nodeId callsign kind) actions := by
  have hstart := heard_withPeripheralType_iff hnode callsign kind
  constructor
  · intro hall
    have hheard := hall [] (List.nil_prefix)
    exact ⟨hstart.mp hheard, (hheard.run_iff hnode actions).mp hall⟩
  · rintro ⟨hfits, halong⟩
    exact ((hstart.mpr hfits).run_iff hnode actions).mpr halong

theorem heard_after_update :
    ((withPeripheralType 1 "ALPHA" .soldierSensor).run
      [.mutate (.updateHealth 50), .mutate (.updateCallsign "BRAVO")]).Heard := by
  have hall := (heard_along_iff (by decide : (1 : NodeId) ≠ 0) "ALPHA" .soldierSensor
    [.mutate (.updateHealth 50), .mutate (.updateCallsign "BRAVO")]).mpr
      ⟨by decide +kernel, (by decide : (50 : UInt8) ≤ maxBatteryPercent),
        (by decide +kernel : Peripheral.CallsignFits "BRAVO"), trivial⟩
  exact hall _ (List.prefix_refl _)

/-- The cut after twelve bytes falls inside the last letter, and peers get no peripheral. -/
theorem unheard_after_callsign :
    ∃ received, PeatDocument.decode ((withPeripheralType 1 "ALPHA" .soldierSensor).run
        [.mutate (.updateCallsign "ABCDEFGHIJKé")]).buildDocument = some received ∧
      received.peripheral = none ∧ ¬ ((withPeripheralType 1 "ALPHA" .soldierSensor).run
        [.mutate (.updateCallsign "ABCDEFGHIJKé")]).Heard := by
  have hunfit : ¬ Peripheral.CallsignFits "ABCDEFGHIJKé" := by decide +kernel
  have hlost : (PeatDocument.decode ((withPeripheralType 1 "ALPHA" .soldierSensor).run
      [.mutate (.updateCallsign "ABCDEFGHIJKé")]).buildDocument).map PeatDocument.peripheral =
        some none := by decide +kernel
  obtain ⟨received, hdecode, hperipheral⟩ := Option.map_eq_some_iff.mp hlost
  refine ⟨received, hdecode, hperipheral, fun hheard => hunfit ?_⟩
  exact (Peripheral.callsign_utf8_iff _).mp (heard_iff.mp hheard).2.1.callsign_utf8

end DocumentSync

end PeatBtle
