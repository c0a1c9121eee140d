import PeatBtle.Document

/-!
# Local document state

A node's own counter, peripheral and emergency, with the version that every
local change and every effective merge bumps. The version wraps at 32 bits and
leads the encoded document.
-/

namespace PeatBtle

open Wire

structure DocumentSync where
  nodeId : NodeId
  counter : GCounter
  peripheral : Peripheral
  emergency : Option EmergencyEvent
  version : UInt32
deriving DecidableEq

/-- What a merge reports to the mesh. -/
structure MergeResult where
  sourceNode : NodeId
  event : Option PeripheralEvent
  peerPeripheral : Option Peripheral
  counterChanged : Bool
  emergencyChanged : Bool
  totalCount : UInt64
deriving DecidableEq

namespace MergeResult

def isEmergency (r : MergeResult) : Bool :=
  (r.event.map fun e => decide (e.eventType = .emergency)).getD false

def isAck (r : MergeResult) : Bool := (r.event.map fun e => decide (e.eventType = .ack)).getD false

end MergeResult

namespace DocumentSync

def withPeripheralType (nodeId : NodeId) (callsign : String) (kind : PeripheralType) :
    DocumentSync where
  nodeId := nodeId
  counter := GCounter.new
  peripheral := (Peripheral.new nodeId kind).withCallsign callsign
  emergency := none
  version := 1

def new (nodeId : NodeId) (callsign : String) : DocumentSync :=
  withPeripheralType nodeId callsign .soldierSensor

def totalCount (s : DocumentSync) : UInt64 := s.counter.value

def counterEntries (s : DocumentSync) : List (UInt32 × UInt64) := s.counter.entries

def bumpVersion (s : DocumentSync) : DocumentSync := { s with version := s.version + 1 }

def incrementCounterInternal (s : DocumentSync) : DocumentSync :=
  bumpVersion { s with counter := s.counter.increment s.nodeId 1 }

/-! ## Document I/O -/

def toDocument (s : DocumentSync) : PeatDocument where
  version := s.version
  nodeId := s.nodeId
  counter := s.counter
  peripheral := some s.peripheral
  emergency := s.emergency

def buildDocument (s : DocumentSync) : Bytes := s.toDocument.encode

/-- The state after hearing an accepted document, and what to report about it. -/
def mergeReceived (s : DocumentSync) (received : PeatDocument) : DocumentSync × MergeResult :=
  let counter := s.counter.merge received.counter
  let counterChanged := counter.value != s.counter.value
  let emergency := PeatDocument.mergeEmergency s.emergency received.emergency
  let merged := { s with counter := counter, emergency := emergency.1 }
  let after := if counterChanged || emergency.2 then merged.bumpVersion else merged
  (after,
    { sourceNode := received.nodeId
      event := received.peripheral.bind Peripheral.lastEvent
      peerPeripheral := received.peripheral
      counterChanged := counterChanged
      emergencyChanged := emergency.2
      totalCount := after.totalCount })

/-- The document holds nothing that we do not have. -/
def Covers (s : DocumentSync) (received : PeatDocument) : Prop :=
  s.counter.Covers received.counter ∧ PeatDocument.EmergencyKnown s.emergency received.emergency

theorem counter_mergeReceived (s : DocumentSync) (received : PeatDocument) :
    (s.mergeReceived received).1.counter = s.counter.merge received.counter := by
  unfold mergeReceived
  dsimp only
  split_ifs <;> rfl

theorem emergency_mergeReceived (s : DocumentSync) (received : PeatDocument) :
    (s.mergeReceived received).1.emergency =
      (PeatDocument.mergeEmergency s.emergency received.emergency).1 := by
  unfold mergeReceived
  dsimp only
  split_ifs <;> rfl

theorem mergeReceived_eq_self_iff {s : DocumentSync} {received : PeatDocument} :
    (s.mergeReceived received).1 = s ↔ s.Covers received := by
  constructor
  · intro h
    have hcounter := s.counter_mergeReceived received
    have hemergency := s.emergency_mergeReceived received
    rw [h] at hcounter hemergency
    exact ⟨GCounter.merge_eq_self_iff.mp hcounter.symm,
      PeatDocument.mergeEmergency_eq_self_iff.mp hemergency.symm⟩
  · rintro ⟨hcounter, hemergency⟩
    have hunreported := PeatDocument.mergeEmergency_unreported hemergency
    rw [← GCounter.merge_eq_self_iff] at hcounter
    rw [← PeatDocument.mergeEmergency_eq_self_iff] at hemergency
    simp only [mergeReceived, hcounter, hemergency, hunreported, bne_self_eq_false, Bool.or_false,
      Bool.false_eq_true, if_false]

/-- Malformed documents and our own are refused. -/
def mergeDocument (s : DocumentSync) (data : Bytes) : DocumentSync × Option MergeResult :=
  match PeatDocument.decode data with
  | none => (s, none)
  | some received =>
      if received.nodeId = s.nodeId then (s, none)
      else
        let merged := s.mergeReceived received
        (merged.1, some merged.2)

/-! ## Local changes -/

/-- Change the peripheral and bump the version. -/
def modifyPeripheral (s : DocumentSync) (f : Peripheral → Peripheral) : DocumentSync :=
  bumpVersion { s with peripheral := f s.peripheral }

/-- Record an event on the peripheral without bumping the version. -/
def setEvent (s : DocumentSync) (eventType : EventType) (timestamp : UInt64) : DocumentSync :=
  { s with peripheral := s.peripheral.setEvent eventType timestamp }

def sendEmergency (s : DocumentSync) (timestamp : UInt64) : DocumentSync × Bytes :=
  let sent := (s.setEvent .emergency timestamp).incrementCounterInternal
  (sent, sent.buildDocument)

def sendAck (s : DocumentSync) (timestamp : UInt64) : DocumentSync × Bytes :=
  let sent := (s.setEvent .ack timestamp).incrementCounterInternal
  (sent, sent.buildDocument)

def clearEvent (s : DocumentSync) : DocumentSync := s.modifyPeripheral Peripheral.clearEvent

def incrementCounter (s : DocumentSync) : DocumentSync := s.incrementCounterInternal

def updateHealth (s : DocumentSync) (batteryPercent : UInt8) : DocumentSync :=
  s.modifyPeripheral fun p => { p with health := { p.health with batteryPercent := batteryPercent } }

def updateActivity (s : DocumentSync) (activity : UInt8) : DocumentSync :=
  s.modifyPeripheral fun p => { p with health := { p.health with activity := activity } }

def updateHealthFull (s : DocumentSync) (batteryPercent activity : UInt8) : DocumentSync :=
  s.modifyPeripheral fun p =>
    { p with health := { p.health with batteryPercent := batteryPercent, activity := activity } }

def updateHeartRate (s : DocumentSync) (heartRate : UInt8) : DocumentSync :=
  s.modifyPeripheral fun p => { p with health := { p.health with heartRate := some heartRate } }

def updateLocation (s : DocumentSync) (latitude longitude : F32) (altitude : Option F32) :
    DocumentSync :=
  s.modifyPeripheral fun p => p.setLocation latitude longitude altitude

def clearLocation (s : DocumentSync) : DocumentSync := s.modifyPeripheral Peripheral.clearLocation

def updateCallsign (s : DocumentSync) (callsign : String) : DocumentSync :=
  s.modifyPeripheral fun p => p.setCallsign callsign

def setPeripheralEvent (s : DocumentSync) (eventType : EventType) (timestamp : UInt64) :
    DocumentSync :=
  s.modifyPeripheral fun p => p.setEvent eventType timestamp

def clearPeripheralEvent (s : DocumentSync) : DocumentSync :=
  s.modifyPeripheral Peripheral.clearEvent

/-- The arguments of `update_peripheral_state`. -/
structure PeripheralUpdate where
  callsign : String
  batteryPercent : UInt8
  heartRate : Option UInt8
  latitude : Option F32
  longitude : Option F32
  altitude : Option F32
  eventType : Option EventType
  timestamp : UInt64

/-- A location needs both coordinates; with either missing it is cleared. -/
def PeripheralUpdate.apply (u : PeripheralUpdate) (p : Peripheral) : Peripheral :=
  let named := p.setCallsign u.callsign
  let charged := { named with health := { named.health with batteryPercent := u.batteryPercent } }
  let beating := u.heartRate.elim charged fun rate =>
    { charged with health := { charged.health with heartRate := some rate } }
  let located := match u.latitude, u.longitude with
    | some latitude, some longitude => beating.setLocation latitude longitude u.altitude
    | _, _ => beating.clearLocation
  let signalled := u.eventType.elim located fun event => located.setEvent event u.timestamp
  { signalled with timestamp := u.timestamp }

def updatePeripheralState (s : DocumentSync) (u : PeripheralUpdate) : DocumentSync :=
  s.modifyPeripheral u.apply

/-! ## Emergencies -/

def startEmergency (s : DocumentSync) (timestamp : UInt64) (knownPeers : List UInt32) :
    DocumentSync × Bytes :=
  let declared := { s with emergency := some (EmergencyEvent.new s.nodeId timestamp knownPeers) }
  let started := (declared.setEvent .emergency timestamp).incrementCounterInternal
  (started, started.buildDocument)

/-- A repeated acknowledgement only sends the document again. -/
def ackEmergency (s : DocumentSync) (timestamp : UInt64) : DocumentSync × Option Bytes :=
  match s.emergency with
  | none => (s, none)
  | some e =>
      let acked := { s with emergency := some (e.ack s.nodeId).1 }
      let after := if (e.ack s.nodeId).2 then (acked.setEvent .ack timestamp).incrementCounterInternal
        else acked
      (after, some after.buildDocument)

def clearEmergency (s : DocumentSync) : DocumentSync :=
  if s.emergency.isSome then
    ({ s with emergency := none }).modifyPeripheral Peripheral.clearEvent
  else s

/-! ## Runs -/

/-- The public operations that change a node's own state. -/
inductive Mutation where
  | sendEmergency (timestamp : UInt64)
  | sendAck (timestamp : UInt64)
  | clearEvent
  | incrementCounter
  | updateHealth (batteryPercent : UInt8)
  | updateActivity (activity : UInt8)
  | updateHealthFull (batteryPercent activity : UInt8)
  | updateHeartRate (heartRate : UInt8)
  | updateLocation (latitude longitude : F32) (altitude : Option F32)
  | clearLocation
  | updateCallsign (callsign : String)
  | setPeripheralEvent (eventType : EventType) (timestamp : UInt64)
  | clearPeripheralEvent
  | updatePeripheralState (update : PeripheralUpdate)
  | startEmergency (timestamp : UInt64) (knownPeers : List UInt32)
  | ackEmergency (timestamp : UInt64)
  | clearEmergency

def mutate (s : DocumentSync) : Mutation → DocumentSync
  | .sendEmergency timestamp => (s.sendEmergency timestamp).1
  | .sendAck timestamp => (s.sendAck timestamp).1
  | .clearEvent => s.clearEvent
  | .incrementCounter => s.incrementCounter
  | .updateHealth batteryPercent => s.updateHealth batteryPercent
  | .updateActivity activity => s.updateActivity activity
  | .updateHealthFull batteryPercent activity => s.updateHealthFull batteryPercent activity
  | .updateHeartRate heartRate => s.updateHeartRate heartRate
  | .updateLocation latitude longitude altitude => s.updateLocation latitude longitude altitude
  | .clearLocation => s.clearLocation
  | .updateCallsign callsign => s.updateCallsign callsign
  | .setPeripheralEvent eventType timestamp => s.setPeripheralEvent eventType timestamp
  | .clearPeripheralEvent => s.clearPeripheralEvent
  | .updatePeripheralState update => s.updatePeripheralState update
  | .startEmergency timestamp knownPeers => (s.startEmergency timestamp knownPeers).1
  | .ackEmergency timestamp => (s.ackEmergency timestamp).1
  | .clearEmergency => s.clearEmergency

inductive Action where
  | mutate (mutation : Mutation)
  | merge (data : Bytes)

def act (s : DocumentSync) : Action → DocumentSync
  | .mutate mutation => s.mutate mutation
  | .merge data => (s.mergeDocument data).1

def run (s : DocumentSync) (actions : List Action) : DocumentSync := actions.foldl act s

theorem run_append (s : DocumentSync) (front back : List Action) :
    s.run (front ++ back) = (s.run front).run back := List.foldl_append

/-! ## What a change keeps -/

/-- A local change is a change of the peripheral and the emergency, at most with one increment. -/
theorem mutate_frame (s : DocumentSync) (mutation : Mutation) :
    (s.mutate mutation).nodeId = s.nodeId ∧
      ((s.mutate mutation).counter = s.counter ∨
        (s.mutate mutation).counter = s.counter.increment s.nodeId 1) := by
  cases mutation with
  | sendEmergency timestamp => exact ⟨rfl, Or.inr rfl⟩
  | sendAck timestamp => exact ⟨rfl, Or.inr rfl⟩
  | incrementCounter => exact ⟨rfl, Or.inr rfl⟩
  | startEmergency timestamp knownPeers => exact ⟨rfl, Or.inr rfl⟩
  | ackEmergency timestamp =>
      simp only [mutate, ackEmergency]
      cases s.emergency with
      | none => exact ⟨rfl, Or.inl rfl⟩
      | some e =>
          dsimp only
          split_ifs
          · exact ⟨rfl, Or.inr rfl⟩
          · exact ⟨rfl, Or.inl rfl⟩
  | clearEmergency =>
      simp only [mutate, clearEmergency]
      split_ifs <;> exact ⟨rfl, Or.inl rfl⟩
  | _ => exact ⟨rfl, Or.inl rfl⟩

theorem mergeDocument_frame (s : DocumentSync) (data : Bytes) :
    (s.mergeDocument data).1.nodeId = s.nodeId ∧
      (s.mergeDocument data).1.counter.Covers s.counter := by
  unfold mergeDocument
  cases PeatDocument.decode data with
  | none => exact ⟨rfl, GCounter.Covers.refl s.counter⟩
  | some received =>
      dsimp only
      by_cases hown : received.nodeId = s.nodeId
      · rw [if_pos hown]
        exact ⟨rfl, GCounter.Covers.refl s.counter⟩
      · rw [if_neg hown, counter_mergeReceived]
        refine ⟨?_, s.counter.covers_merge received.counter⟩
        unfold mergeReceived
        dsimp only
        split_ifs <;> rfl

theorem act_frame (s : DocumentSync) (action : Action) :
    (s.act action).nodeId = s.nodeId ∧ (s.act action).counter.Covers s.counter := by
  cases action with
  | mutate mutation =>
      obtain ⟨hnode, hcounter⟩ := s.mutate_frame mutation
      refine ⟨hnode, ?_⟩
      change (s.mutate mutation).counter.Covers s.counter
      rcases hcounter with hsame | hincrement
      · rw [hsame]
        exact GCounter.Covers.refl s.counter
      · rw [hincrement]
        exact s.counter.covers_increment s.nodeId 1
  | merge data => exact s.mergeDocument_frame data

/-- The identifier never changes and counts only grow. -/
theorem run_frame (s : DocumentSync) (actions : List Action) :
    (s.run actions).nodeId = s.nodeId ∧ (s.run actions).counter.Covers s.counter := by
  induction actions generalizing s with
  | nil => exact ⟨rfl, GCounter.Covers.refl s.counter⟩
  | cons action actions ih =>
      obtain ⟨hnode, hcovers⟩ := s.act_frame action
      obtain ⟨hrest, hgrown⟩ := ih (s.act action)
      exact ⟨hrest.trans hnode, hgrown.trans hcovers⟩

end DocumentSync

end PeatBtle
