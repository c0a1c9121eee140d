import Mathlib.Data.List.Basic
import PeatBtle.Data.Rounds
import PeatBtle.Wire.LittleEndian

/-!
# The write queue of a connection

A BLE connection carries one write at a time. Each call puts its write into a queue, and
a call that finds no write in progress works the queue off, for itself and for others.
Between two locks anything may happen, and the owner of a call may drop it.
-/

namespace PeatBtle

open Wire

/-- 128 bits. -/
abbrev Uuid := BitVec 128

/-- The errors that a write can end with. -/
inductive WriteError where
  | gattError (reason : String)
  | characteristicNotFound (uuid : Uuid)
  | serviceNotFound (uuid : Uuid)
deriving DecidableEq

abbrev WriteOutcome := Except WriteError Unit

/-! ## The device -/

/-- A failure to tell its own identifier is no identifier. -/
structure RemoteCharacteristic where
  uuid : Option Uuid
  write : Bytes → Except String Unit

structure RemoteService where
  uuid : Option Uuid
  characteristics : Except String (List RemoteCharacteristic)

/-- What the stack answers while a write runs. -/
structure RemoteDevice where
  services : Except String (List RemoteService)

namespace RemoteDevice

variable (device : RemoteDevice)

def findService (uuid : Uuid) : Except WriteError (Option RemoteService) :=
  match device.services with
  | .error e => .error (.gattError ("Failed to get services: " ++ e))
  | .ok services => .ok (services.find? fun service => decide (service.uuid = some uuid))

/-- Not queued. -/
def writeCharacteristic (serviceUuid charUuid : Uuid) (value : Bytes) : WriteOutcome :=
  match device.findService serviceUuid with
  | .error e => .error e
  | .ok none => .error (.serviceNotFound serviceUuid)
  | .ok (some service) =>
      match service.characteristics with
      | .error e => .error (.gattError ("Failed to get characteristics: " ++ e))
      | .ok characteristics =>
          match characteristics.find? fun char => decide (char.uuid = some charUuid) with
          | none => .error (.characteristicNotFound charUuid)
          | some char =>
              match char.write value with
              | .error e => .error (.gattError ("Failed to write characteristic: " ++ e))
              | .ok () => .ok ()

end RemoteDevice

/-! ## Calls -/

structure QueuedWrite where
  serviceUuid : Uuid
  charUuid : Uuid
  data : Bytes
  /-- The call at the other end of the completion channel. -/
  call : Nat
deriving DecidableEq

structure WriteQueueState where
  queue : List QueuedWrite
  writeInProgress : Bool

/-- Where a call stands: at the head of the loop, with a write in hand, or done with the loop. -/
inductive Stage where
  | processing
  | writing (write : QueuedWrite)
  | written (write : QueuedWrite) (result : WriteOutcome)
  | notifying (write : QueuedWrite) (result : WriteOutcome)
  | waiting
  | returned (result : WriteOutcome)
  | dropped
deriving DecidableEq

/-- A completion channel takes one message; a sender that is dropped closes it. -/
inductive Channel where
  | empty
  | sent (result : WriteOutcome)
  | closed
deriving DecidableEq

/-- The calls are numbered in the order in which they queue their writes. -/
structure WriteQueue extends WriteQueueState where
  calls : List Stage
  channels : Nat → Channel

/-- What an observer of the queue and of the device sees. -/
inductive WriteEvent where
  | queued (write : QueuedWrite)
  | started (write : QueuedWrite)
  | finished (write : QueuedWrite) (result : WriteOutcome)
deriving DecidableEq

namespace WriteQueue

def new : WriteQueue := ⟨⟨[], false⟩, [], fun _ => .empty⟩

def cleared : WriteOutcome := .error (.gattError "Write queue cleared (disconnected?)")

def cancelled : WriteOutcome :=
  .error (.gattError "Write was cancelled (connection closed?)")

section Operations

variable (s : WriteQueue)

def setStage (call : Nat) (stage : Stage) : WriteQueue :=
  { s with calls := s.calls.set call stage }

def setChannel (call : Nat) (channel : Channel) : WriteQueue :=
  { s with channels := Function.update s.channels call channel }

/-- The first lock of a call. -/
def writeCharacteristicQueued (serviceUuid charUuid : Uuid) (value : Bytes) :
    WriteQueue × Option WriteEvent :=
  let write := ⟨serviceUuid, charUuid, value, s.calls.length⟩
  ({ s with queue := s.queue ++ [write], calls := s.calls ++ [.processing] }, some (.queued write))

/-- A call goes on to its next lock, to the end of its write or to the end of its wait. -/
def poll (call : Nat) (device : RemoteDevice) : WriteQueue × Option WriteEvent :=
  match s.calls[call]? with
  | some .processing =>
      if s.writeInProgress then (s.setStage call .waiting, none)
      else
        match s.queue with
        | write :: queue =>
            ({ s with queue := queue, writeInProgress := true }.setStage call (.writing write),
              some (.started write))
        | [] => (s.setStage call .waiting, none)
  | some (.writing write) =>
      let result := device.writeCharacteristic write.serviceUuid write.charUuid write.data
      (s.setStage call (.written write result), some (.finished write result))
  | some (.written write result) =>
      ({ s with writeInProgress := false }.setStage call (.notifying write result), none)
  | some (.notifying write result) =>
      ((s.setChannel write.call (.sent result)).setStage call .processing, none)
  | some .waiting =>
      match s.channels call with
      | .empty => (s, none)
      | .sent result => (s.setStage call (.returned result), none)
      | .closed => (s.setStage call (.returned cancelled), none)
  | some (.returned _) | some .dropped | none => (s, none)

/-- All pending writes are answered; the one in progress is not. -/
def clearWriteQueue : WriteQueue :=
  s.queue.foldl (fun s write => s.setChannel write.call (.sent cleared)) { s with queue := [] }

/-- A call may be dropped where it awaits something, and its write in hand goes with it. -/
def drop (call : Nat) : WriteQueue :=
  match s.calls[call]? with
  | some (.writing write) | some (.written write _) =>
      (s.setChannel write.call .closed).setStage call .dropped
  | some .processing | some .waiting => s.setStage call .dropped
  | some (.notifying _ _) | some (.returned _) | some .dropped | none => s

end Operations

inductive Action where
  | writeCharacteristicQueued (serviceUuid charUuid : Uuid) (value : Bytes)
  | poll (call : Nat) (device : RemoteDevice)
  | clearWriteQueue
  | drop (call : Nat)

def advance (s : WriteQueue) : Action → WriteQueue × Option WriteEvent
  | .writeCharacteristicQueued serviceUuid charUuid value =>
      s.writeCharacteristicQueued serviceUuid charUuid value
  | .poll call device => s.poll call device
  | .clearWriteQueue => (s.clearWriteQueue, none)
  | .drop call => (s.drop call, none)

def step (s : WriteQueue) (action : Action) : WriteQueue := (s.advance action).1

def emit (s : WriteQueue) (action : Action) : Option WriteEvent := (s.advance action).2

def run (s : WriteQueue) (actions : List Action) : WriteQueue := LoggedRun.run step s actions

def log (s : WriteQueue) (actions : List Action) : List WriteEvent :=
  LoggedRun.log step emit s actions

end WriteQueue

/-! ## Calls and their stages -/

namespace Stage

/-- The write that a call has in hand. -/
def hand? : Stage → Option QueuedWrite
  | writing write | written write _ | notifying write _ => some write
  | processing | waiting | returned _ | dropped => none

/-- Between taking the turn and giving it back. -/
def midWrite : Stage → Bool
  | writing _ | written _ _ => true
  | processing | notifying _ _ | waiting | returned _ | dropped => false

/-- A write that the device has not finished. -/
def pending? : Stage → Option QueuedWrite
  | writing write => some write
  | processing | written _ _ | notifying _ _ | waiting | returned _ | dropped => none

def active : Stage → Bool
  | processing | writing _ | written _ _ | notifying _ _ => true
  | waiting | returned _ | dropped => false

end Stage

namespace WriteQueue

variable {s : WriteQueue} {call : Nat} {device : RemoteDevice}

def Holds (s : WriteQueue) (call : Nat) (write : QueuedWrite) : Prop :=
  ∃ stage, s.calls[call]? = some stage ∧ stage.hand? = some write

def MidWrite (s : WriteQueue) (call : Nat) : Prop :=
  ∃ stage, s.calls[call]? = some stage ∧ stage.midWrite = true

def Active (s : WriteQueue) (call : Nat) : Prop :=
  ∃ stage, s.calls[call]? = some stage ∧ stage.active = true

theorem getElem?_setStage {old : Stage} (h : s.calls[call]? = some old) (stage : Stage)
    (other : Nat) : (s.setStage call stage).calls[other]? =
      if call = other then some stage else s.calls[other]? := by
  have hlt : call < s.calls.length := (List.getElem?_eq_some_iff.mp h).1
  rw [setStage, List.getElem?_set, if_pos hlt]

/-- What a call is at, after one of them has moved. -/
theorem exists_setStage {old stage : Stage} (h : s.calls[call]? = some old) {p : Stage → Prop}
    {other : Nat} : (∃ later, (s.setStage call stage).calls[other]? = some later ∧ p later) ↔
      if call = other then p stage else ∃ later, s.calls[other]? = some later ∧ p later := by
  rw [getElem?_setStage h]
  split
  · constructor
    · rintro ⟨_, hlater, hp⟩
      exact (Option.some.inj hlater) ▸ hp
    · exact fun hp => ⟨stage, rfl, hp⟩
  · exact Iff.rfl

@[simp] theorem length_setStage (stage : Stage) :
    (s.setStage call stage).calls.length = s.calls.length := List.length_set ..

theorem getElem?_append_singleton {stages : List Stage} {last stage : Stage}
    (h : (stages ++ [last])[call]? = some stage) :
    stages[call]? = some stage ∨ call = stages.length ∧ stage = last := by
  rw [List.getElem?_append] at h
  split at h
  · exact Or.inl h
  · rename_i hge
    obtain ⟨hlt, hlast⟩ := List.getElem?_eq_some_iff.mp h
    have hzero : call - stages.length = 0 := by simpa using hlt
    exact Or.inr ⟨by omega, by simpa [hzero] using hlast.symm⟩

theorem foldl_setChannel (writes : List QueuedWrite) (channel : Channel) (s : WriteQueue) :
    writes.foldl (fun s write => s.setChannel write.call channel) s =
      { s with channels := fun i =>
          if i ∈ writes.map QueuedWrite.call then channel else s.channels i } := by
  induction writes generalizing s with
  | nil => rfl
  | cons write writes ih =>
      rw [List.foldl_cons, ih]
      simp only [setChannel, Function.update_apply, List.map_cons, List.mem_cons]
      congr 1
      funext i
      by_cases hi : i ∈ writes.map QueuedWrite.call
      · simp [hi]
      · simp [hi]

theorem clearWriteQueue_eq (s : WriteQueue) :
    s.clearWriteQueue =
      { s with
        queue := []
        channels := fun i =>
          if i ∈ s.queue.map QueuedWrite.call then .sent cleared else s.channels i } :=
  foldl_setChannel ..

/-- What a turn of a call can be. -/
inductive Polls (s : WriteQueue) (call : Nat) (device : RemoteDevice) :
    WriteQueue → Option WriteEvent → Prop
  | still (hstill : ∀ stage, s.calls[call]? = some stage →
      stage.active = false ∧ (stage = .waiting → s.channels call = .empty)) :
      Polls s call device s none
  | waits (hcall : s.calls[call]? = some .processing)
      (hnothing : s.writeInProgress = true ∨ s.queue = []) :
      Polls s call device (s.setStage call .waiting) none
  | takes {write : QueuedWrite} {queue : List QueuedWrite}
      (hcall : s.calls[call]? = some .processing) (hfree : s.writeInProgress = false)
      (hqueue : s.queue = write :: queue) :
      Polls s call device
        ({ s with queue := queue, writeInProgress := true }.setStage call (.writing write))
        (some (.started write))
  | writes {write : QueuedWrite} (hcall : s.calls[call]? = some (.writing write)) :
      Polls s call device
        (s.setStage call (.written write
          (device.writeCharacteristic write.serviceUuid write.charUuid write.data)))
        (some (.finished write
          (device.writeCharacteristic write.serviceUuid write.charUuid write.data)))
  | releases {write : QueuedWrite} {result : WriteOutcome}
      (hcall : s.calls[call]? = some (.written write result)) :
      Polls s call device
        ({ s with writeInProgress := false }.setStage call (.notifying write result)) none
  | notifies {write : QueuedWrite} {result : WriteOutcome}
      (hcall : s.calls[call]? = some (.notifying write result)) :
      Polls s call device
        ((s.setChannel write.call (.sent result)).setStage call .processing) none
  | answered {result : WriteOutcome} (hcall : s.calls[call]? = some .waiting)
      (hchannel : s.channels call = .sent result) :
      Polls s call device (s.setStage call (.returned result)) none
  | abandoned (hcall : s.calls[call]? = some .waiting) (hchannel : s.channels call = .closed) :
      Polls s call device (s.setStage call (.returned cancelled)) none

theorem polls (s : WriteQueue) (call : Nat) (device : RemoteDevice) :
    Polls s call device (s.poll call device).1 (s.poll call device).2 := by
  unfold poll
  cases hcall : s.calls[call]? with
  | none => exact .still fun stage h => by rw [hcall] at h; cases h
  | some stage =>
      cases stage with
      | processing =>
          dsimp only
          split
          · rename_i hbusy
            exact .waits hcall (Or.inl hbusy)
          · rename_i hfree
            split
            · rename_i hqueue
              exact .takes hcall (by simpa using hfree) hqueue
            · rename_i hqueue
              exact .waits hcall (Or.inr hqueue)
      | writing write => exact .writes hcall
      | written write result => exact .releases hcall
      | notifying write result => exact .notifies hcall
      | waiting =>
          dsimp only
          split
          · rename_i hchannel
            refine .still fun stage h => ?_
            rw [hcall] at h
            obtain rfl := Option.some.inj h
            exact ⟨rfl, fun _ => hchannel⟩
          · rename_i hchannel
            exact .answered hcall hchannel
          · rename_i hchannel
            exact .abandoned hcall hchannel
      | returned result =>
          refine .still fun stage h => ?_
          rw [hcall] at h
          obtain rfl := Option.some.inj h
          exact ⟨rfl, fun hwaiting => by cases hwaiting⟩
      | dropped =>
          refine .still fun stage h => ?_
          rw [hcall] at h
          obtain rfl := Option.some.inj h
          exact ⟨rfl, fun hwaiting => by cases hwaiting⟩

end WriteQueue

end PeatBtle
