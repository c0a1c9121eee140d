import PeatBtle.Basic
import PeatBtle.Data.LoggedRun
import PeatBtle.Gatt.Protocol

/-!
# The GATT service

The service keeps what its characteristics show: who the node is, how a sync goes, and
a status with a row of flags. That a sync is going on is kept twice, as the state of
the sync and as a flag.
-/

namespace PeatBtle

open Wire

structure NodeInfo where
  nodeId : NodeId
  protocolVersion : UInt8
  hierarchyLevel : HierarchyLevel
  capabilities : UInt16
  batteryPercent : UInt8
deriving DecidableEq

def NodeInfo.new (nodeId : NodeId) (hierarchyLevel : HierarchyLevel) (capabilities : UInt16) :
    NodeInfo :=
  ⟨nodeId, 1, hierarchyLevel, capabilities, 255⟩

inductive Gatt.SyncState where
  | idle
  | syncing
  | complete
  | error
deriving DecidableEq

structure SyncStateData where
  state : Gatt.SyncState
  progress : UInt8
  pendingDocs : UInt16
  lastSync : UInt32
deriving DecidableEq

def SyncStateData.new (state : Gatt.SyncState) : SyncStateData := ⟨state, 0, 0, 0⟩

def SyncDataHeader.new (op : SyncDataOp) (seq : UInt16) : SyncDataHeader := ⟨op, seq, 1, 0⟩

/-! ## Commands -/

inductive CommandType where
  | startSync
  | stopSync
  | refreshInfo
  | setHierarchy
  | ping
  | reset
deriving DecidableEq

/-- Unknown commands count as pings. -/
def CommandType.fromByte (value : UInt8) : CommandType :=
  if value = 0x01 then .startSync
  else if value = 0x02 then .stopSync
  else if value = 0x03 then .refreshInfo
  else if value = 0x10 then .setHierarchy
  else if value = 0xFE then .ping
  else if value = 0xFF then .reset
  else .ping

structure Command where
  cmdType : CommandType
  payload : Bytes
deriving DecidableEq

def Command.decode : Bytes → Option Command
  | [] => none
  | cmd :: payload => some ⟨CommandType.fromByte cmd, payload⟩

/-! ## Status -/

structure StatusFlags where
  flags : UInt8
deriving DecidableEq

namespace StatusFlags

def connected : UInt8 := 0x01
def syncing : UInt8 := 0x02
def lowBattery : UInt8 := 0x08

def isSyncing (f : StatusFlags) : Bool := f.flags &&& syncing != 0

/-- `StatusFlags::new(flags | bit)`. -/
def set (f : StatusFlags) (bit : UInt8) : StatusFlags := ⟨f.flags ||| bit⟩

/-- `StatusFlags::new(flags & !bit)`. -/
def clear (f : StatusFlags) (bit : UInt8) : StatusFlags := ⟨f.flags &&& ~~~bit⟩

theorem and_or_right (a b c : UInt8) : (a ||| b) &&& c = (a &&& c) ||| (b &&& c) :=
  UInt8.toBitVec_inj.mp BitVec.and_or_distrib_right

theorem isSyncing_set_syncing (f : StatusFlags) : (f.set syncing).isSyncing = true := by
  rw [isSyncing, bne_iff_ne, set, and_or_right, ne_eq, UInt8.or_eq_zero_iff]
  rintro ⟨-, hself⟩
  exact absurd hself (by decide)

theorem isSyncing_clear_syncing (f : StatusFlags) : (f.clear syncing).isSyncing = false := by
  have hnone : ~~~syncing &&& syncing = 0 := by decide
  rw [isSyncing, clear, UInt8.and_assoc, hnone, UInt8.and_zero]
  rfl

/-- The other bits do not matter. -/
theorem isSyncing_set {bit : UInt8} (h : bit &&& syncing = 0) (f : StatusFlags) :
    (f.set bit).isSyncing = f.isSyncing := by
  rw [isSyncing, isSyncing, set, and_or_right, h, UInt8.or_zero]

theorem isSyncing_clear {bit : UInt8} (h : ~~~bit &&& syncing = syncing) (f : StatusFlags) :
    (f.clear bit).isSyncing = f.isSyncing := by
  rw [isSyncing, isSyncing, clear, UInt8.and_assoc, h]

end StatusFlags

structure StatusData where
  flags : StatusFlags
  childCount : UInt8
  parentRssi : Int8
  uptimeMinutes : UInt16
deriving DecidableEq

def StatusData.new : StatusData := ⟨⟨0⟩, 0, 127, 0⟩

/-! ## The service -/

inductive GattEvent where
  | commandReceived (command : CommandType) (payload : Bytes)
  | syncDataReceived (header : SyncDataHeader) (payload : Bytes)
deriving DecidableEq

structure PeatGattService where
  nodeInfo : NodeInfo
  syncState : SyncStateData
  status : StatusData
deriving DecidableEq

/-- What a write leaves, answers, and reports to the callback. -/
structure WriteResult (α : Type) where
  service : PeatGattService
  answer : Except BleError α
  event : Option GattEvent

namespace PeatGattService

def new (nodeId : NodeId) (hierarchyLevel : HierarchyLevel) (capabilities : UInt16) :
    PeatGattService :=
  ⟨NodeInfo.new nodeId hierarchyLevel capabilities, SyncStateData.new .idle, StatusData.new⟩

def setState (s : PeatGattService) (state : Gatt.SyncState) : PeatGattService :=
  { s with syncState := { s.syncState with state := state } }

def setFlags (s : PeatGattService) (flags : StatusFlags) : PeatGattService :=
  { s with status := { s.status with flags := flags } }

def writeSyncData (s : PeatGattService) (data : Bytes) : WriteResult (Option Bytes) :=
  match SyncDataHeader.decode data with
  | none => ⟨s, .error (BleError.gattError "Invalid sync data header"), none⟩
  | some header =>
      let payload := data.drop SyncDataHeader.size
      let ack := (SyncDataHeader.new .ack header.seq).encode
      match header.op with
      | .document =>
          ⟨(s.setState .syncing).setFlags (s.status.flags.set StatusFlags.syncing),
            .ok (some ack), none⟩
      | .vector => ⟨s, .ok (some ack), none⟩
      | .end =>
          let done := { s with
            syncState := { s.syncState with state := .complete, progress := 100 } }
          ⟨done.setFlags (s.status.flags.clear StatusFlags.syncing), .ok none,
            some (.syncDataReceived header payload)⟩
      | .ack => ⟨s, .ok none, none⟩

/-- What a command does to the service. -/
def execute (s : PeatGattService) (command : Command) : PeatGattService :=
  match command.cmdType with
  | .startSync => { s with syncState := { s.syncState with state := .syncing, progress := 0 } }
  | .stopSync => s.setState .idle
  | .refreshInfo | .ping => s
  | .setHierarchy =>
      match command.payload with
      | [] => s
      | level :: _ =>
          { s with nodeInfo := { s.nodeInfo with hierarchyLevel := HierarchyLevel.ofU8 level } }
  | .reset => { s with syncState := SyncStateData.new .idle }

def writeCommand (s : PeatGattService) (data : Bytes) : WriteResult Unit :=
  match Command.decode data with
  | none => ⟨s, .error (BleError.gattError "Invalid command data"), none⟩
  | some command =>
      ⟨s.execute command, .ok (), some (.commandReceived command.cmdType command.payload)⟩

def updateBattery (s : PeatGattService) (percent : UInt8) : PeatGattService :=
  let flags := s.status.flags
  { s with nodeInfo := { s.nodeInfo with batteryPercent := min percent 100 } }.setFlags
    (if percent < 20 then flags.set StatusFlags.lowBattery else flags.clear StatusFlags.lowBattery)

def updateHierarchyLevel (s : PeatGattService) (level : HierarchyLevel) : PeatGattService :=
  { s with nodeInfo := { s.nodeInfo with hierarchyLevel := level } }

def updateSyncProgress (s : PeatGattService) (progress : UInt8) (pendingDocs : UInt16) :
    PeatGattService :=
  let updated := { s with
    syncState := { s.syncState with progress := min progress 100, pendingDocs := pendingDocs } }
  if progress ≥ 100 then updated.setState .complete else updated

/-- Without a parent the signal strength is 127. -/
def updateParentStatus (s : PeatGattService) (connected : Bool) (rssi : Option Int8) :
    PeatGattService :=
  let flags := s.status.flags
  if connected then
    { s with status := { s.status with
        flags := flags.set StatusFlags.connected, parentRssi := rssi.getD 0 } }
  else
    { s with status := { s.status with
        flags := flags.clear StatusFlags.connected, parentRssi := 127 } }

def updateChildCount (s : PeatGattService) (count : UInt8) : PeatGattService :=
  { s with status := { s.status with childCount := count } }

def updateUptime (s : PeatGattService) (minutes : UInt16) : PeatGattService :=
  { s with status := { s.status with uptimeMinutes := minutes } }

inductive Action where
  | writeSyncData (data : Bytes)
  | writeCommand (data : Bytes)
  | updateBattery (percent : UInt8)
  | updateHierarchyLevel (level : HierarchyLevel)
  | updateSyncProgress (progress : UInt8) (pendingDocs : UInt16)
  | updateParentStatus (connected : Bool) (rssi : Option Int8)
  | updateChildCount (count : UInt8)
  | updateUptime (minutes : UInt16)
deriving DecidableEq

def step (s : PeatGattService) : Action → PeatGattService
  | .writeSyncData data => (s.writeSyncData data).service
  | .writeCommand data => (s.writeCommand data).service
  | .updateBattery percent => s.updateBattery percent
  | .updateHierarchyLevel level => s.updateHierarchyLevel level
  | .updateSyncProgress progress pendingDocs => s.updateSyncProgress progress pendingDocs
  | .updateParentStatus connected rssi => s.updateParentStatus connected rssi
  | .updateChildCount count => s.updateChildCount count
  | .updateUptime minutes => s.updateUptime minutes

/-! ## The two indicators -/

/-- The flag is set exactly while the state says so. -/
def InStep (s : PeatGattService) : Prop :=
  s.status.flags.isSyncing = true ↔ s.syncState.state = .syncing

/-- A command or a progress report leaves it to the data operations to begin or end a sync. -/
def LeavesSync (s : PeatGattService) : Action → Prop
  | .writeCommand data => ∀ command ∈ Command.decode data,
      (command.cmdType = .startSync → s.syncState.state = .syncing) ∧
      (command.cmdType = .stopSync ∨ command.cmdType = .reset → s.syncState.state ≠ .syncing)
  | .updateSyncProgress progress _ => progress ≥ 100 → s.syncState.state ≠ .syncing
  | _ => True

instance (s : PeatGattService) : (action : Action) → Decidable (s.LeavesSync action)
  | .writeCommand data => inferInstanceAs (Decidable (∀ command ∈ Command.decode data, _))
  | .updateSyncProgress .. => inferInstanceAs (Decidable (_ → _))
  | .writeSyncData _ | .updateBattery _ | .updateHierarchyLevel _ | .updateParentStatus ..
  | .updateChildCount _ | .updateUptime _ => inferInstanceAs (Decidable True)

section Step

variable {s : PeatGattService}

/-- Both indicators are as before. -/
theorem inStep_congr {t : PeatGattService}
    (hflag : t.status.flags.isSyncing = s.status.flags.isSyncing)
    (hstate : t.syncState.state = s.syncState.state) : t.InStep ↔ s.InStep := by
  rw [InStep, InStep, hflag, hstate]

/-- The data operations change both indicators, or none of them. -/
theorem inStep_writeSyncData (h : s.InStep) (data : Bytes) :
    (s.writeSyncData data).service.InStep := by
  unfold writeSyncData
  split
  · exact h
  · rename_i header _
    cases header.op with
    | document => exact iff_of_true (StatusFlags.isSyncing_set_syncing _) rfl
    | vector => exact h
    | «end» =>
        refine iff_of_false ?_ (fun hstate => Gatt.SyncState.noConfusion hstate)
        rw [Bool.not_eq_true]
        exact StatusFlags.isSyncing_clear_syncing _
    | ack => exact h

/-- A command that sets the state alone is right if the flag already says so. -/
theorem inStep_execute_iff (h : s.InStep) (command : Command) : (s.execute command).InStep ↔
    (command.cmdType = .startSync → s.syncState.state = .syncing) ∧
      (command.cmdType = .stopSync ∨ command.cmdType = .reset → s.syncState.state ≠ .syncing) := by
  unfold execute
  cases hcmd : command.cmdType with
  | startSync =>
      change (s.status.flags.isSyncing = true ↔ Gatt.SyncState.syncing = .syncing) ↔ _
      simp [h.symm]
  | stopSync =>
      change (s.status.flags.isSyncing = true ↔ Gatt.SyncState.idle = .syncing) ↔ _
      simp [h.symm]
  | reset =>
      change (s.status.flags.isSyncing = true ↔ Gatt.SyncState.idle = .syncing) ↔ _
      simp [h.symm]
  | refreshInfo => simpa using h
  | ping => simpa using h
  | setHierarchy =>
      have hsame : (s.execute command).InStep ↔ s.InStep := by
        unfold execute
        rw [hcmd]
        cases command.payload <;> exact Iff.rfl
      unfold execute at hsame
      rw [hcmd] at hsame
      simpa using hsame.mpr h

theorem inStep_updateSyncProgress_iff (h : s.InStep) (progress : UInt8) (pendingDocs : UInt16) :
    (s.updateSyncProgress progress pendingDocs).InStep ↔
      (progress ≥ 100 → s.syncState.state ≠ .syncing) := by
  unfold updateSyncProgress
  by_cases hdone : progress ≥ 100
  · rw [if_pos hdone, forall_prop_of_true hdone]
    change (s.status.flags.isSyncing = true ↔ Gatt.SyncState.complete = .syncing) ↔ _
    simp [h.symm]
  · rw [if_neg hdone]
    exact iff_of_true h fun hover => absurd hover hdone

theorem inStep_step_iff (h : s.InStep) (action : Action) :
    (s.step action).InStep ↔ s.LeavesSync action := by
  cases action with
  | writeSyncData data => exact iff_of_true (inStep_writeSyncData h data) trivial
  | writeCommand data =>
      cases data with
      | nil =>
          refine iff_of_true h fun command hnone => ?_
          cases hnone
      | cons cmd payload =>
          refine (inStep_execute_iff h ⟨CommandType.fromByte cmd, payload⟩).trans ?_
          constructor
          · intro hleaves command hcommand
            obtain rfl := Option.some.inj hcommand
            exact hleaves
          · intro hleaves
            exact hleaves _ rfl
  | updateBattery percent =>
      have hflag : (s.updateBattery percent).status.flags.isSyncing = s.status.flags.isSyncing := by
        unfold updateBattery setFlags
        dsimp only
        split
        · exact StatusFlags.isSyncing_set (by decide) _
        · exact StatusFlags.isSyncing_clear (by decide) _
      exact iff_of_true ((inStep_congr hflag rfl).mpr h) trivial
  | updateSyncProgress progress pendingDocs =>
      exact inStep_updateSyncProgress_iff h progress pendingDocs
  | updateParentStatus connected rssi =>
      cases connected with
      | true =>
          have hflag : (s.updateParentStatus true rssi).status.flags.isSyncing =
              s.status.flags.isSyncing := StatusFlags.isSyncing_set (by decide) _
          exact iff_of_true ((inStep_congr hflag rfl).mpr h) trivial
      | false =>
          have hflag : (s.updateParentStatus false rssi).status.flags.isSyncing =
              s.status.flags.isSyncing := StatusFlags.isSyncing_clear (by decide) _
          exact iff_of_true ((inStep_congr hflag rfl).mpr h) trivial
  | updateHierarchyLevel level => exact iff_of_true h trivial
  | updateChildCount count => exact iff_of_true h trivial
  | updateUptime minutes => exact iff_of_true h trivial

end Step

section Runs

variable (nodeId : NodeId) (hierarchyLevel : HierarchyLevel) (capabilities : UInt16)

theorem inStep_new : (new nodeId hierarchyLevel capabilities).InStep := by
  have hflag : StatusFlags.isSyncing ⟨0⟩ = false := by decide
  refine iff_of_false ?_ fun hstate => Gatt.SyncState.noConfusion hstate
  change ¬ StatusFlags.isSyncing ⟨0⟩ = true
  rw [hflag]
  exact Bool.false_ne_true

theorem inStep_run_iff (actions : List Action) :
    (∀ front, front <+: actions →
      (LoggedRun.run step (new nodeId hierarchyLevel capabilities) front).InStep) ↔
    LoggedRun.Along step LeavesSync (new nodeId hierarchyLevel capabilities) actions :=
  LoggedRun.forall_prefix_iff_along_of_step (inStep_new nodeId hierarchyLevel capabilities)
    fun _ action h => inStep_step_iff h action

end Runs

/-- A client asks for a sync, and the flag is not set. -/
theorem startSync_out_of_step :
    ¬ (LoggedRun.run step (new 1 .squad 0) [.writeCommand [0x01]]).InStep := by
  intro h
  exact absurd (h.mpr rfl) (by decide)

end PeatGattService

end PeatBtle
