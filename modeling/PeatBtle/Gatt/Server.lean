import PeatBtle.Data.LastWrite
import PeatBtle.Gatt.Characteristics

/-!
# What a client sees

The service together with its clients. The node reports to it from inside, the clients
write to it from outside, and everything that a client reads is the last word on it.
-/

namespace PeatBtle

open Wire LastWrite

/-- The state behind the lock. -/
structure ServiceState extends PeatGattService where
  connectedClients : List String
  syncStateSubscribers : List String
  statusSubscribers : List String
  mtu : UInt16
deriving DecidableEq

namespace ServiceState

def new (nodeId : NodeId) (hierarchyLevel : HierarchyLevel) (capabilities : UInt16) :
    ServiceState :=
  { toPeatGattService := PeatGattService.new nodeId hierarchyLevel capabilities
    connectedClients := []
    syncStateSubscribers := []
    statusSubscribers := []
    mtu := 23 }

section Operations

variable (s : ServiceState)

def readNodeInfo : Bytes := s.nodeInfo.encode

def readSyncState : Bytes := s.syncState.encode

def readStatus : Bytes := s.status.encode

/-- `push` unless it is there. -/
def enlist (addresses : List String) (address : String) : List String :=
  if address ∈ addresses then addresses else addresses ++ [address]

def onClientConnected (address : String) : ServiceState :=
  { s with connectedClients := enlist s.connectedClients address }

def onClientDisconnected (address : String) : ServiceState :=
  { s with
    connectedClients := s.connectedClients.filter (· ≠ address)
    syncStateSubscribers := s.syncStateSubscribers.filter (· ≠ address)
    statusSubscribers := s.statusSubscribers.filter (· ≠ address) }

/-- Whether the client is connected is not asked. -/
def onSubscribe (address : String) (characteristic : String) : ServiceState :=
  if characteristic = "sync_state" then
    { s with syncStateSubscribers := enlist s.syncStateSubscribers address }
  else if characteristic = "status" then
    { s with statusSubscribers := enlist s.statusSubscribers address }
  else s

def onMtuChanged (mtu : UInt16) : ServiceState := { s with mtu := mtu }

def connectedClientCount : Nat := s.connectedClients.length

end Operations

inductive Operation where
  | service (action : PeatGattService.Action)
  | onClientConnected (address : String)
  | onClientDisconnected (address : String)
  | onSubscribe (address : String) (characteristic : String)
  | onMtuChanged (mtu : UInt16)

def step (s : ServiceState) : Operation → ServiceState
  | .service action => { s with toPeatGattService := s.toPeatGattService.step action }
  | .onClientConnected address => s.onClientConnected address
  | .onClientDisconnected address => s.onClientDisconnected address
  | .onSubscribe address characteristic => s.onSubscribe address characteristic
  | .onMtuChanged mtu => s.onMtuChanged mtu

def run (s : ServiceState) (operations : List Operation) : ServiceState :=
  LoggedRun.run step s operations

/-! ## The last word -/

/-- The operation of a data write that is understood. -/
def dataOp? (data : Bytes) : Option SyncDataOp := (SyncDataHeader.decode data).map SyncDataHeader.op

def levelGiven : Operation → Option HierarchyLevel
  | .service (.updateHierarchyLevel level) => some level
  | .service (.writeCommand data) =>
      (Command.decode data).bind fun command =>
        if command.cmdType = .setHierarchy then command.payload.head?.map HierarchyLevel.ofU8
        else none
  | _ => none

def batteryGiven : Operation → Option UInt8
  | .service (.updateBattery percent) => some percent
  | _ => none

/-- Whether there is a parent, and how strong its signal is. -/
def parentGiven : Operation → Option (Bool × Int8)
  | .service (.updateParentStatus connected rssi) =>
      some (connected, if connected then rssi.getD 0 else 127)
  | _ => none

def childCountGiven : Operation → Option UInt8
  | .service (.updateChildCount count) => some count
  | _ => none

def uptimeGiven : Operation → Option UInt16
  | .service (.updateUptime minutes) => some minutes
  | _ => none

def syncingGiven : Operation → Option Bool
  | .service (.writeSyncData data) =>
      (dataOp? data).bind fun
        | .document => some true
        | .end => some false
        | .vector | .ack => none
  | _ => none

def stateGiven : Operation → Option Gatt.SyncState
  | .service (.writeSyncData data) =>
      (dataOp? data).bind fun
        | .document => some .syncing
        | .end => some .complete
        | .vector | .ack => none
  | .service (.writeCommand data) =>
      (Command.decode data).bind fun command =>
        match command.cmdType with
        | .startSync => some .syncing
        | .stopSync | .reset => some .idle
        | .refreshInfo | .setHierarchy | .ping => none
  | .service (.updateSyncProgress progress _) => if progress ≥ 100 then some .complete else none
  | _ => none

def progressGiven : Operation → Option UInt8
  | .service (.writeSyncData data) =>
      (dataOp? data).bind fun
        | .end => some 100
        | .document | .vector | .ack => none
  | .service (.writeCommand data) =>
      (Command.decode data).bind fun command =>
        match command.cmdType with
        | .startSync | .reset => some 0
        | .stopSync | .refreshInfo | .setHierarchy | .ping => none
  | .service (.updateSyncProgress progress _) => some (min progress 100)
  | _ => none

def pendingDocsGiven : Operation → Option UInt16
  | .service (.writeCommand data) =>
      (Command.decode data).bind fun command =>
        if command.cmdType = .reset then some 0 else none
  | .service (.updateSyncProgress _ pendingDocs) => some pendingDocs
  | _ => none

def mtuGiven : Operation → Option UInt16
  | .onMtuChanged mtu => some mtu
  | _ => none

/-- A client comes or goes. -/
def presence (address : String) : Operation → Option Bool
  | .onClientConnected other => if other = address then some true else none
  | .onClientDisconnected other => if other = address then some false else none
  | _ => none

/-- A client subscribes to a characteristic or goes. -/
def subscription (characteristic address : String) : Operation → Option Bool
  | .onSubscribe other what => if other = address ∧ what = characteristic then some true else none
  | .onClientDisconnected other => if other = address then some false else none
  | _ => none

section Step

variable (s : ServiceState) (operation : Operation)

theorem nodeInfo_step : (s.step operation).nodeInfo =
    { s.nodeInfo with
      hierarchyLevel := (levelGiven operation).getD s.nodeInfo.hierarchyLevel
      batteryPercent := ((batteryGiven operation).map (min · 100)).getD
        s.nodeInfo.batteryPercent } := by
  cases operation with
  | onClientConnected | onClientDisconnected | onMtuChanged => rfl
  | onSubscribe address characteristic =>
      simp only [step, onSubscribe]
      split
      · rfl
      · split <;> rfl
  | service action =>
      cases action with
      | writeSyncData data =>
          simp only [step, PeatGattService.step, PeatGattService.writeSyncData]
          cases SyncDataHeader.decode data with
          | none => rfl
          | some header =>
              dsimp only
              cases header.op <;> rfl
      | writeCommand data =>
          cases data with
          | nil => rfl
          | cons cmd payload =>
              simp only [step, PeatGattService.step, PeatGattService.writeCommand, Command.decode,
                PeatGattService.execute, levelGiven, Option.bind_some]
              cases CommandType.fromByte cmd with
              | setHierarchy => cases payload <;> rfl
              | startSync | stopSync | refreshInfo | ping | reset => rfl
      | updateSyncProgress progress pendingDocs =>
          simp only [step, PeatGattService.step, PeatGattService.updateSyncProgress]
          split <;> rfl
      | updateParentStatus connected rssi => cases connected <;> rfl
      | updateBattery | updateHierarchyLevel | updateChildCount | updateUptime => rfl

theorem syncState_step (h : s.syncState.lastSync = 0) : (s.step operation).syncState =
    { state := (stateGiven operation).getD s.syncState.state
      progress := (progressGiven operation).getD s.syncState.progress
      pendingDocs := (pendingDocsGiven operation).getD s.syncState.pendingDocs
      lastSync := 0 } := by
  have hsame : s.syncState =
      ⟨s.syncState.state, s.syncState.progress, s.syncState.pendingDocs, 0⟩ := by rw [← h]
  cases operation with
  | onClientConnected | onClientDisconnected | onMtuChanged => exact hsame
  | onSubscribe address characteristic =>
      simp only [step, onSubscribe]
      split
      · exact hsame
      · split <;> exact hsame
  | service action =>
      cases action with
      | writeSyncData data =>
          simp only [step, PeatGattService.step, PeatGattService.writeSyncData, stateGiven,
            progressGiven, pendingDocsGiven, dataOp?]
          cases SyncDataHeader.decode data with
          | none => exact hsame
          | some header =>
              simp only [Option.map_some, Option.bind_some]
              cases header.op with
              | vector | ack => exact hsame
              | document | «end» =>
                  simp only [PeatGattService.setState, PeatGattService.setFlags, Option.getD_some,
                    Option.getD_none, h]
      | writeCommand data =>
          cases data with
          | nil => exact hsame
          | cons cmd payload =>
              simp only [step, PeatGattService.step, PeatGattService.writeCommand, Command.decode,
                PeatGattService.execute, stateGiven, progressGiven, pendingDocsGiven,
                Option.bind_some]
              cases CommandType.fromByte cmd with
              | setHierarchy => cases payload <;> exact hsame
              | refreshInfo | ping => exact hsame
              | reset => rfl
              | startSync | stopSync =>
                  simp only [PeatGattService.setState, Option.getD_some, Option.getD_none,
                    reduceCtorEq, if_false, h]
      | updateSyncProgress progress pendingDocs =>
          simp only [step, PeatGattService.step, PeatGattService.updateSyncProgress, stateGiven,
            progressGiven, pendingDocsGiven]
          split
          · simp only [PeatGattService.setState, Option.getD_some, h]
          · simp only [Option.getD_some, Option.getD_none, h]
      | updateParentStatus connected rssi => cases connected <;> exact hsame
      | updateBattery | updateHierarchyLevel | updateChildCount | updateUptime => exact hsame

theorem status_step {connected syncing lowBattery : Bool}
    (h : s.status.flags = .of connected syncing lowBattery) : (s.step operation).status =
    { flags := .of ((parentGiven operation).map Prod.fst |>.getD connected)
        ((syncingGiven operation).getD syncing)
        ((batteryGiven operation).map (fun percent => decide (percent < 20)) |>.getD lowBattery)
      childCount := (childCountGiven operation).getD s.status.childCount
      parentRssi := (parentGiven operation).map Prod.snd |>.getD s.status.parentRssi
      uptimeMinutes := (uptimeGiven operation).getD s.status.uptimeMinutes } := by
  have hsame : s.status = ⟨.of connected syncing lowBattery, s.status.childCount,
      s.status.parentRssi, s.status.uptimeMinutes⟩ := by rw [← h]
  cases operation with
  | onClientConnected | onClientDisconnected | onMtuChanged => exact hsame
  | onSubscribe address characteristic =>
      simp only [step, onSubscribe]
      split
      · exact hsame
      · split <;> exact hsame
  | service action =>
      cases action with
      | writeSyncData data =>
          simp only [step, PeatGattService.step, PeatGattService.writeSyncData, syncingGiven, dataOp?]
          cases SyncDataHeader.decode data with
          | none => exact hsame
          | some header =>
              simp only [Option.map_some, Option.bind_some]
              cases header.op with
              | vector | ack => exact hsame
              | document =>
                  show StatusData.mk (s.status.flags.set StatusFlags.syncing) _ _ _ = _
                  rw [h, StatusFlags.set_syncing_of]
                  rfl
              | «end» =>
                  show StatusData.mk (s.status.flags.clear StatusFlags.syncing) _ _ _ = _
                  rw [h, StatusFlags.clear_syncing_of]
                  rfl
      | writeCommand data =>
          cases data with
          | nil => exact hsame
          | cons cmd payload =>
              simp only [step, PeatGattService.step, PeatGattService.writeCommand, Command.decode,
                PeatGattService.execute]
              cases CommandType.fromByte cmd with
              | setHierarchy => cases payload <;> exact hsame
              | startSync | stopSync | refreshInfo | ping | reset => exact hsame
      | updateSyncProgress progress pendingDocs =>
          simp only [step, PeatGattService.step, PeatGattService.updateSyncProgress]
          split <;> exact hsame
      | updateParentStatus connected' rssi =>
          cases connected' with
          | true =>
              show StatusData.mk (s.status.flags.set StatusFlags.connected) _ _ _ = _
              rw [h, StatusFlags.set_connected_of]
              rfl
          | false =>
              show StatusData.mk (s.status.flags.clear StatusFlags.connected) _ _ _ = _
              rw [h, StatusFlags.clear_connected_of]
              rfl
      | updateBattery percent =>
          show StatusData.mk (if percent < 20 then s.status.flags.set StatusFlags.lowBattery
            else s.status.flags.clear StatusFlags.lowBattery) _ _ _ = _
          rw [h, StatusFlags.set_lowBattery_of, StatusFlags.clear_lowBattery_of]
          by_cases hlow : percent < 20
          · simp [hlow, batteryGiven, parentGiven, syncingGiven, childCountGiven, uptimeGiven]
          · simp [hlow, batteryGiven, parentGiven, syncingGiven, childCountGiven, uptimeGiven]
      | updateHierarchyLevel | updateChildCount | updateUptime =>
          show StatusData.mk s.status.flags _ _ _ = _
          rw [h]
          rfl

end Step

/-! ## Runs -/

section Run

variable (s : ServiceState) (operations : List Operation)

theorem nodeInfo_run : (s.run operations).nodeInfo =
    { s.nodeInfo with
      hierarchyLevel := (last levelGiven operations).getD s.nodeInfo.hierarchyLevel
      batteryPercent := ((last batteryGiven operations).map (min · 100)).getD
        s.nodeInfo.batteryPercent } := by
  induction operations generalizing s with
  | nil => rfl
  | cons operation operations ih =>
      rw [getD_last_cons, getD_map_last_cons]
      show ((s.step operation).run operations).nodeInfo = _
      rw [ih, nodeInfo_step]

theorem syncState_run (h : s.syncState.lastSync = 0) : (s.run operations).syncState =
    { state := (last stateGiven operations).getD s.syncState.state
      progress := (last progressGiven operations).getD s.syncState.progress
      pendingDocs := (last pendingDocsGiven operations).getD s.syncState.pendingDocs
      lastSync := 0 } := by
  induction operations generalizing s with
  | nil =>
      show s.syncState = ⟨s.syncState.state, s.syncState.progress, s.syncState.pendingDocs, 0⟩
      rw [← h]
  | cons operation operations ih =>
      have hstep := syncState_step s operation h
      rw [getD_last_cons, getD_last_cons, getD_last_cons]
      show ((s.step operation).run operations).syncState = _
      rw [ih _ (by rw [hstep]), hstep]

theorem status_run {connected syncing lowBattery : Bool}
    (h : s.status.flags = .of connected syncing lowBattery) : (s.run operations).status =
    { flags := .of (((last parentGiven operations).map Prod.fst).getD connected)
        ((last syncingGiven operations).getD syncing)
        (((last batteryGiven operations).map fun percent => decide (percent < 20)).getD lowBattery)
      childCount := (last childCountGiven operations).getD s.status.childCount
      parentRssi := ((last parentGiven operations).map Prod.snd).getD s.status.parentRssi
      uptimeMinutes := (last uptimeGiven operations).getD s.status.uptimeMinutes } := by
  induction operations generalizing s connected syncing lowBattery with
  | nil =>
      show s.status = ⟨.of connected syncing lowBattery, s.status.childCount,
        s.status.parentRssi, s.status.uptimeMinutes⟩
      rw [← h]
  | cons operation operations ih =>
      have hstep := status_step s operation h
      rw [getD_map_last_cons, getD_last_cons, getD_map_last_cons, getD_last_cons,
        getD_map_last_cons, getD_last_cons]
      show ((s.step operation).run operations).status = _
      rw [ih _ (congrArg StatusData.flags hstep), hstep]

theorem mtu_run : (s.run operations).mtu = (last mtuGiven operations).getD s.mtu := by
  refine @view_run _ _ _ step mtu mtuGiven (fun s operation => ?_) s operations
  cases operation with
  | onSubscribe address characteristic =>
      simp only [step, onSubscribe]
      split
      · rfl
      · split <;> rfl
  | service | onClientConnected | onClientDisconnected | onMtuChanged => rfl

end Run

section Clients

variable (s : ServiceState) (operation : Operation) (address : String)

theorem mem_enlist {addresses : List String} {other : String} :
    address ∈ enlist addresses other ↔ address ∈ addresses ∨ other = address := by
  unfold enlist
  split
  · rename_i hmem
    exact (or_iff_left_of_imp fun heq => heq ▸ hmem).symm
  · rw [List.mem_append, List.mem_singleton, eq_comm]

theorem nodup_enlist {addresses : List String} (h : addresses.Nodup) :
    (enlist addresses address).Nodup := by
  unfold enlist
  split
  · exact h
  · rename_i hnew
    exact List.nodup_append.mpr ⟨h, List.nodup_singleton _, fun a ha b hb heq =>
      hnew (List.mem_singleton.mp hb ▸ heq ▸ ha)⟩

/-- Who enlists is in, who leaves is out, and nobody else moves. -/
theorem mem_enlist_getD {addresses : List String} {other : String} :
    address ∈ enlist addresses other ↔
      (if other = address then some true else none).getD (decide (address ∈ addresses)) = true := by
  rw [mem_enlist]
  split
  · rename_i heq
    exact iff_of_true (Or.inr heq) rfl
  · rename_i hne
    rw [or_iff_left hne, Option.getD_none, decide_eq_true_iff]

theorem mem_filter_getD {addresses : List String} {other : String} :
    address ∈ addresses.filter (· ≠ other) ↔
      (if other = address then some false else none).getD (decide (address ∈ addresses)) =
        true := by
  rw [List.mem_filter, decide_eq_true_iff, ne_eq, eq_comm]
  split
  · rename_i heq
    exact iff_of_false (fun h => h.2 heq) Bool.false_ne_true
  · rename_i hne
    rw [and_iff_left hne, Option.getD_none, decide_eq_true_iff]

theorem mem_connectedClients_step : address ∈ (s.step operation).connectedClients ↔
    (presence address operation).getD (decide (address ∈ s.connectedClients)) = true := by
  cases operation with
  | onClientConnected other => exact mem_enlist_getD address
  | onClientDisconnected other => exact mem_filter_getD address
  | onSubscribe other characteristic =>
      simp only [step, onSubscribe, presence, Option.getD_none, decide_eq_true_iff]
      split
      · rfl
      · split <;> rfl
  | service | onMtuChanged => exact decide_eq_true_iff.symm

theorem mem_syncStateSubscribers_step : address ∈ (s.step operation).syncStateSubscribers ↔
    (subscription "sync_state" address operation).getD
      (decide (address ∈ s.syncStateSubscribers)) = true := by
  cases operation with
  | onClientDisconnected other => exact mem_filter_getD address
  | onSubscribe other characteristic =>
      simp only [step, onSubscribe, subscription]
      by_cases hsync : characteristic = "sync_state"
      · simp only [hsync, if_true, and_true]
        exact mem_enlist_getD address
      · simp only [hsync, if_false, and_false, Option.getD_none, decide_eq_true_iff]
        split <;> rfl
  | service | onClientConnected | onMtuChanged => exact decide_eq_true_iff.symm

theorem mem_statusSubscribers_step : address ∈ (s.step operation).statusSubscribers ↔
    (subscription "status" address operation).getD
      (decide (address ∈ s.statusSubscribers)) = true := by
  cases operation with
  | onClientDisconnected other => exact mem_filter_getD address
  | onSubscribe other characteristic =>
      simp only [step, onSubscribe, subscription]
      by_cases hsync : characteristic = "sync_state"
      · have hother : "sync_state" ≠ "status" := by decide
        simp only [hsync, if_true, hother, and_false, if_false, Option.getD_none,
          decide_eq_true_iff]
      · simp only [hsync, if_false]
        by_cases hstatus : characteristic = "status"
        · simp only [hstatus, if_true, and_true]
          exact mem_enlist_getD address
        · simp only [hstatus, if_false, and_false, Option.getD_none, decide_eq_true_iff]
  | service | onClientConnected | onMtuChanged => exact decide_eq_true_iff.symm

/-- Nobody is listed twice. -/
def Listed (s : ServiceState) : Prop :=
  s.connectedClients.Nodup ∧ s.syncStateSubscribers.Nodup ∧ s.statusSubscribers.Nodup

theorem Listed.step {s : ServiceState} (h : Listed s) (operation : Operation) :
    Listed (s.step operation) := by
  obtain ⟨hconnected, hsync, hstatus⟩ := h
  cases operation with
  | service | onMtuChanged => exact ⟨hconnected, hsync, hstatus⟩
  | onClientConnected address => exact ⟨nodup_enlist address hconnected, hsync, hstatus⟩
  | onClientDisconnected address =>
      exact ⟨hconnected.filter _, hsync.filter _, hstatus.filter _⟩
  | onSubscribe address characteristic =>
      simp only [ServiceState.step, onSubscribe]
      split
      · exact ⟨hconnected, nodup_enlist address hsync, hstatus⟩
      · split
        · exact ⟨hconnected, hsync, nodup_enlist address hstatus⟩
        · exact ⟨hconnected, hsync, hstatus⟩

end Clients

/-- What a client reads, whatever the node and the clients did before, is the last word on each
field. Clients have a say only in the state of the sync, its flag and the level of the node; and
those are notified who subscribed after they were last gone, each once. -/
theorem clients_read_last_word (nodeId : NodeId) (hierarchyLevel : HierarchyLevel)
    (capabilities : UInt16) (operations : List Operation) :
    let s := (new nodeId hierarchyLevel capabilities).run operations
    NodeInfo.decode s.readNodeInfo = some
        { nodeId := nodeId
          protocolVersion := 1
          hierarchyLevel := (last levelGiven operations).getD hierarchyLevel
          capabilities := capabilities
          batteryPercent := ((last batteryGiven operations).map (min · 100)).getD 255 } ∧
      SyncStateData.decode s.readSyncState = some
        { state := (last stateGiven operations).getD .idle
          progress := (last progressGiven operations).getD 0
          pendingDocs := (last pendingDocsGiven operations).getD 0
          lastSync := 0 } ∧
      StatusData.decode s.readStatus = some
        { flags := .of (((last parentGiven operations).map Prod.fst).getD false)
            ((last syncingGiven operations).getD false)
            (((last batteryGiven operations).map fun percent => decide (percent < 20)).getD false)
          childCount := (last childCountGiven operations).getD 0
          parentRssi := ((last parentGiven operations).map Prod.snd).getD 127
          uptimeMinutes := (last uptimeGiven operations).getD 0 } ∧
      s.mtu = (last mtuGiven operations).getD 23 ∧ Listed s ∧ ∀ address,
        (address ∈ s.connectedClients ↔ last (presence address) operations = some true) ∧
        (address ∈ s.syncStateSubscribers ↔
          last (subscription "sync_state" address) operations = some true) ∧
        (address ∈ s.statusSubscribers ↔
          last (subscription "status" address) operations = some true) := by
  intro s
  have hlast : ∀ value : Option Bool, value.getD (decide False) = true ↔ value = some true := by
    intro value
    cases value with
    | none => simp
    | some value => simp
  refine ⟨?_, ?_, ?_, mtu_run _ _, ?_, fun address => ⟨?_, ?_, ?_⟩⟩
  · have hread := NodeInfo.decode_encode s.nodeInfo []
    rw [List.append_nil] at hread
    exact hread.trans (congrArg some (nodeInfo_run _ operations))
  · have hread := SyncStateData.decode_encode s.syncState []
    rw [List.append_nil] at hread
    exact hread.trans (congrArg some (syncState_run _ operations rfl))
  · have hread := StatusData.decode_encode s.status []
    rw [List.append_nil] at hread
    exact hread.trans (congrArg some (@status_run _ operations false false false rfl))
  · exact LoggedRun.run_keeps ⟨List.nodup_nil, List.nodup_nil, List.nodup_nil⟩
      fun _ operation _ h => h.step operation
  · have hmem := mem_run mem_connectedClients_step (new nodeId hierarchyLevel capabilities)
      operations address
    exact hmem.trans (hlast _)
  · have hmem := mem_run mem_syncStateSubscribers_step (new nodeId hierarchyLevel capabilities)
      operations address
    exact hmem.trans (hlast _)
  · have hmem := mem_run mem_statusSubscribers_step (new nodeId hierarchyLevel capabilities)
      operations address
    exact hmem.trans (hlast _)

end ServiceState

end PeatBtle
