import PeatBtle.Gatt.Service

/-!
# What the characteristics show

A client reads the node information, the state of the sync and the status as bytes. The
words go high byte first, and bytes beyond the last field are ignored.
-/

namespace PeatBtle

open Wire

namespace NodeInfo

def encodedSize : Nat := 9

def encode (i : NodeInfo) : Bytes :=
  [(i.nodeId >>> 24).toUInt8, (i.nodeId >>> 16).toUInt8, (i.nodeId >>> 8).toUInt8,
    i.nodeId.toUInt8, i.protocolVersion, i.hierarchyLevel.toU8,
    (i.capabilities >>> 8).toUInt8, i.capabilities.toUInt8, i.batteryPercent]

def decode (data : Bytes) : Option NodeInfo :=
  if data.length < encodedSize then none
  else
    some
      { nodeId := ((byteAt data 0).toUInt32 <<< 24) ||| ((byteAt data 1).toUInt32 <<< 16) |||
          ((byteAt data 2).toUInt32 <<< 8) ||| (byteAt data 3).toUInt32
        protocolVersion := byteAt data 4
        hierarchyLevel := HierarchyLevel.ofU8 (byteAt data 5)
        capabilities := ((byteAt data 6).toUInt16 <<< 8) ||| (byteAt data 7).toUInt16
        batteryPercent := byteAt data 8 }

theorem decode_encode (i : NodeInfo) (rest : Bytes) : decode (i.encode ++ rest) = some i := by
  have hlength : ¬ (i.encode ++ rest).length < encodedSize := by simp [encode, encodedSize]
  rw [decode, if_neg hlength]
  simp only [encode, List.cons_append, byteAt_cons_zero, byteAt_cons_succ, u32_of_bytes,
    u16_of_bytes, HierarchyLevel.ofU8_toU8]

end NodeInfo

namespace Gatt.SyncState

def toU8 : Gatt.SyncState → UInt8
  | idle => 0
  | syncing => 1
  | complete => 2
  | error => 3

/-- An unknown state is read as idle. -/
def ofU8 (value : UInt8) : Gatt.SyncState :=
  if value = 0 then idle
  else if value = 1 then syncing
  else if value = 2 then complete
  else if value = 3 then error
  else idle

@[simp] theorem ofU8_toU8 (state : Gatt.SyncState) : ofU8 state.toU8 = state := by
  cases state <;> rfl

end Gatt.SyncState

namespace SyncStateData

def encodedSize : Nat := 8

def encode (d : SyncStateData) : Bytes :=
  [d.state.toU8, d.progress, (d.pendingDocs >>> 8).toUInt8, d.pendingDocs.toUInt8,
    (d.lastSync >>> 24).toUInt8, (d.lastSync >>> 16).toUInt8, (d.lastSync >>> 8).toUInt8,
    d.lastSync.toUInt8]

def decode (data : Bytes) : Option SyncStateData :=
  if data.length < encodedSize then none
  else
    some
      { state := Gatt.SyncState.ofU8 (byteAt data 0)
        progress := byteAt data 1
        pendingDocs := ((byteAt data 2).toUInt16 <<< 8) ||| (byteAt data 3).toUInt16
        lastSync := ((byteAt data 4).toUInt32 <<< 24) ||| ((byteAt data 5).toUInt32 <<< 16) |||
          ((byteAt data 6).toUInt32 <<< 8) ||| (byteAt data 7).toUInt32 }

theorem decode_encode (d : SyncStateData) (rest : Bytes) : decode (d.encode ++ rest) = some d := by
  have hlength : ¬ (d.encode ++ rest).length < encodedSize := by simp [encode, encodedSize]
  rw [decode, if_neg hlength]
  simp only [encode, List.cons_append, byteAt_cons_zero, byteAt_cons_succ, u32_of_bytes,
    u16_of_bytes, Gatt.SyncState.ofU8_toU8]

end SyncStateData

namespace CommandType

def toByte : CommandType → UInt8
  | startSync => 0x01
  | stopSync => 0x02
  | refreshInfo => 0x03
  | setHierarchy => 0x10
  | ping => 0xFE
  | reset => 0xFF

@[simp] theorem fromByte_toByte (type : CommandType) : fromByte type.toByte = type := by
  cases type <;> rfl

end CommandType

namespace Command

def encode (c : Command) : Bytes := c.cmdType.toByte :: c.payload

theorem decode_encode (c : Command) : decode c.encode = some c := by
  rw [encode, decode, CommandType.fromByte_toByte]

end Command

namespace StatusFlags

def pendingData : UInt8 := 0x04
def error : UInt8 := 0x80

def isConnected (f : StatusFlags) : Bool := f.flags &&& connected != 0
def hasPendingData (f : StatusFlags) : Bool := f.flags &&& pendingData != 0
def isLowBattery (f : StatusFlags) : Bool := f.flags &&& lowBattery != 0
def hasError (f : StatusFlags) : Bool := f.flags &&& error != 0

/-- The flags of a node with these three things to say. -/
def of (isConnected isSyncing isLowBattery : Bool) : StatusFlags :=
  ⟨(if isConnected then connected else 0) ||| (if isSyncing then syncing else 0) |||
    (if isLowBattery then lowBattery else 0)⟩

section Of

variable (c s l : Bool)

@[simp] theorem set_connected_of : (of c s l).set connected = of true s l := by
  cases c <;> cases s <;> cases l <;> rfl

@[simp] theorem clear_connected_of : (of c s l).clear connected = of false s l := by
  cases c <;> cases s <;> cases l <;> rfl

@[simp] theorem set_syncing_of : (of c s l).set syncing = of c true l := by
  cases c <;> cases s <;> cases l <;> rfl

@[simp] theorem clear_syncing_of : (of c s l).clear syncing = of c false l := by
  cases c <;> cases s <;> cases l <;> rfl

@[simp] theorem set_lowBattery_of : (of c s l).set lowBattery = of c s true := by
  cases c <;> cases s <;> cases l <;> rfl

@[simp] theorem clear_lowBattery_of : (of c s l).clear lowBattery = of c s false := by
  cases c <;> cases s <;> cases l <;> rfl

end Of

end StatusFlags

namespace StatusData

def encodedSize : Nat := 5

def encode (d : StatusData) : Bytes :=
  [d.flags.flags, d.childCount, d.parentRssi.toUInt8, (d.uptimeMinutes >>> 8).toUInt8,
    d.uptimeMinutes.toUInt8]

def decode (data : Bytes) : Option StatusData :=
  if data.length < encodedSize then none
  else
    some
      { flags := ⟨byteAt data 0⟩
        childCount := byteAt data 1
        parentRssi := (byteAt data 2).toInt8
        uptimeMinutes := ((byteAt data 3).toUInt16 <<< 8) ||| (byteAt data 4).toUInt16 }

theorem decode_encode (d : StatusData) (rest : Bytes) : decode (d.encode ++ rest) = some d := by
  have hlength : ¬ (d.encode ++ rest).length < encodedSize := by simp [encode, encodedSize]
  have hrssi : d.parentRssi.toUInt8.toInt8 = d.parentRssi := rfl
  rw [decode, if_neg hlength]
  simp only [encode, List.cons_append, byteAt_cons_zero, byteAt_cons_succ, u16_of_bytes, hrssi]

end StatusData

end PeatBtle
