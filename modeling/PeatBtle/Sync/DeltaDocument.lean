import PeatBtle.Registry
import PeatBtle.Sync.Delta
import PeatBtle.Document

/-!
# Delta documents

The second wire format: a header and a list of operations. Each operation has a
key and a timestamp, which the per-peer tracking uses to decide whether it is
sent again.
-/

namespace PeatBtle

open Wire

namespace OpType

def incrementCounter : UInt8 := 0x01
def updatePeripheral : UInt8 := 0x02
def setEmergency : UInt8 := 0x03
def ackEmergency : UInt8 := 0x04
def clearEmergency : UInt8 := 0x05

end OpType

inductive Operation where
  | incrementCounter (counterId : UInt8) (nodeId : NodeId) (amount timestamp : UInt64)
  | updatePeripheral (peripheral : Peripheral) (timestamp : UInt64)
  | setEmergency (sourceNode : NodeId) (timestamp : UInt64) (knownPeers : List UInt32)
  | ackEmergency (nodeId : NodeId) (emergencyTimestamp : UInt64)
  | clearEmergency (emergencyTimestamp : UInt64)
  | app (op : AppOperation)
deriving DecidableEq

namespace Operation

def timestamp : Operation → UInt64
  | .incrementCounter _ _ _ timestamp => timestamp
  | .updatePeripheral _ timestamp => timestamp
  | .setEmergency _ timestamp _ => timestamp
  | .ackEmergency _ emergencyTimestamp => emergencyTimestamp
  | .clearEmergency emergencyTimestamp => emergencyTimestamp
  | .app op => op.timestamp

def key : Operation → String
  | .incrementCounter counterId nodeId _ _ =>
      "counter:" ++ decimal counterId.toNat ++ ":" ++ decimal nodeId.toNat
  | .updatePeripheral peripheral _ => "peripheral:" ++ decimal peripheral.id.toNat
  | .setEmergency sourceNode _ _ => "emergency:" ++ decimal sourceNode.toNat
  | .ackEmergency nodeId _ => "ack:" ++ decimal nodeId.toNat
  | .clearEmergency _ => "clear_emergency"
  | .app op => "app:" ++ decimal op.typeId.toNat ++ ":" ++ decimal op.sourceNode.toNat ++ ":" ++
      decimal op.timestamp.toNat

def isApp : Operation → Bool
  | .app _ => true
  | _ => false

/-! ## Wire format -/

/-- The number of peers is written as one byte; the peers themselves are all written. -/
def encode : Operation → Bytes
  | .incrementCounter counterId nodeId amount timestamp =>
      OpType.incrementCounter :: counterId ::
        (u32ToLe nodeId ++ (u64ToLe amount ++ u64ToLe timestamp))
  | .updatePeripheral peripheral timestamp =>
      OpType.updatePeripheral :: (u64ToLe timestamp ++
        (u16ToLe (UInt16.ofNat peripheral.encode.length) ++ peripheral.encode))
  | .setEmergency sourceNode timestamp knownPeers =>
      OpType.setEmergency :: (u32ToLe sourceNode ++ (u64ToLe timestamp ++
        (UInt8.ofNat knownPeers.length :: knownPeers.flatMap u32ToLe)))
  | .ackEmergency nodeId emergencyTimestamp =>
      OpType.ackEmergency :: (u32ToLe nodeId ++ u64ToLe emergencyTimestamp)
  | .clearEmergency emergencyTimestamp => OpType.clearEmergency :: u64ToLe emergencyTimestamp
  | .app op => op.encode

def decodeIncrementCounter (data : Bytes) : Option (Operation × Nat) :=
  if data.length < 22 then none
  else some (.incrementCounter (byteAt data 1) (u32At data 2) (u64At data 6) (u64At data 14), 22)

def decodeUpdatePeripheral (data : Bytes) : Option (Operation × Nat) :=
  if data.length < 11 then none
  else
    let len := (u16At data 9).toNat
    if data.length < 11 + len then none
    else (Peripheral.decode (slice data 11 (11 + len))).map fun peripheral =>
      (.updatePeripheral peripheral (u64At data 1), 11 + len)

def decodeSetEmergency (data : Bytes) : Option (Operation × Nat) :=
  if data.length < 14 then none
  else
    let peerCount := (byteAt data 13).toNat
    if data.length < 14 + peerCount * 4 then none
    else some (.setEmergency (u32At data 1) (u64At data 5)
      ((List.range peerCount).map fun i => u32At data (14 + i * 4)), 14 + peerCount * 4)

def decodeAckEmergency (data : Bytes) : Option (Operation × Nat) :=
  if data.length < 13 then none else some (.ackEmergency (u32At data 1) (u64At data 5), 13)

def decodeClearEmergency (data : Bytes) : Option (Operation × Nat) :=
  if data.length < 9 then none else some (.clearEmergency (u64At data 1), 9)

/-- The operation and the number of bytes it took. -/
def decode (data : Bytes) : Option (Operation × Nat) :=
  if data.isEmpty then none
  else
    let opType := byteAt data 0
    if opType = OpType.incrementCounter then decodeIncrementCounter data
    else if opType = OpType.updatePeripheral then decodeUpdatePeripheral data
    else if opType = OpType.setEmergency then decodeSetEmergency data
    else if opType = OpType.ackEmergency then decodeAckEmergency data
    else if opType = OpType.clearEmergency then decodeClearEmergency data
    else if AppOperation.isAppOpType opType then
      (AppOperation.decode data).map fun found => (.app found.1, found.2)
    else none

end Operation

structure DeltaFlags where
  hasVectorClock : Bool
  isResponse : Bool
deriving DecidableEq

namespace DeltaFlags

def default : DeltaFlags := ⟨false, false⟩

def toByte (f : DeltaFlags) : UInt8 :=
  (if f.hasVectorClock then 0x01 else 0) ||| (if f.isResponse then 0x02 else 0)

def fromByte (byte : UInt8) : DeltaFlags := ⟨byte &&& 0x01 != 0, byte &&& 0x02 != 0⟩

theorem fromByte_toByte (f : DeltaFlags) : fromByte f.toByte = f := by
  obtain ⟨hasVectorClock, isResponse⟩ := f
  revert hasVectorClock isResponse
  decide

end DeltaFlags

structure DeltaDocument where
  originNode : NodeId
  timestampMs : UInt64
  flags : DeltaFlags
  vectorClock : Option VectorClock
  operations : List Operation
deriving DecidableEq

namespace DeltaDocument

def new (originNode : NodeId) (timestampMs : UInt64) : DeltaDocument :=
  ⟨originNode, timestampMs, DeltaFlags.default, none, []⟩

def addOperation (d : DeltaDocument) (op : Operation) : DeltaDocument :=
  { d with operations := d.operations ++ [op] }

theorem foldl_addOperation (operations : List Operation) (d : DeltaDocument) :
    operations.foldl addOperation d = { d with operations := d.operations ++ operations } := by
  induction operations generalizing d with
  | nil => simp
  | cons op operations ih => simp [ih, addOperation]

def isDeltaDocument (data : Bytes) : Bool := !data.isEmpty && byteAt data 0 == deltaDocumentMarker

def encode (d : DeltaDocument) : Bytes :=
  deltaDocumentMarker :: d.flags.toByte :: (u32ToLe d.originNode ++ (u64ToLe d.timestampMs ++
    (d.vectorClock.elim [] VectorClock.encode ++
      (u16ToLe (UInt16.ofNat d.operations.length) ++ d.operations.flatMap Operation.encode))))

def encodedSize (d : DeltaDocument) : Nat :=
  16 + d.vectorClock.elim 0 (fun clock => clock.encode.length) +
    (d.operations.map fun op => op.encode.length).sum

/-- The operation loop: the count is known, the sizes are not. -/
def decodeOperations (data : Bytes) : Nat → Nat → Option (List Operation)
  | 0, _ => some []
  | count + 1, offset =>
      if offset ≥ data.length then none
      else do
        let (op, size) ← Operation.decode (data.drop offset)
        let rest ← decodeOperations data count (offset + size)
        some (op :: rest)

/-- The clock, if announced, and the offset behind it. -/
def decodeClock (data : Bytes) (flags : DeltaFlags) : Option (Option VectorClock × Nat) :=
  if flags.hasVectorClock then
    (VectorClock.decode (data.drop 14)).map fun clock =>
      (some clock, 14 + (4 + (u32At data 14).toNat * 12))
  else some (none, 14)

def decode (data : Bytes) : Option DeltaDocument :=
  if data.length < 16 then none
  else if byteAt data 0 ≠ deltaDocumentMarker then none
  else do
    let flags := DeltaFlags.fromByte (byteAt data 1)
    let (vectorClock, offset) ← decodeClock data flags
    if data.length < offset + 2 then none
    else
      let operations ← decodeOperations data (u16At data offset).toNat (offset + 2)
      some
        { originNode := u32At data 2
          timestampMs := u64At data 6
          flags
          vectorClock
          operations }

end DeltaDocument

end PeatBtle
