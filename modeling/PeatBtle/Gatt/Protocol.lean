import PeatBtle.Data.Chunks
import PeatBtle.Wire.LittleEndian

/-!
# The GATT sync protocol

Messages cross the sync data characteristic behind a five-byte header. A payload
that does not fit one write is cut into fragments, and the receiver keeps a slot
for each. Fragment numbers and their total are single bytes. A computation that
panics in the source has no result here.
-/

namespace PeatBtle

open Wire

/-! ## The sync data header -/

inductive SyncDataOp where
  | document
  | vector
  | ack
  | «end»
deriving DecidableEq

namespace SyncDataOp

def toByte : SyncDataOp → UInt8
  | .document => 0x01
  | .vector => 0x02
  | .ack => 0x03
  | .end => 0xFF

/-- Unknown operations count as documents. -/
def fromByte (value : UInt8) : SyncDataOp :=
  if value = 0x01 then .document
  else if value = 0x02 then .vector
  else if value = 0x03 then .ack
  else if value = 0xFF then .end
  else .document

theorem fromByte_toByte (op : SyncDataOp) : fromByte op.toByte = op := by
  cases op <;> rfl

end SyncDataOp

structure SyncDataHeader where
  op : SyncDataOp
  seq : UInt16
  totalFragments : UInt8
  fragmentIndex : UInt8
deriving DecidableEq

namespace SyncDataHeader

def size : Nat := 5

/-- The sequence number goes high byte first. -/
def encode (h : SyncDataHeader) : Bytes :=
  [h.op.toByte, (h.seq >>> 8).toUInt8, h.seq.toUInt8, h.totalFragments, h.fragmentIndex]

def decode (data : Bytes) : Option SyncDataHeader :=
  if data.length < size then none
  else some
    { op := SyncDataOp.fromByte (byteAt data 0)
      seq := ((byteAt data 1).toUInt16 <<< 8) ||| (byteAt data 2).toUInt16
      totalFragments := byteAt data 3
      fragmentIndex := byteAt data 4 }

end SyncDataHeader

/-! ## Messages -/

inductive SyncMessageType where
  | syncVector
  | document
  | ack
  | endSync
  | error
deriving DecidableEq

namespace SyncMessageType

/-- An error goes out as the end of the session. -/
def toOp : SyncMessageType → SyncDataOp
  | .syncVector => .vector
  | .document => .document
  | .ack => .ack
  | .endSync => .end
  | .error => .end

def ofOp : SyncDataOp → SyncMessageType
  | .vector => .syncVector
  | .document => .document
  | .ack => .ack
  | .end => .endSync

end SyncMessageType

structure SyncMessage where
  msgType : SyncMessageType
  seq : UInt16
  totalFragments : UInt8
  fragmentIndex : UInt8
  payload : Bytes
deriving DecidableEq

namespace SyncMessage

def new (msgType : SyncMessageType) (seq : UInt16) (payload : Bytes) : SyncMessage :=
  ⟨msgType, seq, 1, 0, payload⟩

def header (m : SyncMessage) : SyncDataHeader :=
  ⟨m.msgType.toOp, m.seq, m.totalFragments, m.fragmentIndex⟩

def encode (m : SyncMessage) : Bytes := m.header.encode ++ m.payload

def decode (data : Bytes) : Option SyncMessage :=
  (SyncDataHeader.decode data).map fun header =>
    { msgType := SyncMessageType.ofOp header.op
      seq := header.seq
      totalFragments := header.totalFragments
      fragmentIndex := header.fragmentIndex
      payload := data.drop SyncDataHeader.size }

end SyncMessage

/-- Pieces of size zero of a payload that has to be cut: the source panics. -/
def fragmentPayload (msgType : SyncMessageType) (seq : UInt16) (payload : Bytes)
    (maxFragmentSize : Nat) : Option (List SyncMessage) :=
  if payload.isEmpty ∨ payload.length ≤ maxFragmentSize then
    some [SyncMessage.new msgType seq payload]
  else if maxFragmentSize = 0 then none
  else
    let totalFragments := UInt8.ofNat (min (Chunks.count maxFragmentSize payload) 255)
    some ((Chunks.pieces maxFragmentSize payload).mapIdx fun i chunk =>
      ⟨msgType, seq, totalFragments, UInt8.ofNat i, chunk⟩)

/-! ## Reassembly -/

structure FragmentReassembler where
  totalFragments : UInt8
  fragments : List (Option Bytes)
  seq : UInt16
  msgType : SyncMessageType
deriving DecidableEq

namespace FragmentReassembler

/-- An index beyond the total panics in the source. -/
def new (msg : SyncMessage) : Option FragmentReassembler :=
  if msg.fragmentIndex.toNat < msg.totalFragments.toNat then some
    { totalFragments := msg.totalFragments
      fragments := (List.replicate msg.totalFragments.toNat none).set msg.fragmentIndex.toNat
        (some msg.payload)
      seq := msg.seq
      msgType := msg.msgType }
  else none

def isComplete (r : FragmentReassembler) : Bool := r.fragments.all Option.isSome

/-- Whether all fragments are there now. An index beyond the slots is skipped. -/
def addFragment (r : FragmentReassembler) (msg : SyncMessage) : FragmentReassembler × Bool :=
  if msg.seq ≠ r.seq ∨ msg.totalFragments ≠ r.totalFragments then (r, false)
  else
    let filled := { r with
      fragments := r.fragments.set msg.fragmentIndex.toNat (some msg.payload) }
    (filled, filled.isComplete)

def reassemble (r : FragmentReassembler) : Option Bytes :=
  if r.isComplete then some (r.fragments.filterMap id).flatten else none

end FragmentReassembler

/-! ## The state machine -/

inductive SyncProtocolState where
  | idle
  | sendingVector
  | receivingDocuments
  | sendingDocuments
  | waitingAck
  | complete
  | error
deriving DecidableEq

structure SyncProtocol where
  state : SyncProtocolState
  seq : UInt16
  outgoing : List SyncMessage
  pendingAcks : List UInt16
  reassembler : Option FragmentReassembler
  maxPayload : Nat
deriving DecidableEq

namespace SyncProtocol

def defaultMaxPayload : Nat := 15

def maxPayloadSize (mtu : UInt16) : Nat := mtu.toNat - (3 + SyncDataHeader.size)

def new : SyncProtocol := ⟨.idle, 0, [], [], none, defaultMaxPayload⟩

def setMtu (p : SyncProtocol) (mtu : UInt16) : SyncProtocol :=
  { p with maxPayload := maxPayloadSize mtu }

/-- Queue the fragments of a payload under the next sequence number. -/
def queue (p : SyncProtocol) (msgType : SyncMessageType) (payload : Bytes) : Option SyncProtocol :=
  (fragmentPayload msgType p.seq payload p.maxPayload).map fun messages =>
    { p with seq := p.seq + 1, outgoing := p.outgoing ++ messages }

def startSync (p : SyncProtocol) (syncVector : Bytes) : Option SyncProtocol :=
  { p with state := .sendingVector, seq := 0 }.queue .syncVector syncVector

def queueDocument (p : SyncProtocol) (docData : Bytes) : Option SyncProtocol :=
  let sending := if p.state = .idle then { p with state := .sendingDocuments } else p
  sending.queue .document docData

def endSync (p : SyncProtocol) : SyncProtocol :=
  { p with
    seq := p.seq + 1
    outgoing := p.outgoing ++ [SyncMessage.new .endSync p.seq []]
    state := .complete }

def nextOutgoing (p : SyncProtocol) : SyncProtocol × Option SyncMessage :=
  ({ p with outgoing := p.outgoing.tail }, p.outgoing.head?)

/-- The first fragment of a message. Whatever was being collected is dropped. -/
def startReassembly (p : SyncProtocol) (msg : SyncMessage) :
    Option (SyncProtocol × Option (SyncMessageType × Bytes)) :=
  (FragmentReassembler.new msg).map fun started =>
    if started.isComplete then
      ({ p with reassembler := none },
        started.reassemble.map fun payload => (started.msgType, payload))
    else ({ p with reassembler := some started }, none)

def processFragment (p : SyncProtocol) (msg : SyncMessage) :
    Option (SyncProtocol × Option (SyncMessageType × Bytes)) :=
  match p.reassembler with
  | none => p.startReassembly msg
  | some current =>
      if current.seq = msg.seq then
        let added := current.addFragment msg
        if added.2 then
          match added.1.reassemble with
          | some payload =>
              some ({ p with reassembler := none }, some (added.1.msgType, payload))
          | none => some ({ p with reassembler := some added.1 }, none)
        else some ({ p with reassembler := some added.1 }, none)
      else p.startReassembly msg

def processWhole (p : SyncProtocol) (msg : SyncMessage) :
    SyncProtocol × Option (SyncMessageType × Bytes) :=
  match msg.msgType with
  | .ack => ({ p with pendingAcks := p.pendingAcks.filter fun seq => seq ≠ msg.seq }, none)
  | .syncVector => ({ p with state := .receivingDocuments }, some (.syncVector, msg.payload))
  | .document =>
      ({ p with outgoing := p.outgoing ++ [SyncMessage.new .ack msg.seq []] },
        some (.document, msg.payload))
  | .endSync => ({ p with state := .complete }, some (.endSync, []))
  | .error => ({ p with state := .error }, some (.error, msg.payload))

def processIncoming (p : SyncProtocol) (data : Bytes) :
    Option (SyncProtocol × Option (SyncMessageType × Bytes)) :=
  match SyncMessage.decode data with
  | none => some (p, none)
  | some msg =>
      if msg.totalFragments > 1 then p.processFragment msg else some (p.processWhole msg)

def reset (p : SyncProtocol) : SyncProtocol :=
  { p with state := .idle, seq := 0, outgoing := [], pendingAcks := [], reassembler := none }

/-- What a row of writes returns, one answer for each. -/
def receiveAll (p : SyncProtocol) : List Bytes →
    Option (SyncProtocol × List (Option (SyncMessageType × Bytes)))
  | [] => some (p, [])
  | data :: rest =>
      (p.processIncoming data).bind fun answered =>
        (answered.1.receiveAll rest).map fun done => (done.1, answered.2 :: done.2)

end SyncProtocol

end PeatBtle
