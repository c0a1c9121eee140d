import PeatBtle.Data.Chunks
import PeatBtle.Sync.Batch
import PeatBtle.Sync.Delta

/-!
# The chunked sync protocol

A prepared batch is cut into chunks that fit the MTU. Each chunk names its
message, its index and the number of chunks. The receiver collects chunks under
the message identifier alone and decodes the batch once all of them are there.
-/

namespace PeatBtle

open Wire

def chunkHeaderSize : Nat := 8
def defaultMtu : Nat := 23
def maxMtu : Nat := 517

structure ChunkHeader where
  messageId : UInt32
  chunkIndex : UInt16
  totalChunks : UInt16
deriving DecidableEq, Repr

namespace ChunkHeader

def encode (h : ChunkHeader) : Bytes :=
  u32ToLe h.messageId ++ (u16ToLe h.chunkIndex ++ u16ToLe h.totalChunks)

def decode (data : Bytes) : Option ChunkHeader :=
  if data.length < chunkHeaderSize then none
  else some ⟨u32At data 0, u16At data 4, u16At data 6⟩

end ChunkHeader

structure SyncChunk where
  header : ChunkHeader
  payload : Bytes
deriving DecidableEq

namespace SyncChunk

def encode (c : SyncChunk) : Bytes := c.header.encode ++ c.payload

def decode (data : Bytes) : Option SyncChunk :=
  (ChunkHeader.decode data).map fun header => ⟨header, data.drop chunkHeaderSize⟩

theorem decode_encode (c : SyncChunk) : decode c.encode = some c := by
  have hlen : ¬ (c.header.encode ++ c.payload).length < chunkHeaderSize := by
    simp only [ChunkHeader.encode, chunkHeaderSize, List.length_append, u32ToLe_length,
      u16ToLe_length]
    omega
  have hid : u32At (c.header.encode ++ c.payload) 0 = c.header.messageId := by
    rw [ChunkHeader.encode, List.append_assoc, u32At_toLe]
  have hindex : u16At (c.header.encode ++ c.payload) 4 = c.header.chunkIndex := by
    rw [ChunkHeader.encode, List.append_assoc, u16At_skip (by simp), u32ToLe_length, Nat.sub_self,
      List.append_assoc, u16At_toLe]
  have htotal : u16At (c.header.encode ++ c.payload) 6 = c.header.totalChunks := by
    rw [ChunkHeader.encode, List.append_assoc, u16At_skip (by simp), u32ToLe_length,
      List.append_assoc, u16At_skip (by simp), u16ToLe_length, u16At_toLe]
  have hdrop : (c.header.encode ++ c.payload).drop chunkHeaderSize = c.payload :=
    List.drop_left' (by simp [ChunkHeader.encode, chunkHeaderSize])
  simp only [decode, encode, ChunkHeader.decode, if_neg hlen, hid, hindex, htotal, hdrop,
    Option.map_some]

end SyncChunk

/-! ## Cutting a message into chunks -/

/-- The number of chunks is truncated to 16 bits, as are the indices. -/
def chunkData (data : Bytes) (mtu : Nat) (messageId : UInt32) : List SyncChunk :=
  let payloadSize := mtu - chunkHeaderSize
  if payloadSize = 0 then []
  else
    let totalChunks := UInt16.ofNat (max (Chunks.count payloadSize data) 1)
    let chunks := (Chunks.pieces payloadSize data).mapIdx fun i payload =>
      ⟨⟨messageId, UInt16.ofNat i, totalChunks⟩, payload⟩
    if chunks.isEmpty then [⟨⟨messageId, 0, 1⟩, []⟩] else chunks

/-- Within the 16-bit limits, chunk `i` of `n` carries piece `i`. -/
theorem chunkData_eq {data : Bytes} {mtu : Nat} (hmtu : chunkHeaderSize < mtu) (hdata : data ≠ [])
    (messageId : UInt32) :
    chunkData data mtu messageId =
      (List.range (Chunks.count (mtu - chunkHeaderSize) data)).map fun i =>
        ⟨⟨messageId, UInt16.ofNat i,
          UInt16.ofNat (Chunks.count (mtu - chunkHeaderSize) data)⟩,
          Chunks.piece (mtu - chunkHeaderSize) data i⟩ := by
  have hsize : 0 < mtu - chunkHeaderSize := by omega
  have hcount := Chunks.count_pos hsize hdata
  have hpieces : (Chunks.pieces (mtu - chunkHeaderSize) data) ≠ [] := by
    rw [← List.length_pos_iff, Chunks.pieces_length]
    exact hcount
  unfold chunkData
  dsimp only
  rw [if_neg (by omega), if_neg (by simpa using hpieces), Nat.max_eq_left hcount]
  apply List.ext_getElem
  · simp
  · intro i h₁ h₂
    simp [Chunks.pieces]

theorem chunkData_eq_nil_iff (data : Bytes) (mtu : Nat) (messageId : UInt32) :
    chunkData data mtu messageId = [] ↔ mtu ≤ chunkHeaderSize := by
  unfold chunkData
  dsimp only
  by_cases hmtu : mtu - chunkHeaderSize = 0
  · simp only [if_pos hmtu, true_iff]
    omega
  · rw [if_neg hmtu]
    constructor
    · intro hnil
      split at hnil
      · cases hnil
      · rename_i hne
        rw [hnil] at hne
        exact absurd rfl hne
    · intro hle
      omega

/-- A message with the size of its chunks and the identifier they carry. -/
structure CutMessage where
  data : Bytes
  mtu : Nat
  messageId : UInt32

namespace CutMessage

variable {m : CutMessage}

def chunks (m : CutMessage) : List SyncChunk := chunkData m.data m.mtu m.messageId

def count (m : CutMessage) : Nat := Chunks.count (m.mtu - chunkHeaderSize) m.data

def piece (m : CutMessage) (i : Nat) : Bytes := Chunks.piece (m.mtu - chunkHeaderSize) m.data i

def chunkAt (m : CutMessage) (i : Nat) : SyncChunk :=
  ⟨⟨m.messageId, UInt16.ofNat i, UInt16.ofNat m.count⟩, m.piece i⟩

theorem chunks_eq (hmtu : chunkHeaderSize < m.mtu) (hdata : m.data ≠ []) :
    m.chunks = (List.range m.count).map m.chunkAt := chunkData_eq hmtu hdata m.messageId

theorem chunks_eq_nil_iff : m.chunks = [] ↔ m.mtu ≤ chunkHeaderSize := chunkData_eq_nil_iff ..

theorem count_pos (hmtu : chunkHeaderSize < m.mtu) (hdata : m.data ≠ []) : 0 < m.count :=
  Chunks.count_pos (Nat.sub_pos_of_lt hmtu) hdata

theorem length_chunks (hmtu : chunkHeaderSize < m.mtu) (hdata : m.data ≠ []) :
    m.chunks.length = m.count := by
  rw [chunks_eq hmtu hdata, List.length_map, List.length_range]

theorem flatMap_piece (hmtu : chunkHeaderSize < m.mtu) :
    (List.range m.count).flatMap m.piece = m.data := by
  have hflat := Chunks.flatten_pieces (Nat.sub_pos_of_lt hmtu) m.data
  rwa [Chunks.pieces, ← List.flatMap_def] at hflat

end CutMessage

/-! ## Reassembly -/

theorem toNat_ofNat16 {i : Nat} (h : i < 65536) : (UInt16.ofNat i).toNat = i := by
  rw [UInt16.toNat_ofNat', Nat.mod_eq_of_lt h]

theorem ofNat16_inj {i j : Nat} (hi : i < 65536) (hj : j < 65536)
    (h : UInt16.ofNat i = UInt16.ofNat j) : i = j := by
  rw [← toNat_ofNat16 hi, ← toNat_ofNat16 hj, h]

structure PartialMessage where
  totalChunks : UInt16
  chunks : Map UInt16 Bytes
  startedAt : UInt64
deriving DecidableEq

structure ChunkReassembler where
  partials : Map UInt32 PartialMessage
  maxPartials : Nat
  partialTimeoutMs : UInt64
deriving DecidableEq

namespace ChunkReassembler

def new : ChunkReassembler := ⟨∅, 8, 30000⟩

/-- Concatenate the chunks in index order; a missing one yields nothing. -/
def gather (chunks : Map UInt16 Bytes) : List Nat → Option Bytes
  | [] => some []
  | i :: rest => do
      let data ← chunks[UInt16.ofNat i]?
      let tail ← gather chunks rest
      some (data ++ tail)

theorem gather_eq {chunks : Map UInt16 Bytes} {piece : Nat → Bytes} {indices : List Nat}
    (h : ∀ i ∈ indices, chunks[UInt16.ofNat i]? = some (piece i)) :
    gather chunks indices = some (indices.flatMap piece) := by
  induction indices with
  | nil => rfl
  | cons i rest ih =>
      have hrest := ih fun k hk => h k (List.mem_cons_of_mem _ hk)
      simp [gather, h i (by simp), hrest]

def process (r : ChunkReassembler) (chunk : SyncChunk) (currentTimeMs : UInt64) :
    ChunkReassembler × Option Bytes :=
  let msgId := chunk.header.messageId
  if chunk.header.totalChunks = 1 then (r, some chunk.payload)
  else
    let current := r.partials[msgId]?.getD ⟨chunk.header.totalChunks, ∅, currentTimeMs⟩
    let updated := { current with chunks := current.chunks.insert chunk.header.chunkIndex chunk.payload }
    if updated.chunks.size = updated.totalChunks.toNat then
      ({ r with partials := r.partials.erase msgId },
        gather updated.chunks (List.range updated.totalChunks.toNat))
    else ({ r with partials := r.partials.insert msgId updated }, none)

def cleanup (r : ChunkReassembler) (currentTimeMs : UInt64) : ChunkReassembler :=
  { r with
    partials := r.partials.filter fun _ p => currentTimeMs - p.startedAt < r.partialTimeoutMs }

def pendingCount (r : ChunkReassembler) : Nat := r.partials.size

end ChunkReassembler

/-! ## The protocol coordinator -/

inductive SyncState where
  | idle
  | sending
  | receiving
  | waitingAck
deriving DecidableEq, Repr

structure SyncConfig where
  mtu : Nat
  batch : BatchConfig
  syncIntervalMs : UInt64
  enableDelta : Bool
  maxRetries : UInt8
deriving DecidableEq

namespace SyncConfig

def default : SyncConfig := ⟨defaultMtu, BatchConfig.default, 5000, true, 3⟩
def lowPower : SyncConfig := ⟨defaultMtu, BatchConfig.lowPower, 30000, true, 2⟩
def responsive : SyncConfig := ⟨maxMtu, BatchConfig.responsive, 1000, true, 3⟩

end SyncConfig

structure GattSyncProtocol where
  nodeId : NodeId
  config : SyncConfig
  state : SyncState
  batch : BatchAccumulator
  delta : DeltaEncoder
  vectorClock : VectorClock
  txQueue : List SyncChunk
  rxReassembler : ChunkReassembler
  nextMessageId : UInt32
  currentTimeMs : UInt64
  lastSyncTimeMs : UInt64
deriving DecidableEq

namespace GattSyncProtocol

def new (nodeId : NodeId) (config : SyncConfig) : GattSyncProtocol where
  nodeId := nodeId
  config := config
  state := .idle
  batch := BatchAccumulator.new config.batch
  delta := DeltaEncoder.new nodeId
  vectorClock := VectorClock.new
  txQueue := []
  rxReassembler := ChunkReassembler.new
  nextMessageId := 1
  currentTimeMs := 0
  lastSyncTimeMs := 0

def setTime (g : GattSyncProtocol) (timeMs : UInt64) : GattSyncProtocol :=
  { g with currentTimeMs := timeMs }

def setMtu (g : GattSyncProtocol) (mtu : Nat) : GattSyncProtocol :=
  { g with config := { g.config with mtu := mtu } }

def addPeer (g : GattSyncProtocol) (peer : NodeId) : GattSyncProtocol :=
  { g with delta := g.delta.addPeer peer }

def removePeer (g : GattSyncProtocol) (peer : NodeId) : GattSyncProtocol :=
  { g with delta := g.delta.removePeer peer }

/-- Whether the operation was accepted. The vector clock advances either way. -/
def queueOperation (g : GattSyncProtocol) (op : CrdtOperation) : GattSyncProtocol × Bool :=
  let added := g.batch.add op g.currentTimeMs
  ({ g with vectorClock := g.vectorClock.increment g.nodeId, batch := added.1 }, added.2)

def shouldSync (g : GattSyncProtocol) : Bool := g.batch.shouldFlush g.currentTimeMs

/-- The operations of a flushed batch that a peer still needs. -/
def selectOperations (g : GattSyncProtocol) (peer : NodeId) (operations : List CrdtOperation) :
    List CrdtOperation :=
  if g.config.enableDelta then g.delta.filterForPeer peer operations else operations

/-- The chunks to send. The accumulator is drained whatever the peer needs of it. -/
def prepareSync (g : GattSyncProtocol) (peer : NodeId) : GattSyncProtocol × List SyncChunk :=
  let flushed := g.batch.flush g.currentTimeMs
  match flushed.2 with
  | none => (g, [])
  | some batch =>
      let operations := g.selectOperations peer batch.operations
      if operations.isEmpty then ({ g with batch := flushed.1 }, [])
      else
        let filteredBatch : OperationBatch :=
          ⟨operations, OperationBatch.totalSize operations, batch.createdAt⟩
        let encoded := filteredBatch.encode
        let msgId := g.nextMessageId
        ({ g with
            batch := flushed.1
            nextMessageId := g.nextMessageId + 1
            delta := (g.delta.markSent peer operations).recordSent peer encoded.length
            state := .sending
            lastSyncTimeMs := g.currentTimeMs },
          chunkData encoded g.config.mtu msgId)

def nextTxChunk (g : GattSyncProtocol) : GattSyncProtocol × Option SyncChunk :=
  ({ g with txQueue := g.txQueue.tail }, g.txQueue.head?)

def queueChunks (g : GattSyncProtocol) (chunks : List SyncChunk) : GattSyncProtocol :=
  { g with txQueue := g.txQueue ++ chunks }

def operationTimestamp : CrdtOperation → Timestamp
  | .updatePosition _ _ timestamp => timestamp
  | .updateHealth _ _ timestamp => timestamp
  | .updateRegister _ _ timestamp _ => timestamp
  | .incrementCounter .. => 0

/-- A failed reassembly or a batch that does not decode leaves the state `receiving`. -/
def processReceived (g : GattSyncProtocol) (chunk : SyncChunk) (peer : NodeId) :
    GattSyncProtocol × Option (List CrdtOperation) :=
  let assembled := g.rxReassembler.process chunk g.currentTimeMs
  let receiving := { g with state := .receiving, rxReassembler := assembled.1 }
  match assembled.2 with
  | none => (receiving, none)
  | some complete =>
      match OperationBatch.decode complete with
      | none => (receiving, none)
      | some batch =>
          ({ receiving with
              delta := receiving.delta.recordReceived peer complete.length receiving.currentTimeMs
              vectorClock := batch.operations.foldl (fun clock op =>
                if operationTimestamp op > 0 then clock.update peer (operationTimestamp op) else clock)
                receiving.vectorClock
              state := .idle },
            some batch.operations)

def ackSend (g : GattSyncProtocol) : GattSyncProtocol :=
  if g.txQueue.isEmpty then { g with state := .idle } else g

def reset (g : GattSyncProtocol) : GattSyncProtocol :=
  { g with state := .idle, txQueue := [], rxReassembler := ChunkReassembler.new }

def resetPeer (g : GattSyncProtocol) (peer : NodeId) : GattSyncProtocol :=
  { g with delta := g.delta.resetPeer peer }

def tick (g : GattSyncProtocol) : GattSyncProtocol :=
  { g with rxReassembler := g.rxReassembler.cleanup g.currentTimeMs }

end GattSyncProtocol

end PeatBtle
