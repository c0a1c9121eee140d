import PeatBtle.Sync.Crdt.Sensor

/-!
# Chat

Messages of the mesh-wide chat, kept under an identifier that joins the origin
with the low half of the timestamp. A chat keeps the messages with the greatest
identifiers and sends the last few of them along with a document.
-/

namespace PeatBtle

open Wire

def chatMaxTextLen : Nat := 128
def chatMaxSenderLen : Nat := 12
def chatMaxMessages : Nat := 32
def chatSyncLimit : Nat := 8

/-! ## Short texts -/

/-- A text in a buffer of fixed size. -/
@[ext] structure TextField (capacity : Nat) where
  buffer : Vector UInt8 capacity
  len : Nat
  len_le : len ≤ capacity
deriving DecidableEq

namespace TextField

variable {capacity : Nat}

def empty : TextField capacity := ⟨Vector.replicate capacity 0, 0, Nat.zero_le _⟩

/-- A longer text is cut. The bytes behind a shorter one stay in the buffer. -/
def set (field : TextField capacity) (text : String) : TextField capacity where
  buffer := Vector.ofFn fun i => (utf8 text).getD i (field.buffer.get i)
  len := min (utf8 text).length capacity
  len_le := Nat.min_le_right ..

def content (field : TextField capacity) : Bytes := field.buffer.toList.take field.len

/-- A cut inside a character leaves no readable text. -/
def str (field : TextField capacity) : String := (fromUtf8 field.content).getD ""

def encode (field : TextField capacity) : Bytes := UInt8.ofNat field.len :: field.content

/-- The field at an offset, which must be followed by one more byte. -/
def read (data : Bytes) (offset : Nat) : Option (TextField capacity) :=
  let len := (byteAt data offset).toNat
  if hlen : len ≤ capacity then
    if data.length < offset + 1 + len + 1 then none
    else
      let body := slice data (offset + 1) (offset + 1 + len)
      if isUtf8 body then some ⟨Vector.ofFn fun i => body.getD i 0, len, hlen⟩ else none
  else none

theorem content_length (field : TextField capacity) : field.content.length = field.len := by
  rw [content, List.length_take, Vector.length_toList]
  exact Nat.min_eq_left field.len_le

theorem encode_length_le (field : TextField capacity) : field.encode.length ≤ 1 + capacity := by
  have hle := field.len_le
  rw [encode, List.length_cons, content_length]
  omega

end TextField

/-! ## Messages -/

structure ChatMessage where
  originNode : UInt32
  timestamp : UInt64
  sender : TextField chatMaxSenderLen
  text : TextField chatMaxTextLen
  isBroadcast : Bool
  requiresAck : Bool
  replyToNode : UInt32
  replyToTimestamp : UInt64
deriving DecidableEq

namespace ChatMessage

def default : ChatMessage where
  originNode := 0
  timestamp := 0
  sender := TextField.empty
  text := TextField.empty
  isBroadcast := true
  requiresAck := false
  replyToNode := 0
  replyToTimestamp := 0

def setSender (m : ChatMessage) (sender : String) : ChatMessage :=
  { m with sender := m.sender.set sender }

def setText (m : ChatMessage) (text : String) : ChatMessage := { m with text := m.text.set text }

def new (originNode : UInt32) (timestamp : UInt64) (sender text : String) : ChatMessage :=
  let identified := { default with originNode := originNode, timestamp := timestamp }
  (identified.setSender sender).setText text

def setReplyTo (m : ChatMessage) (node : UInt32) (timestamp : UInt64) : ChatMessage :=
  { m with replyToNode := node, replyToTimestamp := timestamp }

/-- The origin above the low 32 bits of the timestamp. -/
def idOf (originNode : UInt32) (timestamp : UInt64) : UInt64 :=
  (originNode.toUInt64 <<< 32) ||| (timestamp &&& 0xFFFFFFFF)

def messageId (m : ChatMessage) : UInt64 := idOf m.originNode m.timestamp

def flags (m : ChatMessage) : UInt8 :=
  (if m.isBroadcast then 0x01 else 0) ||| (if m.requiresAck then 0x02 else 0)

def encode (m : ChatMessage) : Bytes :=
  u32ToLe m.originNode ++ (u64ToLe m.timestamp ++ (m.sender.encode ++ (m.text.encode ++
    (m.flags :: (u32ToLe m.replyToNode ++ u64ToLe m.replyToTimestamp)))))

/-- The message at the front and how many bytes it takes. The reply fields may be missing at the
end of the buffer. -/
def decode (data : Bytes) : Option (ChatMessage × Nat) :=
  if data.length < 14 then none
  else
    let originNode := u32At data 0
    let timestamp := u64At data 4
    if originNode = 0 then none
    else if timestamp < minValidTimestamp then none
    else do
      let sender ← TextField.read data 12
      if sender.len = 0 then none
      else
        let textOffset := 13 + sender.len
        let text ← TextField.read data textOffset
        let flagsOffset := textOffset + 1 + text.len
        let flags := byteAt data flagsOffset
        let isReply := decide (data.length ≥ flagsOffset + 1 + 12)
        let message : ChatMessage :=
          { originNode, timestamp, sender, text
            isBroadcast := flags &&& 0x01 != 0
            requiresAck := flags &&& 0x02 != 0
            replyToNode := if isReply then u32At data (flagsOffset + 1) else 0
            replyToTimestamp := if isReply then u64At data (flagsOffset + 5) else 0 }
        some (message, if isReply then flagsOffset + 13 else flagsOffset + 1)

theorem encode_length_le (m : ChatMessage) : m.encode.length ≤ 167 := by
  have hsender : m.sender.encode.length ≤ 1 + 12 := m.sender.encode_length_le
  have htext : m.text.encode.length ≤ 1 + 128 := m.text.encode_length_le
  simp only [encode, List.length_append, List.length_cons, u32ToLe_length, u64ToLe_length]
  omega

end ChatMessage

/-! ## The set of messages -/

/-- Every message stands under its own identifier. -/
def KeyedById (messages : Map UInt64 ChatMessage) : Prop :=
  ∀ (id : UInt64) (message : ChatMessage), messages[id]? = some message → message.messageId = id

@[ext] structure ChatCRDT where
  messages : Map UInt64 ChatMessage
  keyed : KeyedById messages
deriving DecidableEq

namespace KeyedById

variable {messages : Map UInt64 ChatMessage}

theorem empty : KeyedById ∅ := by
  intro id message h
  simp at h

theorem insert (hmessages : KeyedById messages) (message : ChatMessage) :
    KeyedById (messages.insert message.messageId message) := by
  intro id found h
  rw [MapMerge.getElem?_insert_eq] at h
  split at h
  · rename_i hid
    rw [← Option.some.inj h]
    exact hid
  · exact hmessages id found h

theorem erase (hmessages : KeyedById messages) (id : UInt64) : KeyedById (messages.erase id) := by
  intro other message h
  rw [MapMerge.getElem?_erase_eq] at h
  split at h
  · cases h
  · exact hmessages other message h

/-- Any selection of the entries. -/
theorem ofList (hmessages : KeyedById messages) {entries : List (UInt64 × ChatMessage)}
    (hentries : ∀ entry ∈ entries, entry ∈ messages.toList) :
    KeyedById (Std.ExtTreeMap.ofList entries) := by
  intro id message h
  have hmem := hentries _ (MapMerge.mem_of_getElem?_ofList h)
  exact hmessages id message (Std.ExtTreeMap.mem_toList_iff_getElem?_eq_some.mp hmem)

end KeyedById

namespace ChatCRDT

def new : ChatCRDT := ⟨∅, KeyedById.empty⟩

def len (c : ChatCRDT) : Nat := c.messages.size

def isEmpty (c : ChatCRDT) : Bool := c.messages.isEmpty

def insert (c : ChatCRDT) (message : ChatMessage) : ChatCRDT :=
  ⟨c.messages.insert message.messageId message, c.keyed.insert message⟩

/-- Remove the message with the smallest identifier. -/
def removeOldest (c : ChatCRDT) : ChatCRDT :=
  match c.messages.minKey? with
  | some oldest => ⟨c.messages.erase oldest, c.keyed.erase oldest⟩
  | none => c

/-- One round for each message above the limit. -/
def pruneIfNeeded (c : ChatCRDT) : ChatCRDT := removeOldest^[c.len - chatMaxMessages] c

/-- Whether the message was new. -/
def addMessage (c : ChatCRDT) (message : ChatMessage) : ChatCRDT × Bool :=
  if c.messages.contains message.messageId then (c, false)
  else ((c.insert message).pruneIfNeeded, true)

def sendMessage (c : ChatCRDT) (originNode : UInt32) (timestamp : UInt64) (sender text : String) :
    ChatCRDT × Bool :=
  c.addMessage (ChatMessage.new originNode timestamp sender text)

def getMessage (c : ChatCRDT) (originNode : UInt32) (timestamp : UInt64) : Option ChatMessage :=
  c.messages[ChatMessage.idOf originNode timestamp]?

/-- One message of the other chat, which stands there under its identifier. -/
def mergeMessage (state : ChatCRDT × Bool) (message : ChatMessage) : ChatCRDT × Bool :=
  if state.1.messages.contains message.messageId then state else (state.1.insert message, true)

/-- Whether any message was added, even if it was then pruned. -/
def merge (c other : ChatCRDT) : ChatCRDT × Bool :=
  let merged := (other.messages.toList.map Prod.snd).foldl mergeMessage (c, false)
  if merged.2 then (merged.1.pruneIfNeeded, true) else merged

/-- The messages with the greatest identifiers. -/
def forSync (c : ChatCRDT) : ChatCRDT :=
  if c.len ≤ chatSyncLimit then c
  else
    { messages := Std.ExtTreeMap.ofList (c.messages.toList.reverse.take chatSyncLimit)
      keyed := c.keyed.ofList fun _ h => List.mem_reverse.mp (List.mem_of_mem_take h) }

/-! ## Wire format -/

def encode (c : ChatCRDT) : Bytes :=
  u16ToLe (UInt16.ofNat c.len) ++ c.messages.toList.flatMap fun entry => entry.2.encode

/-- The first message that does not decode ends the loop. -/
def decodeMessages (data : Bytes) : Nat → Nat → ChatCRDT → ChatCRDT
  | 0, _, c => c
  | count + 1, offset, c =>
      if offset ≥ data.length then c
      else
        match ChatMessage.decode (data.drop offset) with
        | some (message, len) => decodeMessages data count (offset + len) (c.insert message)
        | none => c

def decode (data : Bytes) : Option ChatCRDT :=
  if data.length < 2 then none else some (decodeMessages data (u16At data 0).toNat 2 new)

/-! ## Sizes -/

theorem len_removeOldest (c : ChatCRDT) : c.removeOldest.len = c.len - 1 := by
  unfold removeOldest len
  cases hmin : c.messages.minKey? with
  | none =>
      rw [Std.ExtTreeMap.minKey?_eq_none_iff] at hmin
      rw [hmin]
      rfl
  | some oldest =>
      have hmem := (Std.ExtTreeMap.minKey?_eq_some_iff_mem_and_forall.mp hmin).1
      dsimp only
      rw [Std.ExtTreeMap.size_erase, if_pos (Std.ExtTreeMap.contains_iff_mem.mpr hmem)]

theorem len_removeOldest_iterate (n : Nat) (c : ChatCRDT) :
    (removeOldest^[n] c).len = c.len - n := by
  induction n generalizing c with
  | zero => rfl
  | succ n ih =>
      rw [Function.iterate_succ_apply, ih, len_removeOldest]
      omega

theorem len_pruneIfNeeded (c : ChatCRDT) : c.pruneIfNeeded.len = min c.len chatMaxMessages := by
  rw [pruneIfNeeded, len_removeOldest_iterate]
  omega

theorem len_forSync_le (c : ChatCRDT) : c.forSync.len ≤ chatSyncLimit := by
  unfold forSync
  split
  · assumption
  · refine Nat.le_trans Std.ExtTreeMap.size_ofList_le ?_
    rw [List.length_take]
    exact Nat.min_le_left ..

theorem encode_length_le (c : ChatCRDT) : c.encode.length ≤ 2 + c.len * 167 := by
  have hentries : ∀ entries : List (UInt64 × ChatMessage),
      (entries.flatMap fun entry => entry.2.encode).length ≤ entries.length * 167 := by
    intro entries
    induction entries with
    | nil => exact Nat.le_refl 0
    | cons entry entries ih =>
        have hfirst := entry.2.encode_length_le
        rw [List.flatMap_cons, List.length_append, List.length_cons]
        omega
  have hall := hentries c.messages.toList
  rw [Std.ExtTreeMap.length_toList] at hall
  rw [encode, List.length_append, u16ToLe_length]
  exact Nat.add_le_add_left hall 2

/-- What is sent along with a document always fits the 16-bit length of its section. -/
theorem forSync_encode_length_lt (c : ChatCRDT) : c.forSync.encode.length < 65536 := by
  have hlen := c.len_forSync_le
  have hbytes := c.forSync.encode_length_le
  unfold chatSyncLimit at hlen
  omega

end ChatCRDT

end PeatBtle
