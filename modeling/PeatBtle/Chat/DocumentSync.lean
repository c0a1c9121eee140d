import PeatBtle.DocumentSync
import PeatBtle.Sync.Crdt.Chat

/-!
# Documents with chat

With the chat enabled a document has one more section, and the local state one
more table. Local changes leave the chat alone; the chat has two operations of
its own and a share in every merge.
-/

namespace PeatBtle

open Wire

@[ext] structure ChatDocument extends PeatDocument where
  chat : Option ChatCRDT
deriving DecidableEq

namespace ChatDocument

/-- An empty chat is not written. -/
def sentChat (d : ChatDocument) : Option ChatCRDT := d.chat.filter fun chat => !chat.isEmpty

def chatSection (d : ChatDocument) : Bytes :=
  d.sentChat.elim [] fun chat => PeatDocument.encodeSection chatMarker chat.encode

def encode (d : ChatDocument) : Bytes := d.toPeatDocument.encode ++ d.chatSection

/-- The sections that the loop of the decoder reads, with their tags. -/
def walk (data : Bytes) : Nat → Nat → List (UInt8 × Bytes)
  | 0, _ => []
  | fuel + 1, offset =>
      if offset < data.length then
        let marker := byteAt data offset
        match PeatDocument.sectionAt data offset with
        | none => []
        | some (body, next) =>
            if marker = extendedMarker ∨ marker = emergencyMarker ∨ marker = chatMarker then
              (marker, body) :: walk data fuel next
            else []
      else []

/-- A later chat section takes the place of an earlier one, even if it does not decode. -/
def readChat (chat : Option ChatCRDT) (found : UInt8 × Bytes) : Option ChatCRDT :=
  if found.1 = chatMarker then ChatCRDT.decode found.2 else chat

/-- The loop of `PeatDocument.decode`, which passes over the chat, and the chat it passes over. -/
def decode (data : Bytes) : Option ChatDocument :=
  (PeatDocument.decode data).map fun d =>
    let numEntries := (u32At data 8).toNat
    { d with chat := (walk data data.length (8 + 4 + numEntries * 12)).foldl readChat none }

/-- The chat after hearing of another one, and whether anything was added. -/
def mergeChat (ours theirs : Option ChatCRDT) : Option ChatCRDT × Bool :=
  match theirs with
  | none => (ours, false)
  | some received =>
      if received.isEmpty then (ours, false)
      else
        match ours with
        | none => (some received, true)
        | some chat => (some (chat.merge received).1, (chat.merge received).2)

/-- The document in some bytes, if there is one, brings no message. -/
def WithoutChat (data : Bytes) : Prop :=
  ∀ received, decode data = some received → ∀ ours, mergeChat ours received.chat = (ours, false)

theorem encode_length (d : ChatDocument) :
    d.encode.length = d.toPeatDocument.encode.length + d.chatSection.length := List.length_append

/-- A document leads with the low byte of its version. -/
theorem byteAt_encode_zero (d : ChatDocument) :
    byteAt d.encode 0 = UInt8.ofNat d.version.toNat := rfl

theorem twelve_le_encode_length (d : ChatDocument) : 12 ≤ d.encode.length := by
  rw [encode_length, PeatDocument.encode_length]
  omega

/-! ## Walking the sections -/

section Walk

variable {data : Bytes}

/-- What the loop of a build without chat makes of a section. -/
def readSection (state : Option Peripheral × Option EmergencyEvent) (found : UInt8 × Bytes) :
    Option Peripheral × Option EmergencyEvent :=
  if found.1 = extendedMarker then (Peripheral.decode found.2, state.2)
  else if found.1 = emergencyMarker then (state.1, EmergencyEvent.decode found.2)
  else state

theorem parseSections_eq_foldl (data : Bytes) (fuel offset : Nat) (peripheral : Option Peripheral)
    (emergency : Option EmergencyEvent) :
    PeatDocument.parseSections data fuel offset peripheral emergency =
      (walk data fuel offset).foldl readSection (peripheral, emergency) := by
  induction fuel generalizing offset peripheral emergency with
  | zero => rfl
  | succ fuel ih =>
      simp only [PeatDocument.parseSections, walk]
      by_cases hend : offset < data.length
      · rw [if_pos hend, if_pos hend]
        cases PeatDocument.sectionAt data offset with
        | none => rfl
        | some found =>
            dsimp only
            by_cases hextended : byteAt data offset = extendedMarker
            · rw [if_pos hextended, if_pos (Or.inl hextended), List.foldl_cons, ih, readSection,
                if_pos hextended]
            · rw [if_neg hextended]
              by_cases hemergency : byteAt data offset = emergencyMarker
              · rw [if_pos hemergency, if_pos (Or.inr (Or.inl hemergency)), List.foldl_cons, ih,
                  readSection, if_neg hextended, if_pos hemergency]
              · rw [if_neg hemergency]
                by_cases hchat : byteAt data offset = chatMarker
                · rw [if_pos hchat, if_pos (Or.inr (Or.inr hchat)), List.foldl_cons, ih,
                    readSection, if_neg hextended, if_neg hemergency]
                · rw [if_neg hchat, if_neg (by simp [hextended, hemergency, hchat])]
                  rfl
      · rw [if_neg hend, if_neg hend]
        rfl

theorem walk_end {fuel offset : Nat} (h : data.length ≤ offset) : walk data fuel offset = [] := by
  cases fuel with
  | zero => rfl
  | succ fuel => rw [walk, if_neg (Nat.not_lt.mpr h)]

theorem walk_fuel {fuel offset : Nat} (h : data.length ≤ offset + fuel) (extra : Nat) :
    walk data (fuel + extra) offset = walk data fuel offset := by
  induction fuel generalizing offset with
  | zero => rw [walk_end (by omega), walk_end (by omega)]
  | succ fuel ih =>
      rw [Nat.succ_add]
      simp only [walk]
      cases hsection : PeatDocument.sectionAt data offset with
      | none => rfl
      | some found =>
          obtain ⟨body, next⟩ := found
          have hnext := (PeatDocument.sectionAt_next_gt hsection).1
          simp only [ih (show data.length ≤ next + fuel by omega)]

theorem walk_skip (front rest : Bytes) (fuel offset : Nat) :
    walk (front ++ rest) fuel (front.length + offset) = walk rest fuel offset := by
  induction fuel generalizing offset with
  | zero => rfl
  | succ fuel ih =>
      simp only [walk, PeatDocument.byteAt_behind, PeatDocument.behind_lt_length,
        PeatDocument.sectionAt_skip]
      cases PeatDocument.sectionAt rest offset with
      | none => rfl
      | some found => simp only [Option.map_some, ih]

/-- A section that was written is found, and the walk goes on behind it. -/
theorem walk_encodeSection {marker : UInt8} {body : Bytes}
    (hmarker : marker = extendedMarker ∨ marker = emergencyMarker ∨ marker = chatMarker)
    (hbody : body.length < 65536) (rest : Bytes) :
    walk (PeatDocument.encodeSection marker body ++ rest)
        (PeatDocument.encodeSection marker body ++ rest).length 0 =
      (marker, body) :: walk rest rest.length 0 := by
  have hlen := PeatDocument.encodeSection_length marker body
  have hfuel : (PeatDocument.encodeSection marker body ++ rest).length =
      rest.length + (3 + body.length) + 1 := by
    rw [List.length_append, hlen]
    omega
  have hpos : 0 < (PeatDocument.encodeSection marker body ++ rest).length := by omega
  have hfirst : byteAt (PeatDocument.encodeSection marker body ++ rest) 0 = marker := rfl
  rw [hfuel, walk, if_pos hpos, PeatDocument.sectionAt_encodeSection hbody, hfirst]
  dsimp only
  rw [if_pos hmarker]
  have hrest := walk_skip (PeatDocument.encodeSection marker body) rest
    (rest.length + (3 + body.length)) 0
  rw [Nat.add_zero] at hrest
  rw [hrest, walk_fuel (by omega)]

end Walk

/-! ## Decoding an encoded document -/

/-- What the wire format can carry. -/
structure Representable (d : ChatDocument) : Prop extends d.toPeatDocument.Representable where
  chat_fits : ∀ chat, d.chat = some chat → chat.encode.length < 65536

def writtenSections (d : ChatDocument) : List (UInt8 × Bytes) :=
  (d.peripheral.map fun p => (extendedMarker, p.encode)).toList ++
    ((d.emergency.map fun e => (emergencyMarker, e.encode)).toList ++
      (d.sentChat.map fun chat => (chatMarker, chat.encode)).toList)

theorem walk_chatSection {d : ChatDocument} (h : d.Representable) :
    walk d.chatSection d.chatSection.length 0 =
      (d.sentChat.map fun chat => (chatMarker, chat.encode)).toList := by
  unfold chatSection
  cases hsent : d.sentChat with
  | none => exact walk_end (Nat.le_refl 0)
  | some chat =>
      have hfits := h.chat_fits chat (Option.filter_eq_some_iff.mp hsent).1
      have hwalk := walk_encodeSection (Or.inr (Or.inr rfl) : chatMarker = _ ∨ _ ∨ _) hfits []
      have hend : walk [] ([] : Bytes).length 0 = [] := walk_end (Nat.le_refl 0)
      rw [List.append_nil, hend] at hwalk
      exact hwalk

theorem walk_sections {d : ChatDocument} (h : d.Representable) :
    walk (d.sections ++ d.chatSection) (d.sections ++ d.chatSection).length 0 =
      d.writtenSections := by
  have hchat := walk_chatSection h
  have hemergency : walk
      ((d.emergency.elim [] fun e => PeatDocument.encodeSection emergencyMarker e.encode) ++
        d.chatSection)
      ((d.emergency.elim [] fun e => PeatDocument.encodeSection emergencyMarker e.encode) ++
        d.chatSection).length 0 =
      (d.emergency.map fun e => (emergencyMarker, e.encode)).toList ++
        (d.sentChat.map fun chat => (chatMarker, chat.encode)).toList := by
    cases hevent : d.emergency with
    | none => exact hchat
    | some e =>
        simp only [Option.elim_some]
        rw [walk_encodeSection (Or.inr (Or.inl rfl)) (h.emergency_fits e hevent), hchat]
        rfl
  unfold PeatDocument.sections writtenSections
  cases d.peripheral with
  | none => exact hemergency
  | some p =>
      have hsize : p.encode.length < 65536 := Nat.lt_of_le_of_lt p.encode_length_le (by decide)
      simp only [Option.elim_some, List.append_assoc]
      rw [walk_encodeSection (Or.inl rfl) hsize, hemergency]
      rfl

/-- A build without chat reads the document without it. -/
theorem base_decode_encode {d : ChatDocument} (h : d.Representable) :
    PeatDocument.decode d.encode = some d.toPeatDocument := by
  have hread : d.writtenSections.foldl readSection (none, none) =
      (d.peripheral.bind fun p => Peripheral.decode p.encode,
        d.emergency.bind fun e => EmergencyEvent.decode e.encode) := by
    unfold writtenSections
    cases d.peripheral <;> cases d.emergency <;> cases d.sentChat <;> rfl
  rw [h.peripheral_read, h.emergency_read] at hread
  rw [encode, PeatDocument.decode_encode_append h.counter_le, parseSections_eq_foldl,
    walk_sections h, hread, GCounter.filter_ne_zero h.zero_not_mem]

theorem decode_encode {d : ChatDocument} (h : d.Representable) :
    decode d.encode =
      some { d with chat := d.sentChat.bind fun chat => ChatCRDT.decode chat.encode } := by
  obtain ⟨front, hfront, hshape⟩ := d.toPeatDocument.sections_start d.chatSection
  have hwalk : walk d.encode d.encode.length (8 + 4 + (u32At d.encode 8).toNat * 12) =
      d.writtenSections := by
    have hlen : d.encode.length = (d.sections ++ d.chatSection).length + front.length := by
      rw [encode, hshape, List.length_append, Nat.add_comm]
    have hskip := walk_skip front (d.sections ++ d.chatSection) d.encode.length 0
    rw [Nat.add_zero, ← hshape] at hskip
    rw [encode, PeatDocument.sections_offset h.counter_le, ← hfront, ← encode]
    rw [← encode] at hskip
    rw [hskip, hlen, walk_fuel (by omega), walk_sections h]
  have hchat : d.writtenSections.foldl readChat none =
      d.sentChat.bind fun chat => ChatCRDT.decode chat.encode := by
    unfold writtenSections
    cases d.peripheral <;> cases d.emergency <;> cases d.sentChat <;> rfl
  rw [decode, base_decode_encode h, Option.map_some]
  dsimp only
  rw [hwalk, hchat]

end ChatDocument

structure ChatSync extends DocumentSync where
  chat : Option ChatCRDT
deriving DecidableEq

structure ChatMergeResult extends MergeResult where
  chatChanged : Bool
deriving DecidableEq

namespace ChatSync

def bumpVersion (s : ChatSync) : ChatSync :=
  { s with toDocumentSync := s.toDocumentSync.bumpVersion }

/-! ## Document I/O -/

/-- Only the newest messages go into a document. -/
def toDocument (s : ChatSync) : ChatDocument :=
  { s.toDocumentSync.toDocument with chat := s.chat.map ChatCRDT.forSync }

def buildDocument (s : ChatSync) : Bytes := s.toDocument.encode

/-- The chat never keeps a document from being read. -/
theorem representable_toDocument {s : ChatSync} (h : s.toDocumentSync.toDocument.Representable) :
    s.toDocument.Representable where
  toRepresentable := h
  chat_fits := by
    intro chat hchat
    obtain ⟨ours, -, rfl⟩ := Option.map_eq_some_iff.mp hchat
    exact ours.forSync_encode_length_lt

/-- The version is bumped once for all that an accepted document changes. -/
def mergeReceived (s : ChatSync) (received : ChatDocument) : ChatSync × ChatMergeResult :=
  let merged := s.toDocumentSync.mergeReceived received.toPeatDocument
  let chat := ChatDocument.mergeChat s.chat received.chat
  let bumped := merged.2.counterChanged || merged.2.emergencyChanged
  let sync := if chat.2 && !bumped then merged.1.bumpVersion else merged.1
  ({ sync with chat := chat.1 }, { merged.2 with chatChanged := chat.2 })

/-- Malformed documents and our own are refused. -/
def mergeDocument (s : ChatSync) (data : Bytes) : ChatSync × Option ChatMergeResult :=
  match ChatDocument.decode data with
  | none => (s, none)
  | some received =>
      if received.nodeId = s.nodeId then (s, none)
      else
        let merged := s.mergeReceived received
        (merged.1, some merged.2)

/-- Bytes without chat are merged as they are without the chat. -/
theorem mergeDocument_of_withoutChat {s : ChatSync} {data : Bytes}
    (hquiet : ChatDocument.WithoutChat data) :
    (s.mergeDocument data).1 =
      { (s.toDocumentSync.mergeDocument data).1 with chat := s.chat } := by
  unfold mergeDocument DocumentSync.mergeDocument
  unfold ChatDocument.WithoutChat at hquiet
  unfold ChatDocument.decode at hquiet ⊢
  cases hdecode : PeatDocument.decode data with
  | none => rfl
  | some received =>
      rw [hdecode, Option.map_some] at hquiet
      rw [Option.map_some]
      have hchat := hquiet _ rfl
      dsimp only at hchat ⊢
      split
      · rfl
      · simp only [mergeReceived, hchat s.chat, Bool.false_and, Bool.false_eq_true, if_false]

/-! ## Local changes -/

def mutate (s : ChatSync) (mutation : DocumentSync.Mutation) : ChatSync :=
  { s with toDocumentSync := s.toDocumentSync.mutate mutation }

/-- Change the state and build the document after it. -/
def mutateAndBuild (s : ChatSync) (mutation : DocumentSync.Mutation) : ChatSync × Bytes :=
  let after := s.mutate mutation
  (after, after.buildDocument)

def sendEmergency (s : ChatSync) (timestamp : UInt64) : ChatSync × Bytes :=
  s.mutateAndBuild (.sendEmergency timestamp)

def sendAck (s : ChatSync) (timestamp : UInt64) : ChatSync × Bytes :=
  s.mutateAndBuild (.sendAck timestamp)

def startEmergency (s : ChatSync) (timestamp : UInt64) (knownPeers : List UInt32) :
    ChatSync × Bytes :=
  s.mutateAndBuild (.startEmergency timestamp knownPeers)

def ackEmergency (s : ChatSync) (timestamp : UInt64) : ChatSync × Option Bytes :=
  let acked := s.mutateAndBuild (.ackEmergency timestamp)
  (acked.1, if s.emergency.isSome then some acked.2 else none)

/-! ## Chat -/

/-- The chat starts with the first message. -/
def ourChat (s : ChatSync) : ChatCRDT := s.chat.getD ChatCRDT.new

/-- Whether the message was new. -/
def addMessage (s : ChatSync) (message : ChatMessage) : ChatSync × Bool :=
  let added := s.ourChat.addMessage message
  let kept : ChatSync := { s with chat := some added.1 }
  (if added.2 then kept.bumpVersion else kept, added.2)

def addChatMessage (s : ChatSync) (sender text : String) (timestamp : UInt64) : ChatSync × Bool :=
  s.addMessage (ChatMessage.new s.nodeId timestamp sender text)

def addChatReply (s : ChatSync) (sender text : String) (replyToNode : UInt32)
    (replyToTimestamp timestamp : UInt64) : ChatSync × Bool :=
  s.addMessage
    ((ChatMessage.new s.nodeId timestamp sender text).setReplyTo replyToNode replyToTimestamp)

/-- Whether the chat holds a message of ours under the identifier of this timestamp. -/
def hasSaid (s : ChatSync) (timestamp : UInt64) : Bool :=
  s.ourChat.messages.contains (ChatMessage.idOf s.nodeId timestamp)

theorem addMessage_snd (s : ChatSync) (message : ChatMessage) :
    (s.addMessage message).2 = !s.ourChat.messages.contains message.messageId := by
  simp only [addMessage, ChatCRDT.addMessage]
  split
  · rename_i hpresent
    rw [hpresent]
    rfl
  · rename_i hnew
    rw [Bool.not_eq_true] at hnew
    rw [hnew]
    rfl

theorem version_addMessage {s : ChatSync} {message : ChatMessage}
    (hnew : (s.addMessage message).2 = true) :
    (s.addMessage message).1.version = s.version + 1 := by
  have hadded : (s.ourChat.addMessage message).2 = true := hnew
  simp only [addMessage, hadded, if_true]
  rfl

section Ours

variable (s : ChatSync) (sender text : String) (replyToNode : UInt32)
  (replyToTimestamp timestamp : UInt64)

/-- Only the timestamp decides whether a message of ours is new. -/
theorem addChatMessage_snd :
    (s.addChatMessage sender text timestamp).2 = !s.hasSaid timestamp := s.addMessage_snd _

theorem addChatReply_snd :
    (s.addChatReply sender text replyToNode replyToTimestamp timestamp).2 =
      !s.hasSaid timestamp := s.addMessage_snd _

variable {s timestamp} (hnew : s.hasSaid timestamp = false)
include hnew

theorem version_addChatMessage :
    (s.addChatMessage sender text timestamp).1.version = s.version + 1 := by
  refine version_addMessage ?_
  rw [addMessage_snd]
  exact congrArg not hnew

theorem version_addChatReply :
    (s.addChatReply sender text replyToNode replyToTimestamp timestamp).1.version =
      s.version + 1 := by
  refine version_addMessage ?_
  rw [addMessage_snd]
  exact congrArg not hnew

end Ours

end ChatSync

end PeatBtle
