import Mathlib.Data.List.TakeWhile
import PeatBtle.Chat.Convergence

/-!
# A chat read back

The decoder stops at the first message that it refuses. A text that is too long for its
field is cut at a number of bytes; where the cut falls inside a character, what is left
is no UTF-8, and the decoder refuses the message.
-/

namespace PeatBtle

open Wire

/-! ## Texts in a message -/

namespace TextField

variable {capacity : Nat} {field : TextField capacity}

/-- No byte is left over behind the content. -/
def Clean (field : TextField capacity) : Prop :=
  field.buffer = Vector.ofFn fun i => field.content.getD i 0

theorem content_set (field : TextField capacity) (text : String) :
    (field.set text).content = (utf8 text).take capacity := by
  apply List.ext_getElem
  · rw [content_length, List.length_take, Nat.min_comm]
    rfl
  · intro i hi hi'
    have hlt : i < (utf8 text).length := by
      rw [List.length_take] at hi'
      omega
    simp only [content, set, List.getElem_take, Vector.getElem_toList, Vector.getElem_ofFn,
      List.getD_eq_getElem?_getD, List.getElem?_eq_getElem hlt, Option.getD_some]

theorem clean_set_empty (text : String) : ((empty : TextField capacity).set text).Clean := by
  unfold Clean
  rw [content_set]
  apply Vector.ext
  intro i hi
  have hzero : (empty : TextField capacity).buffer.get ⟨i, hi⟩ = 0 := Vector.getElem_replicate hi
  simp only [set, Vector.getElem_ofFn, List.getD_eq_getElem?_getD, List.getElem?_take, hi, if_true,
    hzero]

/-- A clean field is read back if its content is UTF-8. -/
theorem read_encode (h : field.Clean) (hcapacity : capacity ≤ 255) {front rest : Bytes}
    {offset : Nat} (hoffset : front.length = offset) (hrest : rest ≠ []) :
    read (front ++ (field.encode ++ rest)) offset =
      if isUtf8 field.content then some field else none := by
  have hlen : (UInt8.ofNat field.len).toNat = field.len := by
    have hle := field.len_le
    rw [UInt8.toNat_ofNat']
    omega
  have hbyte : byteAt (front ++ (field.encode ++ rest)) offset = UInt8.ofNat field.len := by
    rw [byteAt_skip (by omega), hoffset, Nat.sub_self]
    rfl
  have hbody : slice (front ++ (field.encode ++ rest)) (offset + 1) (offset + 1 + field.len) =
      field.content := by
    have hsplit : front ++ (field.encode ++ rest) =
        (front ++ [UInt8.ofNat field.len]) ++ (field.content ++ rest) := by simp [encode]
    rw [hsplit, ← field.content_length]
    exact slice_middle (by simp [hoffset])
  have hlong : ¬ (front ++ (field.encode ++ rest)).length < offset + 1 + field.len + 1 := by
    have hpos := List.length_pos_iff.mpr hrest
    simp only [List.length_append, encode, List.length_cons, content_length]
    omega
  unfold read
  dsimp only
  simp only [hbyte, hlen, dif_pos field.len_le, if_neg hlong, hbody]
  split
  · exact congrArg some (TextField.ext h.symm rfl)
  · rfl

end TextField

/-! ## Messages -/

namespace ChatMessage

variable {m : ChatMessage}

/-- What the decoder asks of a message apart from its texts, and that these leave nothing behind. -/
structure Proper (m : ChatMessage) : Prop where
  origin_ne : m.originNode ≠ 0
  timestamp_ge : minValidTimestamp ≤ m.timestamp
  sender_ne : m.sender.len ≠ 0
  sender_clean : m.sender.Clean
  text_clean : m.text.Clean

def Legible (m : ChatMessage) : Prop :=
  isUtf8 m.sender.content = true ∧ isUtf8 m.text.content = true

instance (m : ChatMessage) : Decidable m.Legible := inferInstanceAs (Decidable (_ ∧ _))

theorem isBroadcast_flags (m : ChatMessage) : (m.flags &&& 0x01 != 0) = m.isBroadcast := by
  unfold flags
  cases m.isBroadcast <;> cases m.requiresAck <;> decide

theorem requiresAck_flags (m : ChatMessage) : (m.flags &&& 0x02 != 0) = m.requiresAck := by
  unfold flags
  cases m.isBroadcast <;> cases m.requiresAck <;> decide

/-! The layout: a fixed part, the two texts and what follows them. -/

def headBytes (m : ChatMessage) : Bytes := u32ToLe m.originNode ++ u64ToLe m.timestamp

def tailBytes (m : ChatMessage) : Bytes :=
  m.flags :: (u32ToLe m.replyToNode ++ u64ToLe m.replyToTimestamp)

def flagsOffset (m : ChatMessage) : Nat := 13 + m.sender.len + 1 + m.text.len

@[simp] theorem headBytes_length (m : ChatMessage) : m.headBytes.length = 12 := by simp [headBytes]

@[simp] theorem tailBytes_length (m : ChatMessage) : m.tailBytes.length = 13 := by simp [tailBytes]

theorem encode_length (m : ChatMessage) : m.encode.length = m.flagsOffset + 13 := by
  simp only [encode, List.length_append, u32ToLe_length, u64ToLe_length, TextField.encode,
    List.length_cons, TextField.content_length, flagsOffset]
  omega

section Layout

variable (m : ChatMessage) (rest : Bytes)

theorem sender_place : m.encode ++ rest =
    m.headBytes ++ (m.sender.encode ++ (m.text.encode ++ (m.tailBytes ++ rest))) := by
  simp [encode, headBytes, tailBytes]

theorem text_place : m.encode ++ rest =
    (m.headBytes ++ m.sender.encode) ++ (m.text.encode ++ (m.tailBytes ++ rest)) := by
  rw [sender_place, List.append_assoc m.headBytes]

theorem tail_place : m.encode ++ rest =
    (m.headBytes ++ m.sender.encode ++ m.text.encode) ++ (m.tailBytes ++ rest) := by
  rw [text_place, List.append_assoc (m.headBytes ++ m.sender.encode)]

theorem text_offset : (m.headBytes ++ m.sender.encode).length = 13 + m.sender.len := by
  simp only [List.length_append, headBytes_length, TextField.encode, List.length_cons,
    TextField.content_length]
  omega

theorem tail_offset : (m.headBytes ++ m.sender.encode ++ m.text.encode).length = m.flagsOffset := by
  rw [List.length_append, text_offset, TextField.encode, List.length_cons,
    TextField.content_length, flagsOffset]
  omega

theorem origin_read : u32At (m.encode ++ rest) 0 = m.originNode := by
  rw [sender_place, headBytes, List.append_assoc, u32At_toLe]

theorem timestamp_read : u64At (m.encode ++ rest) 4 = m.timestamp := by
  rw [sender_place, headBytes, List.append_assoc, u64At_skip (by simp), u32ToLe_length,
    Nat.sub_self, u64At_toLe]

theorem flags_read : byteAt (m.encode ++ rest) m.flagsOffset = m.flags := by
  rw [tail_place, byteAt_skip (Nat.le_of_eq (m.tail_offset)), tail_offset, Nat.sub_self]
  rfl

theorem replyToNode_read : u32At (m.encode ++ rest) (m.flagsOffset + 1) = m.replyToNode := by
  have hle := m.tail_offset
  rw [tail_place, u32At_skip (by omega), tail_offset, Nat.add_sub_cancel_left, tailBytes,
    List.cons_append, u32At_cons_succ, List.append_assoc, u32At_toLe]

theorem replyToTimestamp_read :
    u64At (m.encode ++ rest) (m.flagsOffset + 5) = m.replyToTimestamp := by
  have hle := m.tail_offset
  rw [tail_place, u64At_skip (by omega), tail_offset, Nat.add_sub_cancel_left, tailBytes,
    List.cons_append, u64At_cons_succ, List.append_assoc, u64At_skip (by simp), u32ToLe_length,
    Nat.sub_self, u64At_toLe]

variable {m} (h : m.Proper)
include h

theorem sender_read : TextField.read (m.encode ++ rest) 12 =
    if isUtf8 m.sender.content then some m.sender else none := by
  rw [sender_place]
  exact TextField.read_encode h.sender_clean (by decide) m.headBytes_length (by simp [tailBytes])

theorem text_read : TextField.read (m.encode ++ rest) (13 + m.sender.len) =
    if isUtf8 m.text.content then some m.text else none := by
  rw [text_place]
  exact TextField.read_encode h.text_clean (by decide) m.text_offset (by simp [tailBytes])

end Layout

/-- A proper message is read back, with its length, if it is legible. -/
theorem decode_encode (h : m.Proper) (rest : Bytes) :
    decode (m.encode ++ rest) = if m.Legible then some (m, m.encode.length) else none := by
  have hlength : (m.encode ++ rest).length = m.flagsOffset + 13 + rest.length := by
    rw [List.length_append, encode_length]
  have hlong : 14 ≤ m.flagsOffset := by
    unfold flagsOffset
    omega
  have hreply : decide ((m.encode ++ rest).length ≥ m.flagsOffset + 1 + 12) = true := by
    refine decide_eq_true ?_
    omega
  have hflags : m.flagsOffset = 13 + m.sender.len + 1 + m.text.len := rfl
  have hsender := sender_read rest h
  have htext := text_read rest h
  rw [decode, if_neg (by omega)]
  simp only [origin_read, timestamp_read, if_neg h.origin_ne,
    if_neg (UInt64.not_lt.mpr h.timestamp_ge)]
  by_cases hs : isUtf8 m.sender.content = true
  · rw [if_pos hs] at hsender
    by_cases ht : isUtf8 m.text.content = true
    · rw [if_pos ht] at htext
      simp only [hsender, htext, Option.bind_eq_bind, Option.bind_some, if_neg h.sender_ne,
        ← hflags, hreply, if_true, flags_read, isBroadcast_flags, requiresAck_flags,
        replyToNode_read, replyToTimestamp_read, encode_length]
      exact (if_pos ⟨hs, ht⟩).symm
    · rw [if_neg ht] at htext
      simp only [hsender, htext, Option.bind_eq_bind, Option.bind_some, if_neg h.sender_ne,
        Option.bind_none, if_neg fun hm : m.Legible => ht hm.2]
  · rw [if_neg hs] at hsender
    simp only [hsender, Option.bind_eq_bind, Option.bind_none, if_neg fun hm : m.Legible => hs hm.1]

/-! ## Messages that are sent -/

theorem legible_new_iff {originNode : UInt32} {timestamp : UInt64} {sender text : String} :
    (new originNode timestamp sender text).Legible ↔
      CutsBetween chatMaxSenderLen sender ∧ CutsBetween chatMaxTextLen text := by
  have hsender : (new originNode timestamp sender text).sender.content =
      (utf8 sender).take chatMaxSenderLen := TextField.content_set ..
  have htext : (new originNode timestamp sender text).text.content =
      (utf8 text).take chatMaxTextLen := TextField.content_set ..
  rw [Legible, hsender, htext, isUtf8_take_iff, isUtf8_take_iff]

end ChatMessage

namespace ChatCRDT

/-! ## Chats -/

theorem decodeMessages_encode {messages : List ChatMessage}
    (hproper : ∀ message ∈ messages, message.Proper) {front : Bytes} {offset : Nat}
    (hoffset : front.length = offset) (c : ChatCRDT) :
    decodeMessages (front ++ messages.flatMap ChatMessage.encode) messages.length offset c =
      (messages.takeWhile fun message => decide message.Legible).foldl insert c := by
  induction messages generalizing front offset c with
  | nil => rfl
  | cons message messages ih =>
      obtain ⟨hfirst, hrest⟩ := List.forall_mem_cons.mp hproper
      have hmore : ¬ offset ≥
          (front ++ (message :: messages).flatMap ChatMessage.encode).length := by
        rw [List.flatMap_cons, List.length_append, List.length_append,
          ChatMessage.encode_length]
        omega
      have hdrop : (front ++ (message :: messages).flatMap ChatMessage.encode).drop offset =
          message.encode ++ messages.flatMap ChatMessage.encode := by
        rw [List.drop_left' hoffset, List.flatMap_cons]
      rw [List.length_cons, decodeMessages, if_neg hmore, hdrop,
        ChatMessage.decode_encode hfirst]
      by_cases hlegible : message.Legible
      · rw [if_pos hlegible, List.takeWhile_cons, if_pos (decide_eq_true hlegible), List.foldl_cons,
          List.flatMap_cons, ← List.append_assoc]
        refine ih hrest ?_ _
        rw [List.length_append, hoffset]
      · rw [if_neg hlegible, List.takeWhile_cons, if_neg (mt of_decide_eq_true hlegible)]
        rfl

theorem len_foldl_insert_le (messages : List ChatMessage) (c : ChatCRDT) :
    (messages.foldl insert c).len ≤ c.len + messages.length := by
  induction messages generalizing c with
  | nil => exact Nat.le_refl _
  | cons message messages ih =>
      have hstep : (c.insert message).len ≤ c.len + 1 := Std.ExtTreeMap.size_insert_le
      have hrest := ih (c.insert message)
      rw [List.foldl_cons, List.length_cons]
      omega

theorem foldl_insert_values (c : ChatCRDT) : c.values.foldl insert new = c := by
  have hfold : ∀ (entries : List (UInt64 × ChatMessage)) (start : ChatCRDT),
      (∀ entry ∈ entries, entry.2.messageId = entry.1) →
      ((entries.map Prod.snd).foldl insert start).messages =
        entries.foldl (MapMerge.insertIf fun _ => true) start.messages := by
    intro entries
    induction entries with
    | nil => exact fun _ _ => rfl
    | cons entry entries ih =>
        intro start hkeyed
        obtain ⟨hfirst, hrest⟩ := List.forall_mem_cons.mp hkeyed
        have hstep : (start.insert entry.2).messages = start.messages.insert entry.1 entry.2 :=
          congrArg (start.messages.insert · entry.2) hfirst
        rw [List.map_cons, List.foldl_cons, ih _ hrest, hstep]
        rfl
  apply ChatCRDT.ext
  have hkeyed : ∀ entry ∈ c.messages.toList, entry.2.messageId = entry.1 := fun entry hentry =>
    c.keyed _ _ (Std.ExtTreeMap.mem_toList_iff_getElem?_eq_some.mp hentry)
  rw [values, hfold _ _ hkeyed]
  exact (MapMerge.foldl_insertIf_toList _ _).trans (MapMerge.filter_eq_self fun _ _ => rfl)

/-- What comes back is what stands in front of the first message that is not legible. -/
theorem decode_encode {c : ChatCRDT} (hlen : c.len < 65536)
    (hproper : ∀ message ∈ c.values, message.Proper) :
    decode c.encode =
      some ((c.values.takeWhile fun message => decide message.Legible).foldl insert new) := by
  have hbytes : c.encode =
      u16ToLe (UInt16.ofNat c.len) ++ c.values.flatMap ChatMessage.encode := by
    rw [encode, values, List.flatMap_map]
  have hcount : (u16At c.encode 0).toNat = c.values.length := by
    rw [hbytes, u16At_toLe, length_values, UInt16.toNat_ofNat']
    exact Nat.mod_eq_of_lt hlen
  have hlong : ¬ c.encode.length < 2 := by
    rw [hbytes, List.length_append, u16ToLe_length]
    omega
  rw [decode, if_neg hlong, hcount, hbytes, decodeMessages_encode hproper (u16ToLe_length _)]

theorem decode_encode_iff {c : ChatCRDT} (hlen : c.len < 65536)
    (hproper : ∀ message ∈ c.values, message.Proper) :
    decode c.encode = some c ↔ ∀ message ∈ c.values, message.Legible := by
  rw [decode_encode hlen hproper, Option.some_inj]
  constructor
  · intro hsame
    -- A prefix that makes up the whole chat again is as long as all its messages.
    have hcount := len_foldl_insert_le
      (c.values.takeWhile fun message => decide message.Legible) new
    rw [hsame, ← length_values] at hcount
    have hprefix := List.takeWhile_prefix (l := c.values) fun message => decide message.Legible
    have htake := hprefix.eq_of_length_le (hcount.trans_eq (Nat.zero_add _))
    intro message hmem
    exact of_decide_eq_true (List.takeWhile_eq_self_iff.mp htake message hmem)
  · intro hall
    have htake : c.values.takeWhile (fun message => decide message.Legible) = c.values :=
      List.takeWhile_eq_self_iff.mpr fun message hmem => decide_eq_true (hall message hmem)
    rw [htake, foldl_insert_values]

end ChatCRDT

/-! ## Conversations -/

/-- The arguments of one `send_message`. -/
structure Said where
  originNode : UInt32
  timestamp : UInt64
  sender : String
  text : String

namespace Said

def message (s : Said) : ChatMessage := ChatMessage.new s.originNode s.timestamp s.sender s.text

structure Proper (s : Said) : Prop where
  origin_ne : s.originNode ≠ 0
  timestamp_ge : minValidTimestamp ≤ s.timestamp
  sender_ne : s.sender ≠ ""

instance (s : Said) : Decidable s.Proper :=
  decidable_of_iff (s.originNode ≠ 0 ∧ minValidTimestamp ≤ s.timestamp ∧ s.sender ≠ "")
    ⟨fun ⟨horigin, htime, hsender⟩ => ⟨horigin, htime, hsender⟩,
      fun h => ⟨h.origin_ne, h.timestamp_ge, h.sender_ne⟩⟩

/-- No character of the sender or the text is cut apart. -/
def CutsBetween (s : Said) : Prop :=
  Wire.CutsBetween chatMaxSenderLen s.sender ∧ Wire.CutsBetween chatMaxTextLen s.text

instance (s : Said) : Decidable s.CutsBetween := inferInstanceAs (Decidable (_ ∧ _))

theorem message_proper {s : Said} (h : s.Proper) : s.message.Proper where
  origin_ne := h.origin_ne
  timestamp_ge := h.timestamp_ge
  sender_ne := by
    have hlen : s.message.sender.len = min (utf8 s.sender).length chatMaxSenderLen := rfl
    have hsome : (utf8 s.sender).length ≠ 0 := by
      intro hzero
      have hempty := fromUtf8_utf8 s.sender
      rw [List.length_eq_zero_iff.mp hzero] at hempty
      exact h.sender_ne (Option.some.inj (hempty.symm.trans (fromUtf8_utf8 "")))
    unfold chatMaxSenderLen at hlen
    omega
  sender_clean := TextField.clean_set_empty s.sender
  text_clean := TextField.clean_set_empty s.text

end Said

/-- How a chat came about. -/
inductive Conversation where
  | start
  | send (before : Conversation) (said : Said)
  | merge (ours theirs : Conversation)

namespace Conversation

def chat : Conversation → ChatCRDT
  | start => ChatCRDT.new
  | send before said =>
      (before.chat.sendMessage said.originNode said.timestamp said.sender said.text).1
  | merge ours theirs => (ours.chat.merge theirs.chat).1

def said : Conversation → List Said
  | start => []
  | send before said => said :: before.said
  | merge ours theirs => ours.said ++ theirs.said

theorem len_chat (talk : Conversation) : talk.chat.len ≤ chatMaxMessages := by
  induction talk with
  | start => decide
  | send before said ih => exact ChatCRDT.len_addMessage ih _
  | merge ours theirs ih _ => exact ChatCRDT.len_merge ih _

/-- Whatever a chat holds was said. -/
theorem said_of_lookup {talk : Conversation} {id : UInt64} {message : ChatMessage}
    (h : talk.chat.messages[id]? = some message) : ∃ said ∈ talk.said, said.message = message := by
  induction talk with
  | start => exact absurd h MapMerge.getElem?_empty_ne_some
  | send before said ih =>
      rcases ChatCRDT.addMessage_lookup h with hold | rfl
      · obtain ⟨found, hfound, hmessage⟩ := ih hold
        exact ⟨found, List.mem_cons_of_mem _ hfound, hmessage⟩
      · exact ⟨said, List.mem_cons_self, rfl⟩
  | merge ours theirs ihours ihtheirs =>
      rcases ChatCRDT.merge_lookup h with hours | htheirs
      · obtain ⟨found, hfound, hmessage⟩ := ihours hours
        exact ⟨found, List.mem_append_left _ hfound, hmessage⟩
      · obtain ⟨found, hfound, hmessage⟩ := ihtheirs htheirs
        exact ⟨found, List.mem_append_right _ hfound, hmessage⟩

/-- A chat comes back as it was exactly if no character of a message that it holds is cut apart. -/
theorem all_heard_iff (talk : Conversation) (h : ∀ said ∈ talk.said, said.Proper) :
    ChatCRDT.decode talk.chat.encode = some talk.chat ↔
      ∀ said ∈ talk.said, said.message ∈ talk.chat.values → said.CutsBetween := by
  have hlen : talk.chat.len < 65536 := talk.len_chat.trans_lt (by decide)
  have hsaid : ∀ message ∈ talk.chat.values, ∃ said ∈ talk.said, said.message = message :=
    fun message hmem => said_of_lookup (ChatCRDT.mem_values.mp hmem)
  have hproper : ∀ message ∈ talk.chat.values, message.Proper := by
    intro message hmem
    obtain ⟨said, hfound, rfl⟩ := hsaid message hmem
    exact Said.message_proper (h said hfound)
  rw [ChatCRDT.decode_encode_iff hlen hproper]
  constructor
  · intro hall said _ hheld
    exact ChatMessage.legible_new_iff.mp (hall said.message hheld)
  · intro hall message hmem
    obtain ⟨said, hfound, rfl⟩ := hsaid message hmem
    exact ChatMessage.legible_new_iff.mpr (hall said hfound hmem)

/-- Two nodes that merge their chats. -/
def greeting : Conversation :=
  merge (send start ⟨1, 1700000000000, "ALPHA", "hello"⟩)
    (send start ⟨2, 1700000001000, "BRAVO", "hello back"⟩)

theorem greeting_heard :
    ChatCRDT.decode greeting.chat.encode = some greeting.chat := by
  have hwhole : ∀ said ∈ greeting.said, said.CutsBetween := by decide +kernel
  exact (all_heard_iff greeting (by decide)).mpr fun said hsaid _ => hwhole said hsaid

/-- The limit of 12 bytes cuts the last letter of the first sender apart. -/
def longName : Conversation :=
  send (send start ⟨1, 1700000000000, "JÄÄÄÄÄÄ", "hello"⟩) ⟨2, 1700000001000, "BRAVO", "hello back"⟩

theorem long_name_silences :
    (∀ said ∈ longName.said, said.Proper) ∧ longName.chat.len = 2 ∧
      ChatCRDT.decode longName.chat.encode = some ChatCRDT.new :=
  ⟨by decide, by decide +kernel, by decide +kernel⟩

end Conversation

end PeatBtle
