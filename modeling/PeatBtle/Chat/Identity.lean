import PeatBtle.Sync.Crdt.Chat

/-!
# The identity of a message

A message stands under its origin and the low half of its timestamp. Two messages of
one origin whose timestamps differ by a multiple of 2^32 milliseconds, about seven
weeks, stand under one identifier.
-/

namespace PeatBtle

namespace ChatMessage

theorem toNat_idOf (originNode : UInt32) (timestamp : UInt64) :
    (idOf originNode timestamp).toNat = originNode.toNat * 2 ^ 32 + timestamp.toNat % 2 ^ 32 := by
  have hlow : timestamp.toNat % 2 ^ 32 < 2 ^ 32 := Nat.mod_lt _ (by decide)
  have hhigh : originNode.toNat * 2 ^ 32 < 2 ^ 64 := by
    have hlt := originNode.toNat_lt
    omega
  have hmask : (timestamp &&& 0xFFFFFFFF).toNat = timestamp.toNat % 2 ^ 32 :=
    Nat.and_two_pow_sub_one_eq_mod timestamp.toNat 32
  have hshift : (originNode.toUInt64 <<< 32).toNat = originNode.toNat <<< 32 := by
    show originNode.toNat <<< (32 % 64) % 2 ^ 64 = originNode.toNat <<< 32
    rw [Nat.shiftLeft_eq]
    exact Nat.mod_eq_of_lt hhigh
  rw [idOf, UInt64.toNat_or, hmask, hshift, ← Nat.shiftLeft_add_eq_or_of_lt hlow, Nat.shiftLeft_eq]

theorem idOf_eq_iff {a b : UInt32} {s t : UInt64} :
    idOf a s = idOf b t ↔ a = b ∧ s.toNat % 2 ^ 32 = t.toNat % 2 ^ 32 := by
  rw [← UInt64.toNat_inj, toNat_idOf, toNat_idOf, ← UInt32.toNat_inj]
  omega

end ChatMessage

namespace ChatCRDT

/-- A message with this origin and this timestamp is in the chat. -/
def Holds (c : ChatCRDT) (originNode : UInt32) (timestamp : UInt64) : Prop :=
  ∃ (id : UInt64) (message : ChatMessage), c.messages[id]? = some message ∧
    message.originNode = originNode ∧ message.timestamp = timestamp

/-- No message of this origin has another timestamp with the same low half. -/
def Unaliased (c : ChatCRDT) (originNode : UInt32) (timestamp : UInt64) : Prop :=
  ∀ (id : UInt64) (message : ChatMessage), c.messages[id]? = some message →
    message.originNode = originNode →
    message.timestamp.toNat % 2 ^ 32 = timestamp.toNat % 2 ^ 32 → message.timestamp = timestamp

variable {c : ChatCRDT} {originNode : UInt32} {timestamp : UInt64}

theorem getMessage_eq_some_iff {message : ChatMessage} :
    c.getMessage originNode timestamp = some message ↔
      ∃ id : UInt64, c.messages[id]? = some message ∧ message.originNode = originNode ∧
        message.timestamp.toNat % 2 ^ 32 = timestamp.toNat % 2 ^ 32 := by
  constructor
  · intro h
    exact ⟨_, h, ChatMessage.idOf_eq_iff.mp (c.keyed _ _ h)⟩
  · rintro ⟨id, h, hsame⟩
    have hid : id = ChatMessage.idOf originNode timestamp :=
      (c.keyed _ _ h).symm.trans (ChatMessage.idOf_eq_iff.mpr hsame)
    rwa [hid] at h

/-- The message that is found has the timestamp that was asked for unless another one stands under
its identifier. -/
theorem getMessage_exact_iff :
    (∀ message, c.getMessage originNode timestamp = some message →
      message.originNode = originNode ∧ message.timestamp = timestamp) ↔
      c.Unaliased originNode timestamp := by
  simp only [getMessage_eq_some_iff, Unaliased]
  constructor
  · intro h id message hheld horigin hlow
    exact (h message ⟨id, hheld, horigin, hlow⟩).2
  · rintro h message ⟨id, hheld, horigin, hlow⟩
    exact ⟨horigin, h id message hheld horigin hlow⟩

theorem addMessage_refused_iff (c : ChatCRDT) (message : ChatMessage) :
    (c.addMessage message).2 = false ↔
      ∃ held, c.getMessage message.originNode message.timestamp = some held := by
  have hfound : c.messages.contains message.messageId = true ↔
      ∃ held, c.getMessage message.originNode message.timestamp = some held := by
    rw [Std.ExtTreeMap.contains_eq_isSome_getElem?]
    exact Option.isSome_iff_exists
  rw [← hfound, addMessage]
  split
  · rename_i hpresent
    exact iff_of_true rfl hpresent
  · rename_i hnew
    exact iff_of_false Bool.noConfusion hnew

/-- A duplicate is refused, and nothing else unless another message stands under its identifier. -/
theorem addMessage_exact_iff (message : ChatMessage) :
    ((c.addMessage message).2 = false ↔ c.Holds message.originNode message.timestamp) ↔
      c.Unaliased message.originNode message.timestamp := by
  rw [addMessage_refused_iff]
  constructor
  · intro h id held hheld horigin hlow
    have hfound := getMessage_eq_some_iff.mpr ⟨id, hheld, horigin, hlow⟩
    obtain ⟨id', same, hsame, horigin', htime⟩ := h.mp ⟨held, hfound⟩
    have hagain := getMessage_eq_some_iff.mpr ⟨id', hsame, horigin', by rw [htime]⟩
    rw [hfound] at hagain
    rw [Option.some.inj hagain]
    exact htime
  · intro h
    constructor
    · rintro ⟨held, hheld⟩
      obtain ⟨horigin, htime⟩ := getMessage_exact_iff.mpr h held hheld
      exact ⟨_, held, hheld, horigin, htime⟩
    · rintro ⟨id, held, hheld, horigin, htime⟩
      exact ⟨held, getMessage_eq_some_iff.mpr ⟨id, hheld, horigin, by rw [htime]⟩⟩

/-- A chat tells a message by its origin and its timestamp exactly if no other message of the origin
stands under the identifier. -/
theorem identity_exact_iff (c : ChatCRDT) (message : ChatMessage) :
    (((c.addMessage message).2 = false ↔ c.Holds message.originNode message.timestamp) ↔
        c.Unaliased message.originNode message.timestamp) ∧
      ((∀ found, c.getMessage message.originNode message.timestamp = some found →
          found.originNode = message.originNode ∧ found.timestamp = message.timestamp) ↔
        c.Unaliased message.originNode message.timestamp) :=
  ⟨addMessage_exact_iff message, getMessage_exact_iff⟩

/-- Two messages of one node, 2^32 milliseconds apart. -/
theorem later_message_refused :
    let c := (new.addMessage (ChatMessage.new 1 1700000000000 "ALPHA" "before")).1
    let later := ChatMessage.new 1 1704294967296 "ALPHA" "after"
    (c.addMessage later).2 = false ∧ ¬ c.Holds 1 1704294967296 ∧
      (c.getMessage 1 1704294967296).map ChatMessage.timestamp = some 1700000000000 := by
  intro c later
  have hfound : (c.getMessage 1 1704294967296).map ChatMessage.timestamp = some 1700000000000 := by
    decide
  refine ⟨by decide, ?_, hfound⟩
  rintro ⟨id, held, hheld, horigin, htime⟩
  have hgot := getMessage_eq_some_iff.mpr ⟨id, hheld, horigin, by rw [htime]⟩
  rw [hgot, Option.map_some, htime] at hfound
  revert hfound
  decide

end ChatCRDT

end PeatBtle
