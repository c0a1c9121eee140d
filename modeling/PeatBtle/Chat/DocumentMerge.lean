import PeatBtle.Chat.Convergence
import PeatBtle.Chat.DocumentSync
import PeatBtle.Convergence
import PeatBtle.Data.LoggedRun

/-!
# Chats merged with documents

A merge reports a change before it prunes. Messages that are pruned at once are thus
reported again with each copy of the document that brings them, and the first chat that
is received is not pruned at all.
-/

namespace PeatBtle

open Wire TopK

/-! ## Merging a chat twice -/

namespace ChatCRDT

/-- Fewer than 32 messages of both chats are ahead of any of the other chat. -/
def HasRoom (c other : ChatCRDT) : Prop :=
  ∀ id ∈ other.messages, ((c.ids ∪ other.ids).filter (id.toNat < ·)).card < chatMaxMessages

theorem hasRoom_iff {c other : ChatCRDT} :
    c.HasRoom other ↔ other.ids ⊆ top chatMaxMessages (c.ids ∪ other.ids) := by
  constructor
  · intro h x hx
    obtain ⟨id, hid, rfl⟩ := mem_ids.mp hx
    exact mem_top.mpr ⟨Finset.mem_union_right _ hx, h id hid⟩
  · intro h id hid
    exact (mem_top.mp (h (toNat_mem_ids.mpr hid))).2

theorem hasRoom_of_isEmpty {c other : ChatCRDT} (hempty : other.isEmpty = true) :
    c.HasRoom other := by
  intro id hid
  rw [Std.ExtTreeMap.isEmpty_iff.mp hempty] at hid
  exact absurd hid Std.ExtTreeMap.not_mem_empty

theorem merge_self_unreported (c : ChatCRDT) : (c.merge c).2 = false := by
  rw [← Bool.not_eq_true, merge_changed_iff]
  rintro ⟨id, hid, hfree⟩
  exact hfree hid

/-- Into an empty chat fits what is within the limit. -/
theorem new_hasRoom_iff {other : ChatCRDT} : new.HasRoom other ↔ other.len ≤ chatMaxMessages := by
  have hempty : new.ids ∪ other.ids = other.ids := Finset.empty_union _
  rw [hasRoom_iff, hempty, ← card_ids]
  constructor
  · intro h
    have hcard := Finset.card_le_card h
    rw [card_top] at hcard
    exact hcard.trans (Nat.min_le_left ..)
  · intro h
    rw [top_eq_self h]

variable {c other : ChatCRDT} (hlen : c.len ≤ chatMaxMessages)
include hlen

/-- A second merge brings nothing new exactly if the first one kept all. -/
theorem merge_again_iff : ((c.merge other).1.merge other).2 = false ↔ c.HasRoom other := by
  rw [← Bool.not_eq_true, merge_changed_iff, hasRoom_iff, ← ids_merge hlen]
  constructor
  · intro h x hx
    obtain ⟨id, hid, rfl⟩ := mem_ids.mp hx
    by_contra hlost
    exact h ⟨id, hid, fun hheld => hlost (toNat_mem_ids.mpr hheld)⟩
  · rintro h ⟨id, hid, hlost⟩
    exact hlost (toNat_mem_ids.mp (h (toNat_mem_ids.mpr hid)))

theorem merge_reported_iff (h : c.HasRoom other) :
    (c.merge other).2 = true ↔ (c.merge other).1 ≠ c := by
  constructor
  · intro hreported hsame
    have hagain := (merge_again_iff hlen).mpr h
    rw [hsame, hreported] at hagain
    cases hagain
  · intro hchanged
    by_contra hquiet
    exact hchanged (merge_unchanged (Bool.not_eq_true _ ▸ hquiet))

end ChatCRDT

/-! ## Documents -/

namespace ChatDocument

def new (nodeId : NodeId) : ChatDocument := ⟨PeatDocument.new nodeId, none⟩

def incrementVersion (d : ChatDocument) : ChatDocument :=
  { d with toPeatDocument := d.toPeatDocument.incrementVersion }

def incrementCounter (d : ChatDocument) : ChatDocument :=
  { d with toPeatDocument := d.toPeatDocument.incrementCounter }

def getOrCreateChat (d : ChatDocument) : ChatCRDT := d.chat.getD ChatCRDT.new

/-- Whether the message was new. -/
def addMessage (d : ChatDocument) (message : ChatMessage) : ChatDocument × Bool :=
  let added := d.getOrCreateChat.addMessage message
  let kept : ChatDocument := { d with chat := some added.1 }
  if added.2 then (kept.incrementCounter, true) else (kept, false)

def addChatMessage (d : ChatDocument) (originNode : UInt32) (timestamp : UInt64)
    (sender text : String) : ChatDocument × Bool :=
  d.addMessage { ChatMessage.new originNode timestamp sender text with isBroadcast := true }

def addChatReply (d : ChatDocument) (originNode : UInt32) (timestamp : UInt64)
    (sender text : String) (replyToNode : UInt32) (replyToTimestamp : UInt64) :
    ChatDocument × Bool :=
  let message := { ChatMessage.new originNode timestamp sender text with isBroadcast := true }
  d.addMessage (message.setReplyTo replyToNode replyToTimestamp)

/-- Whether our state changed. The peripheral stays ours. -/
def merge (d other : ChatDocument) : ChatDocument × Bool :=
  let counter := d.counter.merge other.counter
  let emergency := PeatDocument.mergeEmergency d.emergency other.emergency
  let chat := mergeChat d.chat other.chat
  let changed := counter.value != d.counter.value || emergency.2 || chat.2
  let merged : ChatDocument :=
    { d with counter := counter, emergency := emergency.1, chat := chat.1 }
  (if changed then merged.incrementVersion else merged, changed)

section Fields

variable (d other : ChatDocument)

theorem counter_merge : (d.merge other).1.counter = d.counter.merge other.counter := by
  unfold merge
  dsimp only
  split <;> rfl

theorem emergency_merge : (d.merge other).1.emergency =
    (PeatDocument.mergeEmergency d.emergency other.emergency).1 := by
  unfold merge
  dsimp only
  split <;> rfl

theorem chat_merge : (d.merge other).1.chat = (mergeChat d.chat other.chat).1 := by
  unfold merge
  dsimp only
  split <;> rfl

theorem version_merge : (d.merge other).1.version =
    if (d.merge other).2 then d.version + 1 else d.version := by
  unfold merge
  dsimp only
  split <;> rfl

theorem merge_snd : (d.merge other).2 =
    ((d.counter.merge other.counter).value != d.counter.value ||
      (PeatDocument.mergeEmergency d.emergency other.emergency).2 ||
      (mergeChat d.chat other.chat).2) := rfl

/-- Of a second copy only the chat can be reported. -/
theorem merge_again_snd : ((d.merge other).1.merge other).2 =
    (mergeChat (mergeChat d.chat other.chat).1 other.chat).2 := by
  have hcounter : (d.counter.merge other.counter).merge other.counter =
      d.counter.merge other.counter := Convergence.counter_merge_again ..
  have hemergency := PeatDocument.mergeEmergency_again d.emergency other.emergency
  rw [merge_snd, counter_merge, emergency_merge, chat_merge, hcounter, hemergency,
    bne_self_eq_false, Bool.or_self, Bool.false_or]

end Fields

/-! ## One merge -/

/-- What is reported of two chats is whether ours changes. -/
def ReportedExactly (ours theirs : Option ChatCRDT) : Prop :=
  ∀ chat received, ours = some chat → theirs = some received →
    ((chat.merge received).2 = true ↔ (chat.merge received).1 ≠ chat)

def WithinLimit (chat : Option ChatCRDT) : Prop := ∀ c, chat = some c → c.len ≤ chatMaxMessages

theorem withinLimit_some {c : ChatCRDT} : WithinLimit (some c) ↔ c.len ≤ chatMaxMessages :=
  ⟨fun h => h c rfl, fun h _ hfound => Option.some.inj hfound ▸ h⟩

section Chats

variable {received : ChatCRDT}

theorem mergeChat_of_isEmpty (hempty : received.isEmpty = true) (ours : Option ChatCRDT) :
    mergeChat ours (some received) = (ours, false) := if_pos hempty

theorem mergeChat_first (hsome : ¬ received.isEmpty = true) :
    mergeChat none (some received) = (some received, true) := if_neg hsome

theorem mergeChat_both (hsome : ¬ received.isEmpty = true) (chat : ChatCRDT) :
    mergeChat (some chat) (some received) =
      (some (chat.merge received).1, (chat.merge received).2) := if_neg hsome

/-- A merge of chats is exact and bounded exactly if nothing that is received would be pruned. -/
theorem mergeChat_exact_iff {ours : Option ChatCRDT} (h : WithinLimit ours) :
    WithinLimit (mergeChat ours (some received)).1 ∧ ReportedExactly ours (some received) ∧
        (mergeChat (mergeChat ours (some received)).1 (some received)).2 = false ↔
      (ours.getD ChatCRDT.new).HasRoom received := by
  by_cases hempty : received.isEmpty = true
  · have hroom (c : ChatCRDT) : c.HasRoom received := ChatCRDT.hasRoom_of_isEmpty hempty
    rw [mergeChat_of_isEmpty hempty, mergeChat_of_isEmpty hempty]
    refine iff_of_true ⟨h, ?_, rfl⟩ (hroom _)
    rintro chat _ rfl ⟨⟩
    exact ChatCRDT.merge_reported_iff (withinLimit_some.mp h) (hroom chat)
  · cases ours with
    | none =>
        -- The chat is adopted as it is: what can fail is its length alone.
        rw [mergeChat_first hempty, mergeChat_both hempty, withinLimit_some, Option.getD_none,
          ChatCRDT.new_hasRoom_iff]
        refine ⟨And.left, fun hlen => ⟨hlen, ?_, ChatCRDT.merge_self_unreported received⟩⟩
        rintro chat _ ⟨⟩
    | some chat =>
        have hlen := withinLimit_some.mp h
        rw [mergeChat_both hempty, mergeChat_both hempty, withinLimit_some, Option.getD_some,
          ChatCRDT.merge_again_iff hlen]
        refine ⟨fun hall => hall.2.2, fun hroom => ⟨ChatCRDT.len_merge hlen received, ?_, hroom⟩⟩
        rintro _ _ ⟨⟩ ⟨⟩
        exact ChatCRDT.merge_reported_iff hlen hroom

end Chats

/-- The chats are merged exactly, and a second copy of the document is no news. -/
structure MergesExactly (d received : ChatDocument) : Prop where
  reported_exactly : ReportedExactly d.chat received.chat
  unreported_again : ((d.merge received).1.merge received).2 = false
  version_again : ((d.merge received).1.merge received).1.version = (d.merge received).1.version

theorem mergesExactly_iff {d received : ChatDocument} :
    d.MergesExactly received ↔ ReportedExactly d.chat received.chat ∧
      (mergeChat (mergeChat d.chat received.chat).1 received.chat).2 = false := by
  rw [← merge_again_snd]
  constructor
  · exact fun h => ⟨h.reported_exactly, h.unreported_again⟩
  · rintro ⟨hreported, hagain⟩
    refine ⟨hreported, hagain, ?_⟩
    rw [version_merge, hagain]
    rfl

/-- Nothing of the received chat would be pruned. -/
def HasRoom (d received : ChatDocument) : Prop :=
  ∀ theirs, received.chat = some theirs → d.getOrCreateChat.HasRoom theirs

theorem merge_exact_iff {d : ChatDocument} (h : WithinLimit d.chat) (received : ChatDocument) :
    WithinLimit (d.merge received).1.chat ∧ d.MergesExactly received ↔ d.HasRoom received := by
  rw [mergesExactly_iff, chat_merge, HasRoom]
  cases received.chat with
  | none =>
      refine iff_of_true ⟨h, ?_, rfl⟩ fun _ hnone => nomatch hnone
      exact fun _ _ _ hnone => nomatch hnone
  | some theirs =>
      rw [mergeChat_exact_iff h]
      constructor
      · rintro hroom _ ⟨⟩
        exact hroom
      · exact fun hroom => hroom theirs rfl

/-! ## Runs -/

theorem chat_addMessage (d : ChatDocument) (message : ChatMessage) :
    (d.addMessage message).1.chat = some (d.getOrCreateChat.addMessage message).1 := by
  unfold addMessage
  dsimp only
  split <;> rfl

theorem withinLimit_addMessage {d : ChatDocument} (h : WithinLimit d.chat)
    (message : ChatMessage) : WithinLimit (d.addMessage message).1.chat := by
  have hours : d.getOrCreateChat.len ≤ chatMaxMessages := by
    unfold getOrCreateChat
    cases hchat : d.chat with
    | none => exact Nat.zero_le _
    | some chat => exact h chat hchat
  rw [chat_addMessage, withinLimit_some]
  exact ChatCRDT.len_addMessage hours message

end ChatDocument

/-- A local addition, or some bytes that were received. -/
inductive DocumentAction where
  | addChatMessage (originNode : UInt32) (timestamp : UInt64) (sender text : String)
  | addChatReply (originNode : UInt32) (timestamp : UInt64) (sender text : String)
      (replyToNode : UInt32) (replyToTimestamp : UInt64)
  | merge (data : Bytes)

/-- The document that is merged. -/
def DocumentAction.received : DocumentAction → Option ChatDocument
  | merge data => ChatDocument.decode data
  | _ => none

namespace ChatDocument

def act (d : ChatDocument) : DocumentAction → ChatDocument
  | .addChatMessage originNode timestamp sender text =>
      (d.addChatMessage originNode timestamp sender text).1
  | .addChatReply originNode timestamp sender text replyToNode replyToTimestamp =>
      (d.addChatReply originNode timestamp sender text replyToNode replyToTimestamp).1
  | .merge data => (decode data).elim d fun received => (d.merge received).1

theorem act_exact_iff {d : ChatDocument} (h : WithinLimit d.chat) (a : DocumentAction) :
    WithinLimit (d.act a).chat ∧ (∀ received, a.received = some received →
        d.MergesExactly received) ↔
      ∀ received, a.received = some received → d.HasRoom received := by
  cases a with
  | addChatMessage originNode timestamp sender text =>
      exact iff_of_true ⟨withinLimit_addMessage h _, fun _ hnone => nomatch hnone⟩
        fun _ hnone => nomatch hnone
  | addChatReply originNode timestamp sender text replyToNode replyToTimestamp =>
      exact iff_of_true ⟨withinLimit_addMessage h _, fun _ hnone => nomatch hnone⟩
        fun _ hnone => nomatch hnone
  | merge data =>
      simp only [act, DocumentAction.received]
      cases decode data with
      | none =>
          exact iff_of_true ⟨h, fun _ hnone => nomatch hnone⟩ fun _ hnone => nomatch hnone
      | some received =>
          simp only [Option.elim_some, Option.some.injEq, forall_eq']
          exact merge_exact_iff h received

/-- The chat of a document stays within its limit and is merged exactly all along a run exactly if
no merge brings a message that would be pruned. -/
theorem chat_exact_iff (nodeId : NodeId) (actions : List DocumentAction) :
    (∀ front, front <+: actions → WithinLimit (LoggedRun.run act (new nodeId) front).chat) ∧
        LoggedRun.Along act (fun d a => ∀ received, a.received = some received →
          d.MergesExactly received) (new nodeId) actions ↔
      LoggedRun.Along act (fun d a => ∀ received, a.received = some received →
        d.HasRoom received) (new nodeId) actions := by
  refine @LoggedRun.forall_step_iff_along _ _ act (fun _ => True) (fun d => WithinLimit d.chat) _ _
    (new nodeId) actions trivial ?_ (fun _ _ _ => trivial) fun d a _ h => act_exact_iff h a
  exact fun _ hnone => nomatch hnone

/-- One message each millisecond. -/
def additions (n : Nat) : List DocumentAction :=
  (List.range n).map fun i => .addChatMessage 2 (1700000000000 + UInt64.ofNat i) "BRAVO" ""

/-- A document with one message, from the node with the smallest number. -/
def newcomer : ChatDocument := ((new 1).addChatMessage 1 1700000001000 "ALPHA" "help").1

/-- A document with one message more than the limit allows. -/
def crowded : ChatDocument :=
  { new 1 with
    chat := some <| (List.range 33).foldl
      (fun c i => c.insert (ChatMessage.new 1 (1700000000000 + UInt64.ofNat i) "ALPHA" ""))
      ChatCRDT.new }

/-- A message that is pruned at once is news each time it comes, and a first chat stays as long as
it is. -/
theorem old_news_and_long_chat :
    ¬ ((∀ front, front <+: additions 32 ++ [.merge newcomer.encode] →
          WithinLimit (LoggedRun.run act (new 2) front).chat) ∧
        LoggedRun.Along act (fun d a => ∀ received, a.received = some received →
          d.MergesExactly received) (new 2) (additions 32 ++ [.merge newcomer.encode])) ∧
      ¬ WithinLimit (LoggedRun.run act (new 2) [.merge crowded.encode]).chat := by
  constructor
  · rintro ⟨hlimit, hexact⟩
    have hbefore := hlimit (additions 32) (List.prefix_append ..)
    have hafter := hlimit _ (List.prefix_refl _)
    rw [LoggedRun.run_append, LoggedRun.run_cons, LoggedRun.run_nil] at hafter
    have hdecode : decode newcomer.encode = some newcomer := by decide +kernel
    have hroom := (act_exact_iff hbefore _).mp ⟨hafter, (LoggedRun.along_append.mp hexact).2.1⟩
      newcomer hdecode _ (chat_addMessage ..)
    have hfew := hroom (ChatMessage.idOf 1 1700000001000) (by decide +kernel)
    revert hfew
    decide +kernel
  · have hlen : (LoggedRun.run act (new 2) [.merge crowded.encode]).chat.map ChatCRDT.len =
        some 33 := by
      decide +kernel
    intro hlimit
    obtain ⟨chat, hchat, hsize⟩ := Option.map_eq_some_iff.mp hlen
    have hle := hlimit chat hchat
    unfold chatMaxMessages at hle
    omega

end ChatDocument

end PeatBtle
