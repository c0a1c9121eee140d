import PeatBtle.Data.TopK
import PeatBtle.Sync.Crdt.Chat

/-!
# Chats converge

A merge adds what is missing and cuts the chat back to the messages with the greatest
identifiers. A message that is cut back may come again with the next chat, but then it is
cut back again, so chats that merge the same others keep the same messages.
-/

namespace PeatBtle.ChatCRDT

open Std MapMerge TopK

/-- The identifiers of the messages. -/
def ids (c : ChatCRDT) : Finset Nat := (c.messages.keys.map UInt64.toNat).toFinset

theorem mem_ids {c : ChatCRDT} {x : Nat} : x ∈ c.ids ↔ ∃ id ∈ c.messages, id.toNat = x := by
  simp [ids]

theorem toNat_mem_ids {c : ChatCRDT} {id : UInt64} : id.toNat ∈ c.ids ↔ id ∈ c.messages := by
  rw [mem_ids]
  constructor
  · rintro ⟨other, hother, hid⟩
    rwa [← UInt64.toNat_inj.mp hid]
  · exact fun hid => ⟨id, hid, rfl⟩

theorem exists_lookup {c : ChatCRDT} {id : UInt64} (h : id ∈ c.messages) :
    ∃ message, c.messages[id]? = some message :=
  Option.isSome_iff_exists.mp (ExtTreeMap.mem_iff_isSome_getElem?.mp h)

theorem card_ids (c : ChatCRDT) : c.ids.card = c.len := by
  have hnodup : (c.messages.keys.map UInt64.toNat).Nodup :=
    ExtTreeMap.nodup_keys.map fun _ _ h => UInt64.toNat_inj.mp h
  rw [ids, List.toFinset_card_of_nodup hnodup, List.length_map, ExtTreeMap.length_keys, len]

/-! ## Cutting back -/

theorem removeOldest_lookup {c : ChatCRDT} {id : UInt64} {message : ChatMessage}
    (h : c.removeOldest.messages[id]? = some message) : c.messages[id]? = some message := by
  unfold removeOldest at h
  split at h
  · rw [getElem?_erase_eq] at h
    split at h
    · cases h
    · exact h
  · exact h

theorem top_removeOldest {c : ChatCRDT} {k : Nat} (hlen : k < c.len) :
    top k c.removeOldest.ids = top k c.ids := by
  unfold removeOldest
  split
  · rename_i oldest holdest
    obtain ⟨-, hleast⟩ := ExtTreeMap.minKey?_eq_some_iff_mem_and_forall.mp holdest
    have hids : (⟨c.messages.erase oldest, c.keyed.erase oldest⟩ : ChatCRDT).ids =
        c.ids.erase oldest.toNat := by
      ext x
      rw [Finset.mem_erase, mem_ids, mem_ids]
      constructor
      · rintro ⟨id, hid, rfl⟩
        obtain ⟨hne, hmem⟩ := ExtTreeMap.mem_erase.mp hid
        refine ⟨fun heq => hne ?_, id, hmem, rfl⟩
        rw [UInt64.toNat_inj.mp heq]
        exact ReflCmp.compare_self
      · rintro ⟨hne, id, hmem, rfl⟩
        refine ⟨id, ExtTreeMap.mem_erase.mpr ⟨fun heq => hne ?_, hmem⟩, rfl⟩
        rw [LawfulEqCmp.compare_eq_iff_eq.mp heq]
    have hmin : ∀ y ∈ c.ids, oldest.toNat ≤ y := by
      intro y hy
      obtain ⟨id, hid, rfl⟩ := mem_ids.mp hy
      exact UInt64.le_iff_toNat_le.mp (Std.isLE_compare.mp (hleast id hid))
    rw [hids]
    exact top_erase_min hmin (by rwa [card_ids])
  · rfl

theorem ids_pruneIfNeeded (c : ChatCRDT) : c.pruneIfNeeded.ids = top chatMaxMessages c.ids := by
  have hrounds (n : Nat) : ∀ c : ChatCRDT, n ≤ c.len - chatMaxMessages →
      top chatMaxMessages (removeOldest^[n] c).ids = top chatMaxMessages c.ids := by
    induction n with
    | zero => exact fun _ _ => rfl
    | succ n ih =>
        intro c hn
        rw [Function.iterate_succ_apply, ih _ (by rw [len_removeOldest]; omega),
          top_removeOldest (by omega)]
  rw [← hrounds _ c (Nat.le_refl _), ← pruneIfNeeded]
  exact (top_eq_self (by rw [card_ids, len_pruneIfNeeded]; exact Nat.min_le_right ..)).symm

theorem pruneIfNeeded_lookup {c : ChatCRDT} {id : UInt64} {message : ChatMessage}
    (h : c.pruneIfNeeded.messages[id]? = some message) : c.messages[id]? = some message := by
  have hrounds (n : Nat) : ∀ c : ChatCRDT, (removeOldest^[n] c).messages[id]? = some message →
      c.messages[id]? = some message := by
    induction n with
    | zero => exact fun _ h => h
    | succ n ih => exact fun c h => removeOldest_lookup (ih _ h)
  exact hrounds _ c h

/-! ## Adding messages -/

theorem ids_mergeMessage (state : ChatCRDT × Bool) (message : ChatMessage) :
    (mergeMessage state message).1.ids = state.1.ids ∪ {message.messageId.toNat} := by
  unfold mergeMessage
  split
  · rename_i hheld
    have hmem := toNat_mem_ids.mpr (ExtTreeMap.contains_iff_mem.mp hheld)
    exact (Finset.union_eq_left.mpr (Finset.singleton_subset_iff.mpr hmem)).symm
  · ext x
    simp only [Finset.mem_union, Finset.mem_singleton, mem_ids, insert, ExtTreeMap.mem_insert,
      LawfulEqCmp.compare_eq_iff_eq]
    constructor
    · rintro ⟨id, rfl | hid, rfl⟩
      · exact Or.inr rfl
      · exact Or.inl ⟨id, hid, rfl⟩
    · rintro (⟨id, hid, rfl⟩ | rfl)
      · exact ⟨id, Or.inr hid, rfl⟩
      · exact ⟨_, Or.inl rfl, rfl⟩

theorem ids_foldl_mergeMessage (state : ChatCRDT × Bool) (messages : List ChatMessage) :
    (messages.foldl mergeMessage state).1.ids =
      state.1.ids ∪ (messages.map fun message => message.messageId.toNat).toFinset := by
  induction messages generalizing state with
  | nil => rw [List.foldl_nil, List.map_nil, List.toFinset_nil, Finset.union_empty]
  | cons message messages ih =>
      rw [List.foldl_cons, ih, ids_mergeMessage, List.map_cons, List.toFinset_cons,
        Finset.union_assoc, ← Finset.insert_eq]

/-- What is added stands under an identifier that was free. -/
theorem foldl_mergeMessage_lookup {state : ChatCRDT × Bool} {messages : List ChatMessage}
    {id : UInt64} {message : ChatMessage}
    (h : (messages.foldl mergeMessage state).1.messages[id]? = some message) :
    state.1.messages[id]? = some message ∨
      message ∈ messages ∧ message.messageId = id ∧ id ∉ state.1.messages := by
  induction messages generalizing state with
  | nil => exact Or.inl h
  | cons first messages ih =>
      rcases ih h with hstep | ⟨hmem, hid, hfree⟩
      · unfold mergeMessage at hstep
        split at hstep
        · exact Or.inl hstep
        · rename_i habsent
          rw [insert, getElem?_insert_eq] at hstep
          split at hstep
          · rename_i hid
            obtain rfl := Option.some.inj hstep
            rw [ExtTreeMap.contains_iff_mem, hid] at habsent
            exact Or.inr ⟨List.mem_cons_self, hid, habsent⟩
          · exact Or.inl hstep
      · refine Or.inr ⟨List.mem_cons_of_mem _ hmem, hid, fun hheld => hfree ?_⟩
        rw [← toNat_mem_ids, ids_mergeMessage]
        exact Finset.mem_union_left _ (toNat_mem_ids.mpr hheld)

theorem foldl_mergeMessage_changed_iff {state : ChatCRDT × Bool} {messages : List ChatMessage} :
    (messages.foldl mergeMessage state).2 = true ↔
      state.2 = true ∨ ∃ message ∈ messages, message.messageId ∉ state.1.messages := by
  induction messages generalizing state with
  | nil => simp
  | cons message messages ih =>
      rw [List.foldl_cons, ih, List.exists_mem_cons_iff]
      unfold mergeMessage
      split
      · rename_i hheld
        rw [not_iff_false_intro (ExtTreeMap.contains_iff_mem.mp hheld), false_or]
      · rename_i habsent
        rw [ExtTreeMap.contains_iff_mem] at habsent
        exact iff_of_true (Or.inl rfl) (Or.inr (Or.inl habsent))

/-- Nothing was added if nothing is reported. -/
theorem foldl_mergeMessage_unchanged {state : ChatCRDT × Bool} {messages : List ChatMessage}
    (h : (messages.foldl mergeMessage state).2 = false) :
    messages.foldl mergeMessage state = state := by
  induction messages generalizing state with
  | nil => rfl
  | cons message messages ih =>
      have hrest := ih h
      rw [List.foldl_cons, hrest] at h ⊢
      unfold mergeMessage at h ⊢
      split
      · rfl
      · rename_i habsent
        rw [if_neg habsent] at h
        cases h

/-- The loop of `merge` over any messages. -/
def join (c : ChatCRDT) (messages : List ChatMessage) : ChatCRDT × Bool :=
  let joined := messages.foldl mergeMessage (c, false)
  if joined.2 then (joined.1.pruneIfNeeded, true) else joined

/-- What the union keeps, or nothing new. -/
theorem join_cases (c : ChatCRDT) (messages : List ChatMessage) :
    (c.join messages).1 = (messages.foldl mergeMessage (c, false)).1.pruneIfNeeded ∨
      (c.join messages).1 = c ∧ messages.foldl mergeMessage (c, false) = (c, false) := by
  unfold join
  dsimp only
  split
  · exact Or.inl rfl
  · rename_i hsame
    have hfold := foldl_mergeMessage_unchanged (Bool.not_eq_true _ ▸ hsame)
    exact Or.inr ⟨congrArg Prod.fst hfold, hfold⟩

/-- A chat is cut back to what the union keeps. -/
theorem ids_join {c : ChatCRDT} (hlen : c.len ≤ chatMaxMessages) (messages : List ChatMessage) :
    (c.join messages).1.ids = top chatMaxMessages
      (c.ids ∪ (messages.map fun message => message.messageId.toNat).toFinset) := by
  have hunion := ids_foldl_mergeMessage (c, false) messages
  rcases join_cases c messages with hcut | ⟨hsame, hnone⟩
  · rw [hcut, ids_pruneIfNeeded, hunion]
  · rw [hnone] at hunion
    rw [hsame, ← hunion, top_eq_self (by rwa [card_ids])]

theorem join_lookup {c : ChatCRDT} {messages : List ChatMessage} {id : UInt64}
    {message : ChatMessage} (h : (c.join messages).1.messages[id]? = some message) :
    c.messages[id]? = some message ∨
      message ∈ messages ∧ message.messageId = id ∧ id ∉ c.messages := by
  rcases join_cases c messages with hcut | ⟨hsame, -⟩
  · exact foldl_mergeMessage_lookup (pruneIfNeeded_lookup (hcut ▸ h))
  · exact Or.inl (hsame ▸ h)

theorem join_changed_iff {c : ChatCRDT} {messages : List ChatMessage} :
    (c.join messages).2 = true ↔ ∃ message ∈ messages, message.messageId ∉ c.messages := by
  have hchanged := @foldl_mergeMessage_changed_iff (c, false) messages
  rw [or_iff_right (show ¬ (c, false).2 = true from Bool.noConfusion)] at hchanged
  rw [← hchanged]
  unfold join
  dsimp only
  split
  · rename_i hadded
    exact iff_of_true rfl hadded
  · exact Iff.rfl

theorem join_unchanged {c : ChatCRDT} {messages : List ChatMessage}
    (h : (c.join messages).2 = false) : (c.join messages).1 = c := by
  unfold join at h ⊢
  dsimp only at h ⊢
  split at h
  · cases h
  · rename_i hsame
    rw [if_neg hsame]
    exact congrArg Prod.fst (foldl_mergeMessage_unchanged h)

theorem len_join {c : ChatCRDT} (hlen : c.len ≤ chatMaxMessages) (messages : List ChatMessage) :
    (c.join messages).1.len ≤ chatMaxMessages := by
  rcases join_cases c messages with hcut | ⟨hsame, -⟩
  · rw [hcut, len_pruneIfNeeded]
    exact Nat.min_le_right ..
  · rwa [hsame]

/-! ## One message -/

theorem addMessage_eq_join (c : ChatCRDT) (message : ChatMessage) :
    c.addMessage message = c.join [message] := by
  unfold addMessage join
  rw [List.foldl_cons, List.foldl_nil, mergeMessage]
  split
  · rfl
  · rfl

theorem addMessage_lookup {c : ChatCRDT} {message found : ChatMessage} {id : UInt64}
    (h : (c.addMessage message).1.messages[id]? = some found) :
    c.messages[id]? = some found ∨ found = message := by
  rw [addMessage_eq_join] at h
  exact (join_lookup h).imp_right fun hnew => List.mem_singleton.mp hnew.1

theorem len_addMessage {c : ChatCRDT} (hlen : c.len ≤ chatMaxMessages) (message : ChatMessage) :
    (c.addMessage message).1.len ≤ chatMaxMessages := by
  rw [addMessage_eq_join]
  exact len_join hlen [message]

/-! ## One merge -/

/-- The messages in the order of their identifiers. -/
def values (c : ChatCRDT) : List ChatMessage := c.messages.toList.map Prod.snd

theorem mem_values {c : ChatCRDT} {message : ChatMessage} :
    message ∈ c.values ↔ c.messages[message.messageId]? = some message := by
  rw [values, List.mem_map]
  constructor
  · rintro ⟨⟨id, found⟩, hentry, rfl⟩
    have hlookup := ExtTreeMap.mem_toList_iff_getElem?_eq_some.mp hentry
    rwa [c.keyed _ _ hlookup]
  · intro h
    exact ⟨_, ExtTreeMap.mem_toList_iff_getElem?_eq_some.mpr h, rfl⟩

theorem length_values (c : ChatCRDT) : c.values.length = c.len := by
  rw [values, List.length_map, ExtTreeMap.length_toList, len]

theorem ids_values (c : ChatCRDT) :
    (c.values.map fun message => message.messageId.toNat).toFinset = c.ids := by
  ext x
  simp only [List.mem_toFinset, List.mem_map, mem_values, mem_ids]
  constructor
  · rintro ⟨message, hheld, rfl⟩
    exact ⟨_, mem_of_getElem? hheld, rfl⟩
  · rintro ⟨id, hid, rfl⟩
    obtain ⟨message, hheld⟩ := exists_lookup hid
    obtain rfl := c.keyed _ _ hheld
    exact ⟨message, hheld, rfl⟩

theorem merge_eq_join (c other : ChatCRDT) : c.merge other = c.join other.values := rfl

theorem ids_merge {c : ChatCRDT} (hlen : c.len ≤ chatMaxMessages) (other : ChatCRDT) :
    (c.merge other).1.ids = top chatMaxMessages (c.ids ∪ other.ids) := by
  rw [merge_eq_join, ids_join hlen, ids_values]

theorem merge_changed_iff {c other : ChatCRDT} :
    (c.merge other).2 = true ↔ ∃ id ∈ other.messages, id ∉ c.messages := by
  rw [merge_eq_join, join_changed_iff]
  constructor
  · rintro ⟨message, hmem, hfree⟩
    exact ⟨_, mem_of_getElem? (mem_values.mp hmem), hfree⟩
  · rintro ⟨id, hid, hfree⟩
    obtain ⟨message, hheld⟩ := exists_lookup hid
    obtain rfl := other.keyed _ _ hheld
    exact ⟨message, mem_values.mpr hheld, hfree⟩

theorem merge_unchanged {c other : ChatCRDT} (h : (c.merge other).2 = false) :
    (c.merge other).1 = c := join_unchanged h

theorem merge_lookup {c other : ChatCRDT} {id : UInt64} {message : ChatMessage}
    (h : (c.merge other).1.messages[id]? = some message) :
    c.messages[id]? = some message ∨ other.messages[id]? = some message := by
  rcases join_lookup h with hold | ⟨hmem, rfl, -⟩
  · exact Or.inl hold
  · exact Or.inr (mem_values.mp hmem)

theorem len_merge {c : ChatCRDT} (hlen : c.len ≤ chatMaxMessages) (other : ChatCRDT) :
    (c.merge other).1.len ≤ chatMaxMessages := len_join hlen other.values

/-! ## Many merges -/

def mergeAll (c : ChatCRDT) (others : List ChatCRDT) : ChatCRDT :=
  others.foldl (fun c other => (c.merge other).1) c

/-- The identifiers of all messages of some chats. -/
def allIds (chats : List ChatCRDT) : Finset Nat := (chats.map ids).foldr (· ∪ ·) ∅

theorem mem_allIds {chats : List ChatCRDT} {x : Nat} :
    x ∈ allIds chats ↔ ∃ a ∈ chats, x ∈ a.ids := by
  induction chats with
  | nil => simp [allIds]
  | cons a chats ih =>
      show x ∈ a.ids ∪ allIds chats ↔ _
      rw [Finset.mem_union, ih, List.exists_mem_cons_iff]

theorem ids_mergeAll {c : ChatCRDT} (hlen : c.len ≤ chatMaxMessages) (others : List ChatCRDT) :
    (c.mergeAll others).ids = top chatMaxMessages (allIds (c :: others)) := by
  have hfold : (c.mergeAll others).ids = (others.map ids).foldl
      (fun held added => top chatMaxMessages (held ∪ added)) c.ids := by
    induction others generalizing c with
    | nil => rfl
    | cons other others ih =>
        have hrest := ih (len_merge hlen other)
        rw [ids_merge hlen] at hrest
        exact hrest
  have hstart : top chatMaxMessages c.ids = c.ids := top_eq_self (by rwa [card_ids])
  rw [hfold, ← hstart, foldl_top]
  rfl

theorem mergeAll_lookup {c : ChatCRDT} {others : List ChatCRDT} {id : UInt64}
    {message : ChatMessage} (h : (c.mergeAll others).messages[id]? = some message) :
    ∃ a ∈ c :: others, a.messages[id]? = some message := by
  induction others generalizing c with
  | nil => exact ⟨c, List.mem_cons_self, h⟩
  | cons other others ih =>
      obtain ⟨a, ha, hlookup⟩ := ih h
      rcases List.mem_cons.mp ha with rfl | ha
      · rcases merge_lookup hlookup with hours | htheirs
        · exact ⟨c, List.mem_cons_self, hours⟩
        · exact ⟨other, by simp, htheirs⟩
      · exact ⟨a, by simp [ha], hlookup⟩

/-- Equal identifiers mean equal messages. -/
def Agree (chats : List ChatCRDT) : Prop :=
  ∀ a ∈ chats, ∀ b ∈ chats, ∀ (id : UInt64) (message message' : ChatMessage),
    a.messages[id]? = some message → b.messages[id]? = some message' → message = message'

theorem agree_iff {chats : List ChatCRDT} :
    Agree chats ↔ ∀ a ∈ chats, ∀ b ∈ chats, ∀ entry ∈ a.messages.toList,
      ∀ entry' ∈ b.messages.toList, entry.1 = entry'.1 → entry.2 = entry'.2 := by
  constructor
  · intro h a ha b hb entry hentry entry' hentry' hid
    have hlookup := ExtTreeMap.mem_toList_iff_getElem?_eq_some.mp hentry
    rw [hid] at hlookup
    exact h a ha b hb _ _ _ hlookup (ExtTreeMap.mem_toList_iff_getElem?_eq_some.mp hentry')
  · intro h a ha b hb id message message' hmessage hmessage'
    exact h a ha b hb _ (ExtTreeMap.mem_toList_iff_getElem?_eq_some.mpr hmessage) _
      (ExtTreeMap.mem_toList_iff_getElem?_eq_some.mpr hmessage') rfl

instance (chats : List ChatCRDT) : Decidable (Agree chats) := decidable_of_iff _ agree_iff.symm

/-- What a chat holds after it has merged some others. -/
theorem mergeAll_lookup_iff {c : ChatCRDT} {others : List ChatCRDT}
    (hlen : c.len ≤ chatMaxMessages) (hagree : Agree (c :: others)) (id : UInt64)
    (message : ChatMessage) :
    (c.mergeAll others).messages[id]? = some message ↔
      (∃ a ∈ c :: others, a.messages[id]? = some message) ∧
        id.toNat ∈ top chatMaxMessages (allIds (c :: others)) := by
  rw [← ids_mergeAll hlen, toNat_mem_ids]
  constructor
  · exact fun h => ⟨mergeAll_lookup h, mem_of_getElem? h⟩
  · rintro ⟨⟨a, ha, hlookup⟩, hkept⟩
    obtain ⟨message', hheld⟩ := exists_lookup hkept
    obtain ⟨b, hb, hsource⟩ := mergeAll_lookup hheld
    rwa [hagree a ha b hb id message message' hlookup hsource]

/-- Two chats that merge the same others, in any order and with repeats, end the same: with the
messages that have the greatest identifiers of all. -/
theorem mergeAll_converges (c : ChatCRDT) (xs ys : List ChatCRDT) (hlen : c.len ≤ chatMaxMessages)
    (hsame : ∀ a, a ∈ xs ↔ a ∈ ys) (hagree : Agree (c :: xs)) :
    c.mergeAll xs = c.mergeAll ys ∧
      ∀ (id : UInt64) (message : ChatMessage), (c.mergeAll xs).messages[id]? = some message ↔
        (∃ a ∈ c :: xs, a.messages[id]? = some message) ∧
          id.toNat ∈ top chatMaxMessages (allIds (c :: xs)) := by
  have hmem : ∀ a, a ∈ c :: ys ↔ a ∈ c :: xs := fun a => by
    rw [List.mem_cons, List.mem_cons, hsame]
  have hagree' : Agree (c :: ys) :=
    fun a ha b hb => hagree a ((hmem a).mp ha) b ((hmem b).mp hb)
  have hids : allIds (c :: ys) = allIds (c :: xs) := by
    ext x
    simp only [mem_allIds, hmem]
  refine ⟨?_, mergeAll_lookup_iff hlen hagree⟩
  apply ChatCRDT.ext
  apply ExtTreeMap.ext_getElem?
  intro id
  apply Option.ext
  intro message
  rw [mergeAll_lookup_iff hlen hagree, mergeAll_lookup_iff hlen hagree', hids]
  simp only [hmem]

/-- Two others, one of which holds the message of the other, in either order. -/
theorem mergeAll_two :
    let message (originNode : UInt32) : ChatMessage := { ChatMessage.default with originNode }
    let c := (new.addMessage (message 1)).1
    let x := (new.addMessage (message 2)).1
    let y := (x.addMessage (message 3)).1
    c.mergeAll [x, y] = c.mergeAll [y, x, y] := by
  intro message c x y
  exact (mergeAll_converges c [x, y] [y, x, y] (by decide) (by simp) (by decide +kernel)).1

end PeatBtle.ChatCRDT
