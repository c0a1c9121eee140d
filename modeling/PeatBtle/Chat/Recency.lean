import PeatBtle.Chat.Convergence
import PeatBtle.Chat.Identity
import PeatBtle.Data.LoggedRun

/-!
# What a chat prunes and sends along

Both go by the identifier, which puts the origin above the low half of the timestamp.
A message of a node with a small number is therefore pruned before, and sent after, the
messages of all nodes with greater numbers, no matter how recent it is.
-/

namespace PeatBtle

open TopK

/-! ## The order of identifiers -/

namespace ChatMessage

/-- Of two messages the one with the smaller origin is behind, and of one origin the one with the
smaller low half of the timestamp. -/
def Behind (x y : ChatMessage) : Prop :=
  x.originNode < y.originNode ∨
    x.originNode = y.originNode ∧ x.timestamp.toNat % 2 ^ 32 < y.timestamp.toNat % 2 ^ 32

instance (x y : ChatMessage) : Decidable (x.Behind y) := inferInstanceAs (Decidable (_ ∨ _))

/-- The identifier as a number. -/
def key (m : ChatMessage) : Nat := m.messageId.toNat

theorem key_lt_key_iff {x y : ChatMessage} : x.key < y.key ↔ x.Behind y := by
  rw [key, key, messageId, messageId, toNat_idOf, toNat_idOf, Behind, UInt32.lt_iff_toNat_lt,
    ← UInt32.toNat_inj]
  omega

/-- The messages of some that a message is behind. -/
def ahead (s : Finset ChatMessage) (x : ChatMessage) : Finset ChatMessage := s.filter (x.Behind ·)

/-- The messages of some that are more recent. -/
def newer (s : Finset ChatMessage) (x : ChatMessage) : Finset ChatMessage :=
  s.filter (x.timestamp < ·.timestamp)

theorem ahead_eq (s : Finset ChatMessage) (x : ChatMessage) :
    ahead s x = s.filter (x.key < key ·) := by
  refine Finset.filter_congr fun y _ => ?_
  exact key_lt_key_iff.symm

end ChatMessage

open ChatMessage

/-! ## What a chat holds -/

namespace ChatCRDT

def contents (c : ChatCRDT) : Finset ChatMessage := c.values.toFinset

theorem mem_contents {c : ChatCRDT} {m : ChatMessage} :
    m ∈ c.contents ↔ c.messages[m.messageId]? = some m := by
  rw [contents, List.mem_toFinset, mem_values]

theorem contents_injOn (c : ChatCRDT) : Set.InjOn key c.contents := by
  intro x hx y hy hkey
  have hx' := mem_contents.mp hx
  rw [UInt64.toNat_inj.mp hkey, mem_contents.mp hy] at hx'
  exact (Option.some.inj hx').symm

theorem image_contents (c : ChatCRDT) : c.contents.image key = c.ids := by
  rw [← ids_values]
  ext x
  simp only [contents, Finset.mem_image, List.mem_toFinset, List.mem_map]
  rfl

theorem card_contents (c : ChatCRDT) : c.contents.card = c.len := by
  rw [← Finset.card_image_of_injOn c.contents_injOn, image_contents, card_ids]

end ChatCRDT

/-! ## Adding and merging -/

/-- A message, or a chat that was received. -/
inductive ChatAction where
  | add (message : ChatMessage)
  | merge (other : ChatCRDT)

namespace ChatAction

def offered : ChatAction → List ChatMessage
  | add message => [message]
  | merge other => other.values

theorem offered_injOn (a : ChatAction) : Set.InjOn key {m | m ∈ a.offered} := by
  intro x hx y hy hkey
  cases a with
  | add message =>
      rw [List.mem_singleton.mp hx, List.mem_singleton.mp hy]
  | merge other =>
      exact other.contents_injOn (List.mem_toFinset.mpr hx) (List.mem_toFinset.mpr hy) hkey

end ChatAction

namespace ChatCRDT

def act (c : ChatCRDT) : ChatAction → ChatCRDT
  | .add message => (c.addMessage message).1
  | .merge other => (c.merge other).1

theorem act_eq_join (c : ChatCRDT) (a : ChatAction) : c.act a = (c.join a.offered).1 := by
  cases a with
  | add message => exact congrArg Prod.fst (c.addMessage_eq_join message)
  | merge other => rfl

theorem len_act {c : ChatCRDT} (hlen : c.len ≤ chatMaxMessages) (a : ChatAction) :
    (c.act a).len ≤ chatMaxMessages := by
  rw [act_eq_join]
  exact len_join hlen a.offered

/-- The messages before any is pruned: those of the chat and the offered ones that are new. -/
def gathered (c : ChatCRDT) (a : ChatAction) : Finset ChatMessage :=
  c.contents ∪ (a.offered.filter fun m => !c.messages.contains m.messageId).toFinset

theorem mem_gathered {c : ChatCRDT} {a : ChatAction} {m : ChatMessage} :
    m ∈ c.gathered a ↔ m ∈ c.contents ∨ m ∈ a.offered ∧ m.messageId ∉ c.messages := by
  rw [gathered, Finset.mem_union, List.mem_toFinset, List.mem_filter, Bool.not_eq_true',
    ← Bool.not_eq_true, Std.ExtTreeMap.contains_iff_mem]

theorem gathered_injOn (c : ChatCRDT) (a : ChatAction) : Set.InjOn key (c.gathered a) := by
  intro x hx y hy hkey
  have hid : x.messageId = y.messageId := UInt64.toNat_inj.mp hkey
  have hheld {m : ChatMessage} (hm : m ∈ c.contents) : m.messageId ∈ c.messages :=
    MapMerge.mem_of_getElem? (mem_contents.mp hm)
  rcases mem_gathered.mp hx with hx | ⟨hx, hfreex⟩
  · rcases mem_gathered.mp hy with hy | ⟨hy, hfreey⟩
    · exact c.contents_injOn hx hy hkey
    · rw [← hid] at hfreey
      exact absurd (hheld hx) hfreey
  · rcases mem_gathered.mp hy with hy | ⟨hy, hfreey⟩
    · rw [hid] at hfreex
      exact absurd (hheld hy) hfreex
    · exact a.offered_injOn hx hy hkey

theorem image_gathered (c : ChatCRDT) (a : ChatAction) :
    (c.gathered a).image key = c.ids ∪ (a.offered.map key).toFinset := by
  ext x
  rw [Finset.mem_image, Finset.mem_union, List.mem_toFinset, List.mem_map, ← image_contents,
    Finset.mem_image]
  constructor
  · rintro ⟨m, hm, rfl⟩
    rcases mem_gathered.mp hm with hm | ⟨hm, -⟩
    · exact Or.inl ⟨m, hm, rfl⟩
    · exact Or.inr ⟨m, hm, rfl⟩
  · rintro (⟨m, hm, rfl⟩ | ⟨m, hm, rfl⟩)
    · exact ⟨m, mem_gathered.mpr (Or.inl hm), rfl⟩
    · by_cases hheld : m.messageId ∈ c.messages
      · obtain ⟨found, hfound⟩ := exists_lookup hheld
        have hid := c.keyed _ _ hfound
        rw [← hid] at hfound
        refine ⟨found, mem_gathered.mpr (Or.inl (mem_contents.mpr hfound)), ?_⟩
        rw [key, key, hid]
      · exact ⟨m, mem_gathered.mpr (Or.inr ⟨hm, hheld⟩), rfl⟩

/-- Of all messages those stay that fewer than 32 are ahead of. -/
theorem contents_act {c : ChatCRDT} (hlen : c.len ≤ chatMaxMessages) (a : ChatAction) :
    (c.act a).contents = topBy chatMaxMessages key (c.gathered a) := by
  have hids : (c.act a).ids = top chatMaxMessages ((c.gathered a).image key) := by
    rw [act_eq_join, ids_join hlen, image_gathered]
    rfl
  have hsource : (c.act a).contents ⊆ c.gathered a := by
    intro m hm
    have hlookup := mem_contents.mp hm
    rw [act_eq_join] at hlookup
    rcases join_lookup hlookup with hold | ⟨hoffered, -, hfree⟩
    · exact mem_gathered.mpr (Or.inl (mem_contents.mpr hold))
    · exact mem_gathered.mpr (Or.inr ⟨hoffered, hfree⟩)
  -- No two gathered messages share an identifier, so the kept identifiers tell who is kept.
  ext m
  constructor
  · intro hm
    refine (key_mem_top_iff (c.gathered_injOn a) (hsource hm)).mp ?_
    rw [← hids, ← image_contents]
    exact Finset.mem_image_of_mem key hm
  · intro hm
    have hmem := (mem_topBy.mp hm).1
    have hkey := (key_mem_top_iff (c.gathered_injOn a) hmem).mpr hm
    rw [← hids, ← image_contents] at hkey
    obtain ⟨found, hfound, hsame⟩ := Finset.mem_image.mp hkey
    rwa [← c.gathered_injOn a (hsource hfound) hmem hsame]

/-! ## What is sent along -/

theorem values_ordered (c : ChatCRDT) : c.values.Pairwise fun a b => a.key < b.key := by
  have hordered : c.messages.toList.Pairwise fun a b => a.2.key < b.2.key := by
    refine Std.ExtTreeMap.ordered_keys_toList.imp_of_mem fun {a b} ha hb hlt => ?_
    have hida := c.keyed _ _ (Std.ExtTreeMap.mem_toList_iff_getElem?_eq_some.mp ha)
    have hidb := c.keyed _ _ (Std.ExtTreeMap.mem_toList_iff_getElem?_eq_some.mp hb)
    rw [key, key, hida, hidb]
    exact UInt64.lt_iff_toNat_lt.mp (Std.compare_eq_lt.mp hlt)
  exact List.pairwise_map.mpr hordered

theorem mem_take_values {c : ChatCRDT} {m : ChatMessage} {k : Nat} :
    m ∈ c.values.reverse.take k ↔ (m.messageId, m) ∈ c.messages.toList.reverse.take k := by
  rw [values, ← List.map_reverse, ← List.map_take, List.mem_map]
  constructor
  · rintro ⟨⟨id, found⟩, hentry, rfl⟩
    have hmem := List.mem_reverse.mp (List.mem_of_mem_take hentry)
    rwa [c.keyed _ _ (Std.ExtTreeMap.mem_toList_iff_getElem?_eq_some.mp hmem)]
  · exact fun h => ⟨_, h, rfl⟩

theorem mem_contents_forSync {c : ChatCRDT} (hmore : ¬ c.len ≤ chatSyncLimit) {m : ChatMessage} :
    m ∈ c.forSync.contents ↔ m ∈ c.values.reverse.take chatSyncLimit := by
  have hdistinct : (c.messages.toList.reverse.take chatSyncLimit).Pairwise
      fun a b => ¬ compare a.1 b.1 = .eq := by
    refine List.Pairwise.take (List.pairwise_reverse.mpr ?_)
    exact Std.ExtTreeMap.distinct_keys_toList.imp fun hne heq => hne (Std.OrientedCmp.eq_symm heq)
  rw [mem_contents, mem_take_values, forSync, if_neg hmore]
  constructor
  · exact MapMerge.mem_of_getElem?_ofList
  · exact Std.ExtTreeMap.getElem?_ofList_of_mem Std.ReflCmp.compare_self hdistinct

/-- Of the messages those are sent along that fewer than 8 are ahead of. -/
theorem contents_forSync (c : ChatCRDT) :
    c.forSync.contents = topBy chatSyncLimit key c.contents := by
  by_cases hfew : c.len ≤ chatSyncLimit
  · rw [forSync, if_pos hfew]
    symm
    refine Finset.eq_of_subset_of_card_le (Finset.filter_subset _ _) ?_
    rw [card_topBy c.contents_injOn, card_contents]
    omega
  · have hfalling : c.values.reverse.Pairwise fun a b => b.key < a.key :=
      List.pairwise_reverse.mpr c.values_ordered
    ext m
    rw [mem_contents_forSync hfew, mem_take_iff hfalling, List.toFinset_reverse, contents]

/-! ## Recency -/

/-- A message is pruned only if 32 messages stay that are no older. -/
def PrunesOldest (c : ChatCRDT) (a : ChatAction) : Prop :=
  ∀ m ∈ c.gathered a, m ∉ (c.act a).contents →
    chatMaxMessages ≤ ((c.act a).contents.filter (m.timestamp ≤ ·.timestamp)).card

/-- A message is sent along only if fewer than 8 messages are more recent. -/
def SyncsNewest (c : ChatCRDT) : Prop :=
  ∀ m ∈ c.forSync.contents, (newer c.contents m).card < chatSyncLimit

end ChatCRDT

/-- A message that at least `k` messages are ahead of is no more recent than one that fewer are
ahead of. -/
def TimeFollowsRank (k : Nat) (s : Finset ChatMessage) : Prop :=
  ∀ x ∈ s, k ≤ (ahead s x).card → ∀ y ∈ s, (ahead s y).card < k → x.timestamp ≤ y.timestamp

instance (k : Nat) (s : Finset ChatMessage) : Decidable (TimeFollowsRank k s) :=
  inferInstanceAs (Decidable (∀ _ ∈ _, _ → ∀ _ ∈ _, _ → _))

/-- Where fewer than `k` messages are ahead of one, fewer than `k` are more recent. -/
def FewNewer (k : Nat) (s : Finset ChatMessage) : Prop :=
  ∀ x ∈ s, (ahead s x).card < k → (newer s x).card < k

instance (k : Nat) (s : Finset ChatMessage) : Decidable (FewNewer k s) :=
  inferInstanceAs (Decidable (∀ _ ∈ _, _ → _))

namespace ChatCRDT

theorem prunesOldest_iff {c : ChatCRDT} (hlen : c.len ≤ chatMaxMessages) (a : ChatAction) :
    c.PrunesOldest a ↔ TimeFollowsRank chatMaxMessages (c.gathered a) := by
  unfold PrunesOldest TimeFollowsRank
  simp only [contents_act hlen, ahead_eq]
  exact left_out_iff (c.gathered_injOn a)

theorem syncsNewest_iff (c : ChatCRDT) : c.SyncsNewest ↔ FewNewer chatSyncLimit c.contents := by
  unfold SyncsNewest FewNewer
  simp only [contents_forSync, mem_topBy, ahead_eq, and_imp]

/-- In a run only the oldest messages are pruned and only the most recent are sent along exactly if
the order of the identifiers agrees with that of the timestamps wherever something is cut off. -/
theorem recency_iff (actions : List ChatAction) :
    LoggedRun.Along act PrunesOldest new actions ∧
        (∀ front, front <+: actions → (LoggedRun.run act new front).SyncsNewest) ↔
      LoggedRun.Along act (fun c a => TimeFollowsRank chatMaxMessages (c.gathered a)) new actions ∧
        ∀ front, front <+: actions →
          FewNewer chatSyncLimit (LoggedRun.run act new front).contents := by
  have hstart : new.len ≤ chatMaxMessages := by decide
  have hpruned := @LoggedRun.along_congr _ _ act (fun c => c.len ≤ chatMaxMessages) PrunesOldest
    (fun c a => TimeFollowsRank chatMaxMessages (c.gathered a)) new actions hstart
    (fun _ a h => len_act h a) fun _ a h => prunesOldest_iff h a
  simp only [hpruned, syncsNewest_iff]

/-- One message each millisecond from node 2. -/
def flood (n : Nat) : List ChatAction :=
  (List.range n).map fun i =>
    .add (ChatMessage.new 2 (1700000000000 + UInt64.ofNat i) "BRAVO" "")

def callForHelp : ChatMessage := ChatMessage.new 1 1700000001000 "ALPHA" "help"

/-- The most recent message is pruned at once, and a chat of nine does not send it along. -/
theorem call_for_help_lost :
    ¬ LoggedRun.Along act PrunesOldest new (flood 32 ++ [.add callForHelp]) ∧
      ¬ (LoggedRun.run act new (flood 8 ++ [.add callForHelp])).SyncsNewest := by
  constructor
  · intro h
    have hlen : (LoggedRun.run act new (flood 32)).len ≤ chatMaxMessages := by decide +kernel
    have hlast := (prunesOldest_iff hlen _).mp (LoggedRun.along_append.mp h).2.1
    revert hlast
    decide +kernel
  · rw [syncsNewest_iff]
    decide +kernel

end ChatCRDT

end PeatBtle
