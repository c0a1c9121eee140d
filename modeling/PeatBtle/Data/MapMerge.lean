import Mathlib.Data.Finset.Card
import Mathlib.Data.List.Basic

/-!
# Entry-by-entry folds over finite maps

Two loops recur over ordered maps: rebuilding a map by inserting its entries,
possibly keeping only some keys, and merging one map into another by an upsert
per entry. Both are folds over an entry list with distinct keys, and both are
described by their lookups alone.
-/

namespace PeatBtle.MapMerge

open Std

variable {α β : Type} {cmp : α → α → Ordering} [TransCmp cmp] [LawfulEqCmp cmp]

/-- No two entries share a key. -/
def DistinctKeys (entries : List (α × β)) : Prop := entries.Pairwise fun a b => a.1 ≠ b.1

theorem distinctKeys_toList (m : ExtTreeMap α β cmp) : DistinctKeys m.toList := by
  refine m.distinct_keys_toList.imp ?_
  intro a b h heq
  exact h (by simp [heq])

omit [LawfulEqCmp cmp] in
theorem getElem?_empty_ne_some {k : α} {v : β} : (∅ : ExtTreeMap α β cmp)[k]? ≠ some v := by
  rw [ExtTreeMap.getElem?_empty]
  exact (Option.some_ne_none v).symm

/-! ## Lookups by key equality -/

section Lookup

variable [DecidableEq α] (m : ExtTreeMap α β cmp) (k a : α)

theorem getElem?_insert_eq (v : β) : (m.insert k v)[a]? = if k = a then some v else m[a]? := by
  simp only [ExtTreeMap.getElem?_insert, LawfulEqCmp.compare_eq_iff_eq]

theorem getElem?_alter_eq (f : Option β → Option β) :
    (m.alter k f)[a]? = if k = a then f m[k]? else m[a]? := by
  simp only [ExtTreeMap.getElem?_alter, LawfulEqCmp.compare_eq_iff_eq]

theorem getElem?_modify_eq (f : β → β) :
    (m.modify k f)[a]? = if k = a then m[k]?.map f else m[a]? := by
  simp only [ExtTreeMap.getElem?_modify, LawfulEqCmp.compare_eq_iff_eq]

theorem getElem?_erase_eq : (m.erase k)[a]? = if k = a then none else m[a]? := by
  simp only [ExtTreeMap.getElem?_erase, LawfulEqCmp.compare_eq_iff_eq]

/-- An entry after one has been modified: that one, or another as it was. -/
theorem of_getElem?_modify {f : β → β} {v : β} (h : (m.modify k f)[a]? = some v) :
    (k = a ∧ ∃ old, m[a]? = some old ∧ f old = v) ∨ (k ≠ a ∧ m[a]? = some v) := by
  rw [getElem?_modify_eq] at h
  split at h
  · rename_i heq
    obtain ⟨old, hold, hv⟩ := Option.map_eq_some_iff.mp h
    exact Or.inl ⟨heq, old, heq ▸ hold, hv⟩
  · rename_i hne
    exact Or.inr ⟨hne, h⟩

/-- A test of one entry whose outcome the change fixes. -/
theorem any_getElem?_modify (f : β → β) {test : β → Bool} {outcome : Bool}
    (hf : ∀ v, test (f v) = outcome) :
    ((m.modify k f)[a]?).any test =
      if a = k then outcome && m.contains k else (m[a]?).any test := by
  rw [getElem?_modify_eq]
  by_cases hkey : k = a
  · rw [if_pos hkey, if_pos hkey.symm, ExtTreeMap.contains_eq_isSome_getElem?]
    cases m[k]? with
    | none => rw [Option.map_none, Option.any_none, Option.isSome_none, Bool.and_false]
    | some v => rw [Option.map_some, Option.any_some, hf, Option.isSome_some, Bool.and_true]
  · rw [if_neg hkey, if_neg (Ne.symm hkey)]

end Lookup

/-! ## Folds that update one key per entry -/

section Fold

variable {step : ExtTreeMap α β cmp → α × β → ExtTreeMap α β cmp}
  {value : Option β → α → β → Option β}

/-- A step that rewrites exactly the lookup of its own key. -/
def UpdatesOwnKey (step : ExtTreeMap α β cmp → α × β → ExtTreeMap α β cmp)
    (value : Option β → α → β → Option β) : Prop :=
  ∀ m (entry : α × β) k, (step m entry)[k]? =
    if cmp entry.1 k = .eq then value m[entry.1]? entry.1 entry.2 else m[k]?

theorem getElem?_foldl_of_not_mem (hstep : UpdatesOwnKey step value) {entries : List (α × β)}
    {k : α} (hk : ∀ v, (k, v) ∉ entries) (m : ExtTreeMap α β cmp) :
    (entries.foldl step m)[k]? = m[k]? := by
  induction entries generalizing m with
  | nil => rfl
  | cons entry rest ih =>
      have hne : entry.1 ≠ k := by
        rintro rfl
        exact hk entry.2 (by simp)
      rw [List.foldl_cons, ih (fun v hv => hk v (List.mem_cons_of_mem _ hv)), hstep,
        if_neg (mt LawfulEqCmp.compare_eq_iff_eq.mp hne)]

theorem getElem?_foldl_of_mem (hstep : UpdatesOwnKey step value) {entries : List (α × β)}
    (hd : DistinctKeys entries) {k : α} {v : β} (hk : (k, v) ∈ entries)
    (m : ExtTreeMap α β cmp) : (entries.foldl step m)[k]? = value m[k]? k v := by
  induction entries generalizing m with
  | nil => simp at hk
  | cons entry rest ih =>
      obtain ⟨hhead, htail⟩ := List.pairwise_cons.mp hd
      rw [List.foldl_cons]
      rcases List.mem_cons.mp hk with rfl | hk
      · have hrest : ∀ w, (k, w) ∉ rest := fun w hw => hhead _ hw rfl
        rw [getElem?_foldl_of_not_mem hstep hrest, hstep, if_pos ReflCmp.compare_self]
      · have hne : entry.1 ≠ k := hhead _ hk
        rw [ih htail hk, hstep, if_neg (mt LawfulEqCmp.compare_eq_iff_eq.mp hne)]

/-- The lookups of a fold over all entries of a map. -/
theorem getElem?_foldl_toList (hstep : UpdatesOwnKey step value)
    (other m : ExtTreeMap α β cmp) (k : α) :
    (other.toList.foldl step m)[k]? =
      match other[k]? with
      | none => m[k]?
      | some v => value m[k]? k v := by
  cases hk : other[k]? with
  | none =>
      apply getElem?_foldl_of_not_mem hstep
      intro v hv
      rw [ExtTreeMap.mem_toList_iff_getElem?_eq_some, hk] at hv
      cases hv
  | some v =>
      exact getElem?_foldl_of_mem hstep (distinctKeys_toList other)
        (ExtTreeMap.mem_toList_iff_getElem?_eq_some.mpr hk) m

end Fold

/-! ## Rebuilding a map -/

/-- Insert an entry unless its key is refused. -/
def insertIf (keep : α → Bool) (m : ExtTreeMap α β cmp) (entry : α × β) : ExtTreeMap α β cmp :=
  if keep entry.1 then m.insert entry.1 entry.2 else m

theorem insertIf_updates (keep : α → Bool) :
    UpdatesOwnKey (insertIf keep : ExtTreeMap α β cmp → α × β → ExtTreeMap α β cmp)
      fun old k v => if keep k then some v else old := by
  intro m entry k
  unfold insertIf
  by_cases hkeep : keep entry.1
  · simp [hkeep, ExtTreeMap.getElem?_insert]
  · by_cases hk : entry.1 = k
    · subst hk
      simp [hkeep]
    · simp [hkeep, hk]

/-- Keep the entries whose key is not refused. -/
theorem foldl_insertIf_toList (keep : α → Bool) (m : ExtTreeMap α β cmp) :
    m.toList.foldl (insertIf keep) ∅ = m.filter fun k _ => keep k := by
  apply ExtTreeMap.ext_getElem?
  intro k
  rw [getElem?_foldl_toList (insertIf_updates keep), ExtTreeMap.getElem?_filter']
  cases m[k]? <;> simp [Option.filter]

theorem filter_eq_self {keep : α → Bool} {m : ExtTreeMap α β cmp}
    (h : ∀ k ∈ m, keep k = true) : m.filter (fun k _ => keep k) = m := by
  apply ExtTreeMap.ext_getElem?
  intro k
  rw [ExtTreeMap.getElem?_filter']
  cases hk : m[k]? with
  | none => rfl
  | some v =>
      have hmem : k ∈ m := by simp [ExtTreeMap.mem_iff_isSome_getElem?, hk]
      simp [Option.filter, h k hmem]

/-- A map is rebuilt from its entries in whatever order they are listed. -/
theorem ofList_of_perm {entries : List (α × β)} {m : ExtTreeMap α β cmp}
    (h : entries.Perm m.toList) : ExtTreeMap.ofList entries cmp = m := by
  have hdistinct : entries.Pairwise fun a b => ¬ cmp a.1 b.1 = .eq :=
    h.symm.pairwise m.distinct_keys_toList fun hne heq =>
      hne (OrientedCmp.eq_symm heq)
  refine ExtTreeMap.ext_getElem? fun k => ?_
  cases hk : m[k]? with
  | some v =>
      refine ExtTreeMap.getElem?_ofList_of_mem ReflCmp.compare_self hdistinct ?_
      exact h.mem_iff.mpr (ExtTreeMap.mem_toList_iff_getElem?_eq_some.mpr hk)
  | none =>
      classical
      refine ExtTreeMap.getElem?_ofList_of_contains_eq_false ?_
      rw [List.contains_eq_mem, decide_eq_false_iff_not, List.mem_map]
      rintro ⟨entry, hentry, rfl⟩
      have hsome := ExtTreeMap.mem_toList_iff_getElem?_eq_some.mp (h.mem_iff.mp hentry)
      rw [hk] at hsome
      cases hsome

theorem mem_of_getElem?_insertMany {entries : List (α × β)} {m : ExtTreeMap α β cmp} {k : α}
    {v : β} (h : (m.insertMany entries)[k]? = some v) : m[k]? = some v ∨ (k, v) ∈ entries := by
  induction entries generalizing m with
  | nil => exact Or.inl h
  | cons entry entries ih =>
      rw [ExtTreeMap.insertMany_cons] at h
      rcases ih h with hold | hlater
      · rw [ExtTreeMap.getElem?_insert] at hold
        split at hold
        · rename_i hkey
          obtain rfl := LawfulEqCmp.compare_eq_iff_eq.mp hkey
          rw [← Option.some.inj hold]
          exact Or.inr (List.mem_cons_self ..)
        · exact Or.inl hold
      · exact Or.inr (List.mem_cons_of_mem _ hlater)

theorem mem_of_getElem?_ofList {entries : List (α × β)} {k : α} {v : β}
    (h : (ExtTreeMap.ofList entries cmp)[k]? = some v) : (k, v) ∈ entries := by
  rw [ExtTreeMap.ofList_eq_insertMany_empty] at h
  rcases mem_of_getElem?_insertMany h with hnone | hmem
  · exact absurd hnone getElem?_empty_ne_some
  · exact hmem

/-! ## Merging by upserts -/

/-- `*m.entry(k).or_insert(d) = f old v`. -/
def upsert (d : β) (f : β → β → β) (m : ExtTreeMap α β cmp) (entry : α × β) :
    ExtTreeMap α β cmp :=
  m.alter entry.1 fun old => some (f (old.getD d) entry.2)

omit [LawfulEqCmp cmp] in
theorem upsert_updates (d : β) (f : β → β → β) :
    UpdatesOwnKey (upsert d f : ExtTreeMap α β cmp → α × β → ExtTreeMap α β cmp)
      fun old _ v => some (f (old.getD d) v) := by
  intro m entry k
  simp only [upsert, ExtTreeMap.getElem?_alter]

/-- Upsert every entry of `other`. -/
def mergeWith (d : β) (f : β → β → β) (m other : ExtTreeMap α β cmp) : ExtTreeMap α β cmp :=
  other.toList.foldl (upsert d f) m

theorem getElem?_mergeWith (d : β) (f : β → β → β) (m other : ExtTreeMap α β cmp) (k : α) :
    (mergeWith d f m other)[k]? =
      match other[k]? with
      | none => m[k]?
      | some v => some (f (m[k]?.getD d) v) :=
  getElem?_foldl_toList (upsert_updates d f) other m k

/-- A merge changes nothing exactly when every entry merged in is absorbed by its own. -/
theorem mergeWith_eq_self_iff {d : β} {f : β → β → β} {m other : ExtTreeMap α β cmp} :
    mergeWith d f m other = m ↔
      ∀ (k : α) (v : β), other[k]? = some v → ∃ u, m[k]? = some u ∧ f u v = u := by
  constructor
  · intro h k v hv
    have hk : (mergeWith d f m other)[k]? = m[k]? := by rw [h]
    rw [getElem?_mergeWith, hv] at hk
    cases hm : m[k]? with
    | none =>
        rw [hm] at hk
        cases hk
    | some u =>
        rw [hm] at hk
        exact ⟨u, rfl, Option.some.inj hk⟩
  · intro h
    apply ExtTreeMap.ext_getElem?
    intro k
    rw [getElem?_mergeWith]
    cases hv : other[k]? with
    | none => rfl
    | some v =>
        obtain ⟨u, hu, habsorb⟩ := h k v hv
        rw [hu]
        exact congrArg some habsorb

theorem insert_eq_self_iff [DecidableEq α] {m : ExtTreeMap α β cmp} {k : α} {v : β} :
    m.insert k v = m ↔ m[k]? = some v := by
  constructor
  · intro h
    have hk := getElem?_insert_eq m k k v
    rwa [h, if_pos rfl] at hk
  · intro h
    apply ExtTreeMap.ext_getElem?
    intro a
    rw [getElem?_insert_eq]
    by_cases ha : k = a
    · rw [if_pos ha, ← ha, h]
    · rw [if_neg ha]

/-! ## Keys and sizes -/

omit [LawfulEqCmp cmp] in
theorem mem_of_getElem? {m : ExtTreeMap α β cmp} {k : α} {v : β} (h : m[k]? = some v) : k ∈ m := by
  rw [ExtTreeMap.mem_iff_isSome_getElem?, h, Option.isSome_some]

theorem exists_of_isEmpty_eq_false {m : ExtTreeMap α β cmp} (h : ¬ m.isEmpty = true) :
    ∃ (k : α) (v : β), m[k]? = some v := by
  by_contra hnone
  refine h (ExtTreeMap.isEmpty_iff.mpr (ExtTreeMap.ext_getElem? fun k => ?_))
  rw [ExtTreeMap.getElem?_empty]
  cases hk : m[k]? with
  | none => rfl
  | some v => exact absurd ⟨k, v, hk⟩ hnone

omit [LawfulEqCmp cmp] in
theorem size_erase_of_getElem? {m : ExtTreeMap α β cmp} {k : α} {v : β} (h : m[k]? = some v) :
    (m.erase k).size + 1 = m.size := by
  have hmem := ExtTreeMap.contains_iff_mem.mpr (mem_of_getElem? h)
  have hpos := ExtTreeMap.size_le_size_erase (t := m) (k := k)
  have hsize : (m.erase k).size = m.size - 1 := by rw [ExtTreeMap.size_erase, if_pos hmem]
  have hne : m.size ≠ 0 := by
    intro hzero
    rw [ExtTreeMap.eq_empty_iff_size_eq_zero.mpr hzero] at h
    exact getElem?_empty_ne_some h
  omega

/-- Nothing has gone if none of the entries is refused. -/
theorem filter_eq_self_iff {keep : α → β → Bool} {m : ExtTreeMap α β cmp} :
    m.filter keep = m ↔ ∀ (k : α) (v : β), m[k]? = some v → keep k v = true := by
  constructor
  · intro h k v hv
    rw [← h, ExtTreeMap.getElem?_filter'] at hv
    exact (Option.filter_eq_some_iff.mp hv).2
  · intro h
    apply ExtTreeMap.ext_getElem?
    intro k
    rw [ExtTreeMap.getElem?_filter']
    cases hv : m[k]? with
    | none => rfl
    | some v => exact Option.filter_eq_some_iff.mpr ⟨rfl, h k v hv⟩

omit [LawfulEqCmp cmp] in
theorem size_filter_eq_size_iff {keep : α → β → Bool} {m : ExtTreeMap α β cmp} :
    (m.filter keep).size = m.size ↔ m.filter keep = m := by
  rw [ExtTreeMap.size_filter_eq_size_iff, ExtTreeMap.filter_eq_self_iff]

section Keys

variable (d : β) (f : β → β → β) (m other : ExtTreeMap α β cmp)

theorem mem_upsert {entry : α × β} {k : α} : k ∈ upsert d f m entry ↔ k = entry.1 ∨ k ∈ m := by
  rw [upsert, ExtTreeMap.mem_alter]
  by_cases hkey : k = entry.1
  · simp [hkey]
  · simp [hkey, Ne.symm hkey]

omit [LawfulEqCmp cmp] in
theorem size_upsert (entry : α × β) :
    (upsert d f m entry).size = if entry.1 ∈ m then m.size else m.size + 1 := by
  by_cases hmem : entry.1 ∈ m
  · rw [if_pos hmem, upsert, ExtTreeMap.size_alter_eq_self_of_mem hmem rfl]
  · rw [if_neg hmem, upsert, ExtTreeMap.size_alter_eq_add_one hmem rfl]

theorem mem_mergeWith {k : α} : k ∈ mergeWith d f m other ↔ k ∈ m ∨ k ∈ other := by
  rw [ExtTreeMap.mem_iff_isSome_getElem?, ExtTreeMap.mem_iff_isSome_getElem?,
    ExtTreeMap.mem_iff_isSome_getElem?, getElem?_mergeWith]
  cases other[k]? <;> simp

omit [LawfulEqCmp cmp] in
theorem size_le_card [DecidableEq α] {m : ExtTreeMap α β cmp} {keys : Finset α}
    (h : ∀ k ∈ m, k ∈ keys) : m.size ≤ keys.card := by
  have hsubset : m.keys.toFinset ⊆ keys := by
    intro k hk
    exact h k (ExtTreeMap.mem_of_mem_keys (List.mem_toFinset.mp hk))
  have hcard := Finset.card_le_card hsubset
  rwa [List.toFinset_card_of_nodup ExtTreeMap.nodup_keys, ExtTreeMap.length_keys] at hcard

/-- A merge adds the keys that are new, each once. -/
theorem size_mergeWith :
    (mergeWith d f m other).size =
      m.size + (other.toList.filter fun entry => decide (entry.1 ∉ m)).length := by
  unfold mergeWith
  have hdistinct := distinctKeys_toList other
  generalize other.toList = entries at hdistinct ⊢
  induction entries generalizing m with
  | nil => rfl
  | cons entry rest ih =>
      obtain ⟨hhead, htail⟩ := List.pairwise_cons.mp hdistinct
      have hsame : rest.filter (fun e => decide (e.1 ∉ upsert d f m entry)) =
          rest.filter fun e => decide (e.1 ∉ m) := by
        apply List.filter_congr
        intro e he
        have hne : e.1 ≠ entry.1 := (hhead e he).symm
        simp [mem_upsert, hne]
      rw [List.foldl_cons, ih _ htail, hsame, size_upsert, List.filter_cons]
      by_cases hmem : entry.1 ∈ m
      · simp [hmem]
      · simp only [hmem, if_false, not_false_eq_true, decide_true, if_true, List.length_cons]
        omega

end Keys

/-! ## Semilattice merges -/

section Semilattice

variable {d : β} {f : β → β → β}

structure IsJoin (f : β → β → β) : Prop where
  comm : ∀ a b, f a b = f b a
  assoc : ∀ a b c, f (f a b) c = f a (f b c)
  idem : ∀ a, f a a = a

theorem mergeWith_right_comm (h : IsJoin f) (m x y : ExtTreeMap α β cmp) :
    mergeWith d f (mergeWith d f m x) y = mergeWith d f (mergeWith d f m y) x := by
  apply ExtTreeMap.ext_getElem?
  intro k
  simp only [getElem?_mergeWith]
  cases x[k]? with
  | none => rfl
  | some v =>
      cases y[k]? with
      | none => rfl
      | some w => simp only [Option.getD_some, h.assoc, h.comm v w]

theorem mergeWith_absorb (h : IsJoin f) (m x : ExtTreeMap α β cmp) :
    mergeWith d f (mergeWith d f m x) x = mergeWith d f m x := by
  apply ExtTreeMap.ext_getElem?
  intro k
  simp only [getElem?_mergeWith]
  cases x[k]? with
  | none => rfl
  | some v => simp only [Option.getD_some, h.assoc, h.idem]

end Semilattice

end PeatBtle.MapMerge
