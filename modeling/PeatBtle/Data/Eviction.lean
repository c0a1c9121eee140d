import PeatBtle.Data.MapMerge

/-!
# Cutting a map back

The entries of a map are listed in some order, and the first few of the list are
erased. What was erased stands before what is left.
-/

namespace PeatBtle.Eviction

open Std

variable {α β : Type} [DecidableEq α] {cmp : α → α → Ordering} [TransCmp cmp] [LawfulEqCmp cmp]

def eraseAll (keys : List α) (m : ExtTreeMap α β cmp) : ExtTreeMap α β cmp :=
  keys.foldl (fun m k => m.erase k) m

variable {m : ExtTreeMap α β cmp} {keys : List α} {k k' : α} {v v' : β}

theorem getElem?_eraseAll (keys : List α) (m : ExtTreeMap α β cmp) (k : α) :
    (eraseAll keys m)[k]? = if k ∈ keys then none else m[k]? := by
  induction keys generalizing m with
  | nil => simp [eraseAll]
  | cons key keys ih =>
      show (eraseAll keys (m.erase key))[k]? = _
      rw [ih, MapMerge.getElem?_erase_eq]
      by_cases hkey : key = k
      · simp [hkey]
      · simp [hkey, Ne.symm hkey]

theorem getElem?_eraseAll_eq_some :
    (eraseAll keys m)[k]? = some v ↔ k ∉ keys ∧ m[k]? = some v := by
  rw [getElem?_eraseAll]
  split <;> simp_all

section Cut

variable {entries : List (α × β)} {n : Nat}

/-- What is left stands behind the part that was erased. -/
theorem mem_drop_of_left (hlisted : entries.Perm m.toList)
    (h : (eraseAll ((entries.take n).map Prod.fst) m)[k]? = some v) :
    (k, v) ∈ entries.drop n := by
  obtain ⟨hnot, hold⟩ := getElem?_eraseAll_eq_some.mp h
  have hmem := hlisted.mem_iff.mpr (ExtTreeMap.mem_toList_iff_getElem?_eq_some.mpr hold)
  rw [← List.take_append_drop n entries, List.mem_append] at hmem
  exact hmem.resolve_left fun htaken => hnot (List.mem_map_of_mem htaken)

theorem mem_take_of_erased (hlisted : entries.Perm m.toList) (hold : m[k]? = some v)
    (h : (eraseAll ((entries.take n).map Prod.fst) m)[k]? = none) :
    (k, v) ∈ entries.take n := by
  have hin : k ∈ (entries.take n).map Prod.fst := by
    by_contra hnot
    rw [getElem?_eraseAll, if_neg hnot, hold] at h
    cases h
  obtain ⟨⟨key, w⟩, htaken, rfl⟩ := List.mem_map.mp hin
  have hw := ExtTreeMap.mem_toList_iff_getElem?_eq_some.mp
    (hlisted.mem_iff.mp (List.mem_of_mem_take htaken))
  rw [hold] at hw
  rwa [Option.some.inj hw]

theorem size_eraseAll_take_le (hlisted : entries.Perm m.toList) :
    (eraseAll ((entries.take n).map Prod.fst) m).size ≤ m.size - n := by
  have hkeys : ∀ k ∈ eraseAll ((entries.take n).map Prod.fst) m,
      k ∈ ((entries.drop n).map Prod.fst).toFinset := by
    intro k hk
    obtain ⟨v, hv⟩ := Option.isSome_iff_exists.mp (ExtTreeMap.mem_iff_isSome_getElem?.mp hk)
    exact List.mem_toFinset.mpr (List.mem_map_of_mem (mem_drop_of_left hlisted hv))
  have hcard := List.toFinset_card_le ((entries.drop n).map Prod.fst)
  rw [List.length_map, List.length_drop, hlisted.length_eq, ExtTreeMap.length_toList] at hcard
  exact (MapMerge.size_le_card hkeys).trans hcard

/-- In the order of the list, what was erased comes before what is left. -/
theorem erased_before_left {Before : α × β → α × β → Prop} (hlisted : entries.Perm m.toList)
    (hsorted : entries.Pairwise Before) (hold : m[k]? = some v)
    (herased : (eraseAll ((entries.take n).map Prod.fst) m)[k]? = none)
    (hleft : (eraseAll ((entries.take n).map Prod.fst) m)[k']? = some v') :
    Before (k, v) (k', v') := by
  rw [← List.take_append_drop n entries, List.pairwise_append] at hsorted
  exact hsorted.2.2 _ (mem_take_of_erased hlisted hold herased) _ (mem_drop_of_left hlisted hleft)

end Cut

end PeatBtle.Eviction
