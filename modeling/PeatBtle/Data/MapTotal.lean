import Mathlib.Algebra.BigOperators.Group.Finset.Basic
import Mathlib.Algebra.GroupWithZero.Nat
import Mathlib.Algebra.Order.BigOperators.Group.Finset
import PeatBtle.Data.MapMerge

/-!
# Totals of a map

The sum of the weights of all entries, as a sum over any set of keys that holds
those of the map. Where a map takes the larger of two weights at every key, its
total is that of the first and what the second has in excess.
-/

namespace PeatBtle.MapTotal

open Std

variable {α β : Type} {cmp : α → α → Ordering} [TransCmp cmp]

def total (weight : β → Nat) (m : ExtTreeMap α β cmp) : Nat :=
  (m.toList.map fun entry => weight entry.2).sum

/-- The weight under a key; none for a missing one. -/
def weightAt (weight : β → Nat) (m : ExtTreeMap α β cmp) (k : α) : Nat := m[k]?.elim 0 weight

/-- What the entries of `other` weigh in excess of those of `m`. -/
def excess [DecidableEq α] (weight : β → Nat) (m other : ExtTreeMap α β cmp) : Nat :=
  ∑ k ∈ other.keys.toFinset, (weightAt weight other k - weightAt weight m k)

variable [LawfulEqCmp cmp] [DecidableEq α] {weight : β → Nat} {m other : ExtTreeMap α β cmp}

theorem mem_of_weightAt_pos {k : α} (h : 0 < weightAt weight m k) : k ∈ m.keys.toFinset := by
  rw [List.mem_toFinset, ExtTreeMap.mem_keys, ExtTreeMap.mem_iff_isSome_getElem?]
  unfold weightAt at h
  cases hk : m[k]? with
  | none =>
      rw [hk] at h
      exact absurd h (Nat.lt_irrefl 0)
  | some v => rfl

theorem total_eq_sum (weight : β → Nat) {keys : Finset α}
    (h : m.keys.toFinset ⊆ keys) : total weight m = ∑ k ∈ keys, weightAt weight m k := by
  have hown : total weight m = ∑ k ∈ m.keys.toFinset, weightAt weight m k := by
    rw [List.sum_toFinset _ ExtTreeMap.nodup_keys, total, ← ExtTreeMap.map_fst_toList_eq_keys,
      List.map_map]
    refine congrArg List.sum (List.map_congr_left fun entry hentry => ?_)
    show _ = weightAt weight m entry.1
    rw [weightAt, ExtTreeMap.mem_toList_iff_getElem?_eq_some.mp hentry]
    rfl
  rw [hown]
  refine Finset.sum_subset h fun k _ hk => ?_
  by_contra hne
  exact hk (mem_of_weightAt_pos (Nat.pos_of_ne_zero hne))

/-- The larger weight at every key. -/
theorem total_of_max {merged : ExtTreeMap α β cmp}
    (h : ∀ k, weightAt weight merged k = max (weightAt weight m k) (weightAt weight other k)) :
    total weight merged = total weight m + excess weight m other := by
  let keys := merged.keys.toFinset ∪ (m.keys.toFinset ∪ other.keys.toFinset)
  have hmerged : total weight merged = ∑ k ∈ keys, weightAt weight merged k :=
    total_eq_sum weight Finset.subset_union_left
  have hown : total weight m = ∑ k ∈ keys, weightAt weight m k :=
    total_eq_sum weight (Finset.subset_union_left.trans Finset.subset_union_right)
  have hexcess : excess weight m other =
      ∑ k ∈ keys, (weightAt weight other k - weightAt weight m k) := by
    refine Finset.sum_subset (Finset.subset_union_right.trans Finset.subset_union_right)
      fun k _ hk => ?_
    have hzero : weightAt weight other k = 0 := by
      by_contra hne
      exact hk (mem_of_weightAt_pos (Nat.pos_of_ne_zero hne))
    rw [hzero, Nat.zero_sub]
  rw [hmerged, hown, hexcess, ← Finset.sum_add_distrib]
  refine Finset.sum_congr rfl fun k _ => ?_
  rw [h k]
  omega

theorem excess_pos_iff :
    0 < excess weight m other ↔ ∃ k, weightAt weight m k < weightAt weight other k := by
  rw [excess, Nat.pos_iff_ne_zero, Ne, Finset.sum_eq_zero_iff]
  constructor
  · intro h
    push Not at h
    obtain ⟨k, -, hk⟩ := h
    refine ⟨k, ?_⟩
    omega
  · rintro ⟨k, hk⟩ hall
    have hpos : 0 < weightAt weight other k := Nat.zero_lt_of_lt hk
    have hzero := hall k (mem_of_weightAt_pos hpos)
    omega

end PeatBtle.MapTotal
