import PeatBtle.Data.MapMerge
import Mathlib.Data.Finset.Card

/-!
# Collecting numbered values

A map under numbered keys that holds the values at some positions of a row and nothing
else. It is as large as the set of these positions, in whatever order they came.
-/

namespace PeatBtle.Collected

open Std MapMerge

variable {α β : Type} {cmp : α → α → Ordering} [TransCmp cmp]

structure Holding (number : α → Nat) (value : Nat → β) (got : Finset Nat)
    (m : ExtTreeMap α β cmp) : Prop where
  lookup : ∀ k, m[k]? = if number k ∈ got then some (value (number k)) else none
  size : m.size = got.card

variable {number : α → Nat} {value : Nat → β} {got : Finset Nat} {m : ExtTreeMap α β cmp}

theorem holding_empty (number : α → Nat) (value : Nat → β) :
    Holding number value ∅ (∅ : ExtTreeMap α β cmp) := by
  refine ⟨fun k => ?_, by simp⟩
  rw [if_neg (Finset.notMem_empty _)]
  exact ExtTreeMap.getElem?_empty

variable [DecidableEq α] [LawfulEqCmp cmp]

/-- A value that comes again changes nothing. -/
theorem Holding.insert (h : Holding number value got m) (hnumber : Function.Injective number)
    (k : α) : Holding number value (insert (number k) got) (m.insert k (value (number k))) where
  lookup := by
    intro a
    rw [getElem?_insert_eq]
    by_cases ha : k = a
    · rw [if_pos ha, ha, if_pos (Finset.mem_insert_self _ _)]
    · have hne : number a ≠ number k := fun heq => ha (hnumber heq).symm
      simp only [if_neg ha, h.lookup a, Finset.mem_insert, hne, false_or]
  size := by
    by_cases hk : number k ∈ got
    · have hmem : k ∈ m := mem_of_getElem? (by rw [h.lookup k, if_pos hk])
      rw [ExtTreeMap.size_insert, if_pos (by simpa using hmem), Finset.insert_eq_of_mem hk, h.size]
    · have hmem : k ∉ m := by
        rw [ExtTreeMap.mem_iff_isSome_getElem?, h.lookup k, if_neg hk]
        exact Bool.false_ne_true
      rw [ExtTreeMap.size_insert, if_neg (by simpa using hmem), Finset.card_insert_of_notMem hk, h.size]

omit [DecidableEq α] [LawfulEqCmp cmp] in
/-- Only the values at the held positions matter. -/
theorem Holding.congr {value' : Nat → β} (h : Holding number value got m)
    (hvalue : ∀ i ∈ got, value' i = value i) : Holding number value' got m := by
  refine ⟨fun k => ?_, h.size⟩
  rw [h.lookup k]
  by_cases hk : number k ∈ got
  · rw [if_pos hk, if_pos hk, hvalue _ hk]
  · rw [if_neg hk, if_neg hk]

end PeatBtle.Collected
