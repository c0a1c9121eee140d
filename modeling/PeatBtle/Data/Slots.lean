import Mathlib.Data.List.Basic
import Mathlib.Data.List.Nodup

/-!
# A row of slots

Values arrive one at a time, in any order, each for the slot of its own
position. The row is determined by the set of positions that have arrived.
-/

namespace PeatBtle.Slots

variable {α : Type} {values : List α} {got rest : List Nat} {i : Nat} {v : α}

/-- The row in which the given positions hold their values. -/
def filled (values : List α) (got : List Nat) : List (Option α) :=
  values.mapIdx fun i v => if i ∈ got then some v else none

@[simp] theorem length_filled : (filled values got).length = values.length := by simp [filled]

theorem filled_nil : filled values [] = List.replicate values.length none := by
  refine List.ext_getElem (by simp) fun i _ _ => ?_
  simp [filled]

/-- The value of a position fills its slot. -/
theorem set_filled (hv : values[i]? = some v) :
    (filled values got).set i (some v) = filled values (i :: got) := by
  refine List.ext_getElem (by simp) fun j hj _ => ?_
  have hjv : j < values.length := by simpa using hj
  rw [List.getElem_set]
  by_cases hij : i = j
  · subst hij
    have hvalue : values[i] = v := List.getElem?_eq_some_iff.mp hv |>.2
    simp [filled, hvalue]
  · simp [filled, hij, Ne.symm hij]

theorem all_isSome_filled :
    (filled values got).all Option.isSome = true ↔ ∀ i < values.length, i ∈ got := by
  rw [List.all_eq_true]
  constructor
  · intro h i hi
    have hsome := h _ (List.getElem_mem (by simpa using hi : i < (filled values got).length))
    by_contra hnot
    simp [filled, hnot] at hsome
  · intro h slot hslot
    obtain ⟨i, hi, rfl⟩ := List.getElem_of_mem hslot
    have hiv : i < values.length := by simpa using hi
    simp [filled, h i hiv]

/-- A full row holds the values in order. -/
theorem filterMap_filled (h : ∀ i < values.length, i ∈ got) :
    (filled values got).filterMap id = values := by
  have hrow : filled values got = values.map some := by
    refine List.ext_getElem (by simp) fun i hi _ => ?_
    have hiv : i < values.length := by simpa using hi
    simp [filled, h i hiv]
  rw [hrow, List.filterMap_map]
  exact List.filterMap_some

/-! ## Positions that arrive once each -/

theorem mem_of_perm_append (h : (got ++ rest).Perm (List.range values.length)) (hi : i ∈ rest) :
    i < values.length := by
  rw [← List.mem_range, ← h.mem_iff]
  exact List.mem_append_right _ hi

/-- The row is full exactly when nothing is left to arrive. -/
theorem all_isSome_iff_of_perm (h : (got ++ rest).Perm (List.range values.length)) :
    (filled values got).all Option.isSome = true ↔ rest = [] := by
  rw [all_isSome_filled]
  constructor
  · intro hall
    have hnodup : (got ++ rest).Nodup := h.nodup_iff.mpr List.nodup_range
    refine List.eq_nil_iff_forall_not_mem.mpr fun i hi => ?_
    exact (List.nodup_append.mp hnodup).2.2 i (hall i (mem_of_perm_append h hi)) i hi rfl
  · rintro rfl i hi
    rw [List.append_nil] at h
    exact h.mem_iff.mpr (List.mem_range.mpr hi)

end PeatBtle.Slots
