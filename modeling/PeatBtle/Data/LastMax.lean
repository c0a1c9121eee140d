import Mathlib.Data.List.Basic
import Mathlib.Order.Lattice

/-!
# The last of the greatest

The entry of a list with the greatest key, and of several such entries the last.
-/

namespace PeatBtle

variable {α β : Type} [LinearOrder β] {key : α → β}

/-- `max_by_key`: the last of the entries with the greatest key. -/
def maxByKey (key : α → β) : List α → Option α
  | [] => none
  | x :: xs =>
      match maxByKey key xs with
      | none => some x
      | some best => if key x ≤ key best then some best else some x

/-- Nothing before it is greater, and everything behind it is less. -/
def IsLastMax (key : α → β) (xs : List α) (best : α) : Prop :=
  ∃ front back, xs = front ++ best :: back ∧ (∀ x ∈ front, key x ≤ key best) ∧
    ∀ x ∈ back, key x < key best

theorem isLastMax_cons_iff {x best : α} {xs : List α} :
    IsLastMax key (x :: xs) best ↔
      (best = x ∧ ∀ y ∈ xs, key y < key x) ∨ key x ≤ key best ∧ IsLastMax key xs best := by
  constructor
  · rintro ⟨front, back, heq, hfront, hback⟩
    cases front with
    | nil =>
        obtain ⟨rfl, rfl⟩ := List.cons.inj heq
        exact Or.inl ⟨rfl, hback⟩
    | cons head front =>
        obtain ⟨rfl, rfl⟩ := List.cons.inj heq
        obtain ⟨hhead, hrest⟩ := List.forall_mem_cons.mp hfront
        exact Or.inr ⟨hhead, front, back, rfl, hrest, hback⟩
  · rintro (⟨rfl, hback⟩ | ⟨hhead, front, back, rfl, hfront, hback⟩)
    · exact ⟨[], xs, rfl, fun y hy => absurd hy List.not_mem_nil, hback⟩
    · exact ⟨x :: front, back, rfl, List.forall_mem_cons.mpr ⟨hhead, hfront⟩, hback⟩

theorem IsLastMax.le {xs : List α} {best x : α} (h : IsLastMax key xs best) (hx : x ∈ xs) :
    key x ≤ key best := by
  obtain ⟨front, back, rfl, hfront, hback⟩ := h
  rcases List.mem_append.mp hx with hx | hx
  · exact hfront x hx
  · rcases List.mem_cons.mp hx with rfl | hx
    · exact le_refl _
    · exact le_of_lt (hback x hx)

theorem IsLastMax.mem {xs : List α} {best : α} (h : IsLastMax key xs best) : best ∈ xs := by
  obtain ⟨front, back, rfl, -⟩ := h
  exact List.mem_append_right front List.mem_cons_self

theorem maxByKey_eq_none {xs : List α} (h : maxByKey key xs = none) : xs = [] := by
  cases xs with
  | nil => rfl
  | cons x xs =>
      rw [maxByKey] at h
      split at h
      · cases h
      · split at h <;> cases h

theorem maxByKey_eq_some_iff {xs : List α} {best : α} :
    maxByKey key xs = some best ↔ IsLastMax key xs best := by
  induction xs generalizing best with
  | nil =>
      refine iff_of_false (Option.some_ne_none best).symm ?_
      exact fun h => absurd h.mem List.not_mem_nil
  | cons x xs ih =>
      rw [isLastMax_cons_iff, maxByKey]
      cases hrest : maxByKey key xs with
      | none =>
          obtain rfl := maxByKey_eq_none hrest
          constructor
          · rintro ⟨⟩
            exact Or.inl ⟨rfl, fun y hy => absurd hy List.not_mem_nil⟩
          · rintro (⟨rfl, -⟩ | ⟨-, hbest⟩)
            · rfl
            · exact absurd hbest.mem List.not_mem_nil
      | some other =>
          have hother := ih.mp hrest
          dsimp only
          by_cases hle : key x ≤ key other
          · rw [if_pos hle, Option.some.injEq]
            constructor
            · rintro rfl
              exact Or.inr ⟨hle, hother⟩
            · rintro (⟨rfl, hless⟩ | ⟨-, hbest⟩)
              · exact absurd hle (not_le.mpr (hless other hother.mem))
              · exact Option.some.inj (hrest.symm.trans (ih.mpr hbest))
          · rw [if_neg hle, Option.some.injEq]
            have hless : key other < key x := not_le.mp hle
            constructor
            · rintro rfl
              exact Or.inl ⟨rfl, fun y hy => lt_of_le_of_lt (hother.le hy) hless⟩
            · rintro (⟨rfl, -⟩ | ⟨hhead, hbest⟩)
              · rfl
              · obtain rfl := Option.some.inj (hrest.symm.trans (ih.mpr hbest))
                exact absurd hhead hle

end PeatBtle
