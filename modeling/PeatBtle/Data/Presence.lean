import Mathlib.Data.List.Induction

/-!
# What a history leaves present

A history is the list of the actions so far. An action may let something in, a later
one may take it out again, and both may depend on the history before them.
-/

namespace PeatBtle.Presence

variable {α : Type} {Here : List α → Prop} {Enters Leaves : List α → α → Prop}

/-- The action that followed `front` found nothing and let it in, and none since has taken it
out. -/
def ArrivedAt (Here : List α → Prop) (Enters Leaves : List α → α → Prop)
    (actions front : List α) (action : α) : Prop :=
  ∃ back, actions = front ++ action :: back ∧ ¬ Here front ∧ Enters front action ∧
    ∀ past later rest, back = past ++ later :: rest → ¬ Leaves (front ++ action :: past) later

variable {actions front : List α} {action next : α}

theorem not_arrivedAt_nil : ¬ ArrivedAt Here Enters Leaves [] front action := by
  rintro ⟨back, heq, -⟩
  simp at heq

theorem arrivedAt_append : ArrivedAt Here Enters Leaves (actions ++ [next]) front action ↔
    (front = actions ∧ action = next ∧ ¬ Here actions ∧ Enters actions next) ∨
      (ArrivedAt Here Enters Leaves actions front action ∧ ¬ Leaves actions next) := by
  constructor
  · rintro ⟨back, heq, habsent, henters, hback⟩
    rcases List.eq_nil_or_concat back with rfl | ⟨middle, last, rfl⟩
    · obtain ⟨rfl, hlast⟩ := List.append_inj' heq rfl
      obtain rfl := List.singleton_inj.mp hlast
      exact Or.inl ⟨rfl, rfl, habsent, henters⟩
    · rw [List.concat_eq_append] at heq hback
      have hsplit : actions ++ [next] = (front ++ action :: middle) ++ [last] := by
        rw [heq, List.append_assoc, List.cons_append]
      obtain ⟨rfl, hlast⟩ := List.append_inj' hsplit rfl
      obtain rfl := List.singleton_inj.mp hlast
      refine Or.inr ⟨⟨middle, rfl, habsent, henters, ?_⟩, hback middle next [] rfl⟩
      rintro past later rest rfl
      exact hback past later (rest ++ [next]) (by simp)
  · rintro (⟨rfl, rfl, habsent, henters⟩ | ⟨⟨back, rfl, habsent, henters, hback⟩, hstays⟩)
    · exact ⟨[], rfl, habsent, henters, fun past later rest h => by simp at h⟩
    · refine ⟨back ++ [next], by simp, habsent, henters, ?_⟩
      intro past later rest heq
      rcases List.eq_nil_or_concat rest with rfl | ⟨middle, last, rfl⟩
      · obtain ⟨rfl, hlast⟩ := List.append_inj' heq rfl
        obtain rfl := List.singleton_inj.mp hlast
        exact hstays
      · have hsplit : back ++ [next] = (past ++ later :: middle) ++ [last] := by
          rw [heq, List.concat_eq_append, List.append_assoc, List.cons_append]
        obtain ⟨rfl, -⟩ := List.append_inj' hsplit rfl
        exact hback past later middle rfl

/-- What is present arrived at some action of the history, if one action at a time it is let in
where it is missing and taken out where it is present. -/
theorem here_iff_arrived (hnil : ¬ Here [])
    (hstep : ∀ past next, Here (past ++ [next]) ↔
      (¬ Here past ∧ Enters past next) ∨ (Here past ∧ ¬ Leaves past next)) :
    Here actions ↔ ∃ front action, ArrivedAt Here Enters Leaves actions front action := by
  induction actions using List.reverseRecOn with
  | nil => exact iff_of_false hnil fun ⟨front, action, h⟩ => not_arrivedAt_nil h
  | append_singleton past next ih =>
      rw [hstep, ih]
      constructor
      · rintro (⟨habsent, henters⟩ | ⟨⟨front, action, harrived⟩, hstays⟩)
        · exact ⟨past, next, arrivedAt_append.mpr (Or.inl ⟨rfl, rfl, mt ih.mp habsent, henters⟩)⟩
        · exact ⟨front, action, arrivedAt_append.mpr (Or.inr ⟨harrived, hstays⟩)⟩
      · rintro ⟨front, action, harrived⟩
        rcases arrivedAt_append.mp harrived with ⟨-, -, habsent, henters⟩ | ⟨hold, hstays⟩
        · exact Or.inl ⟨mt ih.mpr habsent, henters⟩
        · exact Or.inr ⟨⟨front, action, hold⟩, hstays⟩

end PeatBtle.Presence
