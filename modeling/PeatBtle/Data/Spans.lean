import Mathlib.Data.List.Basic

/-!
# Spans in a log

Some entries of a log open a span and some close it. A span is closed in time if an entry
that begins something else is not written while the span is still open.
-/

namespace PeatBtle.Spans

variable {ε : Type} (opens closes begins : ε → Prop)

/-- A span was opened, and nothing since has closed it. -/
def Open (entries : List ε) : Prop :=
  ∃ front entry back, entries = front ++ entry :: back ∧ opens entry ∧
    ∀ later ∈ back, ¬ closes later

/-- Whatever opens a span is followed by what closes it, no later than by what begins
something else. -/
def ClosedInTime (entries : List ε) : Prop :=
  ∀ front entry back next rest, entries = front ++ entry :: (back ++ next :: rest) →
    opens entry → begins next → ∃ later ∈ back ++ [next], closes later

variable {opens closes begins} {entries : List ε} {next : ε}

theorem not_open_nil : ¬ Open opens closes [] := by
  rintro ⟨front, entry, back, heq, -⟩
  simp at heq

theorem open_append (h : Open opens closes (entries ++ [next])) :
    opens next ∨ Open opens closes entries ∧ ¬ closes next := by
  obtain ⟨front, entry, back, heq, hopens, hback⟩ := h
  rcases List.eq_nil_or_concat back with rfl | ⟨middle, last, rfl⟩
  · obtain ⟨-, hlast⟩ := List.append_inj' heq rfl
    obtain rfl := List.singleton_inj.mp hlast
    exact Or.inl hopens
  · rw [List.concat_eq_append] at heq hback
    have hsplit : entries ++ [next] = (front ++ entry :: middle) ++ [last] := by
      rw [heq, List.append_assoc, List.cons_append]
    obtain ⟨rfl, hlast⟩ := List.append_inj' hsplit rfl
    obtain rfl := List.singleton_inj.mp hlast
    refine Or.inr ⟨⟨front, entry, middle, rfl, hopens, fun later hlater => ?_⟩, ?_⟩
    · exact hback later (List.mem_append_left _ hlater)
    · exact hback next (List.mem_append_right _ (List.mem_singleton.mpr rfl))

theorem closedInTime_nil : ClosedInTime opens closes begins [] := by
  intro front entry back next rest heq
  simp at heq

/-- What begins something closes the open span itself, or finds none. -/
theorem ClosedInTime.append (h : ClosedInTime opens closes begins entries)
    (hnext : begins next → Open opens closes entries → closes next) :
    ClosedInTime opens closes begins (entries ++ [next]) := by
  intro front entry back other rest heq hopens hbegins
  rcases List.eq_nil_or_concat rest with rfl | ⟨middle, last, rfl⟩
  · have hsplit : entries ++ [next] = (front ++ entry :: back) ++ [other] := by
      rw [heq, List.append_assoc, List.cons_append]
    obtain ⟨rfl, hlast⟩ := List.append_inj' hsplit rfl
    obtain rfl := List.singleton_inj.mp hlast
    by_cases hback : ∃ later ∈ back, closes later
    · obtain ⟨later, hlater, hcloses⟩ := hback
      exact ⟨later, List.mem_append_left _ hlater, hcloses⟩
    · refine ⟨next, List.mem_append_right _ (List.mem_singleton.mpr rfl), ?_⟩
      refine hnext hbegins ⟨front, entry, back, rfl, hopens, fun later hlater hcloses => ?_⟩
      exact hback ⟨later, hlater, hcloses⟩
  · rw [List.concat_eq_append] at heq
    have hsplit : entries ++ [next] = (front ++ entry :: (back ++ other :: middle)) ++ [last] := by
      rw [heq]
      simp only [List.append_assoc, List.cons_append]
    obtain ⟨rfl, -⟩ := List.append_inj' hsplit rfl
    exact h front entry back other middle rfl hopens hbegins

end PeatBtle.Spans
