import PeatBtle.Data.LoggedRun

/-!
# Simulation

One system simulates another through a relation of their states if each of its good
steps can be answered by a run of the other, of good steps, that leaves the same
entries in the log. A run then has a step that is not good, or it is answered as a
whole.
-/

namespace PeatBtle.LoggedRun

variable {σ τ α β ε : Type} {step : σ → α → σ} {emit : σ → α → Option ε} {step' : τ → β → τ}
  {emit' : τ → β → Option ε} {Good : σ → α → Prop} {Good' : τ → β → Prop} {Rel : σ → τ → Prop}

theorem simulated_of_along
    (hstep : ∀ s t action, Rel s t → Good s action → ∃ moves, Along step' Good' t moves ∧
      Rel (step s action) (run step' t moves) ∧ log step' emit' t moves = (emit s action).toList)
    {s : σ} {t : τ} {actions : List α} (hstart : Rel s t) (hgood : Along step Good s actions) :
    ∃ moves, Along step' Good' t moves ∧ Rel (run step s actions) (run step' t moves) ∧
      log step' emit' t moves = log step emit s actions := by
  induction actions generalizing s t with
  | nil => exact ⟨[], trivial, hstart, rfl⟩
  | cons action actions ih =>
      obtain ⟨moves, hmoves, hnext, hentries⟩ := hstep s t action hstart hgood.1
      obtain ⟨more, hmore, hlast, hrest⟩ := ih hnext hgood.2
      refine ⟨moves ++ more, along_append.mpr ⟨hmoves, hmore⟩, ?_, ?_⟩
      · rw [run_append]
        exact hlast
      · rw [log_append, hentries, hrest, log]

theorem bad_or_along (step : σ → α → σ) (Good : σ → α → Prop) (s : σ) (actions : List α) :
    (∃ front action, front ++ [action] <+: actions ∧ ¬ Good (run step s front) action) ∨
      Along step Good s actions := by
  by_cases hgood : Along step Good s actions
  · exact Or.inr hgood
  · rw [along_iff] at hgood
    push Not at hgood
    exact Or.inl hgood

end PeatBtle.LoggedRun
