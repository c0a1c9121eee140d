import Mathlib.Data.List.Basic

/-!
# Runs that may stop

A step may have no result, and then the run has none. A condition on the steps of a run
is asked of each of them in the state in which it is taken, as far as the run goes.
-/

namespace PeatBtle.PartialRun

variable {σ α : Type} (step : σ → α → Option σ)

def run : σ → List α → Option σ
  | s, [] => some s
  | s, action :: actions => (step s action).bind fun next => run next actions

/-- Every step of a run is good, up to the first that has no result. -/
def Along (Good : σ → α → Prop) : σ → List α → Prop
  | _, [] => True
  | s, action :: actions =>
      Good s action ∧ ∀ next ∈ step s action, Along Good next actions

instance decidableAlong (Good : σ → α → Prop) [∀ s action, Decidable (Good s action)] :
    ∀ s actions, Decidable (Along step Good s actions)
  | _, [] => inferInstanceAs (Decidable True)
  | s, action :: actions =>
      have := fun next => decidableAlong Good next actions
      inferInstanceAs (Decidable (Good s action ∧ ∀ next ∈ step s action,
        Along step Good next actions))

variable {step}

theorem run_append (s : σ) (front back : List α) :
    run step s (front ++ back) = (run step s front).bind fun middle => run step middle back := by
  induction front generalizing s with
  | nil => rfl
  | cons action front ih =>
      rw [List.cons_append, run, run]
      cases step s action with
      | none => rfl
      | some next => exact ih next

/-- The steps of a run are those it takes in the states that the steps before it led to. -/
theorem along_of_prefix {Good : σ → α → Prop} {s : σ} {front actions : List α}
    (h : Along step Good s actions) (hfront : front <+: actions) : Along step Good s front := by
  induction front generalizing s actions with
  | nil => trivial
  | cons action front ih =>
      obtain ⟨back, rfl⟩ := hfront
      refine ⟨h.1, fun next hnext => ?_⟩
      exact ih (h.2 next hnext) (List.prefix_append front back)

theorem along_and {Good Better : σ → α → Prop} {s : σ} {actions : List α}
    (hgood : Along step Good s actions) (hbetter : Along step Better s actions) :
    Along step (fun s action => Good s action ∧ Better s action) s actions := by
  induction actions generalizing s with
  | nil => trivial
  | cons action actions ih =>
      exact ⟨⟨hgood.1, hbetter.1⟩, fun next hnext =>
        ih (hgood.2 next hnext) (hbetter.2 next hnext)⟩

/-- If good steps have a result and keep an invariant, so do runs of good steps. -/
theorem invariant_of_good {Inv : σ → Prop} {Good : σ → α → Prop} {s : σ} {actions : List α}
    (hinv : Inv s) (hgood : Along step Good s actions)
    (hstep : ∀ s action, Inv s → Good s action → ∃ next, step s action = some next ∧ Inv next) :
    ∃ last, run step s actions = some last ∧ Inv last := by
  induction actions generalizing s with
  | nil => exact ⟨s, rfl, hinv⟩
  | cons action actions ih =>
      obtain ⟨next, hnext, hkept⟩ := hstep s action hinv hgood.1
      obtain ⟨last, hlast, hdone⟩ := ih hkept (hgood.2 next hnext)
      refine ⟨last, ?_, hdone⟩
      rw [run, hnext]
      exact hlast

/-- If exactly the good steps have a result, exactly the runs of good steps do. -/
theorem isSome_run_iff {Inv : σ → Prop} {Good : σ → α → Prop} {s : σ} {actions : List α}
    (hinv : Inv s) (hkeep : ∀ s action next, Inv s → step s action = some next → Inv next)
    (hstep : ∀ s action, Inv s → ((step s action).isSome = true ↔ Good s action)) :
    (run step s actions).isSome = true ↔ Along step Good s actions := by
  induction actions generalizing s with
  | nil => exact iff_of_true rfl trivial
  | cons action actions ih =>
      have hgood := hstep s action hinv
      rw [run, Along]
      cases hnext : step s action with
      | none =>
          rw [hnext] at hgood
          exact iff_of_false Bool.false_ne_true fun h => Bool.false_ne_true (hgood.mpr h.1)
      | some next =>
          rw [hnext] at hgood
          rw [Option.bind_some, ih (hkeep s action next hinv hnext),
            and_iff_right (hgood.mp rfl)]
          constructor
          · intro h other hother
            obtain rfl := Option.some.inj hother
            exact h
          · intro h
            exact h next rfl

end PeatBtle.PartialRun
