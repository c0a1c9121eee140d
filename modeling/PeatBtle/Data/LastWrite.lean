import PeatBtle.Data.LoggedRun

/-!
# The last write

A view of the state that each action either overwrites or leaves alone is, after a run,
what the last action that overwrote it gave it.
-/

namespace PeatBtle.LastWrite

variable {σ α β : Type} {step : σ → α → σ} {view : σ → β} {given : α → Option β}

def last (given : α → Option β) (actions : List α) : Option β := (actions.filterMap given).getLast?

theorem getD_last_cons (action : α) (actions : List α) (start : β) :
    (last given (action :: actions)).getD start =
      (last given actions).getD ((given action).getD start) := by
  unfold last
  cases hgiven : given action with
  | none => rw [List.filterMap_cons_none hgiven, Option.getD_none]
  | some value =>
      rw [List.filterMap_cons_some hgiven, List.getLast?_cons, Option.getD_some, Option.getD_some]

theorem map_last {γ : Type} (f : β → γ) (actions : List α) :
    (last given actions).map f = last (fun action => (given action).map f) actions := by
  rw [last, last, ← List.getLast?_map, List.map_filterMap]

theorem getD_map_last_cons {γ : Type} (f : β → γ) (action : α) (actions : List α) (start : γ) :
    ((last given (action :: actions)).map f).getD start =
      ((last given actions).map f).getD (((given action).map f).getD start) := by
  rw [map_last, map_last, getD_last_cons]

theorem view_run (h : ∀ s action, view (step s action) = (given action).getD (view s)) (s : σ)
    (actions : List α) :
    view (LoggedRun.run step s actions) = (last given actions).getD (view s) := by
  induction actions generalizing s with
  | nil => rfl
  | cons action actions ih => rw [LoggedRun.run_cons, ih, h, getD_last_cons]

/-- The same for a set that elements enter and leave. -/
theorem mem_run {γ : Type} [DecidableEq γ] {box : σ → List γ} {changes : γ → α → Option Bool}
    (h : ∀ s action c, c ∈ box (step s action) ↔
      (changes c action).getD (decide (c ∈ box s)) = true) (s : σ) (actions : List α) (c : γ) :
    c ∈ box (LoggedRun.run step s actions) ↔
      (last (changes c) actions).getD (decide (c ∈ box s)) = true := by
  have hview := @view_run σ α Bool step (fun s => decide (c ∈ box s)) (changes c)
    (fun s action => Bool.eq_iff_iff.mpr (decide_eq_true_iff.trans (h s action c))) s actions
  rw [← hview, decide_eq_true_iff]

end PeatBtle.LastWrite
