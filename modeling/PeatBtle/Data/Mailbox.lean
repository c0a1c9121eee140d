import PeatBtle.Data.LoggedRun

/-!
# Mailboxes

What a step puts into a mailbox goes to its end, and what it takes out comes from
the front. Over a run, everything put in has been taken out in order or is still there.
-/

namespace PeatBtle.Mailbox

variable {σ α μ : Type} (step : σ → α → σ)

/-- Everything that the steps of a run yield, in order. -/
def gathered (yield : σ → α → List μ) : σ → List α → List μ
  | _, [] => []
  | s, action :: actions => yield s action ++ gathered yield (step s action) actions

variable {step} {box : σ → List μ} {posted collected : σ → α → List μ} {Inv : σ → Prop}

/-- Nothing lost, doubled or overtaken. -/
theorem gathered_conserved {s : σ} {actions : List α} (hstart : Inv s)
    (hkeep : ∀ s action, Inv s → Inv (step s action))
    (hstep : ∀ s, ∀ action ∈ actions, Inv s →
      collected s action ++ box (step s action) = box s ++ posted s action) :
    gathered step collected s actions ++ box (LoggedRun.run step s actions) =
      box s ++ gathered step posted s actions := by
  induction actions generalizing s with
  | nil => simp [gathered]
  | cons action actions ih =>
      have hrest := ih (hkeep s action hstart) fun s later h =>
        hstep s later (List.mem_cons_of_mem _ h)
      rw [gathered, gathered, LoggedRun.run_cons, List.append_assoc, hrest, ← List.append_assoc,
        hstep s action (List.mem_cons_self ..) hstart, List.append_assoc]

/-- Where a step may also throw something away, still nothing is doubled or overtaken. -/
theorem gathered_sublist {s : σ} {actions : List α} (hstart : Inv s)
    (hkeep : ∀ s action, Inv s → Inv (step s action))
    (hstep : ∀ s action, Inv s →
      List.Sublist (collected s action ++ box (step s action)) (box s ++ posted s action)) :
    List.Sublist (gathered step collected s actions ++ box (LoggedRun.run step s actions))
      (box s ++ gathered step posted s actions) := by
  induction actions generalizing s with
  | nil => simp [gathered]
  | cons action actions ih =>
      have hfirst := (hstep s action hstart).append_right
        (gathered step posted (step s action) actions)
      rw [gathered, gathered, List.append_assoc, ← List.append_assoc (box s)]
      refine ((ih (hkeep s action hstart)).append_left (collected s action)).trans ?_
      rwa [← List.append_assoc]

end PeatBtle.Mailbox
