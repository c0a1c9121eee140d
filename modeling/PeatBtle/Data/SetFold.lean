import Mathlib.Data.List.Basic

/-!
# Folds that depend on the set of their inputs

A replica applies received messages in the order they arrive, with repeats. When
the step commutes with itself and absorbs repeats, only the set of messages
matters.
-/

namespace PeatBtle.SetFold

variable {α σ : Type} {step : σ → α → σ}

section Commuting

variable (hcomm : ∀ s x y, step (step s x) y = step (step s y) x)
  (hidem : ∀ s x, step (step s x) x = step s x)

include hcomm in
theorem foldl_step_comm (s : σ) (x : α) (xs : List α) :
    xs.foldl step (step s x) = step (xs.foldl step s) x := by
  induction xs generalizing s with
  | nil => rfl
  | cons y xs ih => rw [List.foldl_cons, hcomm, ih, List.foldl_cons]

include hcomm hidem in
/-- An input already applied changes nothing. -/
theorem foldl_absorb {x : α} {xs : List α} (hx : x ∈ xs) (s : σ) :
    step (xs.foldl step s) x = xs.foldl step s := by
  induction xs generalizing s with
  | nil => cases hx
  | cons y xs ih =>
      rcases List.mem_cons.mp hx with rfl | hx
      · rw [List.foldl_cons, foldl_step_comm hcomm, hidem]
      · exact ih hx _

include hcomm hidem in
theorem foldl_absorb_all {xs ys : List α} (h : ∀ y ∈ ys, y ∈ xs) (s : σ) :
    (xs ++ ys).foldl step s = xs.foldl step s := by
  induction ys with
  | nil => rw [List.append_nil]
  | cons y ys ih =>
      have hy : y ∈ xs := h y (by simp)
      rw [List.foldl_append, List.foldl_cons, foldl_absorb hcomm hidem hy, ← List.foldl_append,
        ih fun z hz => h z (List.mem_cons_of_mem _ hz)]

include hcomm hidem in
/-- Order and repetition do not matter. -/
theorem foldl_eq_of_mem_iff {xs ys : List α} (h : ∀ x, x ∈ xs ↔ x ∈ ys) (s : σ) :
    xs.foldl step s = ys.foldl step s := by
  have hswap : (xs ++ ys).foldl step s = (ys ++ xs).foldl step s :=
    List.perm_append_comm.foldl_eq' (fun x _ y _ s => hcomm s x y) s
  rw [← foldl_absorb_all hcomm hidem (fun y hy => (h y).mpr hy) s, hswap,
    foldl_absorb_all hcomm hidem fun x hx => (h x).mp hx]

end Commuting

end PeatBtle.SetFold
