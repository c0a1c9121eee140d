import Mathlib.Algebra.Group.Nat.Defs
import Mathlib.Data.List.Basic

/-!
# Computations with machine words

A computation yields a value or a fault, and it notes whether some sum or
product exceeded the word on the way. What happens then depends on the build: it
stops, or it carries on with the low bits. A safe computation does neither and
stays within its arrays; it is the computation of its value with unbounded
numbers.
-/

namespace PeatBtle.Machine

/-- What a build makes of a number that exceeds the word. -/
inductive Overflow where
  | wraps
  | traps
deriving DecidableEq

inductive Fault where
  | overflow
  | outOfBounds
  | unfinished
deriving DecidableEq

/-- Whether a number exceeded the word, and the outcome. -/
@[ext] structure Run (α : Type) where
  overflowed : Bool
  result : Except Fault α

namespace Run

variable {α β : Type}

instance : Monad Run where
  pure a := ⟨false, .ok a⟩
  bind r f := match r.result with
    | .error fault => ⟨r.overflowed, .error fault⟩
    | .ok a => ⟨r.overflowed || (f a).overflowed, (f a).result⟩

instance : LawfulMonad Run := by
  refine LawfulMonad.mk' Run ?_ ?_ ?_
  · rintro α ⟨overflowed, result⟩
    cases result <;> simp [Functor.map]
  · intro α β a f
    simp [bind, pure]
  · rintro α β γ ⟨overflowed, result⟩ f g
    cases result with
    | error fault => rfl
    | ok a => cases hresult : (f a).result <;> simp [bind, hresult, Bool.or_assoc]

def fault (f : Fault) : Run α := ⟨false, .error f⟩

/-- No number exceeded the word, and there is a value. -/
def Safe (r : Run α) : Prop := r.overflowed = false ∧ r.result.isOk = true

instance (r : Run α) : Decidable r.Safe := inferInstanceAs (Decidable (_ ∧ _))

theorem safe_pure (a : α) : (pure a : Run α).Safe := ⟨rfl, rfl⟩

/-- Nothing that comes later makes up for an overflow or a fault. -/
theorem Safe.of_bind {r : Run α} {f : α → Run β} (h : (r >>= f).Safe) : r.Safe := by
  obtain ⟨hfits, hok⟩ := h
  cases hresult : r.result with
  | error fault =>
      simp only [bind, hresult] at hok
      cases hok
  | ok a =>
      simp only [bind, hresult, Bool.or_eq_false_iff] at hfits
      exact ⟨hfits.1, by rw [hresult]; rfl⟩

theorem not_safe_bind {r : Run α} (h : r.overflowed = true) (f : α → Run β) :
    ¬ (r >>= f).Safe := by
  intro hsafe
  have hfits := hsafe.of_bind.1
  rw [h] at hfits
  cases hfits

end Run

open Run

/-- A machine with words of at least 32 bits, and what its build makes of an overflow. -/
structure Target where
  limit : Nat
  overflow : Overflow
  limit_ge : 2 ^ 32 ≤ limit

namespace Target

variable (t : Target) {a b n : Nat}

/-- The word that a number becomes. -/
def fit (n : Nat) : Run Nat :=
  if n < t.limit then pure n
  else
    { overflowed := true
      result := match t.overflow with
        | .wraps => .ok (n % t.limit)
        | .traps => .error .overflow }

def add (a b : Nat) : Run Nat := t.fit (a + b)

def mul (a b : Nat) : Run Nat := t.fit (a * b)

theorem add_eq (h : a + b < t.limit) : t.add a b = pure (a + b) := if_pos h

theorem mul_eq (h : a * b < t.limit) : t.mul a b = pure (a * b) := if_pos h

theorem overflowed_add (h : t.limit ≤ a + b) : (t.add a b).overflowed = true := by
  rw [add, fit, if_neg (Nat.not_lt.mpr h)]

theorem overflowed_mul (h : t.limit ≤ a * b) : (t.mul a b).overflowed = true := by
  rw [mul, fit, if_neg (Nat.not_lt.mpr h)]

end Target

/-! ## Arrays -/

section Arrays

variable {α : Type} {xs : List α}

def index (xs : List α) (i : Nat) : Run α :=
  match xs[i]? with
  | some x => pure x
  | none => fault .outOfBounds

/-- The half-open range `start..stop`. -/
def range (xs : List α) (start stop : Nat) : Run (List α) :=
  if start ≤ stop ∧ stop ≤ xs.length then pure ((xs.drop start).take (stop - start))
  else fault .outOfBounds

/-- The range `start..`. -/
def behind (xs : List α) (start : Nat) : Run (List α) :=
  if start ≤ xs.length then pure (xs.drop start) else fault .outOfBounds

theorem index_eq {i : Nat} (h : i < xs.length) (default : α) :
    index xs i = pure (xs.getD i default) := by
  simp [index, h]

theorem range_eq {start stop : Nat} (hle : start ≤ stop) (h : stop ≤ xs.length) :
    range xs start stop = pure ((xs.drop start).take (stop - start)) := if_pos ⟨hle, h⟩

theorem behind_eq {start : Nat} (h : start ≤ xs.length) : behind xs start = pure (xs.drop start) :=
  if_pos h

end Arrays

end PeatBtle.Machine
