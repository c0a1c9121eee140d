import PeatBtle.Data.LoggedRun

/-!
# Rounds

A system of agents, each of which may be able to move. A move costs, and nothing else
changes the state. A scheduler that gives every agent a turn in each round, in any
order, brings the system to rest after as many rounds as its state is worth.
-/

namespace PeatBtle.Rounds

open LoggedRun

variable {σ α ι : Type} (step : σ → α → σ) (agent : α → ι)

/-- What an agent does at its turn: it stays where it is or it pays. -/
structure Costly (Inv : σ → Prop) (worth : σ → Nat) : Prop where
  keeps : ∀ s action, Inv s → Inv (step s action)
  pays : ∀ s action, Inv s → step s action = s ∨ worth (step s action) < worth s

/-- Nobody can move. -/
def Rests (s : σ) : Prop := ∀ action, step s action = s

/-- An agent that can move moves, whatever it is told at its turn. -/
def Willing (Inv : σ → Prop) : Prop :=
  ∀ s action, Inv s → step s action ≠ s → ∀ other, agent other = agent action → step s other ≠ s

/-- Everybody who can move from here gets a turn. -/
def Complete (Inv : σ → Prop) (round : List α) : Prop :=
  ∀ s action, Inv s → step s action ≠ s → ∃ turn ∈ round, agent turn = agent action

variable {step agent} {Inv : σ → Prop} {worth : σ → Nat}

theorem Rests.run {s : σ} (h : Rests step s) (actions : List α) : run step s actions = s := by
  induction actions with
  | nil => rfl
  | cons action actions ih => rw [run_cons, h action, ih]

namespace Costly

theorem run_keeps (h : Costly step Inv worth) {s : σ} (hs : Inv s) (actions : List α) :
    Inv (run step s actions) :=
  LoggedRun.run_keeps hs fun later action _ hlater => h.keeps later action hlater

/-- A run that costs nothing had no moves. -/
theorem still_or_lt (h : Costly step Inv worth) {s : σ} (hs : Inv s) (actions : List α) :
    (∀ action ∈ actions, step s action = s) ∧ run step s actions = s ∨
      worth (run step s actions) < worth s := by
  induction actions generalizing s with
  | nil => exact Or.inl ⟨fun action h => absurd h List.not_mem_nil, rfl⟩
  | cons action actions ih =>
      have hrest := ih (h.keeps s action hs)
      rw [run_cons]
      rcases h.pays s action hs with hstill | hpaid
      · rw [hstill] at hrest ⊢
        rcases hrest with ⟨hall, hsame⟩ | hlt
        · exact Or.inl ⟨List.forall_mem_cons.mpr ⟨hstill, hall⟩, hsame⟩
        · exact Or.inr hlt
      · rcases hrest with ⟨-, hsame⟩ | hlt
        · rw [hsame]
          exact Or.inr hpaid
        · exact Or.inr (Nat.lt_trans hlt hpaid)

/-- A complete round costs something unless the system rests. -/
theorem round_lt (h : Costly step Inv worth) (hwilling : Willing step agent Inv) {s : σ}
    (hs : Inv s) {round : List α} (hround : Complete step agent Inv round) :
    Rests step s ∨ worth (run step s round) < worth s := by
  rcases h.still_or_lt hs round with ⟨hstill, -⟩ | hlt
  · refine Or.inl fun action => ?_
    by_contra hmoves
    obtain ⟨turn, hturn, hagent⟩ := hround s action hs hmoves
    exact hwilling s action hs hmoves turn hagent (hstill turn hturn)
  · exact Or.inr hlt

theorem rests_of_rounds (h : Costly step Inv worth) (hwilling : Willing step agent Inv) {s : σ}
    (hs : Inv s) {rounds : List (List α)}
    (hrounds : ∀ round ∈ rounds, Complete step agent Inv round)
    (hmany : worth s ≤ rounds.length) : Rests step (run step s rounds.flatten) := by
  induction rounds generalizing s with
  | nil =>
      intro action
      rcases h.pays s action hs with hstill | hpaid
      · exact hstill
      · exact absurd (Nat.lt_of_lt_of_le hpaid hmany) (Nat.not_lt_zero _)
  | cons round rounds ih =>
      obtain ⟨hround, hlater⟩ := List.forall_mem_cons.mp hrounds
      rw [List.flatten_cons, run_append]
      rcases h.round_lt hwilling hs hround with hrests | hlt
      · rw [hrests.run round, hrests.run]
        exact hrests
      · rw [List.length_cons] at hmany
        exact ih (h.run_keeps hs round) hlater (by omega)

end Costly

end PeatBtle.Rounds
