import Mathlib.Combinatorics.SimpleGraph.Metric

/-!
# Rounds of gossip

In a round, neighbours tell each other what they know. What a node knew reaches every
node that is no further away than there are rounds, whatever else happens meanwhile.
-/

namespace PeatBtle.GossipRounds

variable {ι κ : Type} {R : κ → κ → Prop} [IsPreorder κ R]

section Rounds

variable {known : Nat → ι → κ} (hgrows : ∀ m i, R (known m i) (known (m + 1) i))
include hgrows

theorem kept_of_le (i : ι) {m n : Nat} (hle : m ≤ n) : R (known m i) (known n i) := by
  induction hle with
  | refl => exact refl_of R _
  | step _ ih => exact trans_of R ih (hgrows _ i)

/-- News travels along a walk, one edge a round. -/
theorem told_of_walk {G : SimpleGraph ι} {n : Nat}
    (htold : ∀ m < n, ∀ i j, G.Adj i j → R (known m i) (known (m + 1) j)) {u v : ι}
    (walk : G.Walk u v) {m : Nat} (hlength : m + walk.length ≤ n) : R (known m u) (known n v) := by
  induction walk generalizing m with
  | nil => exact kept_of_le hgrows _ (by simpa using hlength)
  | cons hadj walk ih =>
      rw [SimpleGraph.Walk.length_cons] at hlength
      exact trans_of R (htold m (by omega) _ _ hadj) (ih (by omega))

theorem told_of_dist {G : SimpleGraph ι} (hconnected : G.Connected) {n : Nat}
    (htold : ∀ m < n, ∀ i j, G.Adj i j → R (known m i) (known (m + 1) j)) {u v : ι}
    (hdist : G.dist u v ≤ n) : R (known 0 u) (known n v) := by
  obtain ⟨walk, hwalk⟩ := hconnected.exists_walk_length_eq_dist u v
  exact told_of_walk hgrows htold walk (by omega)

end Rounds

/-! ## Rounds of a run -/

section Runs

variable {α : Type} {front : List α} {rounds : List (List α)}

theorem prefix_of_take (m : Nat) :
    front ++ (rounds.take m).flatten <+: front ++ rounds.flatten := by
  refine ⟨(rounds.drop m).flatten, ?_⟩
  rw [List.append_assoc, ← List.flatten_append, List.take_append_drop]

theorem append_take_succ {m : Nat} (hm : m < rounds.length) :
    front ++ (rounds.take (m + 1)).flatten =
      front ++ (rounds.take m).flatten ++ rounds[m] := by
  rw [List.take_succ_eq_append_getElem hm, List.flatten_append, List.flatten_singleton,
    List.append_assoc]

/-- What nodes know after a run only grows, and in each round neighbours tell each other what they
knew before it. -/
theorem told_after_rounds {known : List α → ι → κ} {G : SimpleGraph ι} (hconnected : G.Connected)
    (hgrows : ∀ past more, front <+: past → past ++ more <+: front ++ rounds.flatten →
      ∀ i, R (known past i) (known (past ++ more) i))
    (htold : ∀ (m : Nat) (hm : m < rounds.length), ∀ i j, G.Adj i j →
      R (known (front ++ (rounds.take m).flatten) i)
        (known (front ++ (rounds.take m).flatten ++ rounds[m]) j))
    (hwide : ∀ i j, G.dist i j ≤ rounds.length) (i j : ι) :
    R (known front i) (known (front ++ rounds.flatten) j) := by
  have hfar := @told_of_dist _ _ R _
    (fun m => known (front ++ (rounds.take m).flatten)) ?_ G hconnected rounds.length ?_ i j
    (hwide i j)
  · simpa using hfar
  · intro m i
    obtain ⟨more, hmore⟩ : rounds.take m <+: rounds.take (m + 1) :=
      List.take_prefix_take_left (Nat.le_succ m)
    have hwhole := @prefix_of_take _ front rounds (m + 1)
    rw [← hmore, List.flatten_append, ← List.append_assoc] at hwhole
    rw [← hmore, List.flatten_append, ← List.append_assoc]
    exact hgrows _ _ (List.prefix_append _ _) hwhole i
  · intro m hm a b hadj
    rw [append_take_succ hm]
    exact htold m hm a b hadj

end Runs

end PeatBtle.GossipRounds
