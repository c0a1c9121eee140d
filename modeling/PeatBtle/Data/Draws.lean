import Mathlib.Data.List.Nodup
import Mathlib.Data.List.Perm.Subperm
import Mathlib.Data.Nat.ModEq

/-!
# Different values from a sequence of draws

A draw is kept if its value is new, until enough values are kept. A sequence of draws
that contains enough different values yields that many. Draws that count up modulo a
number, and start from zero again once, do contain them.
-/

namespace PeatBtle.Draws

variable {ι : Type} [DecidableEq ι]

/-- The values kept from the draws, after those kept before. -/
def distinct (limit : Nat) : List ι → List ι → List ι
  | [], kept => kept
  | x :: draws, kept =>
      if limit ≤ kept.length then kept
      else if x ∈ kept then distinct limit draws kept
      else distinct limit draws (kept ++ [x])

section Distinct

variable {limit : Nat} {draws kept : List ι}

theorem nodup_distinct (h : kept.Nodup) : (distinct limit draws kept).Nodup := by
  induction draws generalizing kept with
  | nil => exact h
  | cons x draws ih =>
      unfold distinct
      split
      · exact h
      · split
        · exact ih h
        · rename_i hnew
          exact ih (List.nodup_append.mpr ⟨h, List.nodup_singleton x, fun y hy z hz heq =>
            hnew (List.mem_singleton.mp hz ▸ heq ▸ hy)⟩)

theorem mem_of_mem_distinct {y : ι} (h : y ∈ distinct limit draws kept) :
    y ∈ kept ∨ y ∈ draws := by
  induction draws generalizing kept with
  | nil => exact Or.inl h
  | cons x draws ih =>
      unfold distinct at h
      split at h
      · exact Or.inl h
      · split at h
        · exact (ih h).imp_right (List.mem_cons_of_mem x)
        · rcases ih h with hkept | hdrawn
          · rcases List.mem_append.mp hkept with hold | hx
            · exact Or.inl hold
            · exact Or.inr (List.mem_singleton.mp hx ▸ List.mem_cons_self)
          · exact Or.inr (List.mem_cons_of_mem x hdrawn)

theorem length_distinct_le (h : kept.length ≤ limit) :
    (distinct limit draws kept).length ≤ limit := by
  induction draws generalizing kept with
  | nil => exact h
  | cons x draws ih =>
      unfold distinct
      split
      · exact h
      · split
        · exact ih h
        · refine ih ?_
          rw [List.length_append, List.length_singleton]
          omega

theorem subset_distinct : kept ⊆ distinct limit draws kept := by
  induction draws generalizing kept with
  | nil => exact List.Subset.refl kept
  | cons x draws ih =>
      unfold distinct
      split
      · exact List.Subset.refl kept
      · split
        · exact ih
        · exact List.Subset.trans (List.subset_append_left kept [x]) ih

/-- Either there are enough values, or no value drawn was left out. -/
theorem limit_le_or_subset (limit : Nat) (draws kept : List ι) :
    limit ≤ (distinct limit draws kept).length ∨ draws ⊆ distinct limit draws kept := by
  induction draws generalizing kept with
  | nil => exact Or.inr (List.nil_subset _)
  | cons x draws ih =>
      unfold distinct
      split
      · rename_i hfull
        exact Or.inl hfull
      · split
        · rename_i hold
          exact (ih kept).imp_right fun hsub => List.cons_subset.mpr ⟨subset_distinct hold, hsub⟩
        · exact (ih (kept ++ [x])).imp_right fun hsub =>
            List.cons_subset.mpr ⟨subset_distinct (by simp), hsub⟩

theorem limit_le_length {values : List ι} (hnodup : values.Nodup) (hdrawn : values ⊆ draws)
    (hlen : limit ≤ values.length) : limit ≤ (distinct limit draws kept).length := by
  rcases limit_le_or_subset limit draws kept with hfull | hsub
  · exact hfull
  · exact hlen.trans (hnodup.subperm (List.Subset.trans hdrawn hsub)).length_le

end Distinct

/-! ## Counting up -/

theorem nodup_residues {f : Nat → Nat} {start limit modulus : Nat} (first : Nat)
    (hlimit : limit ≤ modulus) (hcount : ∀ i < limit, f (start + i) = first + i) :
    ((List.range' start limit).map fun i => f i % modulus).Nodup := by
  rw [List.range'_eq_map_range, List.map_map]
  refine List.Nodup.map_on ?_ List.nodup_range
  intro i hi j hj heq
  have hi := List.mem_range.mp hi
  have hj := List.mem_range.mp hj
  have hsum : (first + i) % modulus = (first + j) % modulus := by
    rw [← hcount i hi, ← hcount j hj]
    exact heq
  have hcancel : i ≡ j [MOD modulus] := Nat.ModEq.add_left_cancel' first hsum
  exact hcancel.eq_of_lt_of_lt (hi.trans_le hlimit) (hj.trans_le hlimit)

/-- A counter that goes back to zero shows enough residues in a row: if it does so too early, then
right after. -/
theorem exists_nodup_residues {first limit modulus wrap : Nat} (hlimit : limit ≤ modulus)
    (hfirst : first < wrap) (hwrap : limit ≤ wrap) : ∃ start ≤ limit,
      ((List.range' start limit).map fun i => (first + i) % wrap % modulus).Nodup := by
  by_cases hlate : first + limit ≤ wrap
  · refine ⟨0, Nat.zero_le _, nodup_residues first hlimit fun i hi => ?_⟩
    rw [Nat.zero_add, Nat.mod_eq_of_lt (by omega)]
  · refine ⟨wrap - first, by omega, nodup_residues 0 hlimit fun i hi => ?_⟩
    have hback : first + (wrap - first + i) = i + wrap := by omega
    rw [hback, Nat.add_mod_right, Nat.mod_eq_of_lt (by omega), Nat.zero_add]

end PeatBtle.Draws
