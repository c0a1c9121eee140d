import Mathlib.Logic.Function.Basic
import Mathlib.Order.Lattice

/-!
# Gossip tables

Every node holds a row of values, one for each node, and only it raises the
value at its own place. Rows are published, and a published row may be heard by
any node, at any later time and any number of times: it is joined to the hearer's row.
-/

namespace PeatBtle

@[ext] structure Gossip (ι α : Type) where
  table : ι → ι → α
  published : List (ι → α)

namespace Gossip

variable {ι α : Type} [SemilatticeSup α]

/-- Nobody knows more about a node than the node itself, and no row ever said more. -/
structure Grounded (g : Gossip ι α) : Prop where
  table_le : ∀ i j, g.table i j ≤ g.table j j
  published_le : ∀ row ∈ g.published, ∀ j, row j ≤ g.table j j

/-- All values have grown, and nothing that was published is withdrawn. -/
structure Grows (g h : Gossip ι α) : Prop where
  table_le : ∀ i j, g.table i j ≤ h.table i j
  published_prefix : g.published <+: h.published

theorem Grows.refl (g : Gossip ι α) : g.Grows g := ⟨fun _ _ => le_rfl, List.prefix_refl _⟩

theorem Grows.trans {g h k : Gossip ι α} (hgh : g.Grows h) (hhk : h.Grows k) : g.Grows k :=
  ⟨fun i j => (hgh.table_le i j).trans (hhk.table_le i j),
    hgh.published_prefix.trans hhk.published_prefix⟩

section Steps

variable [DecidableEq ι]

def setRow (g : Gossip ι α) (i : ι) (row : ι → α) : Gossip ι α :=
  { g with table := Function.update g.table i row }

def raise (g : Gossip ι α) (i : ι) (value : α) : Gossip ι α :=
  g.setRow i (Function.update (g.table i) i value)

def publish (g : Gossip ι α) (i : ι) : Gossip ι α :=
  { g with published := g.published ++ [g.table i] }

def hear (g : Gossip ι α) (i : ι) (row : ι → α) : Gossip ι α := g.setRow i (g.table i ⊔ row)

inductive Step : Gossip ι α → Gossip ι α → Prop
  | idle (g : Gossip ι α) : Step g g
  | raise (g : Gossip ι α) (i : ι) (value : α) (h : g.table i i ≤ value) : Step g (g.raise i value)
  | publish (g : Gossip ι α) (i : ι) : Step g (g.publish i)
  | hear (g : Gossip ι α) (i : ι) (row : ι → α) (h : row ∈ g.published) : Step g (g.hear i row)

variable {g h : Gossip ι α}

omit [SemilatticeSup α] in
theorem table_setRow (g : Gossip ι α) (i : ι) (row : ι → α) (k j : ι) :
    (g.setRow i row).table k j = if k = i then row j else g.table k j := by
  unfold setRow
  dsimp only
  by_cases hk : k = i
  · subst hk
    rw [Function.update_self, if_pos rfl]
  · rw [Function.update_of_ne hk, if_neg hk]

omit [SemilatticeSup α] in
theorem setRow_self (g : Gossip ι α) (i : ι) : g.setRow i (g.table i) = g := by
  rw [setRow, Function.update_eq_self]

omit [SemilatticeSup α] in
theorem table_raise (g : Gossip ι α) (i : ι) (value : α) (k j : ι) :
    (g.raise i value).table k j = if k = i ∧ j = i then value else g.table k j := by
  rw [raise, table_setRow, Function.update_apply]
  by_cases hk : k = i
  · subst hk
    simp only [if_true, true_and]
  · rw [if_neg hk, if_neg (fun hboth => hk hboth.1)]

theorem table_hear (g : Gossip ι α) (i : ι) (row : ι → α) (k j : ι) :
    (g.hear i row).table k j = if k = i then g.table k j ⊔ row j else g.table k j := by
  rw [hear, table_setRow]
  by_cases hk : k = i
  · subst hk
    rfl
  · rw [if_neg hk, if_neg hk]

theorem Step.grows (step : Step g h) : g.Grows h := by
  cases step with
  | idle => exact Grows.refl g
  | raise i value hle =>
      refine ⟨fun k j => ?_, List.prefix_refl _⟩
      rw [table_raise]
      split
      · rename_i hboth
        rw [hboth.1, hboth.2]
        exact hle
      · exact le_rfl
  | publish i => exact ⟨fun _ _ => le_rfl, List.prefix_append _ _⟩
  | hear i row hrow =>
      refine ⟨fun k j => ?_, List.prefix_refl _⟩
      rw [table_hear]
      split
      · exact le_sup_left
      · exact le_rfl

/-- Hearing tells a node nothing about itself. -/
theorem Grounded.hear_own (hg : g.Grounded) {i : ι} {row : ι → α} (hrow : row ∈ g.published)
    (j : ι) : (g.hear i row).table j j = g.table j j := by
  rw [table_hear]
  split
  · exact sup_eq_left.mpr (hg.published_le row hrow j)
  · rfl

theorem Step.grounded (step : Step g h) (hg : g.Grounded) : h.Grounded := by
  -- a place on the diagonal changes only when its owner raises it
  have hdiagonal : ∀ j, g.table j j ≤ h.table j j := fun j => step.grows.table_le j j
  have hpublished : ∀ row ∈ g.published, ∀ j, row j ≤ h.table j j :=
    fun row hrow j => (hg.published_le row hrow j).trans (hdiagonal j)
  cases step with
  | idle => exact hg
  | raise i value hle =>
      refine ⟨fun k j => ?_, hpublished⟩
      by_cases hk : k = j
      · rw [hk]
      · refine le_trans (le_of_eq ?_) ((hg.table_le k j).trans (hdiagonal j))
        rw [table_raise, if_neg]
        rintro ⟨rfl, rfl⟩
        exact hk rfl
  | publish i =>
      refine ⟨hg.table_le, fun row hrow j => ?_⟩
      rcases List.mem_append.mp hrow with hold | hnew
      · exact hg.published_le row hold j
      · rw [List.mem_singleton.mp hnew]
        exact hg.table_le i j
  | hear i row hrow =>
      refine ⟨fun k j => ?_, hpublished⟩
      refine le_trans ?_ (hdiagonal j)
      rw [table_hear]
      split
      · exact sup_le (hg.table_le k j) (hg.published_le row hrow j)
      · exact hg.table_le k j

end Steps

end Gossip

end PeatBtle
