import Mathlib.Data.Finset.Card
import Mathlib.Logic.Relation

/-!
# Trees given by links

Every node knows its parent and lists its children, and following parents leads
from each node to the root. The links of a node in both directions are its
neighbours. A tree can be rooted anew at any of its nodes without touching the
neighbours.
-/

namespace PeatBtle

open Relation

/-- A finite tree in which parents and children agree. -/
structure LinkedTree (α : Type) where
  nodes : Finset α
  parent : α → Option α
  children : α → List α
  root : α
  root_mem : root ∈ nodes
  root_parent : parent root = none
  parent_mem : ∀ v ∈ nodes, ∀ p, parent v = some p → p ∈ nodes
  mem_children : ∀ v ∈ nodes, ∀ c, c ∈ children v ↔ c ∈ nodes ∧ parent c = some v
  children_nodup : ∀ v ∈ nodes, (children v).Nodup
  rooted : ∀ v ∈ nodes, ReflTransGen (fun c p => parent c = some p) v root

namespace LinkedTree

variable {α : Type} (t : LinkedTree α)

/-- One step towards the root. -/
def Up (c p : α) : Prop := t.parent c = some p

/-- `a` is `v` or an ancestor of it. -/
def Above (a v : α) : Prop := ReflTransGen t.Up v a

/-- The parent first, then the children. -/
def neighbours (v : α) : List α := (t.parent v).toList ++ t.children v

variable {t} {a b v p c o : α}

theorem Above.refl (v : α) : t.Above v v := ReflTransGen.refl

theorem Above.trans (hab : t.Above a b) (hbv : t.Above b v) : t.Above a v :=
  ReflTransGen.trans hbv hab

theorem above_of_parent (h : t.parent v = some p) : t.Above p v := ReflTransGen.single h

theorem root_above (hv : v ∈ t.nodes) : t.Above t.root v := t.rooted v hv

theorem Above.eq_or_parent (h : t.Above a v) : a = v ∨ ∃ p, t.parent v = some p ∧ t.Above a p := by
  rcases ReflTransGen.cases_head h with heq | ⟨p, hp, hrest⟩
  · exact Or.inl heq.symm
  · exact Or.inr ⟨p, hp, hrest⟩

theorem Above.mem (h : t.Above a v) (hv : v ∈ t.nodes) : a ∈ t.nodes := by
  induction h with
  | refl => exact hv
  | tail _ hstep ih => exact t.parent_mem _ ih _ hstep

/-- No node lies above its own parent. -/
theorem not_above_parent (hv : v ∈ t.nodes) (hp : t.parent v = some p) : ¬ t.Above v p := by
  have hall := t.rooted v hv
  clear hv
  induction hall using ReflTransGen.head_induction_on generalizing p with
  | refl =>
      rw [t.root_parent] at hp
      cases hp
  | @head v q hstep _ ih =>
      intro habove
      obtain rfl : q = p := Option.some.inj (hstep.symm.trans hp)
      rcases habove.eq_or_parent with rfl | ⟨r, hr, hrest⟩
      · exact ih hp (Above.refl _)
      · exact ih hr ((above_of_parent hp).trans hrest)

theorem root_ne_of_parent (hp : t.parent v = some p) : v ≠ t.root := by
  rintro rfl
  rw [t.root_parent] at hp
  cases hp

theorem exists_parent (hv : v ∈ t.nodes) (hroot : v ≠ t.root) : ∃ p, t.parent v = some p := by
  rcases (root_above hv).eq_or_parent with heq | ⟨p, hp, -⟩
  · exact absurd heq.symm hroot
  · exact ⟨p, hp⟩

/-- The ancestors of a node form a chain. -/
theorem above_total (ha : t.Above a v) (hb : t.Above b v) : t.Above a b ∨ t.Above b a := by
  induction ha using ReflTransGen.head_induction_on with
  | refl => exact Or.inr hb
  | head hstep hrest ih =>
      rcases hb.eq_or_parent with rfl | ⟨q, hq, hbq⟩
      · exact Or.inl (ReflTransGen.head hstep hrest)
      · obtain rfl := Option.some.inj (hstep.symm.trans hq)
        exact ih hbq

/-- A proper ancestor has exactly one child on the way down. -/
theorem exists_child_above (h : t.Above a v) (hne : a ≠ v) :
    ∃ c, t.parent c = some a ∧ t.Above c v := by
  rcases ReflTransGen.cases_tail h with heq | ⟨c, hvc, hca⟩
  · exact absurd heq hne
  · exact ⟨c, hca, hvc⟩

theorem child_above_unique (ho : o ∈ t.nodes) (hc : t.parent c = some v) (hb : t.parent b = some v)
    (hco : t.Above c o) (hbo : t.Above b o) : c = b := by
  rcases above_total hco hbo with hcb | hbc
  · rcases hcb.eq_or_parent with heq | ⟨q, hq, hcq⟩
    · exact heq
    · obtain rfl := Option.some.inj (hb.symm.trans hq)
      exact absurd hcq (not_above_parent (hco.mem ho) hc)
  · rcases hbc.eq_or_parent with heq | ⟨q, hq, hbq⟩
    · exact heq.symm
    · obtain rfl := Option.some.inj (hc.symm.trans hq)
      exact absurd hbq (not_above_parent (hbo.mem ho) hb)

theorem mem_neighbours (hv : v ∈ t.nodes) :
    c ∈ t.neighbours v ↔ t.parent v = some c ∨ c ∈ t.nodes ∧ t.parent c = some v := by
  rw [neighbours, List.mem_append, Option.mem_toList, t.mem_children v hv]

theorem neighbours_nodup (hv : v ∈ t.nodes) : (t.neighbours v).Nodup := by
  rw [neighbours, List.nodup_append]
  refine ⟨by cases t.parent v <;> simp, t.children_nodup v hv, ?_⟩
  rintro p hp c hc rfl
  rw [Option.mem_toList] at hp
  obtain ⟨hcv, hchild⟩ := (t.mem_children v hv p).mp hc
  exact not_above_parent hv hp (above_of_parent hchild)

/-! ## Another root -/

section Reroot

variable (t) (o)

open Classical in
/-- The neighbour of `v` on the way to `o`. -/
noncomputable def toward (v : α) : Option α :=
  if v = o then none
  else if h : ∃ c, t.parent c = some v ∧ t.Above c o then some h.choose
  else t.parent v

theorem toward_self : t.toward o o = none := if_pos rfl

variable {t o}

theorem toward_of_child (hv : v ≠ o) (ho : o ∈ t.nodes) (hc : t.parent c = some v)
    (hco : t.Above c o) : t.toward o v = some c := by
  have hexists : ∃ c, t.parent c = some v ∧ t.Above c o := ⟨c, hc, hco⟩
  rw [toward, if_neg hv, dif_pos hexists]
  exact congrArg some
    (child_above_unique ho hexists.choose_spec.1 hc hexists.choose_spec.2 hco)

theorem toward_of_not_above (h : ¬ t.Above v o) : t.toward o v = t.parent v := by
  have hv : v ≠ o := by
    rintro rfl
    exact h (Above.refl _)
  have hnone : ¬ ∃ c, t.parent c = some v ∧ t.Above c o := by
    rintro ⟨c, hc, hco⟩
    exact h ((above_of_parent hc).trans hco)
  rw [toward, if_neg hv, dif_neg hnone]

/-- Every node but `o` is an ancestor of it, and then its way leads down, or it is not, and then its
way leads up. -/
theorem toward_cases (ho : o ∈ t.nodes) (hv : v ≠ o) :
    (∃ c, t.parent c = some v ∧ t.Above c o ∧ t.toward o v = some c) ∨
      ¬ t.Above v o ∧ t.toward o v = t.parent v := by
  by_cases habove : t.Above v o
  · obtain ⟨c, hc, hco⟩ := exists_child_above habove hv
    exact Or.inl ⟨c, hc, hco, toward_of_child hv ho hc hco⟩
  · exact Or.inr ⟨habove, toward_of_not_above habove⟩

theorem ne_of_toward (h : t.toward o v = some c) : v ≠ o := by
  rintro rfl
  rw [toward_self] at h
  cases h

/-- A neighbour that is not on the way to `o` is farther away. -/
theorem toward_of_neighbour (ho : o ∈ t.nodes) (hv : v ∈ t.nodes) (hc : c ∈ t.neighbours v)
    (hnot : t.toward o v ≠ some c) : c ∈ t.nodes ∧ t.toward o c = some v := by
  rcases (mem_neighbours hv).mp hc with hparent | ⟨hc, hchild⟩
  · -- The parent is farther away, so `v` is above `o`.
    have hvo : t.Above v o := by
      by_contra hbelow
      exact hnot ((toward_of_not_above hbelow).trans hparent)
    have hco : c ≠ o := by
      rintro rfl
      exact not_above_parent hv hparent hvo
    exact ⟨t.parent_mem v hv c hparent, toward_of_child hco ho hparent hvo⟩
  · -- A child is farther away, so it is not above `o`.
    have hbelow : ¬ t.Above c o := by
      intro hco
      have hvo : v ≠ o := by
        rintro rfl
        exact not_above_parent hc hchild hco
      exact hnot (toward_of_child hvo ho hchild hco)
    exact ⟨hc, (toward_of_not_above hbelow).trans hchild⟩

/-- Where the way leads to is a neighbour, and its own way does not lead back. -/
theorem neighbour_of_toward (ho : o ∈ t.nodes) (hv : v ∈ t.nodes) (hc : c ∈ t.nodes)
    (htoward : t.toward o c = some v) : c ∈ t.neighbours v ∧ t.toward o v ≠ some c := by
  rw [mem_neighbours hv]
  rcases toward_cases ho (ne_of_toward htoward) with ⟨d, hd, hdo, heq⟩ | ⟨hbelow, heq⟩
  · obtain rfl := Option.some.inj (heq.symm.trans htoward)
    refine ⟨Or.inl hd, fun hback => ?_⟩
    rcases toward_cases ho (ne_of_toward hback) with ⟨e, he, -, hdown⟩ | ⟨hnot, -⟩
    · obtain rfl := Option.some.inj (hdown.symm.trans hback)
      exact not_above_parent hv hd (above_of_parent he)
    · exact hnot hdo
  · rw [heq] at htoward
    refine ⟨Or.inr ⟨hc, htoward⟩, fun hback => ?_⟩
    rcases toward_cases ho (ne_of_toward hback) with ⟨e, he, heo, hdown⟩ | ⟨-, hup⟩
    · obtain rfl := Option.some.inj (hdown.symm.trans hback)
      exact hbelow heo
    · rw [hup] at hback
      exact not_above_parent hv hback (above_of_parent htoward)

/-- Of two neighbours one is on the way from the other, and only one. -/
theorem mem_neighbours_iff_toward (ho : o ∈ t.nodes) (hv : v ∈ t.nodes) :
    c ∈ t.neighbours v ∧ t.toward o v ≠ some c ↔ c ∈ t.nodes ∧ t.toward o c = some v :=
  ⟨fun h => toward_of_neighbour ho hv h.1 h.2, fun h => neighbour_of_toward ho hv h.1 h.2⟩

/-- Every node finds its way to `o`. -/
theorem toward_leads (ho : o ∈ t.nodes) (hv : v ∈ t.nodes) :
    ReflTransGen (fun c p => t.toward o c = some p) v o := by
  have hancestor : ∀ a, t.Above a o → ReflTransGen (fun c p => t.toward o c = some p) a o := by
    intro a ha
    induction ha with
    | refl => exact ReflTransGen.refl
    | @tail c a hco hstep ih =>
        have hao : a ≠ o := by
          rintro rfl
          exact not_above_parent (Above.mem hco ho) hstep hco
        exact ReflTransGen.head (toward_of_child hao ho hstep hco) ih
  have hway := t.rooted v hv
  induction hway using ReflTransGen.head_induction_on with
  | refl => exact hancestor _ (root_above ho)
  | @head v p hstep _ ih =>
      by_cases hvo : t.Above v o
      · exact hancestor v hvo
      · exact ReflTransGen.head ((toward_of_not_above hvo).trans hstep)
          (ih (t.parent_mem v hv p hstep))

open Classical in
/-- The same tree with root `o`. -/
noncomputable def reroot (t : LinkedTree α) (o : α) (ho : o ∈ t.nodes) : LinkedTree α where
  nodes := t.nodes
  parent := t.toward o
  children := fun v => (t.neighbours v).filter fun c => decide (t.toward o v ≠ some c)
  root := o
  root_mem := ho
  root_parent := t.toward_self o
  parent_mem := by
    intro v hv p hp
    by_cases hvo : v = o
    · rw [hvo, toward_self] at hp
      cases hp
    · rcases toward_cases ho hvo with ⟨c, -, hco, heq⟩ | ⟨-, heq⟩
      · obtain rfl := Option.some.inj (heq.symm.trans hp)
        exact hco.mem ho
      · exact t.parent_mem v hv p (heq ▸ hp)
  mem_children := by
    intro v hv c
    rw [List.mem_filter, decide_eq_true_eq]
    exact mem_neighbours_iff_toward ho hv
  children_nodup := fun v hv => (neighbours_nodup hv).filter _
  rooted := fun v hv => toward_leads ho hv

end Reroot

end LinkedTree

end PeatBtle
