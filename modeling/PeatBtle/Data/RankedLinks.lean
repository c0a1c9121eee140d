import Mathlib.Data.Finset.Lattice.Fold
import PeatBtle.Data.LinkedTree

/-!
# Trees by rank

Finitely many nodes with links to parents and to children that agree. Where every parent
ranks higher than its children the links have no cycle, and the nodes below a node without
a parent are a tree.
-/

namespace PeatBtle

open Relation

structure RankedLinks (α : Type) where
  nodes : Finset α
  parent : α → Option α
  children : α → List α
  rank : α → Nat
  parent_mem : ∀ v ∈ nodes, ∀ p, parent v = some p → p ∈ nodes
  rank_lt : ∀ v ∈ nodes, ∀ p, parent v = some p → rank v < rank p
  mem_children : ∀ v ∈ nodes, ∀ c, c ∈ children v ↔ c ∈ nodes ∧ parent c = some v
  children_nodup : ∀ v ∈ nodes, (children v).Nodup

namespace RankedLinks

variable {α : Type} (l : RankedLinks α)

/-- One step up. -/
def Up (c p : α) : Prop := l.parent c = some p

variable {l} {v root : α}

/-- Going up ends at a node without a parent. -/
theorem exists_root (hv : v ∈ l.nodes) :
    ∃ root ∈ l.nodes, l.parent root = none ∧ ReflTransGen l.Up v root := by
  induction hheight : l.nodes.sup l.rank - l.rank v using Nat.strong_induction_on generalizing v with
  | _ height ih =>
      cases hparent : l.parent v with
      | none => exact ⟨v, hv, hparent, ReflTransGen.refl⟩
      | some p =>
          have hp := l.parent_mem v hv p hparent
          have hup := l.rank_lt v hv p hparent
          have htop : l.rank p ≤ l.nodes.sup l.rank := Finset.le_sup hp
          obtain ⟨root, hroot, hnone, hway⟩ := ih _ (by omega) hp rfl
          exact ⟨root, hroot, hnone, ReflTransGen.head hparent hway⟩

/-- A way up has no more nodes than there are ranks. -/
theorem length_le_of_isChain {top : Nat} (htop : ∀ w ∈ l.nodes, l.rank w ≤ top) {way : List α}
    (hway : way.IsChain l.Up) (hnodes : ∀ w ∈ way, w ∈ l.nodes) : way.length ≤ top + 1 := by
  have hfrom : ∀ (rest : List α) (v : α), (v :: rest).IsChain l.Up →
      (∀ w ∈ v :: rest, w ∈ l.nodes) → l.rank v + rest.length ≤ top := by
    intro rest
    induction rest with
    | nil =>
        intro v _ hmem
        exact htop v (hmem v List.mem_cons_self)
    | cons p rest ih =>
        intro v hchain hmem
        obtain ⟨hup, hrest⟩ := List.isChain_cons_cons.mp hchain
        have hlower := l.rank_lt v (hmem v List.mem_cons_self) p hup
        have hlater := ih p hrest fun w hw => hmem w (List.mem_cons_of_mem _ hw)
        rw [List.length_cons]
        omega
  cases way with
  | nil => exact Nat.zero_le _
  | cons v rest =>
      have hle := hfrom rest v hway hnodes
      rw [List.length_cons]
      omega

open Classical in
/-- The nodes below a node without a parent. -/
noncomputable def below (l : RankedLinks α) (root : α) (hroot : root ∈ l.nodes)
    (hnone : l.parent root = none) : LinkedTree α where
  nodes := l.nodes.filter fun v => ReflTransGen l.Up v root
  parent := l.parent
  children := l.children
  root := root
  root_mem := Finset.mem_filter.mpr ⟨hroot, ReflTransGen.refl⟩
  root_parent := hnone
  parent_mem := by
    intro v hv p hp
    obtain ⟨hmem, hway⟩ := Finset.mem_filter.mp hv
    refine Finset.mem_filter.mpr ⟨l.parent_mem v hmem p hp, ?_⟩
    rcases ReflTransGen.cases_head hway with rfl | ⟨q, hq, hrest⟩
    · rw [hnone] at hp
      cases hp
    · obtain rfl : q = p := Option.some.inj (hq.symm.trans hp)
      exact hrest
  mem_children := by
    intro v hv c
    obtain ⟨hmem, hway⟩ := Finset.mem_filter.mp hv
    rw [l.mem_children v hmem, Finset.mem_filter, and_assoc]
    refine and_congr_right fun _ => (and_iff_right_of_imp fun hc => ?_).symm
    exact ReflTransGen.head hc hway
  children_nodup v hv := l.children_nodup v (Finset.mem_filter.mp hv).1
  rooted v hv := (Finset.mem_filter.mp hv).2

/-- Every node is in a tree that the links make up. -/
theorem exists_tree (hv : v ∈ l.nodes) :
    ∃ tree : LinkedTree α, v ∈ tree.nodes ∧ tree.nodes ⊆ l.nodes ∧ tree.parent = l.parent ∧
      tree.children = l.children := by
  obtain ⟨root, hroot, hnone, hway⟩ := exists_root hv
  classical
  refine ⟨l.below root hroot hnone, ?_, ?_, rfl, rfl⟩
  · exact Finset.mem_filter.mpr ⟨hv, hway⟩
  · exact Finset.filter_subset _ _

end RankedLinks

end PeatBtle
