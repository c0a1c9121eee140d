import Mathlib.Data.Finset.Card
import Mathlib.Data.Finset.Lattice.Fold
import Mathlib.Data.Finset.Max

/-!
# The greatest members of a set

A set is cut down to its greatest members, as many as there is room for. What is cut
off could not have stayed in a larger set either, so it does not matter when it goes.
-/

namespace PeatBtle.TopK

variable {α : Type} [LinearOrder α]

/-- The members that fewer than `k` others exceed. -/
def top (k : Nat) (s : Finset α) : Finset α := s.filter fun x => (s.filter (x < ·)).card < k

variable {k : Nat} {s t : Finset α} {x : α}

theorem mem_top : x ∈ top k s ↔ x ∈ s ∧ (s.filter (x < ·)).card < k := Finset.mem_filter

theorem top_subset (k : Nat) (s : Finset α) : top k s ⊆ s := Finset.filter_subset _ _

theorem above_subset (h : s ⊆ t) (x : α) : s.filter (x < ·) ⊆ t.filter (x < ·) :=
  Finset.filter_subset_filter _ h

/-- Whoever is among the greatest stays there when others leave. -/
theorem mem_top_of_subset (h : s ⊆ t) (hx : x ∈ s) (htop : x ∈ top k t) : x ∈ top k s :=
  mem_top.mpr ⟨hx, (Finset.card_le_card (above_subset h x)).trans_lt (mem_top.mp htop).2⟩

theorem top_eq_self (h : s.card ≤ k) : top k s = s := by
  refine (top_subset k s).antisymm fun x hx => mem_top.mpr ⟨hx, ?_⟩
  have hproper : s.filter (x < ·) ⊂ s :=
    Finset.filter_ssubset.mpr ⟨x, hx, lt_irrefl x⟩
  exact (Finset.card_lt_card hproper).trans_le h

/-- A set between the greatest members and the whole has the same greatest members. -/
theorem top_eq_of_between (hinner : top k t ⊆ s) (houter : s ⊆ t) : top k s = top k t := by
  refine Finset.Subset.antisymm ?_ fun x hx => mem_top_of_subset houter (hinner hx) hx
  intro x hx
  obtain ⟨hmem, habove⟩ := mem_top.mp hx
  by_contra hout
  -- The greatest of those from `x` on that are not among the greatest: `k` of them exceed it.
  have hnonempty : (t.filter fun y => x ≤ y ∧ y ∉ top k t).Nonempty :=
    ⟨x, Finset.mem_filter.mpr ⟨houter hmem, le_refl x, hout⟩⟩
  obtain ⟨y, hy, hgreatest⟩ := Finset.exists_max_image _ id hnonempty
  obtain ⟨hyt, hxy, hyout⟩ := Finset.mem_filter.mp hy
  have hsame : t.filter (y < ·) ⊆ s.filter (x < ·) := by
    intro z hz
    obtain ⟨hzt, hyz⟩ := Finset.mem_filter.mp hz
    have hztop : z ∈ top k t := by
      by_contra hzout
      have hle := hgreatest z (Finset.mem_filter.mpr ⟨hzt, hxy.trans hyz.le, hzout⟩)
      exact absurd hyz (not_lt_of_ge hle)
    exact Finset.mem_filter.mpr ⟨hinner hztop, hxy.trans_lt hyz⟩
  exact hyout (mem_top.mpr ⟨hyt, (Finset.card_le_card hsame).trans_lt habove⟩)

/-- The least member goes when there are too many. -/
theorem top_erase_min (hmin : ∀ y ∈ s, x ≤ y) (hcard : k < s.card) :
    top k (s.erase x) = top k s := by
  refine top_eq_of_between (fun y hy => Finset.mem_erase.mpr ⟨?_, top_subset k s hy⟩)
    (Finset.erase_subset x s)
  rintro rfl
  have habove : s.erase y ⊆ s.filter (y < ·) := by
    intro z hz
    obtain ⟨hne, hzs⟩ := Finset.mem_erase.mp hz
    exact Finset.mem_filter.mpr ⟨hzs, lt_of_le_of_ne (hmin z hzs) (Ne.symm hne)⟩
  have hle := Finset.card_le_card habove
  have hpred := Finset.pred_card_le_card_erase (a := y) (s := s)
  have hlt := (mem_top.mp hy).2
  omega

/-- Cutting a part down first makes no difference. -/
theorem top_union_top (k : Nat) (s t : Finset α) : top k (top k s ∪ t) = top k (s ∪ t) := by
  refine top_eq_of_between ?_ (Finset.union_subset_union_left (top_subset k s))
  intro x hx
  rcases Finset.mem_union.mp (top_subset k _ hx) with hs | ht
  · exact Finset.mem_union_left t (mem_top_of_subset Finset.subset_union_left hs hx)
  · exact Finset.mem_union_right _ ht

/-- Sets that are added one after the other, with a cut after each. -/
theorem foldl_top (k : Nat) (s : Finset α) (sets : List (Finset α)) :
    sets.foldl (fun held added => top k (held ∪ added)) (top k s) =
      top k (s ∪ sets.foldr (· ∪ ·) ∅) := by
  induction sets generalizing s with
  | nil => rw [List.foldr_nil, Finset.union_empty, List.foldl_nil]
  | cons added sets ih =>
      rw [List.foldl_cons, top_union_top, ih, List.foldr_cons, Finset.union_assoc]

/-- All are kept, or as many as there is room for. -/
theorem card_top (k : Nat) (s : Finset α) : (top k s).card = min k s.card := by
  induction hcard : s.card using Nat.strong_induction_on generalizing s with
  | _ n ih =>
      rcases Nat.lt_or_ge k n with hmore | hfew
      · -- The least member is not kept, and without it the set is smaller.
        have hnonempty : s.Nonempty := Finset.card_pos.mp (by omega)
        have herase : (s.erase (s.min' hnonempty)).card = n - 1 := by
          rw [Finset.card_erase_of_mem (s.min'_mem hnonempty), hcard]
        have hleast : ∀ y ∈ s, s.min' hnonempty ≤ y := fun y hy => s.min'_le y hy
        rw [← top_erase_min hleast (by omega), ih (n - 1) (by omega) _ herase]
        omega
      · rw [top_eq_self (by omega), hcard]
        omega

/-! ## By a key -/

section Key

variable {β : Type} (k : Nat) (f : β → α) (s : Finset β)

/-- The members whose key fewer than `k` others exceed. -/
def topBy : Finset β := s.filter fun x => (s.filter (f x < f ·)).card < k

variable {k f s}

theorem mem_topBy {x : β} : x ∈ topBy k f s ↔ x ∈ s ∧ (s.filter (f x < f ·)).card < k :=
  Finset.mem_filter

/-- Of a list with falling keys the greatest members stand in front. -/
theorem mem_take_iff [DecidableEq β] {l : List β} (hl : l.Pairwise fun a b => f b < f a)
    {x : β} : x ∈ l.take k ↔ x ∈ topBy k f l.toFinset := by
  induction l generalizing k with
  | nil => simp [topBy]
  | cons a l ih =>
      obtain ⟨hgreatest, hrest⟩ := List.pairwise_cons.mp hl
      cases k with
      | zero => simp [topBy]
      | succ k =>
          have hfront : ((a :: l).toFinset.filter (f a < f ·)).card = 0 := by
            rw [Finset.card_eq_zero, Finset.filter_eq_empty_iff]
            intro y hy
            rcases List.mem_cons.mp (List.mem_toFinset.mp hy) with rfl | hy
            · exact lt_irrefl _
            · exact not_lt_of_gt (hgreatest y hy)
          have hbehind {y : β} (hy : y ∈ l) : ((a :: l).toFinset.filter (f y < f ·)).card =
              (l.toFinset.filter (f y < f ·)).card + 1 := by
            rw [List.toFinset_cons, Finset.filter_insert, if_pos (hgreatest y hy)]
            refine Finset.card_insert_of_notMem fun ha => ?_
            have hmem := List.mem_toFinset.mp (Finset.mem_filter.mp ha).1
            exact lt_irrefl _ (hgreatest a hmem)
          rw [List.take_succ_cons, List.mem_cons, ih hrest, mem_topBy, mem_topBy,
            List.mem_toFinset, List.mem_toFinset, List.mem_cons]
          constructor
          · rintro (rfl | ⟨hmem, hfew⟩)
            · exact ⟨Or.inl rfl, by omega⟩
            · exact ⟨Or.inr hmem, by rw [hbehind hmem]; omega⟩
          · rintro ⟨rfl | hmem, hfew⟩
            · exact Or.inl rfl
            · rw [hbehind hmem] at hfew
              exact Or.inr ⟨hmem, by omega⟩

variable (hinj : Set.InjOn f s)
include hinj

/-- Keys that are told apart can be counted instead of their members. -/
theorem key_mem_top_iff {x : β} (hx : x ∈ s) : f x ∈ top k (s.image f) ↔ x ∈ topBy k f s := by
  have habove : (s.image f).filter (f x < ·) = (s.filter (f x < f ·)).image f :=
    Finset.filter_image
  have hcard : ((s.filter (f x < f ·)).image f).card = (s.filter (f x < f ·)).card :=
    Finset.card_image_of_injOn (hinj.mono (Finset.coe_subset.mpr (Finset.filter_subset _ _)))
  rw [mem_top, mem_topBy, habove, hcard]
  exact and_congr_left fun _ => iff_of_true (Finset.mem_image_of_mem f hx) hx

theorem card_topBy : (topBy k f s).card = min k s.card := by
  have himage : (topBy k f s).image f = top k (s.image f) := by
    ext y
    rw [Finset.mem_image]
    constructor
    · rintro ⟨x, hx, rfl⟩
      exact (key_mem_top_iff hinj (mem_topBy.mp hx).1).mpr hx
    · intro hy
      obtain ⟨x, hx, rfl⟩ := Finset.mem_image.mp (top_subset _ _ hy)
      exact ⟨x, (key_mem_top_iff hinj hx).mp hy, rfl⟩
  have hsubset : Set.InjOn f (topBy k f s) :=
    hinj.mono (Finset.coe_subset.mpr (Finset.filter_subset _ _))
  rw [← Finset.card_image_of_injOn hsubset, himage, card_top, Finset.card_image_of_injOn hinj]

/-- Who is left out stands in a relation to `k` of those that stay exactly if it does to all. -/
theorem left_out_iff {r : β → β → Prop} [DecidableRel r] :
    (∀ x ∈ s, x ∉ topBy k f s → k ≤ ((topBy k f s).filter (r x ·)).card) ↔
      ∀ x ∈ s, k ≤ (s.filter (f x < f ·)).card → ∀ y ∈ s, (s.filter (f y < f ·)).card < k →
        r x y := by
  have hout {x : β} (hx : x ∈ s) : x ∉ topBy k f s ↔ k ≤ (s.filter (f x < f ·)).card := by
    rw [mem_topBy, and_iff_right hx, Nat.not_lt]
  constructor
  · intro h x hx hbehind y hy hahead
    have hall : (topBy k f s).filter (r x ·) = topBy k f s := by
      refine Finset.eq_of_subset_of_card_le (Finset.filter_subset _ _) ?_
      rw [card_topBy hinj]
      exact (Nat.min_le_left ..).trans (h x hx ((hout hx).mpr hbehind))
    have hkept : y ∈ (topBy k f s).filter (r x ·) := by
      rw [hall]
      exact mem_topBy.mpr ⟨hy, hahead⟩
    exact (Finset.mem_filter.mp hkept).2
  · intro h x hx habsent
    have hbehind := (hout hx).mp habsent
    have hall : (topBy k f s).filter (r x ·) = topBy k f s := by
      refine Finset.filter_true_of_mem fun y hy => ?_
      obtain ⟨hmem, hahead⟩ := mem_topBy.mp hy
      exact h x hx hbehind y hmem hahead
    have hmany := hbehind.trans (Finset.card_le_card (Finset.filter_subset _ _))
    rw [hall, card_topBy hinj]
    exact Nat.le_min.mpr ⟨Nat.le_refl k, hmany⟩

end Key

end PeatBtle.TopK
