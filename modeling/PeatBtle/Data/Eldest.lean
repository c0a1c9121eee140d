import PeatBtle.Data.MapMerge
import Mathlib.Data.List.MinMax

/-!
# The eldest entry of a map

Among the entries that pass a test, the one with the least stamp; of several, the one
that is listed first. In which order a map lists its entries is its own affair.
-/

namespace PeatBtle.Eldest

open Std

variable {α β : Type} {cmp : α → α → Ordering} [TransCmp cmp]

/-- An order in which maps list their entries. -/
structure Listing (α β : Type) (cmp : α → α → Ordering) [TransCmp cmp] where
  entries : ExtTreeMap α β cmp → List (α × β)
  perm : ∀ m, (entries m).Perm m.toList

namespace Listing

/-- By key. -/
def ascending : Listing α β cmp := ⟨ExtTreeMap.toList, fun _ => .refl _⟩

instance : Inhabited (Listing α β cmp) := ⟨ascending⟩

def place [DecidableEq α] (listing : Listing α β cmp) (m : ExtTreeMap α β cmp) (k : α) : Nat :=
  ((listing.entries m).map Prod.fst).idxOf k

variable {listing : Listing α β cmp} {m : ExtTreeMap α β cmp} {k k' : α} {v v' : β}

theorem nodup_keys [LawfulEqCmp cmp] (listing : Listing α β cmp) (m : ExtTreeMap α β cmp) :
    ((listing.entries m).map Prod.fst).Nodup := by
  rw [((listing.perm m).map Prod.fst).nodup_iff, ExtTreeMap.map_fst_toList_eq_keys]
  exact ExtTreeMap.nodup_keys

variable [LawfulEqCmp cmp]

theorem mem_entries : (k, v) ∈ listing.entries m ↔ m[k]? = some v :=
  (listing.perm m).mem_iff.trans ExtTreeMap.mem_toList_iff_getElem?_eq_some

variable [DecidableEq α]

/-- Two keys that are listed are in different places. -/
theorem eq_of_place_eq (hv : m[k]? = some v) (h : listing.place m k = listing.place m k') :
    k = k' := by
  have hmem : k ∈ (listing.entries m).map Prod.fst :=
    List.mem_map.mpr ⟨(k, v), mem_entries.mpr hv, rfl⟩
  exact (List.idxOf_inj hmem).mp h

theorem pairwise_place (listing : Listing α β cmp) (m : ExtTreeMap α β cmp) :
    (listing.entries m).Pairwise fun a b => listing.place m a.1 < listing.place m b.1 := by
  let keys := (listing.entries m).map Prod.fst
  have hplaces : keys.Pairwise fun a b => keys.idxOf a < keys.idxOf b := by
    refine List.pairwise_iff_getElem.mpr fun i j hi hj hij => ?_
    have hnodup := listing.nodup_keys m
    rw [hnodup.idxOf_getElem i hi, hnodup.idxOf_getElem j hj]
    exact hij
  have hentries := List.pairwise_map.mp hplaces
  exact hentries

end Listing

def eldest (listing : Listing α β cmp) (stamp : β → Nat) (test : β → Bool)
    (m : ExtTreeMap α β cmp) : Option α :=
  (((listing.entries m).filter fun entry => test entry.2).argmin fun entry => stamp entry.2).map
    Prod.fst

/-- A search through a list stops at the first of the least entries. -/
theorem le_of_argmin {γ : Type} {stamp place : γ → Nat} {entries : List γ} {found : γ}
    (hplaces : entries.Pairwise fun a b => place a < place b)
    (hfound : entries.argmin stamp = some found) : ∀ entry ∈ entries,
      stamp found < stamp entry ∨ stamp found = stamp entry ∧ place found ≤ place entry := by
  induction entries generalizing found with
  | nil => cases hfound
  | cons head rest ih =>
      obtain ⟨hhead, hrest⟩ := List.pairwise_cons.mp hplaces
      rw [List.argmin_cons] at hfound
      cases hlater : rest.argmin stamp with
      | none =>
          rw [hlater] at hfound
          obtain rfl := Option.some.inj hfound
          intro entry hentry
          rw [List.argmin_eq_none.mp hlater, List.mem_singleton] at hentry
          rw [hentry]
          exact Or.inr ⟨rfl, Nat.le_refl _⟩
      | some later =>
          rw [hlater] at hfound
          dsimp only at hfound
          intro entry hentry
          split at hfound
          · rename_i hless
            obtain rfl := Option.some.inj hfound
            rcases List.mem_cons.mp hentry with rfl | hmem
            · exact Or.inl hless
            · exact ih hrest hlater entry hmem
          · rename_i hnot
            obtain rfl := Option.some.inj hfound
            rcases List.mem_cons.mp hentry with rfl | hmem
            · exact Or.inr ⟨rfl, Nat.le_refl _⟩
            · have horder := hhead entry hmem
              rcases ih hrest hlater entry hmem with hlt | ⟨heq, -⟩
              · exact Or.inl (by omega)
              · omega

section Search

variable [LawfulEqCmp cmp] [DecidableEq α] {listing : Listing α β cmp} {stamp : β → Nat}
  {test : β → Bool} {m : ExtTreeMap α β cmp} {k : α}

/-- The first of two entries has the lesser stamp, or the same and is not listed later. -/
def Before (listing : Listing α β cmp) (stamp : β → Nat) (m : ExtTreeMap α β cmp) (k : α) (v : β)
    (k' : α) (v' : β) : Prop :=
  stamp v < stamp v' ∨ stamp v = stamp v' ∧ listing.place m k ≤ listing.place m k'

omit [DecidableEq α] in
theorem eldest_eq_none :
    eldest listing stamp test m = none ↔ ∀ (k : α) (v : β), m[k]? = some v → test v = false := by
  rw [eldest, Option.map_eq_none_iff, List.argmin_eq_none, List.filter_eq_nil_iff]
  constructor
  · intro h k v hv
    simpa using h (k, v) (Listing.mem_entries.mpr hv)
  · intro h entry hentry
    simp [h entry.1 entry.2 (Listing.mem_entries.mp hentry)]

/-- It passes the test, and none that does goes before it. -/
theorem of_eldest (h : eldest listing stamp test m = some k) :
    ∃ v, m[k]? = some v ∧ test v = true ∧ ∀ (k' : α) (v' : β), m[k']? = some v' →
      test v' = true → Before listing stamp m k v k' v' := by
  obtain ⟨⟨_, v⟩, hfound, rfl⟩ := Option.map_eq_some_iff.mp h
  have hmem := List.mem_filter.mp (List.argmin_mem hfound)
  refine ⟨v, Listing.mem_entries.mp hmem.1, hmem.2, ?_⟩
  intro k' v' hv' htest
  exact le_of_argmin ((listing.pairwise_place m).filter fun entry => test entry.2) hfound (k', v')
    (List.mem_filter.mpr ⟨Listing.mem_entries.mpr hv', htest⟩)

theorem eldest_eq_some_iff : eldest listing stamp test m = some k ↔
    ∃ v, m[k]? = some v ∧ test v = true ∧ ∀ (k' : α) (v' : β), m[k']? = some v' →
      test v' = true → Before listing stamp m k v k' v' := by
  refine ⟨of_eldest, ?_⟩
  rintro ⟨v, hv, htest, hfirst⟩
  cases hfound : eldest listing stamp test m with
  | none =>
      rw [eldest_eq_none.mp hfound k v hv] at htest
      cases htest
  | some k' =>
      obtain ⟨v', hv', htest', hfirst'⟩ := of_eldest hfound
      have hthere := hfirst k' v' hv' htest'
      have hback := hfirst' k v hv htest
      unfold Before at hthere hback
      have hplace : listing.place m k' = listing.place m k := by omega
      rw [Listing.eq_of_place_eq hv' hplace]

end Search

end PeatBtle.Eldest
