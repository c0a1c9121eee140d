import Mathlib.Order.Basic
import Mathlib.Order.Lattice
import PeatBtle.Sync.Delta

/-!
# The causal order of vector clocks

A clock stands for the function that counts the events of each node, and a missing
entry counts none. Comparing two clocks walks their maps one after the other; the
outcome is the pointwise order of the functions.
-/

namespace PeatBtle.VectorClock

open Std Wire MapMerge

def get (clock : VectorClock) (node : NodeId) : UInt64 := clock.clocks[node]?.getD 0

def merge (clock other : VectorClock) : VectorClock :=
  ⟨mergeWith 0 max clock.clocks other.clocks⟩

/-- The loop over our clocks. It returns early, with nothing, at the first one ahead of theirs. -/
def compareOurs (theirs : Map UInt32 UInt64) : List (UInt32 × UInt64) → Bool → Option Bool
  | [], dominated => some dominated
  | (nodeId, ourVal) :: rest, dominated =>
      let theirVal := theirs[nodeId]?.getD 0
      if ourVal > theirVal then none
      else if ourVal < theirVal then compareOurs theirs rest true
      else compareOurs theirs rest dominated

/-- The loop over the clocks that they have and we do not. -/
def compareTheirs (ours : Map UInt32 UInt64) (theirs : List (UInt32 × UInt64))
    (dominated : Bool) : Bool :=
  theirs.foldl (fun dominated entry =>
    if !ours.contains entry.1 && decide (entry.2 > 0) then true else dominated) dominated

def happensBefore (clock other : VectorClock) : Bool :=
  match compareOurs other.clocks clock.clocks.toList false with
  | none => false
  | some dominated => compareTheirs clock.clocks other.clocks.toList dominated

def concurrentWith (clock other : VectorClock) : Bool :=
  !clock.happensBefore other && !other.happensBefore clock

/-! ## The two loops -/

theorem compareOurs_eq_some_iff {theirs : Map UInt32 UInt64} {entries : List (UInt32 × UInt64)}
    {dominated outcome : Bool} :
    compareOurs theirs entries dominated = some outcome ↔
      (∀ entry ∈ entries, entry.2 ≤ theirs[entry.1]?.getD 0) ∧
        outcome = (dominated || entries.any fun entry => entry.2 < theirs[entry.1]?.getD 0) := by
  induction entries generalizing dominated with
  | nil => simp [compareOurs, eq_comm]
  | cons entry rest ih =>
      obtain ⟨nodeId, ourVal⟩ := entry
      simp only [compareOurs, List.forall_mem_cons, List.any_cons]
      by_cases hahead : ourVal > theirs[nodeId]?.getD 0
      · simp [if_pos hahead, UInt64.not_le.mpr hahead]
      · rw [if_neg hahead]
        by_cases hbehind : ourVal < theirs[nodeId]?.getD 0
        · simp [ih, hbehind, UInt64.le_of_lt hbehind]
        · simp [ih, hbehind, UInt64.not_lt.mp hahead]

theorem compareTheirs_eq_true_iff {ours : Map UInt32 UInt64} {theirs : List (UInt32 × UInt64)}
    {dominated : Bool} :
    compareTheirs ours theirs dominated = true ↔
      dominated = true ∨ ∃ entry ∈ theirs, entry.1 ∉ ours ∧ 0 < entry.2 := by
  induction theirs generalizing dominated with
  | nil => simp [compareTheirs]
  | cons entry rest ih =>
      rw [compareTheirs, List.foldl_cons, ← compareTheirs, ih, List.exists_mem_cons_iff, ← or_assoc]
      refine or_congr ?_ Iff.rfl
      have htest : (!ours.contains entry.1 && decide (entry.2 > 0)) = true ↔
          entry.1 ∉ ours ∧ 0 < entry.2 := by
        rw [Bool.and_eq_true, Bool.not_eq_true', ← Bool.not_eq_true, ExtTreeMap.contains_iff_mem,
          decide_eq_true_eq]
      rw [← htest]
      cases (!ours.contains entry.1 && decide (entry.2 > 0)) <;> simp

/-! ## The order of the counts -/

theorem get_of_entry {clock : VectorClock} {entry : UInt32 × UInt64}
    (hentry : entry ∈ clock.clocks.toList) : clock.get entry.1 = entry.2 := by
  rw [get, ExtTreeMap.mem_toList_iff_getElem?_eq_some.mp hentry]
  rfl

/-- A node counts through its entry, or not at all. -/
theorem entry_or_zero (clock : VectorClock) (node : NodeId) :
    (node, clock.get node) ∈ clock.clocks.toList ∨ node ∉ clock.clocks ∧ clock.get node = 0 := by
  cases hentry : clock.clocks[node]? with
  | some value =>
      have hget : clock.get node = value := by rw [get, hentry]; rfl
      rw [hget]
      exact Or.inl (ExtTreeMap.mem_toList_iff_getElem?_eq_some.mpr hentry)
  | none =>
      have hmissing : ¬ node ∈ clock.clocks := by
        rw [ExtTreeMap.mem_iff_isSome_getElem?, hentry]
        exact Bool.false_ne_true
      refine Or.inr ⟨hmissing, ?_⟩
      rw [get, hentry]
      rfl

/-- What the two loops find: no entry of ours is ahead, and one of ours or theirs is behind. -/
theorem happensBefore_iff_entries (a b : VectorClock) :
    a.happensBefore b = true ↔
      (∀ entry ∈ a.clocks.toList, entry.2 ≤ b.get entry.1) ∧
        ((∃ entry ∈ a.clocks.toList, entry.2 < b.get entry.1) ∨
          ∃ entry ∈ b.clocks.toList, entry.1 ∉ a.clocks ∧ 0 < entry.2) := by
  unfold happensBefore
  cases hours : compareOurs b.clocks a.clocks.toList false with
  | none =>
      refine iff_of_false Bool.false_ne_true ?_
      rintro ⟨hle, -⟩
      have hsome : compareOurs b.clocks a.clocks.toList false = some _ :=
        compareOurs_eq_some_iff.mpr ⟨hle, rfl⟩
      rw [hours] at hsome
      cases hsome
  | some dominated =>
      obtain ⟨hle, rfl⟩ := compareOurs_eq_some_iff.mp hours
      rw [compareTheirs_eq_true_iff, Bool.false_or, List.any_eq_true]
      simp only [decide_eq_true_eq]
      exact (and_iff_right hle).symm

theorem happensBefore_iff (a b : VectorClock) :
    a.happensBefore b = true ↔
      (∀ node, a.get node ≤ b.get node) ∧ ∃ node, a.get node < b.get node := by
  rw [happensBefore_iff_entries]
  constructor
  · rintro ⟨hle, hbehind⟩
    constructor
    · intro node
      rcases entry_or_zero a node with hentry | ⟨-, hzero⟩
      · exact hle _ hentry
      · rw [hzero]
        exact UInt64.zero_le
    · rcases hbehind with ⟨entry, hentry, hlt⟩ | ⟨entry, hentry, hmissing, hpos⟩
      · exact ⟨entry.1, by rwa [get_of_entry hentry]⟩
      · refine ⟨entry.1, ?_⟩
        rcases entry_or_zero a entry.1 with hours | ⟨-, hzero⟩
        · have hget := ExtTreeMap.mem_toList_iff_getElem?_eq_some.mp hours
          exact absurd (mem_of_getElem? hget) hmissing
        · rwa [hzero, get_of_entry hentry]
  · rintro ⟨hle, node, hlt⟩
    refine ⟨fun entry hentry => get_of_entry hentry ▸ hle entry.1, ?_⟩
    rcases entry_or_zero a node with hours | ⟨hmissing, hzero⟩
    · exact Or.inl ⟨_, hours, hlt⟩
    · rw [hzero] at hlt
      rcases entry_or_zero b node with htheirs | ⟨-, hnone⟩
      · exact Or.inr ⟨_, htheirs, hmissing, hlt⟩
      · exact absurd (hnone ▸ hlt) (by decide)

/-- How many events of each node the clock has seen. -/
def counts (clock : VectorClock) (node : NodeId) : Nat := (clock.get node).toNat

theorem happensBefore_iff_lt (a b : VectorClock) :
    a.happensBefore b = true ↔ a.counts < b.counts := by
  rw [happensBefore_iff, Pi.lt_def]
  rfl

/-- Clocks are concurrent if they count the same or each is ahead somewhere. -/
theorem concurrentWith_iff (a b : VectorClock) :
    a.concurrentWith b = true ↔
      a.counts = b.counts ∨ ¬ a.counts ≤ b.counts ∧ ¬ b.counts ≤ a.counts := by
  rw [concurrentWith, Bool.and_eq_true, Bool.not_eq_true', Bool.not_eq_true',
    ← Bool.not_eq_true, ← Bool.not_eq_true, happensBefore_iff_lt, happensBefore_iff_lt]
  constructor
  · rintro ⟨hab, hba⟩
    by_cases hle : a.counts ≤ b.counts
    · exact Or.inl (eq_of_le_of_not_lt hle hab)
    · exact Or.inr ⟨hle, fun hge => hba (lt_of_le_not_ge hge hle)⟩
  · rintro (heq | ⟨hab, hba⟩)
    · rw [heq]
      exact ⟨lt_irrefl _, lt_irrefl _⟩
    · exact ⟨fun hlt => hab hlt.le, fun hlt => hba hlt.le⟩

theorem counts_merge (a b : VectorClock) : (a.merge b).counts = a.counts ⊔ b.counts := by
  funext node
  show (get _ node).toNat = max (a.get node).toNat (b.get node).toNat
  unfold get merge
  rw [getElem?_mergeWith]
  cases b.clocks[node]? with
  | none => exact (Nat.max_eq_left (Nat.zero_le _)).symm
  | some value => exact toNat_max _ value

/-- The comparison is the strict pointwise order, and a merge is the least upper bound. -/
theorem happensBefore_order (a b c : VectorClock) :
    (a.happensBefore b = true ↔
        (∀ node, a.get node ≤ b.get node) ∧ ∃ node, a.get node < b.get node) ∧
      a.happensBefore a = false ∧
      (a.happensBefore b = true → b.happensBefore a = false) ∧
      (a.happensBefore b = true → b.happensBefore c = true → a.happensBefore c = true) ∧
      (∀ node, a.get node ≤ (a.merge b).get node ∧ b.get node ≤ (a.merge b).get node) ∧
      ((∀ node, a.get node ≤ c.get node ∧ b.get node ≤ c.get node) →
        ∀ node, (a.merge b).get node ≤ c.get node) := by
  refine ⟨happensBefore_iff a b, ?_, ?_, ?_, ?_, ?_⟩
  · rw [← Bool.not_eq_true, happensBefore_iff_lt]
    exact lt_irrefl _
  · rw [← Bool.not_eq_true, happensBefore_iff_lt, happensBefore_iff_lt]
    exact lt_asymm
  · rw [happensBefore_iff_lt, happensBefore_iff_lt, happensBefore_iff_lt]
    exact fun hab hbc => hab.trans hbc
  · have hleft : a.counts ≤ (a.merge b).counts := (counts_merge a b).symm ▸ le_sup_left
    have hright : b.counts ≤ (a.merge b).counts := (counts_merge a b).symm ▸ le_sup_right
    exact fun node => ⟨hleft node, hright node⟩
  · intro habove
    have hleast : (a.merge b).counts ≤ c.counts := by
      rw [counts_merge]
      exact sup_le (fun node => (habove node).1) (fun node => (habove node).2)
    exact hleast

end PeatBtle.VectorClock
