import Mathlib.Data.List.Basic

/-!
# Standing in line

Entries join at the back and may leave from anywhere. Each has a ticket, the number of
those that joined before it, so that two equal entries can be told apart.
-/

namespace PeatBtle

@[ext] structure Line (α : Type) where
  waiting : List (Nat × α)
  issued : Nat
  ordered : waiting.Pairwise fun a b => a.1 < b.1
  fresh : ∀ entry ∈ waiting, entry.1 < issued

namespace Line

variable {α β : Type}

def empty : Line α := ⟨[], 0, List.Pairwise.nil, fun _ h => absurd h List.not_mem_nil⟩

def entries (line : Line α) : List α := line.waiting.map Prod.snd

def join (line : Line α) (x : α) : Line α where
  waiting := line.waiting ++ [(line.issued, x)]
  issued := line.issued + 1
  ordered := by
    refine List.pairwise_append.mpr ⟨line.ordered, List.pairwise_singleton _ _, ?_⟩
    intro a ha b hb
    rw [List.mem_singleton.mp hb]
    exact line.fresh a ha
  fresh := by
    intro entry h
    rcases List.mem_append.mp h with hold | hnew
    · exact Nat.lt_succ_of_lt (line.fresh entry hold)
    · rw [List.mem_singleton.mp hnew]
      exact Nat.lt_succ_self _

/-- Only the entries that pass a test stay. -/
def keep (line : Line α) (test : Nat × α → Bool) : Line α where
  waiting := line.waiting.filter test
  issued := line.issued
  ordered := line.ordered.filter test
  fresh := fun entry h => line.fresh entry (List.mem_filter.mp h).1

def leave (line : Line α) (ticket : Nat) : Line α := line.keep fun entry => entry.1 ≠ ticket

@[simp] theorem entries_empty : (empty : Line α).entries = [] := rfl

@[simp] theorem entries_join (line : Line α) (x : α) :
    (line.join x).entries = line.entries ++ [x] := by
  simp [entries, join]

@[simp] theorem issued_join (line : Line α) (x : α) : (line.join x).issued = line.issued + 1 := rfl

@[simp] theorem issued_keep (line : Line α) (test : Nat × α → Bool) :
    (line.keep test).issued = line.issued := rfl

@[simp] theorem issued_leave (line : Line α) (ticket : Nat) :
    (line.leave ticket).issued = line.issued := rfl

theorem entries_keep (line : Line α) (test : α → Bool) :
    (line.keep fun entry => test entry.2).entries = line.entries.filter test := by
  rw [entries, entries, List.filter_map]
  rfl

theorem keep_congr {line : Line α} {test test' : Nat × α → Bool}
    (h : ∀ entry ∈ line.waiting, test entry = test' entry) : line.keep test = line.keep test' :=
  Line.ext (List.filter_congr h) rfl

theorem mem_keep {line : Line α} {test : Nat × α → Bool} {entry : Nat × α} :
    entry ∈ (line.keep test).waiting ↔ entry ∈ line.waiting ∧ test entry = true :=
  List.mem_filter

theorem mem_leave {line : Line α} {ticket : Nat} {entry : Nat × α} :
    entry ∈ (line.leave ticket).waiting ↔ entry ∈ line.waiting ∧ entry.1 ≠ ticket := by
  rw [leave, mem_keep, decide_eq_true_iff]

/-- The others stand as they stood. -/
theorem waiting_leave {line : Line α} {front back : List (Nat × α)} {entry : Nat × α}
    (h : line.waiting = front ++ entry :: back) :
    (line.leave entry.1).waiting = front ++ back := by
  have hordered := line.ordered
  rw [h, List.pairwise_append, List.pairwise_cons] at hordered
  obtain ⟨-, ⟨hback, -⟩, hfront⟩ := hordered
  have hbefore : ∀ other ∈ front, decide (other.1 ≠ entry.1) = true := fun other hother =>
    decide_eq_true (Nat.ne_of_lt (hfront other hother entry List.mem_cons_self))
  have hbehind : ∀ other ∈ back, decide (other.1 ≠ entry.1) = true := fun other hother =>
    decide_eq_true (Nat.ne_of_gt (hback other hother))
  calc (line.leave entry.1).waiting
      = line.waiting.filter fun other => other.1 ≠ entry.1 := rfl
    _ = front ++ back := by
        rw [h, List.filter_append, List.filter_cons_of_neg (by simp),
          List.filter_eq_self.mpr hbefore, List.filter_eq_self.mpr hbehind]

/-- The entry that leaves is the one in its place, however many are equal to it. -/
theorem entries_leave {line : Line α} {i : Nat} (h : i < line.waiting.length) :
    (line.leave line.waiting[i].1).entries = line.entries.eraseIdx i := by
  have hsplit : line.waiting = line.waiting.take i ++ line.waiting[i] :: line.waiting.drop (i + 1) := by
    rw [← List.drop_eq_getElem_cons h, List.take_append_drop]
  rw [entries, waiting_leave hsplit, List.map_append, List.map_take, List.map_drop, entries,
    List.eraseIdx_eq_take_drop_succ]

def leaveAt (line : Line α) (i : Nat) : Line α :=
  match line.waiting[i]? with
  | some entry => line.leave entry.1
  | none => line

@[simp] theorem issued_leaveAt (line : Line α) (i : Nat) :
    (line.leaveAt i).issued = line.issued := by
  unfold leaveAt
  split <;> rfl

theorem leaveAt_eq {line : Line α} {i : Nat} (h : i < line.waiting.length) :
    line.leaveAt i = line.leave line.waiting[i].1 := by
  rw [leaveAt, List.getElem?_eq_getElem h]

theorem entries_leaveAt (line : Line α) (i : Nat) :
    (line.leaveAt i).entries = line.entries.eraseIdx i := by
  by_cases h : i < line.waiting.length
  · rw [leaveAt_eq h, entries_leave h]
  · have hnone : line.waiting[i]? = none := List.getElem?_eq_none (Nat.not_lt.mp h)
    have hshort : line.entries.length ≤ i := by
      rw [entries, List.length_map]
      exact Nat.not_lt.mp h
    rw [leaveAt, hnone, List.eraseIdx_of_length_le hshort]

theorem mem_of_mem_leaveAt {line : Line α} {i : Nat} {entry : Nat × α}
    (h : entry ∈ (line.leaveAt i).waiting) : entry ∈ line.waiting := by
  unfold leaveAt at h
  split at h
  · exact (mem_leave.mp h).1
  · exact h

/-! ## Who goes first -/

/-- None of the entries goes before it by rank, and those of its rank have joined later. -/
def GoesFirst (before : β → β → Prop) (rank : α → β) (line : Line α) (entry : Nat × α) : Prop :=
  entry ∈ line.waiting ∧ ∀ other ∈ line.waiting,
    before (rank entry.2) (rank other.2) ∨ rank entry.2 = rank other.2 ∧ entry.1 ≤ other.1

/-- The first place that holds an entry of the best rank. -/
theorem goesFirst_of_findIdx? [DecidableEq β] {before : β → β → Prop} {rank : α → β}
    {line : Line α} {best : β} {i : Nat}
    (hfound : line.entries.findIdx? (fun x => rank x = best) = some i)
    (hbest : ∀ x ∈ line.entries, before best (rank x) ∨ best = rank x) :
    ∃ h : i < line.waiting.length,
      rank line.waiting[i].2 = best ∧ line.GoesFirst before rank line.waiting[i] := by
  obtain ⟨hlt, hrank, hfirst⟩ := List.findIdx?_eq_some_iff_getElem.mp hfound
  simp only [entries, List.length_map, List.getElem_map, decide_eq_true_eq] at hlt hrank hfirst
  refine ⟨hlt, hrank, List.getElem_mem hlt, ?_⟩
  intro other hother
  obtain ⟨j, hj, rfl⟩ := List.mem_iff_getElem.mp hother
  rw [hrank]
  rcases hbest _ (List.mem_map_of_mem hother) with hbefore | heq
  · exact Or.inl hbefore
  · refine Or.inr ⟨heq, ?_⟩
    rcases Nat.lt_trichotomy i j with hij | rfl | hji
    · exact Nat.le_of_lt (List.pairwise_iff_getElem.mp line.ordered i j hlt hj hij)
    · exact Nat.le_refl _
    · exact absurd heq.symm (hfirst j hji)

end Line

end PeatBtle
