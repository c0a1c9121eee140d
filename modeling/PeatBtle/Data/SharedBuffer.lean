import Mathlib.Data.List.Count

/-!
# A buffer that readers share

Items wait in one buffer. Whoever reads it empties it, and keeps what he wants of it.
An item is therefore kept by the first who reads after it was put in, or by nobody.
-/

namespace PeatBtle.SharedBuffer

inductive Event (α ι : Type) where
  | put (item : α)
  | read (reader : ι) (kept : List α)
deriving DecidableEq

section Definitions

variable {α ι : Type}

def fill (pending : List α) : Event α ι → List α
  | .put item => pending ++ [item]
  | .read _ _ => []

/-- What was put in since the last reading. -/
def pendingOf (log : List (Event α ι)) : List α := log.foldl fill []

/-- Every reading keeps some part of what is pending, and which part does not depend on how often
an item is there. -/
def Empties (log : List (Event α ι)) : Prop :=
  ∀ past reader kept later, log = past ++ .read reader kept :: later →
    ∃ wanted : α → Bool, kept = (pendingOf past).filter wanted

def firstRead : List (Event α ι) → Option (ι × List α)
  | [] => none
  | .put _ :: log => firstRead log
  | .read reader kept :: _ => some (reader, kept)

/-- The reader is the first who reads, and keeps the item. -/
def GoesTo (reader : ι) (item : α) (log : List (Event α ι)) : Prop :=
  ∃ kept, firstRead log = some (reader, kept) ∧ item ∈ kept

variable [DecidableEq α] [DecidableEq ι]

/-- How often an item was put in. -/
def puts (item : α) : List (Event α ι) → Nat
  | [] => 0
  | .put other :: log => puts item log + if other = item then 1 else 0
  | .read _ _ :: log => puts item log

/-- How many copies of an item a reader has kept. -/
def copies (reader : ι) (item : α) : List (Event α ι) → Nat
  | [] => 0
  | .put _ :: log => copies reader item log
  | .read other kept :: log =>
      copies reader item log + if other = reader then kept.count item else 0

/-- From any point on, the reader keeps the item as often as it is put in: each time that it is put
in has a copy of its own later. -/
def Reaches (log : List (Event α ι)) (reader : ι) (item : α) : Prop :=
  ∀ past later, log = past ++ later → puts item later ≤ copies reader item later

end Definitions

section Logs

variable {α ι : Type} {log past later : List (Event α ι)} {reader other : ι} {item : α}

theorem pendingOf_append (log more : List (Event α ι)) :
    pendingOf (log ++ more) = more.foldl fill (pendingOf log) := List.foldl_append

theorem pendingOf_put (log : List (Event α ι)) (item : α) :
    pendingOf (log ++ [.put item]) = pendingOf log ++ [item] := pendingOf_append ..

theorem pendingOf_read (log : List (Event α ι)) (reader : ι) (kept : List α) :
    pendingOf (log ++ [.read reader kept]) = [] := pendingOf_append ..

theorem append_cons (past : List (Event α ι)) (event : Event α ι) (later : List (Event α ι)) :
    past ++ event :: later = past ++ [event] ++ later := by
  rw [List.append_assoc, List.singleton_append]

theorem GoesTo.unique (h : GoesTo reader item log) (hother : GoesTo other item log) :
    reader = other := by
  obtain ⟨kept, hfirst, -⟩ := h
  obtain ⟨kept', hfirst', -⟩ := hother
  exact congrArg Prod.fst (Option.some.inj (hfirst.symm.trans hfirst'))

theorem goesTo_put {put : α} :
    GoesTo reader item (.put put :: log) ↔ GoesTo reader item log := Iff.rfl

theorem goesTo_read {kept : List α} :
    GoesTo reader item (.read other kept :: log) ↔ other = reader ∧ item ∈ kept := by
  simp [GoesTo, firstRead]

variable [DecidableEq α] [DecidableEq ι]

/-- A copy that is kept later was pending before or is put in later. -/
theorem copies_le (h : Empties log) (hlog : log = past ++ later) :
    copies reader item later ≤ (pendingOf past).count item + puts item later := by
  induction later generalizing past with
  | nil => exact Nat.zero_le _
  | cons event later ih =>
      rw [append_cons] at hlog
      have hrest := ih hlog
      cases event with
      | put other =>
          rw [pendingOf_put, List.count_append, List.count_singleton] at hrest
          simp only [copies, puts, beq_iff_eq] at hrest ⊢
          omega
      | read other kept =>
          obtain ⟨wanted, rfl⟩ := h past other kept later (hlog.trans (append_cons ..).symm)
          have hkept : ((pendingOf past).filter wanted).count item ≤ (pendingOf past).count item :=
            List.filter_sublist.count_le item
          rw [pendingOf_read, List.count_nil] at hrest
          simp only [copies, puts]
          split <;> omega

/-- What is pending does not reach a reader if somebody else comes first, or he does not want it. -/
theorem copies_le_of_not_goesTo (h : Empties log) (hlog : log = past ++ later)
    (hnot : ¬ GoesTo reader item later) : copies reader item later ≤ puts item later := by
  induction later generalizing past with
  | nil => exact Nat.le_refl 0
  | cons event later ih =>
      rw [append_cons] at hlog
      cases event with
      | put other =>
          have hrest := ih hlog hnot
          simp only [copies, puts]
          omega
      | read other kept =>
          have hlater := @copies_le _ _ _ _ _ reader item _ _ h hlog
          rw [pendingOf_read, List.count_nil] at hlater
          rw [goesTo_read] at hnot
          simp only [copies, puts]
          split
          · rename_i heq
            rw [List.count_eq_zero.mpr fun hmem => hnot ⟨heq, hmem⟩]
            omega
          · omega

/-- If each time an item is put in it goes to the reader, then he keeps it as often, and what was
pending of it as well if that goes to him. -/
theorem puts_add_le (h : Empties log) (hlog : log = past ++ later)
    (hall : ∀ past later, log = past ++ .put item :: later → GoesTo reader item later) {n : Nat}
    (hn : n ≤ (pendingOf past).count item) (hgoes : n = 0 ∨ GoesTo reader item later) :
    puts item later + n ≤ copies reader item later := by
  induction later generalizing past n with
  | nil =>
      rcases hgoes with rfl | ⟨kept, hnone, -⟩
      · exact Nat.le_refl 0
      · cases hnone
  | cons event later ih =>
      have hsplit := hlog
      rw [append_cons] at hlog
      cases event with
      | put other =>
          simp only [puts, copies]
          by_cases heq : other = item
          · subst heq
            have hrest := @ih _ hlog (n + 1) (by
              rw [pendingOf_put, List.count_append, List.count_singleton_self]
              omega) (Or.inr (hall past later hsplit))
            rw [if_pos rfl]
            omega
          · have hrest := @ih _ hlog n (by
              rw [pendingOf_put, List.count_append]
              omega) hgoes
            rw [if_neg heq]
            omega
      | read other kept =>
          have hrest := @ih _ hlog 0 (Nat.zero_le _) (Or.inl rfl)
          simp only [puts, copies]
          rcases hgoes with rfl | hgoes
          · omega
          · obtain ⟨rfl, hmem⟩ := goesTo_read.mp hgoes
            obtain ⟨wanted, rfl⟩ := h past other kept later hsplit
            have hwanted := (List.mem_filter.mp hmem).2
            rw [if_pos rfl, List.count_filter hwanted]
            omega

/-- An item reaches a reader exactly if, each time it is put in, he is the first who reads and he
wants it. -/
theorem reaches_iff (h : Empties log) : Reaches log reader item ↔
    ∀ past later, log = past ++ .put item :: later → GoesTo reader item later := by
  constructor
  · intro hreaches past later hlog
    by_contra hnot
    have hfew := copies_le_of_not_goesTo h (hlog.trans (append_cons ..)) hnot
    have hmany := hreaches past (.put item :: later) hlog
    simp only [puts, copies, if_pos] at hmany
    omega
  · intro hall past later hlog
    exact puts_add_le h hlog hall (Nat.zero_le _) (Or.inl rfl)

/-- Of two readers, only one is reached. -/
theorem not_reaches_both (h : Empties log) (hne : reader ≠ other) (hput : .put item ∈ log)
    (hreader : Reaches log reader item) : ¬ Reaches log other item := by
  intro hother
  obtain ⟨past, later, hlog⟩ := List.append_of_mem hput
  have hgoes := (reaches_iff h).mp hreader past later hlog
  exact hne (hgoes.unique ((reaches_iff h).mp hother past later hlog))

end Logs

end PeatBtle.SharedBuffer
