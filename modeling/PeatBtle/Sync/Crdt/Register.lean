import Mathlib.Data.List.MinMax
import Mathlib.Data.Prod.Lex
import PeatBtle.Basic
import PeatBtle.Data.LoggedRun

/-!
# The last-writer-wins register

A register holds one value with the time and the node of its writer. A later time
wins, and at equal times the higher node. Writing and merging replace the entry under
the same test, so a register is left with the greatest stamp it has seen.
-/

namespace PeatBtle

structure LwwRegister (α : Type) where
  value : α
  timestamp : Timestamp
  nodeId : NodeId
deriving DecidableEq

namespace LwwRegister

variable {α : Type}

def shouldUpdate (reg : LwwRegister α) (timestamp : Timestamp) (nodeId : NodeId) : Bool :=
  timestamp > reg.timestamp || (timestamp == reg.timestamp && nodeId > reg.nodeId)

def set (reg : LwwRegister α) (value : α) (timestamp : Timestamp) (nodeId : NodeId) :
    LwwRegister α × Bool :=
  if reg.shouldUpdate timestamp nodeId then (⟨value, timestamp, nodeId⟩, true) else (reg, false)

def merge (reg other : LwwRegister α) : LwwRegister α × Bool :=
  if reg.shouldUpdate other.timestamp other.nodeId then
    (⟨other.value, other.timestamp, other.nodeId⟩, true)
  else (reg, false)

inductive Update (α : Type) where
  | set (value : α) (timestamp : Timestamp) (nodeId : NodeId)
  | merge (other : LwwRegister α)

/-- What an update offers. -/
def Update.entry : Update α → LwwRegister α
  | .set value timestamp nodeId => ⟨value, timestamp, nodeId⟩
  | .merge other => other

def update (reg : LwwRegister α) : Update α → LwwRegister α × Bool
  | .set value timestamp nodeId => reg.set value timestamp nodeId
  | .merge other => reg.merge other

def run (reg : LwwRegister α) (updates : List (Update α)) : LwwRegister α :=
  LoggedRun.run (fun reg u => (reg.update u).1) reg updates

/-- Time first, then the node. -/
def stamp (reg : LwwRegister α) : Nat ×ₗ Nat := toLex (reg.timestamp.toNat, reg.nodeId.toNat)

theorem shouldUpdate_iff (reg other : LwwRegister α) :
    reg.shouldUpdate other.timestamp other.nodeId = true ↔ reg.stamp < other.stamp := by
  rw [shouldUpdate, Bool.or_eq_true, Bool.and_eq_true, decide_eq_true_eq, beq_iff_eq,
    decide_eq_true_eq, gt_iff_lt, gt_iff_lt, UInt64.lt_iff_toNat_lt, UInt32.lt_iff_toNat_lt,
    ← UInt64.toNat_inj, eq_comm, stamp, stamp, Prod.Lex.toLex_lt_toLex]

/-- Both kinds of update do the same with what they offer. -/
theorem update_eq (reg : LwwRegister α) (u : Update α) :
    reg.update u = if reg.stamp < u.entry.stamp then (u.entry, true) else (reg, false) := by
  simp only [← shouldUpdate_iff]
  cases u <;> rfl

/-- The entries that a register has seen. -/
def seen (reg : LwwRegister α) (updates : List (Update α)) : List (LwwRegister α) :=
  reg :: updates.map Update.entry

theorem seen_subset (reg : LwwRegister α) {front updates : List (Update α)}
    (hfront : front <+: updates) : reg.seen front ⊆ reg.seen updates :=
  List.cons_subset_cons reg (hfront.map Update.entry).subset

theorem run_concat (reg : LwwRegister α) (updates : List (Update α)) (u : Update α) :
    reg.run (updates ++ [u]) = ((reg.run updates).update u).1 := LoggedRun.run_append ..

/-- An update that is acknowledged is one that replaces the entry. -/
theorem update_acknowledged_iff (reg : LwwRegister α) (u : Update α) :
    (reg.update u).2 = true ↔ (reg.update u).1 ≠ reg := by
  rw [update_eq]
  split
  · rename_i hlater
    exact iff_of_true rfl fun hsame => (congrArg stamp hsame).not_gt hlater
  · exact iff_of_false Bool.false_ne_true (not_not_intro rfl)

theorem argmax_seen (reg : LwwRegister α) (updates : List (Update α)) :
    (reg.seen updates).argmax stamp = some (reg.run updates) := by
  induction updates using List.reverseRecOn with
  | nil => exact List.argmax_singleton
  | append_singleton updates u ih =>
      have hseen : reg.seen (updates ++ [u]) = reg.seen updates ++ [u.entry] := by
        rw [seen, List.map_append]
        rfl
      rw [hseen, run_concat, List.argmax_concat, ih, update_eq]
      by_cases hlater : (reg.run updates).stamp < u.entry.stamp
      · simp only [if_pos hlater]
      · simp only [if_neg hlater]

/-- An entry of the list, and none has a greater stamp. -/
def Greatest (entries : List (LwwRegister α)) (reg : LwwRegister α) : Prop :=
  reg ∈ entries ∧ ∀ other ∈ entries, other.stamp ≤ reg.stamp

theorem greatest_run (reg : LwwRegister α) (updates : List (Update α)) :
    Greatest (reg.seen updates) (reg.run updates) :=
  ⟨List.argmax_mem (argmax_seen reg updates),
    fun _ hother => List.le_of_mem_argmax hother (argmax_seen reg updates)⟩

/-- A stamp determines the value. -/
def Determined (entries : List (LwwRegister α)) : Prop :=
  ∀ x ∈ entries, ∀ y ∈ entries, x.stamp = y.stamp → x.value = y.value

instance [DecidableEq α] (entries : List (LwwRegister α)) : Decidable (Determined entries) :=
  inferInstanceAs (Decidable (∀ x ∈ entries, ∀ y ∈ entries, x.stamp = y.stamp → x.value = y.value))

theorem Determined.mono {entries front : List (LwwRegister α)} (h : Determined entries)
    (hfront : front ⊆ entries) : Determined front :=
  fun x hx y hy => h x (hfront hx) y (hfront hy)

theorem eq_of_stamp {x y : LwwRegister α} (hstamp : x.stamp = y.stamp)
    (hvalue : x.value = y.value) : x = y := by
  obtain ⟨htime, hnode⟩ := Prod.mk.inj (toLex.injective hstamp)
  cases x
  cases y
  simp_all [UInt64.toNat_inj, UInt32.toNat_inj]

theorem Greatest.unique {entries : List (LwwRegister α)} (hdet : Determined entries)
    {x y : LwwRegister α} (hx : Greatest entries x) (hy : Greatest entries y) : x = y := by
  have hstamp : x.stamp = y.stamp := le_antisymm (hy.2 x hx.1) (hx.2 y hy.1)
  exact eq_of_stamp hstamp (hdet x hx.1 y hy.1 hstamp)

/-- Whatever the order, the mix and the repetitions, a register ends with the one entry of the
greatest stamp, and an update is acknowledged when it changes which one that is. -/
theorem lastWriterWins (reg : LwwRegister α) (updates : List (Update α))
    (hdet : Determined (reg.seen updates)) :
    (∀ entry, Greatest (reg.seen updates) entry ↔ entry = reg.run updates) ∧
      ∀ front u, front ++ [u] <+: updates →
        ∀ before after, Greatest (reg.seen front) before → Greatest (reg.seen (front ++ [u])) after →
          (((reg.run front).update u).2 = true ↔ after ≠ before) := by
  constructor
  · intro entry
    constructor
    · exact fun hentry => hentry.unique hdet (greatest_run reg updates)
    · rintro rfl
      exact greatest_run reg updates
  · intro front u hnext before after hbefore hafter
    have hfront : front <+: updates := (List.prefix_append front [u]).trans hnext
    rw [hbefore.unique (hdet.mono (seen_subset reg hfront)) (greatest_run reg front),
      hafter.unique (hdet.mono (seen_subset reg hnext)) (greatest_run reg (front ++ [u])),
      run_concat]
    exact update_acknowledged_iff _ u

/-- Two writes at one time, a register merged in that is older, and one of the writes again. -/
theorem lastWriterWins_tie :
    let reg : LwwRegister UInt32 := ⟨1, 100, 1⟩
    let updates : List (Update UInt32) :=
      [.set 2 100 2, .merge ⟨3, 90, 9⟩, .set 4 100 0, .set 2 100 2]
    Greatest (reg.seen updates) ⟨2, 100, 2⟩ := by
  intro reg updates
  exact ((lastWriterWins reg updates (by decide)).1 ⟨2, 100, 2⟩).mpr rfl

end LwwRegister

end PeatBtle
