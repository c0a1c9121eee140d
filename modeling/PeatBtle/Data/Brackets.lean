import PeatBtle.Data.LoggedRun

/-!
# Brackets with keys

Some entries of a log open a key and some close one. A closing is matched where its key
has been opened before and has not been closed since; a key may be open more than once.
-/

namespace PeatBtle.Brackets

inductive Mark (κ : Type) where
  | opens (key : κ)
  | closes (key : κ)
deriving DecidableEq

variable {κ : Type} [DecidableEq κ]

/-- The keys that are open after some marks, where some were open before. -/
def pending : List κ → List (Mark κ) → List κ
  | waiting, [] => waiting
  | waiting, .opens key :: marks => pending (waiting ++ [key]) marks
  | waiting, .closes key :: marks => pending (waiting.erase key) marks

/-- Every closing closes an open key. -/
def Matched : List κ → List (Mark κ) → Prop
  | _, [] => True
  | waiting, .opens key :: marks => Matched (waiting ++ [key]) marks
  | waiting, .closes key :: marks => key ∈ waiting ∧ Matched (waiting.erase key) marks

instance decidableMatched : (waiting : List κ) → (marks : List (Mark κ)) →
    Decidable (Matched waiting marks)
  | _, [] => inferInstanceAs (Decidable True)
  | waiting, .opens key :: marks => decidableMatched (waiting ++ [key]) marks
  | waiting, .closes key :: marks =>
      have := decidableMatched (waiting.erase key) marks
      inferInstanceAs (Decidable (_ ∧ _))

theorem pending_append (waiting : List κ) (front back : List (Mark κ)) :
    pending waiting (front ++ back) = pending (pending waiting front) back := by
  induction front generalizing waiting with
  | nil => rfl
  | cons mark front ih =>
      cases mark with
      | opens key => exact ih (waiting ++ [key])
      | closes key => exact ih (waiting.erase key)

theorem matched_append (waiting : List κ) (front back : List (Mark κ)) :
    Matched waiting (front ++ back) ↔
      Matched waiting front ∧ Matched (pending waiting front) back := by
  induction front generalizing waiting with
  | nil => exact (and_iff_right trivial).symm
  | cons mark front ih =>
      cases mark with
      | opens key => exact ih (waiting ++ [key])
      | closes key => exact (and_congr_right fun _ => ih (waiting.erase key)).trans and_assoc.symm

theorem matched_toList_iff (waiting : List κ) (mark : Option (Mark κ)) :
    Matched waiting mark.toList ↔ ∀ key, mark = some (.closes key) → key ∈ waiting := by
  cases mark with
  | none => exact iff_of_true trivial fun key h => by cases h
  | some mark =>
      cases mark with
      | opens key => exact iff_of_true trivial fun other h => by cases h
      | closes key =>
          constructor
          · rintro ⟨hopen, -⟩ other h
            cases h
            exact hopen
          · exact fun h => ⟨h key rfl, trivial⟩

variable {σ α : Type} {step : σ → α → σ} {mark : σ → α → Option (Mark κ)}

/-- The marks of a run match if each closing is of a key that the run before it left open. -/
theorem matched_log_iff {waiting : List κ} {s : σ} {actions : List α} :
    Matched waiting (LoggedRun.log step mark s actions) ↔
      ∀ front action key, front ++ [action] <+: actions →
        mark (LoggedRun.run step s front) action = some (.closes key) →
        key ∈ pending waiting (LoggedRun.log step mark s front) := by
  induction actions generalizing waiting s with
  | nil =>
      refine iff_of_true trivial ?_
      intro front action key hfront
      exact absurd (List.prefix_nil.mp hfront) (by simp)
  | cons first actions ih =>
      rw [LoggedRun.log, matched_append, matched_toList_iff, ih]
      constructor
      · rintro ⟨hfirst, hrest⟩ front action key hfront hmark
        cases front with
        | nil =>
            obtain ⟨rfl, -⟩ := List.cons_prefix_cons.mp hfront
            exact hfirst key hmark
        | cons head front =>
            obtain ⟨rfl, htail⟩ := List.cons_prefix_cons.mp hfront
            rw [LoggedRun.log, pending_append]
            exact hrest front action key htail hmark
      · intro h
        refine ⟨fun key hmark => h [] first key ⟨actions, rfl⟩ hmark, ?_⟩
        intro front action key hfront hmark
        rw [← pending_append]
        exact h (first :: front) action key (List.cons_prefix_cons.mpr ⟨rfl, hfront⟩) hmark

end PeatBtle.Brackets
