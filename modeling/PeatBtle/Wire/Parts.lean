import Mathlib.Data.List.Basic

/-!
# The parts of a text

A text is cut behind a known start, at its first separator or at its last one. Where a part
holds no separator, the cuts agree on it.
-/

namespace PeatBtle.Wire

variable {α : Type} [DecidableEq α] {sep : α} {text front rest : List α}

/-- `strip_prefix`: what follows a known start. -/
def stripPrefix (start text : List α) : Option (List α) :=
  if start <+: text then some (text.drop start.length) else none

/-- `split_once`: what stands before and behind the first separator. -/
def splitOnce (sep : α) : List α → Option (List α × List α)
  | [] => none
  | x :: text =>
      if x = sep then some ([], text)
      else (splitOnce sep text).map fun parts => (x :: parts.1, parts.2)

/-- What stands behind the last separator, or all where there is none. -/
def lastPart (sep : α) (text : List α) : List α := (text.reverse.takeWhile (· ≠ sep)).reverse

theorem stripPrefix_append (start rest : List α) : stripPrefix start (start ++ rest) = some rest := by
  rw [stripPrefix, if_pos (List.prefix_append start rest), List.drop_left]

theorem of_stripPrefix {start : List α} (h : stripPrefix start text = some rest) :
    text = start ++ rest := by
  unfold stripPrefix at h
  split at h
  · rename_i hstart
    obtain ⟨back, rfl⟩ := hstart
    rw [List.drop_left] at h
    rw [Option.some.inj h]
  · cases h

theorem splitOnce_append (hfront : sep ∉ front) (rest : List α) :
    splitOnce sep (front ++ sep :: rest) = some (front, rest) := by
  induction front with
  | nil => exact if_pos rfl
  | cons x front ih =>
      have hx : x ≠ sep := fun heq => hfront (heq ▸ List.mem_cons_self)
      rw [List.cons_append, splitOnce, if_neg hx, ih fun h => hfront (List.mem_cons_of_mem _ h)]
      rfl

theorem of_splitOnce (h : splitOnce sep text = some (front, rest)) :
    text = front ++ sep :: rest ∧ sep ∉ front := by
  induction text generalizing front with
  | nil => cases h
  | cons x text ih =>
      rw [splitOnce] at h
      by_cases hx : x = sep
      · rw [if_pos hx] at h
        obtain ⟨rfl, rfl⟩ := Prod.mk.inj (Option.some.inj h)
        exact ⟨by rw [hx]; rfl, List.not_mem_nil⟩
      · rw [if_neg hx] at h
        obtain ⟨parts, hparts, heq⟩ := Option.map_eq_some_iff.mp h
        obtain ⟨rfl, rfl⟩ := Prod.mk.inj heq
        obtain ⟨rfl, hfront⟩ := ih hparts
        refine ⟨rfl, fun hmem => ?_⟩
        rcases List.mem_cons.mp hmem with rfl | hrest
        · exact hx rfl
        · exact hfront hrest

theorem lastPart_append (front : List α) (hrest : sep ∉ rest) :
    lastPart sep (front ++ sep :: rest) = rest := by
  have hall : ∀ x ∈ rest.reverse, decide (x ≠ sep) = true := by
    intro x hx
    rw [decide_eq_true_iff]
    rintro rfl
    exact hrest (List.mem_reverse.mp hx)
  rw [lastPart, List.reverse_append, List.reverse_cons, List.append_assoc, List.singleton_append,
    List.takeWhile_append_of_pos hall, List.takeWhile_cons_of_neg (by simp), List.append_nil,
    List.reverse_reverse]

end PeatBtle.Wire
