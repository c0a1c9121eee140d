/-!
# What goes in comes out

Items are put into a reservoir, which is now and then drained or dropped. What has
been drained, followed by what is held, is what was put in except for the items
whose next drain or drop is a drop.
-/

namespace PeatBtle.Reservoir

inductive Move (α : Type) where
  | put (item : α)
  | drain
  | drop

variable {α : Type}

def hold (held : List α) : Move α → List α
  | .put item => held ++ [item]
  | .drain => []
  | .drop => []

/-- What was put in after the last drain or drop. -/
def held (moves : List (Move α)) : List α := moves.foldl hold []

/-- What one move lets out. -/
def out (held : List α) : Move α → List α
  | .drain => held
  | _ => []

/-- Everything that is drained, one drain after the other. -/
def drained : List α → List (Move α) → List α
  | _, [] => []
  | held, move :: moves => out held move ++ drained (hold held move) moves

/-- What is held now is dropped before it is drained. -/
def dropsFirst : List (Move α) → Bool
  | [] => false
  | .put _ :: moves => dropsFirst moves
  | .drain :: _ => false
  | .drop :: _ => true

/-- The items put in, in order, without those that are dropped. -/
def kept : List (Move α) → List α
  | [] => []
  | .put item :: moves => if dropsFirst moves then kept moves else item :: kept moves
  | _ :: moves => kept moves

theorem drained_append (start : List α) (front back : List (Move α)) :
    drained start (front ++ back) =
      drained start front ++ drained (front.foldl hold start) back := by
  induction front generalizing start with
  | nil => rfl
  | cons move front ih =>
      rw [List.cons_append, drained, drained, ih, List.append_assoc]
      rfl

theorem drained_append_foldl (start : List α) (moves : List (Move α)) :
    drained start moves ++ moves.foldl hold start =
      (if dropsFirst moves then [] else start) ++ kept moves := by
  induction moves generalizing start with
  | nil => simp [drained, dropsFirst, kept]
  | cons move moves ih =>
      rw [drained, List.foldl_cons, List.append_assoc, ih]
      cases move with
      | put item => cases hdrops : dropsFirst moves <;> simp [out, hold, dropsFirst, kept, hdrops]
      | drain => simp [out, hold, dropsFirst, kept]
      | drop => simp [out, hold, dropsFirst, kept]

theorem drained_append_held (moves : List (Move α)) :
    drained [] moves ++ held moves = kept moves := by
  rw [held, drained_append_foldl, ite_self, List.nil_append]

end PeatBtle.Reservoir
