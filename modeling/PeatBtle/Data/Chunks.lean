import Mathlib.Data.List.Basic

/-!
# Cutting a list into pieces of one size

All pieces but the last have the given size. A list is the concatenation of its
pieces, and a piece is named by its position.
-/

namespace PeatBtle.Chunks

variable {α : Type}

/-- Number of pieces: the length divided by the size, rounded up. -/
def count (size : Nat) (data : List α) : Nat := (data.length + size - 1) / size

def piece (size : Nat) (data : List α) (i : Nat) : List α := (data.drop (i * size)).take size

def pieces (size : Nat) (data : List α) : List (List α) :=
  (List.range (count size data)).map (piece size data)

@[simp] theorem pieces_length (size : Nat) (data : List α) :
    (pieces size data).length = count size data := by simp [pieces]

theorem count_pos {size : Nat} {data : List α} (hsize : 0 < size) (hdata : data ≠ []) :
    0 < count size data := by
  have hlen : 0 < data.length := List.length_pos_iff.mpr hdata
  exact Nat.div_pos (by omega) hsize

theorem length_le_count_mul {size : Nat} (hsize : 0 < size) (data : List α) :
    data.length ≤ count size data * size := by
  have hdiv := Nat.lt_div_mul_add hsize (a := data.length + size - 1)
  unfold count
  omega

/-- The first `n` pieces cover the first `n * size` elements. -/
theorem flatMap_piece_range (size : Nat) (data : List α) (n : Nat) :
    (List.range n).flatMap (piece size data) = data.take (n * size) := by
  induction n with
  | zero => simp
  | succ n ih =>
      rw [List.range_succ, List.flatMap_append, ih, List.flatMap_singleton, piece, Nat.succ_mul,
        List.take_add]

theorem flatten_pieces {size : Nat} (hsize : 0 < size) (data : List α) :
    (pieces size data).flatten = data := by
  rw [pieces, ← List.flatMap_def, flatMap_piece_range,
    List.take_of_length_le (length_le_count_mul hsize data)]

end PeatBtle.Chunks
