import PeatBtle.Wire.LittleEndian

/-!
# Advertising structures

Advertising data is a sequence of structures laid back to back. Each opens with
a length byte that counts what follows it: a type byte and the data.
-/

namespace PeatBtle.Wire

structure AdStructure where
  adType : UInt8
  data : Bytes
deriving DecidableEq

namespace AdStructure

def encode (s : AdStructure) : Bytes := UInt8.ofNat (s.data.length + 1) :: s.adType :: s.data

/-- All of the bytes, or nothing: no length is zero, and none points past the end. -/
def parse : Bytes → Option (List AdStructure)
  | [] => some []
  | [_] => none
  | length :: adType :: rest =>
      if length = 0 ∨ rest.length < length.toNat - 1 then none
      else
        (parse (rest.drop (length.toNat - 1))).map fun later =>
          ⟨adType, rest.take (length.toNat - 1)⟩ :: later
termination_by data => data.length
decreasing_by
  rw [List.length_drop, List.length_cons, List.length_cons]
  omega

@[simp] theorem parse_nil : parse [] = some [] := by
  rw [parse]

/-- A length that covers `data` or a front of it. -/
theorem parse_cons {length adType : UInt8} {data rest : Bytes} (hpos : length ≠ 0)
    (hlength : length.toNat - 1 ≤ data.length) :
    parse (length :: adType :: (data ++ rest)) =
      (parse (data.drop (length.toNat - 1) ++ rest)).map fun later =>
        ⟨adType, data.take (length.toNat - 1)⟩ :: later := by
  have hfits : ¬ (length = 0 ∨ (data ++ rest).length < length.toNat - 1) := by
    rw [List.length_append]
    exact not_or.mpr ⟨hpos, by omega⟩
  rw [parse, if_neg hfits, List.drop_append_of_le_length hlength,
    List.take_append_of_le_length hlength]

theorem parse_encode (s : AdStructure) (h : s.data.length < 255) (rest : Bytes) :
    parse (s.encode ++ rest) = (parse rest).map fun later => s :: later := by
  have hlength : (UInt8.ofNat (s.data.length + 1)).toNat = s.data.length + 1 :=
    UInt8.toNat_ofNat_of_lt' (by change s.data.length + 1 < 256; omega)
  have hpos : UInt8.ofNat (s.data.length + 1) ≠ 0 := by
    intro hzero
    rw [hzero] at hlength
    cases hlength
  rw [encode, List.cons_append, List.cons_append, parse_cons hpos (by omega), hlength,
    Nat.add_sub_cancel, List.drop_length, List.take_length, List.nil_append]

/-- Structures laid back to back are read back. -/
theorem parse_flatMap_encode {structures : List AdStructure}
    (h : ∀ s ∈ structures, s.data.length < 255) :
    parse (structures.flatMap encode) = some structures := by
  induction structures with
  | nil => exact parse_nil
  | cons s structures ih =>
      rw [List.flatMap_cons, parse_encode s (h s List.mem_cons_self),
        ih fun t ht => h t (List.mem_cons_of_mem _ ht)]
      rfl

end AdStructure

end PeatBtle.Wire
