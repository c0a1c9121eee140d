import PeatBtle.Wire.Text
import PeatBtle.Wire.EntryTable

/-!
# Identifiers and saturating arithmetic

A node identifier is a bare 32-bit value, and a node stands at one of four
levels. Timestamps are milliseconds, and counters saturate instead of wrapping
where the source says so.
-/

namespace PeatBtle

open Wire

abbrev NodeId := UInt32
abbrev Timestamp := UInt64

namespace NodeId

/-- `Display`: eight upper-case hexadecimal digits. -/
def display (node : NodeId) : String := hex08 node

end NodeId

inductive HierarchyLevel where
  | platform
  | squad
  | platoon
  | company
deriving DecidableEq

namespace HierarchyLevel

def toU8 : HierarchyLevel → UInt8
  | platform => 0
  | squad => 1
  | platoon => 2
  | company => 3

/-- An unknown level is read as the lowest. -/
def ofU8 (value : UInt8) : HierarchyLevel :=
  if value = 0 then platform
  else if value = 1 then squad
  else if value = 2 then platoon
  else if value = 3 then company
  else platform

@[simp] theorem ofU8_toU8 (level : HierarchyLevel) : ofU8 level.toU8 = level := by
  cases level <;> rfl

end HierarchyLevel

/-- The errors that are raised by what is modelled. -/
inductive BleError where
  | connectionFailed (reason : String)
  | gattError (reason : String)
  | invalidState (reason : String)
deriving DecidableEq

def u64Max : UInt64 := 0xFFFFFFFFFFFFFFFF

def saturatingAdd (a b : UInt64) : UInt64 :=
  if a.toNat + b.toNat < 2 ^ 64 then a + b else u64Max

def saturatingSub (a b : UInt64) : UInt64 := if b ≤ a then a - b else 0

theorem toNat_max (x y : UInt64) : (max x y).toNat = max x.toNat y.toNat := by
  rw [UInt64.max_def]
  split
  · rename_i hle
    exact (Nat.max_eq_right (UInt64.le_iff_toNat_le.mp hle)).symm
  · rename_i hgt
    exact (Nat.max_eq_left (Nat.le_of_not_le (mt UInt64.le_iff_toNat_le.mpr hgt))).symm

theorem toNat_saturatingAdd (a b : UInt64) :
    (saturatingAdd a b).toNat = min (a.toNat + b.toNat) (2 ^ 64 - 1) := by
  unfold saturatingAdd
  split
  · rw [UInt64.toNat_add]
    omega
  · change 18446744073709551615 = _
    omega

theorem toNat_saturatingSub (a b : UInt64) :
    (saturatingSub a b).toNat = a.toNat - b.toNat := by
  unfold saturatingSub
  split
  · rename_i hle
    exact UInt64.toNat_sub_of_le a b hle
  · rename_i hlt
    rw [UInt64.le_iff_toNat_le] at hlt
    change 0 = _
    omega

theorem saturatingSub_anti {now s t : UInt64} (h : s ≤ t) :
    saturatingSub now t ≤ saturatingSub now s := by
  rw [UInt64.le_iff_toNat_le] at h ⊢
  rw [toNat_saturatingSub, toNat_saturatingSub]
  omega

theorem le_saturatingAdd (a b : UInt64) : a ≤ saturatingAdd a b := by
  have ha := a.toNat_lt
  rw [UInt64.le_iff_toNat_le, toNat_saturatingAdd]
  omega

end PeatBtle
