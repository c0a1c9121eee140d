import Mathlib.Data.List.GetD
import PeatBtle.Wire.LittleEndian

/-!
# Fixed layouts

A layout writes a value into a fixed number of bytes and reads any bytes of that number
as one. Layouts put one after another make a layout, so a record without optional parts
is read back from exactly what is written for it.
-/

namespace PeatBtle.Wire

/-- `n` bytes at an offset. -/
def vectorAt (n : Nat) (data : Bytes) (i : Nat) : Vector UInt8 n :=
  Vector.ofFn fun j => byteAt data (i + j)

theorem toList_vectorAt_zero {n : Nat} {data : Bytes} (h : n ≤ data.length) :
    (vectorAt n data 0).toList = data.take n := by
  apply List.ext_getElem
  · simp [vectorAt, Nat.min_eq_left h]
  · intro i hleft hright
    have hi : i < n := by simpa using hleft
    simp [vectorAt, byteAt, List.getElem?_eq_getElem (Nat.lt_of_lt_of_le hi h)]

/-- What is not there is read as zeros. -/
theorem toList_vectorAt (n : Nat) (data : Bytes) :
    (vectorAt n data 0).toList = data.take n ++ List.replicate (n - data.length) 0 := by
  apply List.ext_getElem
  · simp [vectorAt]
    omega
  · intro i hleft hright
    have hi : i < n := by simpa using hleft
    simp only [vectorAt, Vector.toList_ofFn, List.getElem_ofFn, Nat.zero_add, byteAt]
    by_cases hin : i < data.length
    · rw [List.getElem_append_left (by simp; omega), List.getElem_take,
        List.getD_eq_getElem _ _ hin]
    · rw [List.getElem_append_right (by simp; omega), List.getElem_replicate,
        List.getD_eq_default _ _ (by omega)]

theorem vectorAt_toList {n : Nat} (v : Vector UInt8 n) (rest : Bytes) :
    vectorAt n (v.toList ++ rest) 0 = v := by
  ext i hi
  have hlength : i < v.toList.length := by simpa using hi
  simp [vectorAt, byteAt, List.getElem?_append_left hlength, hi]

theorem vectorAt_drop (n : Nat) (data : Bytes) (k i : Nat) :
    vectorAt n (data.drop k) i = vectorAt n data (k + i) := by
  ext j hj
  simp [vectorAt, byteAt, Nat.add_assoc]

theorem vectorAt_cons_succ (n : Nat) (byte : UInt8) (rest : Bytes) (i : Nat) :
    vectorAt n (byte :: rest) (i + 1) = vectorAt n rest i := by
  ext j hj
  simp [vectorAt, Nat.add_right_comm]

theorem u64At_drop (data : Bytes) (k i : Nat) : u64At (data.drop k) i = u64At data (k + i) := by
  rw [u64At, u64At, slice_drop, Nat.add_assoc]

/-- What is read does not depend on what follows, and nothing is read from two places. -/
structure FixedLayout (α : Type) (size : Nat) where
  write : α → Bytes
  read : Bytes → α
  length_write : ∀ a, (write a).length = size
  read_write : ∀ a rest, read (write a ++ rest) = a
  write_read : ∀ data : Bytes, size ≤ data.length → write (read data) = data.take size

namespace FixedLayout

variable {α β : Type} {m n : Nat}

def vector (n : Nat) : FixedLayout (Vector UInt8 n) n where
  write v := v.toList
  read data := vectorAt n data 0
  length_write v := by simp
  read_write := vectorAt_toList
  write_read _ := toList_vectorAt_zero

/-- A number of `width` bytes, lowest first. -/
def number (width : Nat) (ofNat : Nat → α) (toNat : α → Nat) (hlt : ∀ a, toNat a < 256 ^ width)
    (hofNat : ∀ a, ofNat (toNat a) = a) (htoNat : ∀ k < 256 ^ width, toNat (ofNat k) = k) :
    FixedLayout α width where
  write a := leBytes width (toNat a)
  read data := ofNat (leNat (data.take width))
  length_write a := leBytes_length ..
  read_write a rest := by
    rw [List.take_append_of_le_length (by simp), List.take_of_length_le (by simp),
      leNat_leBytes (hlt a), hofNat]
  write_read data h := by
    have hlength : (data.take width).length = width := by
      rw [List.length_take]
      omega
    have hbound := leNat_lt (data.take width)
    rw [hlength] at hbound
    rw [htoNat _ hbound]
    have hback := leBytes_leNat (data.take width)
    rwa [hlength] at hback

def u32 : FixedLayout UInt32 4 :=
  number 4 UInt32.ofNat UInt32.toNat (fun v => v.toNat_lt) (fun _ => UInt32.ofNat_toNat)
    fun _ h => (UInt32.toNat_ofNat' ..).trans (Nat.mod_eq_of_lt h)

def u64 : FixedLayout UInt64 8 :=
  number 8 UInt64.ofNat UInt64.toNat (fun v => v.toNat_lt) (fun _ => UInt64.ofNat_toNat)
    fun _ h => (UInt64.toNat_ofNat' ..).trans (Nat.mod_eq_of_lt h)

/-- One value after another. -/
def pair (first : FixedLayout α m) (second : FixedLayout β n) : FixedLayout (α × β) (m + n) where
  write p := first.write p.1 ++ second.write p.2
  read data := (first.read data, second.read (data.drop m))
  length_write p := by rw [List.length_append, first.length_write, second.length_write]
  read_write p rest := by
    rw [List.append_assoc, first.read_write,
      List.drop_left' (first.length_write p.1), second.read_write]
  write_read data h := by
    rw [first.write_read data (by omega), second.write_read (data.drop m) (by simp; omega),
      List.take_add]

/-- The same bytes for another type. -/
def map (layout : FixedLayout α n) (forth : α → β) (back : β → α)
    (hback : ∀ b, forth (back b) = b) (hforth : ∀ a, back (forth a) = a) : FixedLayout β n where
  write b := layout.write (back b)
  read data := forth (layout.read data)
  length_write b := layout.length_write _
  read_write b rest := by rw [layout.read_write, hback]
  write_read data h := by rw [hforth, layout.write_read data h]

variable (layout : FixedLayout α n)

/-- Bytes of any other number are refused. -/
def readExact (data : Bytes) : Option α :=
  if data.length = n then some (layout.read data) else none

/-- A value is read from what is written for it, and from nothing else. -/
theorem readExact_eq_some_iff {data : Bytes} {a : α} :
    layout.readExact data = some a ↔ data = layout.write a := by
  unfold readExact
  constructor
  · intro h
    split at h
    · rename_i hlength
      obtain rfl := Option.some.inj h
      rw [layout.write_read data (Nat.le_of_eq hlength.symm),
        List.take_of_length_le (Nat.le_of_eq hlength)]
    · cases h
  · rintro rfl
    have hread := layout.read_write a []
    rw [List.append_nil] at hread
    rw [if_pos (layout.length_write a), hread]

theorem write_injective : Function.Injective layout.write := by
  intro a b h
  have hread := layout.read_write a []
  rwa [h, layout.read_write, eq_comm] at hread

end FixedLayout

end PeatBtle.Wire
