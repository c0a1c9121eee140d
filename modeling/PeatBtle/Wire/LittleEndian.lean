import Mathlib.Algebra.GroupWithZero.Nat
import Mathlib.Data.List.Basic

/-!
# Byte strings and little-endian fields

Byte buffers are lists. A fixed-width field is read at an offset; every reader
below is total, and the parsers that use them check the available length first,
so the default byte is never observed in a successful parse.

The skipping lemmas move a read past a prefix of known length. A concrete
layout is decoded by skipping its fields one after another.
-/

namespace PeatBtle.Wire

abbrev Bytes := List UInt8

/-- The byte at an offset. Bounds are checked by the caller. -/
def byteAt (data : Bytes) (i : Nat) : UInt8 := data.getD i 0

/-- The half-open range `start..stop` of a buffer. -/
def slice (data : Bytes) (start stop : Nat) : Bytes := (data.drop start).take (stop - start)

/-- Exactly `width` base-256 digits, lowest first. Higher digits are dropped. -/
def leBytes : Nat → Nat → Bytes
  | 0, _ => []
  | width + 1, n => UInt8.ofNat n :: leBytes width (n / 256)

def leNat : Bytes → Nat
  | [] => 0
  | byte :: rest => byte.toNat + 256 * leNat rest

@[simp] theorem leBytes_length (width n : Nat) : (leBytes width n).length = width := by
  induction width generalizing n with
  | zero => rfl
  | succ width ih => simp [leBytes, ih]

theorem leNat_leBytes {width n : Nat} (h : n < 256 ^ width) : leNat (leBytes width n) = n := by
  induction width generalizing n with
  | zero =>
      have hn : n = 0 := by simpa using h
      simp [leBytes, leNat, hn]
  | succ width ih =>
      have hdiv : n / 256 < 256 ^ width := by
        rw [Nat.pow_succ] at h
        exact (Nat.div_lt_iff_lt_mul (by decide)).2 h
      simp only [leBytes, leNat, ih hdiv, UInt8.toNat_ofNat']
      omega

theorem leNat_lt (bytes : Bytes) : leNat bytes < 256 ^ bytes.length := by
  induction bytes with
  | nil => exact Nat.one_pos
  | cons byte rest ih =>
      have hbyte := byte.toNat_lt
      rw [leNat, List.length_cons, Nat.pow_succ]
      omega

theorem leBytes_leNat (bytes : Bytes) : leBytes bytes.length (leNat bytes) = bytes := by
  induction bytes with
  | nil => rfl
  | cons byte rest ih =>
      have hbyte := byte.toNat_lt
      have hdiv : (byte.toNat + 256 * leNat rest) / 256 = leNat rest := by omega
      have hlow : UInt8.ofNat (byte.toNat + 256 * leNat rest) = byte := by
        rw [← UInt8.toNat_inj, UInt8.toNat_ofNat']
        omega
      rw [leNat, List.length_cons, leBytes, hdiv, hlow, ih]

/-! ## Fixed-width fields -/

def u16ToLe (v : UInt16) : Bytes := leBytes 2 v.toNat
def u32ToLe (v : UInt32) : Bytes := leBytes 4 v.toNat
def u64ToLe (v : UInt64) : Bytes := leBytes 8 v.toNat

def u16At (data : Bytes) (i : Nat) : UInt16 := UInt16.ofNat (leNat (slice data i (i + 2)))
def u32At (data : Bytes) (i : Nat) : UInt32 := UInt32.ofNat (leNat (slice data i (i + 4)))
def u64At (data : Bytes) (i : Nat) : UInt64 := UInt64.ofNat (leNat (slice data i (i + 8)))

@[simp] theorem u16ToLe_length (v : UInt16) : (u16ToLe v).length = 2 := leBytes_length ..
@[simp] theorem u32ToLe_length (v : UInt32) : (u32ToLe v).length = 4 := leBytes_length ..
@[simp] theorem u64ToLe_length (v : UInt64) : (u64ToLe v).length = 8 := leBytes_length ..

/-! ## Big-endian fields -/

def u16ToBe (v : UInt16) : Bytes := [(v >>> 8).toUInt8, v.toUInt8]

def u32ToBe (v : UInt32) : Bytes :=
  [(v >>> 24).toUInt8, (v >>> 16).toUInt8, (v >>> 8).toUInt8, v.toUInt8]

theorem u16ToBe_length (v : UInt16) : (u16ToBe v).length = 2 := rfl

theorem u32ToBe_length (v : UInt32) : (u32ToBe v).length = 4 := rfl

/-- Numbers without a bit in common. -/
theorem or_eq_add {x y : Nat} (k : Nat) (hx : x % 2 ^ k = 0) (hy : y < 2 ^ k) :
    x ||| y = x + y := by
  have hsplit : x = 2 ^ k * (x / 2 ^ k) := (Nat.mul_div_cancel' (Nat.dvd_of_mod_eq_zero hx)).symm
  rw [hsplit, ← Nat.two_pow_add_eq_or_of_lt hy]

theorem u16_of_bytes (v : UInt16) :
    ((v >>> 8).toUInt8.toUInt16 <<< 8) ||| v.toUInt8.toUInt16 = v := by
  apply UInt16.toNat_inj.mp
  have hv := v.toNat_lt
  simp [Nat.shiftRight_eq_div_pow, Nat.shiftLeft_eq]
  rw [or_eq_add 8 (by omega) (by omega)]
  omega

/-- Of three bytes the upper eight bits are lost. -/
theorem u24_of_bytes (v : UInt32) :
    (((v >>> 16).toUInt8.toUInt32 <<< 16) ||| ((v >>> 8).toUInt8.toUInt32 <<< 8) |||
      v.toUInt8.toUInt32).toNat = v.toNat % 2 ^ 24 := by
  have hfront : v.toNat / 65536 % 256 * 65536 % 4294967296 |||
      v.toNat / 256 % 256 * 256 % 4294967296 =
        v.toNat / 65536 % 256 * 65536 + v.toNat / 256 % 256 * 256 := by
    rw [or_eq_add 16 (by omega) (by omega)]
    omega
  simp [Nat.shiftRight_eq_div_pow, Nat.shiftLeft_eq]
  rw [hfront, or_eq_add 8 (by omega) (by omega)]
  omega

theorem u32_of_bytes (v : UInt32) :
    ((v >>> 24).toUInt8.toUInt32 <<< 24) ||| ((v >>> 16).toUInt8.toUInt32 <<< 16) |||
      ((v >>> 8).toUInt8.toUInt32 <<< 8) ||| v.toUInt8.toUInt32 = v := by
  apply UInt32.toNat_inj.mp
  have hv := v.toNat_lt
  have hlow := u24_of_bytes v
  rw [UInt32.or_assoc, UInt32.or_assoc, ← UInt32.or_assoc ((v >>> 16).toUInt8.toUInt32 <<< 16),
    UInt32.toNat_or, hlow]
  simp [Nat.shiftRight_eq_div_pow, Nat.shiftLeft_eq]
  rw [or_eq_add 24 (by omega) (by omega)]
  omega

/-! ## Reading at the front -/

@[simp] theorem byteAt_cons_zero (byte : UInt8) (rest : Bytes) : byteAt (byte :: rest) 0 = byte := rfl

theorem slice_append_left {front rest : Bytes} {n : Nat} (h : front.length = n) :
    slice (front ++ rest) 0 n = front := by
  subst h
  simp [slice]

@[simp] theorem u16At_toLe (v : UInt16) (rest : Bytes) : u16At (u16ToLe v ++ rest) 0 = v := by
  rw [u16At, slice_append_left (by simp), u16ToLe, leNat_leBytes v.toNat_lt, UInt16.ofNat_toNat]

@[simp] theorem u32At_toLe (v : UInt32) (rest : Bytes) : u32At (u32ToLe v ++ rest) 0 = v := by
  rw [u32At, slice_append_left (by simp), u32ToLe, leNat_leBytes v.toNat_lt, UInt32.ofNat_toNat]

@[simp] theorem u64At_toLe (v : UInt64) (rest : Bytes) : u64At (u64ToLe v ++ rest) 0 = v := by
  rw [u64At, slice_append_left (by simp), u64ToLe, leNat_leBytes v.toNat_lt, UInt64.ofNat_toNat]

/-- Two bytes are what is written for the word that they are read as. -/
theorem u16ToLe_u16At {data : Bytes} (h : 2 ≤ data.length) :
    u16ToLe (u16At data 0) ++ data.drop 2 = data := by
  have htwo : (data.take 2).length = 2 := by
    rw [List.length_take]
    omega
  have hlt := leNat_lt (data.take 2)
  have hback := leBytes_leNat (data.take 2)
  rw [htwo] at hlt hback
  have hword : (u16At data 0).toNat = leNat (data.take 2) := by
    rw [u16At, slice, List.drop_zero, UInt16.toNat_ofNat']
    exact Nat.mod_eq_of_lt hlt
  rw [u16ToLe, hword, hback, List.take_append_drop]

theorem ofFn_byteAt {n : Nat} (v : Vector UInt8 n) :
    (Vector.ofFn fun i : Fin n => byteAt v.toList i) = v := by
  ext i hi
  simp [byteAt]

/-! ## Skipping a prefix -/

section Skip

variable {front rest : Bytes} {i : Nat}

theorem byteAt_skip (h : front.length ≤ i) :
    byteAt (front ++ rest) i = byteAt rest (i - front.length) := by
  simp [byteAt, List.getD, List.getElem?_append_right h]

theorem byteAt_front (h : i < front.length) : byteAt (front ++ rest) i = byteAt front i := by
  simp [byteAt, List.getD, List.getElem?_append_left h]

theorem slice_skip {j : Nat} (h : front.length ≤ i) :
    slice (front ++ rest) i j = slice rest (i - front.length) (j - front.length) := by
  have hdrop : (front ++ rest).drop i = rest.drop (i - front.length) := by
    rw [List.drop_append, List.drop_eq_nil_of_le h, List.nil_append]
  rw [slice, slice, hdrop, show j - front.length - (i - front.length) = j - i by omega]

theorem u16At_skip (h : front.length ≤ i) :
    u16At (front ++ rest) i = u16At rest (i - front.length) := by
  rw [u16At, u16At, slice_skip h, show i + 2 - front.length = i - front.length + 2 by omega]

theorem u32At_skip (h : front.length ≤ i) :
    u32At (front ++ rest) i = u32At rest (i - front.length) := by
  rw [u32At, u32At, slice_skip h, show i + 4 - front.length = i - front.length + 4 by omega]

theorem u64At_skip (h : front.length ≤ i) :
    u64At (front ++ rest) i = u64At rest (i - front.length) := by
  rw [u64At, u64At, slice_skip h, show i + 8 - front.length = i - front.length + 8 by omega]

theorem slice_middle {middle : Bytes} {n : Nat} (h : front.length = n) :
    slice (front ++ (middle ++ rest)) n (n + middle.length) = middle := by
  subst h
  rw [slice_skip (Nat.le_refl _), Nat.sub_self, Nat.add_sub_cancel_left, slice_append_left rfl]

end Skip

/-! ## Single-byte prefixes -/

section Cons

variable (byte : UInt8) (rest : Bytes) (i j : Nat)

@[simp] theorem byteAt_cons_succ : byteAt (byte :: rest) (i + 1) = byteAt rest i := rfl

@[simp] theorem slice_cons_succ : slice (byte :: rest) (i + 1) (j + 1) = slice rest i j := by
  simp [slice]

@[simp] theorem u16At_cons_succ : u16At (byte :: rest) (i + 1) = u16At rest i := by
  rw [u16At, u16At, show i + 1 + 2 = i + 2 + 1 by omega, slice_cons_succ]

@[simp] theorem u32At_cons_succ : u32At (byte :: rest) (i + 1) = u32At rest i := by
  rw [u32At, u32At, show i + 1 + 4 = i + 4 + 1 by omega, slice_cons_succ]

@[simp] theorem u64At_cons_succ : u64At (byte :: rest) (i + 1) = u64At rest i := by
  rw [u64At, u64At, show i + 1 + 8 = i + 8 + 1 by omega, slice_cons_succ]

end Cons

/-! ## Reads of a suffix -/

theorem slice_drop (data : Bytes) (k i j : Nat) :
    slice (data.drop k) i j = slice data (k + i) (k + j) := by
  rw [slice, slice, List.drop_drop, show k + j - (k + i) = j - i by omega]

theorem u32At_drop (data : Bytes) (k i : Nat) : u32At (data.drop k) i = u32At data (k + i) := by
  rw [u32At, u32At, slice_drop, Nat.add_assoc]

end PeatBtle.Wire
