import PeatBtle.Wire.LittleEndian

/-!
# Text: UTF-8 bytes and formatted keys

Strings cross the wire as their UTF-8 bytes. Formatted table keys join literal
prefixes, decimal numbers and fixed-width hexadecimal numbers with separators;
the lemmas below recover the parts of a key from its text.
-/

namespace PeatBtle.Wire

/-- The UTF-8 bytes of a string. -/
def utf8 (s : String) : Bytes := s.toByteArray.data.toList

def isUtf8 (bytes : Bytes) : Bool := (ByteArray.mk bytes.toArray).validateUTF8

def fromUtf8 (bytes : Bytes) : Option String := String.fromUTF8? ⟨bytes.toArray⟩

@[simp] theorem fromUtf8_utf8 (s : String) : fromUtf8 (utf8 s) = some s := by
  have hbytes : ByteArray.mk (utf8 s).toArray = s.toByteArray := by simp [utf8]
  have hvalid := s.isValidUTF8
  rw [fromUtf8, hbytes, String.fromUTF8?, dif_pos hvalid]
  rfl

theorem utf8_of_fromUtf8 {bytes : Bytes} {s : String} (h : fromUtf8 bytes = some s) :
    utf8 s = bytes := by
  unfold fromUtf8 String.fromUTF8? at h
  split at h
  · obtain rfl := Option.some.inj h
    rfl
  · cases h

theorem isSome_fromUtf8 (bytes : Bytes) : (fromUtf8 bytes).isSome = isUtf8 bytes := by
  unfold fromUtf8 isUtf8 String.fromUTF8?
  split
  · rename_i hvalid
    exact (ByteArray.validateUTF8_eq_true_iff.mpr hvalid).symm
  · rename_i hinvalid
    exact (ByteArray.validateUTF8_eq_false_iff.mpr hinvalid).symm

/-! ## Cut texts -/

theorem utf8_append (s t : String) : utf8 (s ++ t) = utf8 s ++ utf8 t := by
  simp [utf8]

theorem isUtf8_iff {bytes : Bytes} : isUtf8 bytes = true ↔ ∃ s, utf8 s = bytes := by
  rw [← isSome_fromUtf8, Option.isSome_iff_exists]
  constructor
  · rintro ⟨s, hs⟩
    exact ⟨s, utf8_of_fromUtf8 hs⟩
  · rintro ⟨s, rfl⟩
    exact ⟨s, fromUtf8_utf8 s⟩

theorem isValidUTF8_of_append (chars : List Char) {rest : ByteArray}
    (h : (chars.utf8Encode ++ rest).IsValidUTF8) : rest.IsValidUTF8 := by
  induction chars with
  | nil => simpa using h
  | cons c chars ih =>
      rw [← List.singleton_append, List.utf8Encode_append, ByteArray.append_assoc] at h
      exact ih (ByteArray.isValidUTF8_utf8Encode_singleton_append_iff.mp h)

/-- What follows whole characters of a text is a text. -/
theorem exists_back {front text : String} {rest : Bytes} (h : utf8 text = utf8 front ++ rest) :
    ∃ back : String, text = front ++ back := by
  have hbytes : text.toByteArray = front.toByteArray ++ ByteArray.mk rest.toArray := by
    apply ByteArray.ext
    apply Array.toList_inj.mp
    rw [ByteArray.data_append, Array.toList_append]
    exact h
  obtain ⟨chars, hchars⟩ := front.isValidUTF8
  have hvalid : (ByteArray.mk rest.toArray).IsValidUTF8 := by
    apply isValidUTF8_of_append chars
    rw [← hchars, ← hbytes]
    exact text.isValidUTF8
  exact ⟨String.ofByteArray _ hvalid, String.toByteArray_inj.mp hbytes⟩

/-- The text fits, or a character of it ends where it is cut. -/
def CutsBetween (capacity : Nat) (text : String) : Prop :=
  (utf8 text).length ≤ capacity ∨
    ∃ front back : String, text = front ++ back ∧ (utf8 front).length = capacity

theorem isUtf8_take_iff (capacity : Nat) (text : String) :
    isUtf8 ((utf8 text).take capacity) = true ↔ CutsBetween capacity text := by
  rw [isUtf8_iff]
  constructor
  · rintro ⟨front, hfront⟩
    by_cases hfits : (utf8 text).length ≤ capacity
    · exact Or.inl hfits
    · have hsplit : utf8 text = utf8 front ++ (utf8 text).drop capacity := by
        rw [hfront, List.take_append_drop]
      obtain ⟨back, hback⟩ := exists_back hsplit
      refine Or.inr ⟨front, back, hback, ?_⟩
      rw [hfront, List.length_take]
      omega
  · rintro (hfits | ⟨front, back, rfl, hlength⟩)
    · exact ⟨text, (List.take_of_length_le hfits).symm⟩
    · exact ⟨front, by rw [utf8_append, List.take_left' hlength]⟩

instance (capacity : Nat) (text : String) : Decidable (CutsBetween capacity text) :=
  decidable_of_iff _ (isUtf8_take_iff capacity text)

/-! ## Separated parts -/

theorem append_separator_inj {α : Type} {sep : α} {a a' rest rest' : List α} (ha : sep ∉ a)
    (ha' : sep ∉ a') (h : a ++ sep :: rest = a' ++ sep :: rest') : a = a' ∧ rest = rest' := by
  induction a generalizing a' with
  | nil =>
      cases a' with
      | nil => simpa using h
      | cons x a' =>
          obtain ⟨rfl, -⟩ := List.cons.inj h
          exact absurd (by simp) ha'
  | cons x a ih =>
      cases a' with
      | nil =>
          obtain ⟨rfl, -⟩ := List.cons.inj h
          exact absurd (by simp) ha
      | cons y a' =>
          simp only [List.cons_append, List.cons.injEq] at h
          obtain ⟨rfl, hrest⟩ := h
          obtain ⟨rfl, rfl⟩ := ih (fun hm => ha (by simp [hm])) (fun hm => ha' (by simp [hm])) hrest
          exact ⟨rfl, rfl⟩

/-! ## Decimal numbers -/

/-- The `{}` rendering of an unsigned integer. -/
def decimal (n : Nat) : String := toString n

theorem decimal_injective : Function.Injective decimal := by
  intro n m h
  have hdigits : Nat.toDigits 10 n = Nat.toDigits 10 m := by
    simpa [decimal, Nat.toString_eq_repr] using congrArg String.toList h
  rw [← Nat.ofDigitChars_toDigits (b := 10) (n := n) (by decide) (by decide), hdigits,
    Nat.ofDigitChars_toDigits (by decide) (by decide)]

theorem colon_not_mem_decimal (n : Nat) : ':' ∉ (decimal n).toList := by
  intro h
  rw [decimal, Nat.toString_eq_repr, Nat.toList_repr] at h
  exact absurd (Nat.isDigit_of_mem_toDigits (by decide) (by decide) h) (by decide)

/-- A number and a text behind a common start can be told apart. -/
theorem numbered_key_inj {start a b : String} {n m : Nat}
    (h : start ++ decimal n ++ ":" ++ a = start ++ decimal m ++ ":" ++ b) : n = m ∧ a = b := by
  have hlist := congrArg String.toList h
  simp only [String.toList_append, List.append_assoc] at hlist
  have hparts := append_separator_inj (colon_not_mem_decimal n) (colon_not_mem_decimal m)
    (List.append_cancel_left hlist)
  exact ⟨decimal_injective (String.toList_inj.mp hparts.1), String.toList_inj.mp hparts.2⟩

/-! ## Fixed-width hexadecimal numbers -/

def hexDigit (d : Nat) : Char := if d < 10 then Char.ofNat (48 + d) else Char.ofNat (55 + d)

def hexDigits : Nat → Nat → List Char
  | 0, _ => []
  | width + 1, n => hexDigits width (n / 16) ++ [hexDigit (n % 16)]

/-- The `{:08X}` rendering of a 32-bit value: eight upper-case digits. -/
def hex08 (v : UInt32) : String := String.ofList (hexDigits 8 v.toNat)

theorem hexDigit_inj : ∀ a b : Fin 16, hexDigit a = hexDigit b → a = b := by decide

@[simp] theorem hexDigits_length (width n : Nat) : (hexDigits width n).length = width := by
  induction width generalizing n with
  | zero => rfl
  | succ width ih => simp [hexDigits, ih]

theorem hexDigits_inj {width n m : Nat} (hn : n < 16 ^ width) (hm : m < 16 ^ width)
    (h : hexDigits width n = hexDigits width m) : n = m := by
  induction width generalizing n m with
  | zero =>
      have h0 : n = 0 := by simpa using hn
      have h1 : m = 0 := by simpa using hm
      rw [h0, h1]
  | succ width ih =>
      rw [Nat.pow_succ] at hn hm
      obtain ⟨hhigh, hlow⟩ := List.append_inj' h rfl
      have hdiv : n / 16 = m / 16 :=
        ih ((Nat.div_lt_iff_lt_mul (by decide)).2 hn) ((Nat.div_lt_iff_lt_mul (by decide)).2 hm)
          hhigh
      have hmod : n % 16 = m % 16 := by
        have hd := hexDigit_inj ⟨n % 16, Nat.mod_lt _ (by decide)⟩
          ⟨m % 16, Nat.mod_lt _ (by decide)⟩
          (by simpa using hlow)
        exact congrArg Fin.val hd
      omega

theorem hex08_injective : Function.Injective hex08 := by
  intro v w h
  have hdigits : hexDigits 8 v.toNat = hexDigits 8 w.toNat := by
    simpa [hex08] using congrArg String.toList h
  exact UInt32.toNat_inj.mp (hexDigits_inj v.toNat_lt w.toNat_lt hdigits)

end PeatBtle.Wire
