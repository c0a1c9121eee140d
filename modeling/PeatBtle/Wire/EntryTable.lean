import Mathlib.Data.List.Perm.Subperm
import PeatBtle.Wire.LittleEndian
import PeatBtle.Data.MapMerge

/-!
# Tables of fixed-width entries

A table is a run of entries, each a 32-bit key followed by a value of fixed
width. The reader is a counted loop over offsets that inserts the accepted
entries one by one, so a table with repeated keys keeps the last of them.
-/

namespace PeatBtle.Wire

open Std MapMerge

abbrev Map (α β : Type) [Ord α] := ExtTreeMap α β

/-- A value of fixed width, together with the laws its reader obeys. -/
structure ValueCodec (β : Type) where
  width : Nat
  encode : β → Bytes
  readAt : Bytes → Nat → β
  encode_length : ∀ v, (encode v).length = width
  readAt_encode : ∀ v rest, readAt (encode v ++ rest) 0 = v
  readAt_skip : ∀ (front rest : Bytes) (i : Nat), front.length ≤ i →
    readAt (front ++ rest) i = readAt rest (i - front.length)

/-- Eight little-endian bytes. -/
def u64Codec : ValueCodec UInt64 where
  width := 8
  encode := u64ToLe
  readAt := u64At
  encode_length := u64ToLe_length
  readAt_encode := u64At_toLe
  readAt_skip := fun _ _ _ h => u64At_skip h

/-- One byte: any non-zero byte reads as `true`. -/
def flagCodec : ValueCodec Bool where
  width := 1
  encode := fun flag => [if flag then 1 else 0]
  readAt := fun data i => byteAt data i != 0
  encode_length := fun _ => rfl
  readAt_encode := by
    intro flag rest
    cases flag <;> rfl
  readAt_skip := by
    intro front rest i h
    simp only [byteAt_skip h]

variable {β : Type} (codec : ValueCodec β)

def encodeEntries (entries : List (UInt32 × β)) : Bytes :=
  entries.flatMap fun entry => u32ToLe entry.1 ++ codec.encode entry.2

/-- The counted insertion loop, from an offset into the buffer. -/
def readEntries (keep : UInt32 → Bool) (data : Bytes) : Nat → Nat → Map UInt32 β → Map UInt32 β
  | 0, _, acc => acc
  | count + 1, offset, acc =>
      readEntries keep data count (offset + (4 + codec.width))
        (insertIf keep acc (u32At data offset, codec.readAt data (offset + 4)))

@[simp] theorem encodeEntries_nil : encodeEntries codec [] = [] := rfl

theorem encodeEntries_cons (entry : UInt32 × β) (entries : List (UInt32 × β)) :
    encodeEntries codec (entry :: entries) =
      u32ToLe entry.1 ++ (codec.encode entry.2 ++ encodeEntries codec entries) := by
  simp [encodeEntries]

@[simp] theorem encodeEntries_length (entries : List (UInt32 × β)) :
    (encodeEntries codec entries).length = entries.length * (4 + codec.width) := by
  induction entries with
  | nil => simp
  | cons entry entries ih =>
      simp only [encodeEntries_cons, List.length_append, u32ToLe_length, codec.encode_length, ih,
        List.length_cons, Nat.succ_mul]
      omega

/-- Reading a table back inserts its entries in order. -/
theorem readEntries_encodeEntries (keep : UInt32 → Bool) (entries : List (UInt32 × β))
    (front rest : Bytes) (acc : Map UInt32 β) :
    readEntries codec keep (front ++ (encodeEntries codec entries ++ rest)) entries.length
      front.length acc = entries.foldl (insertIf keep) acc := by
  induction entries generalizing front acc with
  | nil => rfl
  | cons entry entries ih =>
      have hkey : ∀ tail, u32At (front ++ (u32ToLe entry.1 ++ tail)) front.length = entry.1 := by
        intro tail
        rw [u32At_skip (Nat.le_refl _), Nat.sub_self, u32At_toLe]
      have hvalue : ∀ tail, codec.readAt (front ++ (u32ToLe entry.1 ++ (codec.encode entry.2 ++ tail)))
          (front.length + 4) = entry.2 := by
        intro tail
        rw [codec.readAt_skip _ _ _ (by omega), Nat.add_sub_cancel_left,
          codec.readAt_skip _ _ _ (by simp), u32ToLe_length, Nat.sub_self, codec.readAt_encode]
      -- The entry just read joins the prefix, so the next offset is again a prefix length.
      have hstep := ih (front ++ (u32ToLe entry.1 ++ codec.encode entry.2))
        (insertIf keep acc entry)
      simp only [List.append_assoc, List.length_append, u32ToLe_length,
        codec.encode_length] at hstep
      simp only [encodeEntries_cons, List.append_assoc, List.length_cons, readEntries,
        List.foldl_cons]
      rw [hkey, hvalue]
      exact hstep

/-- A whole map survives the table, less the refused keys. -/
theorem readEntries_toList (keep : UInt32 → Bool) (m : Map UInt32 β) (front rest : Bytes) :
    readEntries codec keep (front ++ (encodeEntries codec m.toList ++ rest)) m.size front.length ∅ =
      m.filter fun k _ => keep k := by
  rw [← ExtTreeMap.length_toList, readEntries_encodeEntries, foldl_insertIf_toList]

theorem mem_readEntries {keep : UInt32 → Bool} {data : Bytes} {count offset : Nat}
    {acc : Map UInt32 β} {k : UInt32} (h : k ∈ readEntries codec keep data count offset acc) :
    k ∈ acc ∨ keep k = true := by
  induction count generalizing offset acc with
  | zero => exact Or.inl h
  | succ count ih =>
      rcases ih h with hmem | hkeep
      · unfold insertIf at hmem
        split at hmem
        · rename_i hkeep
          rw [Std.ExtTreeMap.mem_insert, Std.LawfulEqCmp.compare_eq_iff_eq] at hmem
          rcases hmem with rfl | hmem
          · exact Or.inr hkeep
          · exact Or.inl hmem
        · exact Or.inl hmem
      · exact Or.inr hkeep

theorem size_readEntries_le (keep : UInt32 → Bool) (data : Bytes) (count offset : Nat)
    (acc : Map UInt32 β) : (readEntries codec keep data count offset acc).size ≤ acc.size + count := by
  induction count generalizing offset acc with
  | zero => exact Nat.le_refl _
  | succ count ih =>
      have hinsert : (insertIf keep acc (u32At data offset, codec.readAt data (offset + 4))).size ≤
          acc.size + 1 := by
        unfold insertIf
        split
        · exact Std.ExtTreeMap.size_insert_le
        · omega
      have hrest := ih (offset + (4 + codec.width))
        (insertIf keep acc (u32At data offset, codec.readAt data (offset + 4)))
      rw [readEntries]
      omega

/-! ## Entries read as a whole -/

section FixedWidth

variable {ε : Type} (width : Nat) (read : Bytes → ε)

/-- A counted loop that reads one entry after another, each from its own bytes. -/
def readEach (data : Bytes) : Nat → Nat → List ε
  | 0, _ => []
  | count + 1, offset =>
      read (slice data offset (offset + width)) :: readEach data count (offset + width)

@[simp] theorem readEach_length (data : Bytes) (count offset : Nat) :
    (readEach width read data count offset).length = count := by
  induction count generalizing offset with
  | zero => rfl
  | succ count ih => rw [readEach, List.length_cons, ih]

variable {width read}

theorem exists_of_mem_readEach {data : Bytes} {count offset : Nat} {e : ε}
    (h : e ∈ readEach width read data count offset) : ∃ bytes, e = read bytes := by
  induction count generalizing offset with
  | zero => cases h
  | succ count ih =>
      rcases List.mem_cons.mp h with rfl | hlater
      · exact ⟨_, rfl⟩
      · exact ih hlater

variable {write : ε → Bytes}

theorem flatMap_length {entries : List ε} (hwidth : ∀ e ∈ entries, (write e).length = width) :
    (entries.flatMap write).length = entries.length * width := by
  induction entries with
  | nil => rw [List.flatMap_nil, List.length_nil, List.length_nil, Nat.zero_mul]
  | cons e entries ih =>
      rw [List.flatMap_cons, List.length_append, hwidth e (by simp),
        ih fun e' he' => hwidth e' (List.mem_cons_of_mem _ he'), List.length_cons, Nat.succ_mul,
        Nat.add_comm]

/-- Entries written one after another are read back in order. -/
theorem readEach_flatMap {entries : List ε} (hwidth : ∀ e ∈ entries, (write e).length = width)
    (hread : ∀ e ∈ entries, read (write e) = e) (front rest : Bytes) :
    readEach width read (front ++ (entries.flatMap write ++ rest)) entries.length front.length =
      entries := by
  induction entries generalizing front with
  | nil => rfl
  | cons e entries ih =>
      have hlength := hwidth e (by simp)
      have hslice : slice (front ++ (write e ++ (entries.flatMap write ++ rest))) front.length
          (front.length + width) = write e := by
        rw [← hlength, slice_middle rfl]
      -- The entry just read joins the prefix, so the next offset is again a prefix length.
      have hrest := ih (fun e' he' => hwidth e' (List.mem_cons_of_mem _ he'))
        (fun e' he' => hread e' (List.mem_cons_of_mem _ he')) (front ++ write e)
      rw [List.length_append, hlength, List.append_assoc] at hrest
      rw [List.flatMap_cons, List.append_assoc, List.length_cons, readEach, hslice,
        hread e (by simp), hrest]

end FixedWidth

/-! ## Full tables -/

/-- Distinct numbers below a bound are at most that many, and all of them if they are that many. -/
theorem length_le_of_distinct {n : Nat} {xs : List Nat} (hdistinct : xs.Nodup)
    (hbound : ∀ x ∈ xs, x < n) : xs.length ≤ n ∧ (xs.length = n → ∀ x < n, x ∈ xs) := by
  have hsub : List.Subperm xs (List.range n) :=
    hdistinct.subperm fun x hx => List.mem_range.mpr (hbound x hx)
  refine ⟨by simpa using hsub.length_le, ?_⟩
  intro hlen x hx
  have hperm := hsub.perm_of_length_le (by rw [List.length_range, hlen])
  exact hperm.mem_iff.mpr (List.mem_range.mpr hx)

section FullTable

variable (m : Map UInt32 β)

theorem keys_distinct_below :
    (m.toList.map fun entry => entry.1.toNat).Nodup ∧
      ∀ x ∈ m.toList.map fun entry => entry.1.toNat, x < 2 ^ 32 := by
  constructor
  · rw [List.Nodup, List.pairwise_map]
    refine (distinctKeys_toList m).imp ?_
    intro a b hne heq
    exact hne (UInt32.toNat_inj.mp heq)
  · intro x hx
    obtain ⟨entry, -, rfl⟩ := List.mem_map.mp hx
    exact entry.1.toNat_lt

theorem size_le_keys : m.size ≤ 2 ^ 32 := by
  have hkeys := keys_distinct_below m
  have hle := (length_le_of_distinct hkeys.1 hkeys.2).1
  rwa [List.length_map, ExtTreeMap.length_toList] at hle

theorem size_of_forall_mem (h : ∀ k, k ∈ m) : m.size = 2 ^ 32 := by
  refine Nat.le_antisymm (size_le_keys m) ?_
  have hsub : List.range (2 ^ 32) ⊆ m.keys.map UInt32.toNat := by
    intro x hx
    have hlt := List.mem_range.mp hx
    refine List.mem_map.mpr ⟨UInt32.ofNat x, ExtTreeMap.mem_keys.mpr (h _), ?_⟩
    rw [UInt32.toNat_ofNat', Nat.mod_eq_of_lt hlt]
  have hle := (List.nodup_range.subperm hsub).length_le
  rwa [List.length_range, List.length_map, ExtTreeMap.length_keys] at hle

/-- A table with every key starts with the zero key. -/
theorem toList_of_full (hfull : m.size = 2 ^ 32) : ∃ value rest, m.toList = (0, value) :: rest := by
  have hkeys := keys_distinct_below m
  have hzero := (length_le_of_distinct hkeys.1 hkeys.2).2
    (by rw [List.length_map, ExtTreeMap.length_toList, hfull]) 0 (by decide)
  obtain ⟨entry, hentry, hkey⟩ := List.mem_map.mp hzero
  have hordered := m.ordered_keys_toList
  cases hlist : m.toList with
  | nil =>
      rw [hlist] at hentry
      cases hentry
  | cons first rest =>
      rw [hlist] at hentry hordered
      rcases List.mem_cons.mp hentry with rfl | hlater
      · refine ⟨entry.2, rest, ?_⟩
        rw [show (0 : UInt32) = entry.1 from (UInt32.toNat_inj.mp hkey).symm]
      · have hlt := (List.pairwise_cons.mp hordered).1 entry hlater
        have hbelow : first.1 < entry.1 := Std.compare_eq_lt.mp hlt
        rw [UInt32.lt_iff_toNat_lt, hkey] at hbelow
        exact absurd hbelow (Nat.not_lt_zero _)

end FullTable
end PeatBtle.Wire
