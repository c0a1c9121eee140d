import PeatBtle.Basic

/-!
# Grow-only counter

Per-node counts merged by maximum. The encoder writes every entry; the decoder
refuses more than `maxCounterEntries` entries and skips the zero identifier, so
the two agree only on counters inside those limits.
-/

namespace PeatBtle

open Wire MapMerge

def maxCounterEntries : Nat := 256

@[ext] structure GCounter where
  counts : Map UInt32 UInt64
deriving DecidableEq

namespace GCounter

def new : GCounter := ⟨∅⟩

/-- The total. Summation of 64-bit counts wraps. -/
def value (c : GCounter) : UInt64 := (c.counts.toList.map Prod.snd).foldl (· + ·) 0

def increment (c : GCounter) (node : NodeId) (amount : UInt64) : GCounter :=
  ⟨upsert 0 saturatingAdd c.counts (node, amount)⟩

def nodeCount (c : GCounter) (node : NodeId) : UInt64 := c.counts[node]?.getD 0

/-- Take the maximum of each node's count. -/
def merge (c other : GCounter) : GCounter := ⟨mergeWith 0 max c.counts other.counts⟩

def nodeCountTotal (c : GCounter) : Nat := c.counts.size

def entries (c : GCounter) : List (UInt32 × UInt64) := c.counts.toList

def encode (c : GCounter) : Bytes :=
  u32ToLe (UInt32.ofNat c.counts.size) ++ encodeEntries u64Codec c.counts.toList

/-- Zero node identifiers are skipped, never inserted. -/
def decode (data : Bytes) : Option GCounter :=
  if data.length < 4 then none
  else
    let numEntries := (u32At data 0).toNat
    if numEntries > maxCounterEntries then none
    else if data.length < 4 + numEntries * 12 then none
    else some ⟨readEntries u64Codec (· != 0) data numEntries 4 ∅⟩

/-! ## Counts -/

@[simp] theorem nodeCount_new (node : NodeId) : new.nodeCount node = 0 := by
  simp [new, nodeCount]

private theorem max_zero_right (a : UInt64) : max a 0 = a := by
  rw [← UInt64.toNat_inj, toNat_max]
  exact Nat.max_eq_left (Nat.zero_le _)

theorem nodeCount_merge (c other : GCounter) (node : NodeId) :
    (c.merge other).nodeCount node = max (c.nodeCount node) (other.nodeCount node) := by
  simp only [merge, nodeCount, getElem?_mergeWith]
  cases other.counts[node]? with
  | none => simp [max_zero_right]
  | some count => rfl

theorem toNat_nodeCount_merge (c other : GCounter) (node : NodeId) :
    ((c.merge other).nodeCount node).toNat =
      max (c.nodeCount node).toNat (other.nodeCount node).toNat := by
  rw [nodeCount_merge, toNat_max]

theorem nodeCount_increment (c : GCounter) (node other : NodeId) (amount : UInt64) :
    (c.increment node amount).nodeCount other =
      if node = other then saturatingAdd (c.nodeCount node) amount else c.nodeCount other := by
  simp only [nodeCount, increment, upsert, getElem?_alter_eq]
  by_cases hnode : node = other
  · rw [if_pos hnode, if_pos hnode]
    rfl
  · rw [if_neg hnode, if_neg hnode]

/-- Each of the other's entries is present and at least as high. -/
def Covers (c other : GCounter) : Prop :=
  ∀ (node : NodeId) (count : UInt64), other.counts[node]? = some count →
    ∃ own, c.counts[node]? = some own ∧ count ≤ own

theorem max_eq_left_iff (a b : UInt64) : max a b = a ↔ b ≤ a := by
  rw [← UInt64.toNat_inj, toNat_max, UInt64.le_iff_toNat_le]
  omega

theorem merge_eq_self_iff {c other : GCounter} : c.merge other = c ↔ c.Covers other := by
  rw [merge, GCounter.ext_iff]
  simp only [mergeWith_eq_self_iff, max_eq_left_iff, Covers]

theorem Covers.refl (c : GCounter) : c.Covers c := by
  intro node count h
  exact ⟨count, h, UInt64.le_refl count⟩

theorem Covers.trans {a b c : GCounter} (hab : a.Covers b) (hbc : b.Covers c) : a.Covers c := by
  intro node count h
  obtain ⟨middle, hmiddle, hle⟩ := hbc node count h
  obtain ⟨own, hown, hle'⟩ := hab node middle hmiddle
  exact ⟨own, hown, UInt64.le_trans hle hle'⟩

theorem covers_increment (c : GCounter) (node : NodeId) (amount : UInt64) :
    (c.increment node amount).Covers c := by
  intro other count h
  simp only [increment, upsert, getElem?_alter_eq]
  by_cases hnode : node = other
  · subst hnode
    rw [if_pos rfl, h]
    exact ⟨_, rfl, le_saturatingAdd count amount⟩
  · rw [if_neg hnode]
    exact ⟨count, h, UInt64.le_refl count⟩

private theorem le_max_left (a b : UInt64) : a ≤ max a b := by
  rw [UInt64.le_iff_toNat_le, toNat_max]
  exact Nat.le_max_left ..

theorem covers_merge (c other : GCounter) : (c.merge other).Covers c := by
  intro node count h
  simp only [merge, getElem?_mergeWith]
  cases other.counts[node]? with
  | none => exact ⟨count, h, UInt64.le_refl count⟩
  | some received =>
      rw [h]
      exact ⟨_, rfl, le_max_left count received⟩

/-! ## Wire format -/

theorem filter_ne_zero {c : GCounter} (h : 0 ∉ c.counts) :
    (⟨c.counts.filter fun node _ => node != 0⟩ : GCounter) = c := by
  have hkeep : ∀ node ∈ c.counts, (node != 0) = true := by
    intro node hmem
    refine bne_iff_ne.mpr ?_
    rintro rfl
    exact h hmem
  rw [filter_eq_self hkeep]

@[simp] theorem encode_length (c : GCounter) : c.encode.length = 4 + c.counts.size * 12 := by
  simp [encode, u64Codec]

theorem decode_encode {c : GCounter} (h : c.counts.size ≤ maxCounterEntries) (rest : Bytes) :
    decode (c.encode ++ rest) = some ⟨c.counts.filter fun node _ => node != 0⟩ := by
  have hsize : (UInt32.ofNat c.counts.size).toNat = c.counts.size := by
    unfold maxCounterEntries at h
    rw [UInt32.toNat_ofNat']
    omega
  have hread := readEntries_toList u64Codec (· != 0) c.counts
    (u32ToLe (UInt32.ofNat c.counts.size)) rest
  rw [u32ToLe_length] at hread
  have hlen : ¬ (c.encode ++ rest).length < 4 + c.counts.size * 12 := by simp
  simp only [decode, encode, List.append_assoc, u32At_toLe, hsize] at hlen ⊢
  rw [if_neg (by simp), if_neg (by omega), if_neg hlen, hread]

/-- The number of entries is written as 32 bits, so a counter of all nodes announces none. -/
theorem decode_encode_of_many {c : GCounter} (h : maxCounterEntries < c.counts.size) (rest : Bytes) :
    (c.counts.size < 2 ^ 32 ∧ decode (c.encode ++ rest) = none) ∨
      (c.counts.size = 2 ^ 32 ∧ decode (c.encode ++ rest) = some new) := by
  have hcount : u32At (c.encode ++ rest) 0 = UInt32.ofNat c.counts.size := by
    rw [encode, List.append_assoc, u32At_toLe]
  have hlen : (c.encode ++ rest).length = 4 + c.counts.size * 12 + rest.length := by
    rw [List.length_append, encode_length]
  rcases Nat.lt_or_eq_of_le (size_le_keys c.counts) with hsize | hsize
  · refine Or.inl ⟨hsize, ?_⟩
    have hread : (UInt32.ofNat c.counts.size).toNat = c.counts.size := by
      rw [UInt32.toNat_ofNat', Nat.mod_eq_of_lt hsize]
    simp only [decode, hcount, hread]
    rw [if_neg (by omega), if_pos h]
  · refine Or.inr ⟨hsize, ?_⟩
    have hread : (UInt32.ofNat c.counts.size).toNat = 0 := by
      rw [UInt32.toNat_ofNat', hsize, Nat.mod_self]
    simp only [decode, hcount, hread]
    rw [if_neg (by omega), if_neg (by omega), if_neg (by omega)]
    rfl

theorem valid_of_decode {data : Bytes} {c : GCounter} (h : decode data = some c) :
    c.counts.size ≤ maxCounterEntries ∧ 0 ∉ c.counts := by
  unfold decode at h
  dsimp only at h
  split_ifs at h with hshort hmany hfits
  obtain rfl := Option.some.inj h
  constructor
  · have hsize := size_readEntries_le u64Codec (· != 0) data (u32At data 0).toNat 4 ∅
    rw [Std.ExtTreeMap.size_empty] at hsize
    unfold maxCounterEntries at hmany ⊢
    dsimp only
    omega
  · intro hzero
    rcases mem_readEntries u64Codec hzero with hempty | hkeep
    · simp at hempty
    · cases hkeep

end GCounter

end PeatBtle
