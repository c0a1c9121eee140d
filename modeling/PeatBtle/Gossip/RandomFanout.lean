import PeatBtle.Peer
import PeatBtle.Data.Draws

/-!
# Random gossip fan-out

A strategy selects some of the connected peers for a round of gossip. The random one
draws positions of the list from a counter that is mixed with a seed, skips the positions
it has already used, and gives up after three draws for each peer it wants.
-/

namespace PeatBtle

open Draws

/-- A slice of peers. It spans at most half of the address space, and a peer takes more than the
eight bytes of its timestamp. -/
structure PeerSlice where
  peers : List PeatPeer
  spans : 8 * peers.length < USize.size / 2

namespace PeerSlice

theorem length_lt (slice : PeerSlice) : slice.peers.length < USize.size := by
  have hspans := slice.spans
  omega

def len (slice : PeerSlice) : USize := USize.ofNatLT slice.peers.length slice.length_lt

@[simp] theorem toNat_len (slice : PeerSlice) : slice.len.toNat = slice.peers.length :=
  USize.toNat_ofNatLT

/-- Peers of the slice, no two of them with one node identifier. -/
structure Selection (slice : PeerSlice) (selected : List PeatPeer) : Prop where
  subset : selected ⊆ slice.peers
  distinct : (selected.map PeatPeer.nodeId).Nodup

end PeerSlice

structure RandomFanout where
  fanout : USize
  seed : Option UInt64

namespace RandomFanout

def new (fanout : USize) : RandomFanout := ⟨max fanout 1, none⟩

def withSeed (fanout : USize) (seed : UInt64) : RandomFanout := ⟨max fanout 1, some seed⟩

/-- Nanoseconds since the epoch, cut to 64 bits; the clock may stand before the epoch. -/
def systemSeed (clock : Option Nat) : UInt64 := (clock.map UInt64.ofNat).getD 12345

/-- Simple LCG for lightweight randomness. -/
def randomIndex (r : RandomFanout) (clock : Option Nat) (max : USize) (iteration : Nat) : USize :=
  let seed := r.seed.getD (systemSeed clock)
  let mixed := seed * 6364136223846793005 + UInt64.ofNat iteration
  mixed.toUSize % max

/-- The draws that are left, with what was selected and the positions used so far. An index that
is out of bounds is a panic. -/
def selectLoop (r : RandomFanout) (clock : Nat → Option Nat) (slice : PeerSlice) :
    List Nat → List PeatPeer → List USize → Option (List PeatPeer)
  | [], selected, _ => some selected
  | i :: iterations, selected, used =>
      if selected.length ≥ r.fanout.toNat then some selected
      else
        let idx := r.randomIndex (clock i) slice.len i
        if idx ∈ used then r.selectLoop clock slice iterations selected used
        else
          match slice.peers[idx.toNat]? with
          | none => none
          | some peer => r.selectLoop clock slice iterations (selected ++ [peer]) (used ++ [idx])

/-- The clock is read at each draw. -/
def selectPeers (r : RandomFanout) (clock : Nat → Option Nat) (slice : PeerSlice) :
    Option (List PeatPeer) :=
  if slice.peers.isEmpty then some []
  else if slice.len ≤ r.fanout then some slice.peers
  else r.selectLoop clock slice (List.range (r.fanout * 3).toNat) [] []

def draw (r : RandomFanout) (clock : Nat → Option Nat) (slice : PeerSlice) (i : Nat) : USize :=
  r.randomIndex (clock i) slice.len i

section Select

variable (r : RandomFanout) (clock : Nat → Option Nat) {slice : PeerSlice}

theorem draw_lt (hpeers : slice.peers ≠ []) (i : Nat) :
    (r.draw clock slice i).toNat < slice.peers.length := by
  rw [draw, randomIndex, USize.toNat_mod, PeerSlice.toNat_len]
  exact Nat.mod_lt _ (List.length_pos_iff.mpr hpeers)

theorem selectLoop_cons (i : Nat) (iterations : List Nat) (selected : List PeatPeer)
    (used : List USize) : r.selectLoop clock slice (i :: iterations) selected used =
      if selected.length ≥ r.fanout.toNat then some selected
      else if r.draw clock slice i ∈ used then r.selectLoop clock slice iterations selected used
      else
        match slice.peers[(r.draw clock slice i).toNat]? with
        | none => none
        | some peer => r.selectLoop clock slice iterations (selected ++ [peer])
            (used ++ [r.draw clock slice i]) :=
  rfl

/-- The loop selects the peers at the different positions drawn. -/
theorem selectLoop_eq (hpeers : slice.peers ≠ []) (iterations : List Nat)
    {selected : List PeatPeer} {used : List USize}
    (h : selected.map some = used.map fun idx => slice.peers[idx.toNat]?) :
    ∃ out, r.selectLoop clock slice iterations selected used = some out ∧
      out.map some = (distinct r.fanout.toNat (iterations.map (r.draw clock slice)) used).map
        fun idx => slice.peers[idx.toNat]? := by
  induction iterations generalizing selected used with
  | nil => exact ⟨selected, rfl, h⟩
  | cons i iterations ih =>
      have hlength : selected.length = used.length := by simpa using congrArg List.length h
      rw [selectLoop_cons, List.map_cons, distinct, hlength]
      by_cases hfull : r.fanout.toNat ≤ used.length
      · rw [if_pos hfull, if_pos hfull]
        exact ⟨selected, rfl, h⟩
      · rw [if_neg hfull, if_neg hfull]
        by_cases hused : r.draw clock slice i ∈ used
        · rw [if_pos hused, if_pos hused]
          exact ih h
        · rw [if_neg hused, if_neg hused]
          have hget := List.getElem?_eq_getElem (draw_lt r clock hpeers i)
          simp only [hget]
          refine ih ?_
          rw [List.map_append, List.map_append, h, List.map_singleton, List.map_singleton, hget]

/-- Different positions hold peers of different nodes. -/
theorem selection_of_positions (hnodes : (slice.peers.map PeatPeer.nodeId).Nodup)
    {out : List PeatPeer} {kept : List USize} (hkept : kept.Nodup)
    (hbound : ∀ idx ∈ kept, idx.toNat < slice.peers.length)
    (h : out.map some = kept.map fun idx => slice.peers[idx.toNat]?) : slice.Selection out := by
  constructor
  · intro peer hpeer
    have hmem : some peer ∈ kept.map fun idx => slice.peers[idx.toNat]? :=
      h ▸ List.mem_map_of_mem hpeer
    obtain ⟨idx, -, hidx⟩ := List.mem_map.mp hmem
    exact List.mem_of_getElem? hidx
  · have hids : (out.map PeatPeer.nodeId).map some =
        kept.map fun idx => (slice.peers.map PeatPeer.nodeId)[idx.toNat]? := by
      have hmapped := congrArg (List.map (Option.map PeatPeer.nodeId)) h
      simpa [Function.comp_def] using hmapped
    refine List.Nodup.of_map some ?_
    rw [hids]
    refine List.Nodup.map_on ?_ hkept
    intro i hi j hj heq
    have hlt := hbound i hi
    exact USize.toNat_inj.mp ((List.getElem?_inj (by simpa using hlt) hnodes).mp heq)

end Select

/-! ## How many are selected -/

theorem toNat_of_small {n : Nat} (h : n < 2 ^ 32) : (USize.ofNat n).toNat = n :=
  USize.toNat_ofNat_of_lt' (h.trans_le USize.le_size)

theorem toNat_max_one (fanout : USize) : (max fanout 1).toNat = max fanout.toNat 1 := by
  have hone : (1 : USize).toNat = 1 := toNat_of_small (n := 1) (by decide)
  change (if fanout ≤ 1 then 1 else fanout).toNat = _
  split
  · rename_i hle
    rw [USize.le_iff_toNat_le, hone] at hle
    omega
  · rename_i hgt
    rw [USize.le_iff_toNat_le, hone] at hgt
    omega

section Counting

variable {r : RandomFanout} {slice : PeerSlice} (clock : Nat → Option Nat)

theorem selectPeers_of_le (h : slice.peers.length ≤ r.fanout.toNat) :
    r.selectPeers clock slice = some slice.peers := by
  unfold selectPeers
  split
  · rename_i hempty
    rw [List.isEmpty_iff.mp hempty]
  · rw [if_pos (USize.le_iff_toNat_le.mpr (by rwa [PeerSlice.toNat_len]))]

/-- The number of draws does not overflow. -/
theorem toNat_fanout_mul_three (h : r.fanout.toNat < slice.peers.length) :
    (r.fanout * 3).toNat = r.fanout.toNat * 3 := by
  have hspans := slice.spans
  have hthree : (3 : USize).toNat = 3 := toNat_of_small (n := 3) (by decide)
  rw [USize.toNat_mul, hthree]
  exact Nat.mod_eq_of_lt (by change _ < USize.size; omega)

theorem selectPeers_of_lt (hnodes : (slice.peers.map PeatPeer.nodeId).Nodup)
    (h : r.fanout.toNat < slice.peers.length) : ∃ out, r.selectPeers clock slice = some out ∧
      slice.Selection out ∧ out.length = (distinct r.fanout.toNat
        ((List.range (r.fanout.toNat * 3)).map (r.draw clock slice)) []).length := by
  have hpeers : slice.peers ≠ [] := fun hnil => by simp [hnil] at h
  obtain ⟨out, hout, hmap⟩ := selectLoop_eq r clock hpeers
    (List.range (r.fanout.toNat * 3)) (List.map_nil.trans List.map_nil.symm)
  refine ⟨out, ?_, selection_of_positions hnodes (nodup_distinct List.nodup_nil) ?_ hmap,
    by simpa using congrArg List.length hmap⟩
  · have hmore : ¬ slice.len ≤ r.fanout := by
      rw [USize.le_iff_toNat_le, PeerSlice.toNat_len]
      omega
    rw [selectPeers, if_neg (by simpa using hpeers), if_neg hmore, toNat_fanout_mul_three h, hout]
  · intro idx hidx
    rcases mem_of_mem_distinct hidx with hnone | hdrawn
    · cases hnone
    · obtain ⟨i, -, rfl⟩ := List.mem_map.mp hdrawn
      exact draw_lt r clock hpeers i

/-- Whatever is drawn, nothing is selected twice, and something is selected if there is a peer. -/
theorem selectPeers_selection (r : RandomFanout) (clock : Nat → Option Nat) (slice : PeerSlice)
    (hnodes : (slice.peers.map PeatPeer.nodeId).Nodup) (hfanout : 0 < r.fanout.toNat) :
    ∃ selected, r.selectPeers clock slice = some selected ∧ slice.Selection selected ∧
      (slice.peers ≠ [] → selected ≠ []) ∧ selected.length ≤ r.fanout.toNat := by
  by_cases hfew : slice.peers.length ≤ r.fanout.toNat
  · exact ⟨slice.peers, selectPeers_of_le clock hfew, ⟨List.Subset.refl _, hnodes⟩, id, hfew⟩
  · obtain ⟨out, hout, hselection, hlength⟩ :=
      selectPeers_of_lt clock hnodes (Nat.lt_of_not_le hfew)
    refine ⟨out, hout, hselection, fun _ hnil => ?_, hlength ▸ length_distinct_le (Nat.zero_le _)⟩
    rw [hnil, List.length_nil] at hlength
    rcases limit_le_or_subset r.fanout.toNat
      ((List.range (r.fanout.toNat * 3)).map (r.draw clock slice)) [] with henough | hsub
    · omega
    · have hfirst : r.draw clock slice 0 ∈
          (List.range (r.fanout.toNat * 3)).map (r.draw clock slice) :=
        List.mem_map_of_mem (List.mem_range.mpr (by omega))
      have hkept := List.length_pos_of_mem (hsub hfirst)
      omega

end Counting

/-! ## With a seed -/

/-- The mixed value may wrap in 64 bits and in the size of an address. -/
theorem toNat_toUSize_add (mixed : UInt64) {i : Nat} (hi : i < UInt64.size) :
    (mixed + UInt64.ofNat i).toUSize.toNat = (mixed.toUSize.toNat + i) % USize.size := by
  rw [UInt64.toNat_toUSize, UInt64.toNat_add, UInt64.toNat_ofNat_of_lt' hi, UInt64.toNat_toUSize,
    Nat.mod_add_mod]
  exact Nat.mod_mod_of_dvd _ USize.size_dvd_uInt64Size

section Seeded

variable {r : RandomFanout} {seed : UInt64} (hseed : r.seed = some seed)
  (clock : Nat → Option Nat) (slice : PeerSlice)
include hseed

/-- With a seed the draws count up, modulo the size of an address and then the number of peers. -/
theorem exists_toNat_draw : ∃ first < USize.size, ∀ i < UInt64.size,
    (r.draw clock slice i).toNat = (first + i) % USize.size % slice.peers.length := by
  refine ⟨_, USize.toNat_lt_size (seed * 6364136223846793005).toUSize, fun i hi => ?_⟩
  rw [draw, randomIndex, USize.toNat_mod, PeerSlice.toNat_len, hseed, Option.getD_some,
    toNat_toUSize_add _ hi]

/-- Three draws for each peer wanted are enough: two would be. -/
theorem fanout_le_length_distinct (h : r.fanout.toNat < slice.peers.length) :
    r.fanout.toNat ≤ (distinct r.fanout.toNat
      ((List.range (r.fanout.toNat * 3)).map (r.draw clock slice)) []).length := by
  have hspans := slice.spans
  have hwide := USize.size_le_uint64Size
  obtain ⟨first, hfirst, hdraw⟩ := exists_toNat_draw hseed clock slice
  obtain ⟨start, hstart, hnodup⟩ := exists_nodup_residues (Nat.le_of_lt h) hfirst (by omega)
  have hbound : ∀ i ∈ List.range' start r.fanout.toNat, i < r.fanout.toNat * 3 := by
    intro i hi
    have hi := List.mem_range'_1.mp hi
    omega
  have hresidues : (List.range' start r.fanout.toNat).map (USize.toNat ∘ r.draw clock slice) =
      (List.range' start r.fanout.toNat).map fun i =>
        (first + i) % USize.size % slice.peers.length := by
    refine List.map_congr_left fun i hi => ?_
    have hi := hbound i hi
    rw [Function.comp_apply]
    exact hdraw i (by omega)
  have hdrawn : ((List.range' start r.fanout.toNat).map (r.draw clock slice)).Nodup := by
    refine List.Nodup.of_map USize.toNat ?_
    rw [List.map_map, hresidues]
    exact hnodup
  exact limit_le_length hdrawn
    (List.map_subset _ fun i hi => List.mem_range.mpr (hbound i hi)) (by simp)

end Seeded

theorem selectPeers_withSeed (slice : PeerSlice) (hnodes : (slice.peers.map PeatPeer.nodeId).Nodup)
    (fanout : USize) (seed : UInt64) (clock : Nat → Option Nat) :
    ∃ selected, (withSeed fanout seed).selectPeers clock slice = some selected ∧
      slice.Selection selected ∧
      selected.length = min (max fanout.toNat 1) slice.peers.length := by
  have hmax : (withSeed fanout seed).fanout.toNat = max fanout.toNat 1 := toNat_max_one fanout
  rw [← hmax]
  by_cases hfew : slice.peers.length ≤ (withSeed fanout seed).fanout.toNat
  · exact ⟨slice.peers, selectPeers_of_le clock hfew, ⟨List.Subset.refl _, hnodes⟩,
      (Nat.min_eq_right hfew).symm⟩
  · have hmany := Nat.lt_of_not_le hfew
    obtain ⟨out, hout, hselection, hlength⟩ := selectPeers_of_lt clock hnodes hmany
    refine ⟨out, hout, hselection, ?_⟩
    rw [Nat.min_eq_left (Nat.le_of_lt hmany), hlength]
    exact Nat.le_antisymm (length_distinct_le (Nat.zero_le _))
      (fanout_le_length_distinct rfl clock slice hmany)

/-- With a seed as many peers are selected as are wanted, and without one at least one. -/
theorem selectPeers_sizes (slice : PeerSlice) (hnodes : (slice.peers.map PeatPeer.nodeId).Nodup)
    (fanout : USize) :
    (∀ seed clock, ∃ selected, (withSeed fanout seed).selectPeers clock slice = some selected ∧
      slice.Selection selected ∧
      selected.length = min (max fanout.toNat 1) slice.peers.length) ∧
    ∀ clock, ∃ selected, (new fanout).selectPeers clock slice = some selected ∧
      slice.Selection selected ∧ (slice.peers ≠ [] → selected ≠ []) ∧
      selected.length ≤ max fanout.toNat 1 := by
  have hmax : (new fanout).fanout.toNat = max fanout.toNat 1 := toNat_max_one fanout
  refine ⟨selectPeers_withSeed slice hnodes fanout, fun clock => ?_⟩
  rw [← hmax]
  exact selectPeers_selection (new fanout) clock slice hnodes (by omega)

/-- A slice of four peers, of which two are wanted. -/
def fourPeers : PeerSlice :=
  ⟨[.new 1 "a" none none (-40), .new 2 "b" none none (-50), .new 3 "c" none none (-60),
    .new 4 "d" none none (-70)], by have hsize := USize.le_size; simp; omega⟩

theorem selectPeers_sizes_fourPeers : (fourPeers.peers.map PeatPeer.nodeId).Nodup ∧
    ∀ seed clock, ∃ selected, (withSeed 2 seed).selectPeers clock fourPeers = some selected ∧
      fourPeers.Selection selected ∧ selected.length = 2 := by
  have hnodes : (fourPeers.peers.map PeatPeer.nodeId).Nodup := by decide
  refine ⟨hnodes, fun seed clock => ?_⟩
  have htwo : (2 : USize).toNat = 2 := toNat_of_small (n := 2) (by decide)
  obtain ⟨selected, hout, hselection, hlength⟩ :=
    (selectPeers_sizes fourPeers hnodes 2).1 seed clock
  exact ⟨selected, hout, hselection, by rw [hlength, htwo]; rfl⟩

end RandomFanout

end PeatBtle
