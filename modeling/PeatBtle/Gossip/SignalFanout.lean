import PeatBtle.Gossip.RandomFanout

/-!
# Gossip by signal strength

The strongest peer is always selected. A first pass over the others, by falling strength,
leaves out a peer that is much weaker than the one selected before it once half of the
fan-out is taken; a second pass fills what is left. The comparison is made in eight bits.
-/

namespace PeatBtle

open Draws

structure SignalBasedFanout where
  fanout : USize
  rssiThreshold : Int8

namespace SignalBasedFanout

def new (fanout : USize) (rssiThreshold : Int8) : SignalBasedFanout := ⟨max fanout 1, rssiThreshold⟩

/-- An overflow is a panic. -/
def checkedSub (a b : Int8) : Option Int8 :=
  if -128 ≤ a.toInt - b.toInt ∧ a.toInt - b.toInt ≤ 127 then some (a - b) else none

/-- `sort_by` on the reversed order; the sort is stable. -/
def sortedPeers (slice : PeerSlice) : List PeatPeer :=
  slice.peers.mergeSort fun a b => decide (b.rssi ≤ a.rssi)

/-- The first pass: strong signals, with some diversity. -/
def preferLoop (s : SignalBasedFanout) (subtract : Int8 → Int8 → Option Int8) :
    List PeatPeer → List PeatPeer → Option (List PeatPeer)
  | [], selected => some selected
  | peer :: peers, selected =>
      if selected.length ≥ s.fanout.toNat then some selected
      else
        let lastRssi := (selected.getLast?.map PeatPeer.rssi).getD (-100)
        match subtract lastRssi s.rssiThreshold with
        | none => none
        | some bound =>
            if peer.rssi ≥ bound ∨ selected.length < s.fanout.toNat / 2 + 1 then
              s.preferLoop subtract peers (selected ++ [peer])
            else s.preferLoop subtract peers selected

/-- The second pass. -/
def fillLoop (s : SignalBasedFanout) : List PeatPeer → List PeatPeer → List PeatPeer
  | [], selected => selected
  | peer :: peers, selected =>
      if selected.length ≥ s.fanout.toNat then selected
      else if selected.any (·.nodeId = peer.nodeId) then s.fillLoop peers selected
      else s.fillLoop peers (selected ++ [peer])

def selectPeers (s : SignalBasedFanout) (subtract : Int8 → Int8 → Option Int8)
    (slice : PeerSlice) : Option (List PeatPeer) :=
  if slice.peers.isEmpty then some []
  else if slice.len ≤ s.fanout then some slice.peers
  else
    let sorted := sortedPeers slice
    (s.preferLoop subtract sorted.tail sorted.head?.toList).map (s.fillLoop sorted)

/-! ## What is selected -/

section Passes

variable {s : SignalBasedFanout} {subtract : Int8 → Int8 → Option Int8}

/-- The first pass only adds peers, in their order. -/
theorem preferLoop_spec {peers selected out : List PeatPeer}
    (h : s.preferLoop subtract peers selected = some out) :
    selected <+: out ∧ out.Sublist (selected ++ peers) ∧
      (selected.length ≤ s.fanout.toNat → out.length ≤ s.fanout.toNat) := by
  induction peers generalizing selected with
  | nil =>
      obtain rfl := Option.some.inj h
      exact ⟨List.prefix_rfl, by simp, id⟩
  | cons peer peers ih =>
      have hskip : (selected ++ peers).Sublist (selected ++ peer :: peers) :=
        List.Sublist.append_left (List.sublist_cons_self peer peers) selected
      unfold preferLoop at h
      split at h
      · obtain rfl := Option.some.inj h
        exact ⟨List.prefix_rfl, List.sublist_append_left selected _, id⟩
      · rename_i hroom
        simp only at h
        split at h
        · cases h
        · split at h
          · obtain ⟨hextends, hsub, hlen⟩ := ih h
            refine ⟨(List.prefix_append selected [peer]).trans hextends, by simpa using hsub,
              fun _ => hlen ?_⟩
            rw [List.length_append, List.length_singleton]
            omega
          · obtain ⟨hextends, hsub, hlen⟩ := ih h
            exact ⟨hextends, hsub.trans hskip, hlen⟩

/-- The second pass draws from the sorted peers those whose nodes are new. -/
theorem fillLoop_spec (peers selected : List PeatPeer) :
    selected <+: s.fillLoop peers selected ∧
      (∀ peer ∈ s.fillLoop peers selected, peer ∈ selected ∨ peer ∈ peers) ∧
      (s.fillLoop peers selected).map PeatPeer.nodeId = distinct s.fanout.toNat
        (peers.map PeatPeer.nodeId) (selected.map PeatPeer.nodeId) := by
  induction peers generalizing selected with
  | nil => exact ⟨List.prefix_rfl, fun _ h => Or.inl h, rfl⟩
  | cons peer peers ih =>
      have hany : selected.any (·.nodeId = peer.nodeId) = true ↔
          peer.nodeId ∈ selected.map PeatPeer.nodeId := by
        simp [List.any_eq_true]
      rw [fillLoop, List.map_cons, distinct, List.length_map]
      by_cases hfull : selected.length ≥ s.fanout.toNat
      · rw [if_pos hfull, if_pos hfull]
        exact ⟨List.prefix_rfl, fun _ h => Or.inl h, rfl⟩
      · rw [if_neg hfull, if_neg hfull]
        by_cases hold : peer.nodeId ∈ selected.map PeatPeer.nodeId
        · rw [if_pos (hany.mpr hold), if_pos hold]
          obtain ⟨hextends, hmem, hids⟩ := ih selected
          exact ⟨hextends, fun p hp => (hmem p hp).imp_right (List.mem_cons_of_mem peer), hids⟩
        · rw [if_neg (mt hany.mp hold), if_neg hold]
          obtain ⟨hextends, hmem, hids⟩ := ih (selected ++ [peer])
          refine ⟨(List.prefix_append selected [peer]).trans hextends, fun p hp => ?_,
            hids.trans (by rw [List.map_append, List.map_singleton])⟩
          rcases hmem p hp with hp | hp
          · rcases List.mem_append.mp hp with hp | hp
            · exact Or.inl hp
            · exact Or.inr (List.mem_singleton.mp hp ▸ List.mem_cons_self)
          · exact Or.inr (List.mem_cons_of_mem peer hp)

end Passes

theorem sortedPeers_perm (slice : PeerSlice) : (sortedPeers slice).Perm slice.peers :=
  List.mergeSort_perm _ _

theorem sortedPeers_pairwise (slice : PeerSlice) :
    (sortedPeers slice).Pairwise fun a b => b.rssi ≤ a.rssi := by
  refine (List.pairwise_mergeSort (fun a b c hab hbc => ?_) (fun a b => ?_) slice.peers).imp
    of_decide_eq_true
  · exact decide_eq_true (Int8.le_trans (of_decide_eq_true hbc) (of_decide_eq_true hab))
  · rw [Bool.or_eq_true, decide_eq_true_eq, decide_eq_true_eq]
    exact Int8.le_total _ _

theorem exists_strongest {slice : PeerSlice} (h : slice.peers ≠ []) : ∃ best rest,
    sortedPeers slice = best :: rest ∧ ∀ peer ∈ slice.peers, peer.rssi ≤ best.rssi := by
  have hperm := sortedPeers_perm slice
  have hpairwise := sortedPeers_pairwise slice
  cases hsorted : sortedPeers slice with
  | nil => exact absurd (List.nil_perm.mp (hsorted ▸ hperm)) h
  | cons best rest =>
      rw [hsorted] at hperm hpairwise
      refine ⟨best, rest, rfl, fun peer hpeer => ?_⟩
      rcases List.mem_cons.mp (hperm.mem_iff.mpr hpeer) with rfl | hrest
      · exact Int8.le_refl _
      · exact List.rel_of_pairwise_cons hpairwise hrest

section Select

variable {s : SignalBasedFanout} {subtract : Int8 → Int8 → Option Int8} {slice : PeerSlice}

theorem selectPeers_of_le (h : slice.peers.length ≤ s.fanout.toNat) :
    s.selectPeers subtract slice = some slice.peers := by
  unfold selectPeers
  split
  · rename_i hempty
    rw [List.isEmpty_iff.mp hempty]
  · rw [if_pos (USize.le_iff_toNat_le.mpr (by rwa [PeerSlice.toNat_len]))]

theorem selectPeers_of_lt (h : s.fanout.toNat < slice.peers.length) :
    s.selectPeers subtract slice = (s.preferLoop subtract (sortedPeers slice).tail
      (sortedPeers slice).head?.toList).map (s.fillLoop (sortedPeers slice)) := by
  have hsome : ¬ slice.peers.isEmpty = true := fun hempty => by
    simp [List.isEmpty_iff.mp hempty] at h
  have hmore : ¬ slice.len ≤ s.fanout := by
    rw [USize.le_iff_toNat_le, PeerSlice.toNat_len]
    omega
  rw [selectPeers, if_neg hsome, if_neg hmore]

/-- As many peers as are wanted, and a strongest one among them. -/
structure Selects (s : SignalBasedFanout) (slice : PeerSlice) (selected : List PeatPeer) : Prop
    extends slice.Selection selected where
  length : selected.length = min s.fanout.toNat slice.peers.length
  strongest : slice.peers ≠ [] → ∃ best ∈ selected, ∀ peer ∈ slice.peers, peer.rssi ≤ best.rssi

/-- However the threshold is subtracted, what is returned is right. -/
theorem selects_of_some (hnodes : (slice.peers.map PeatPeer.nodeId).Nodup)
    (hfanout : 0 < s.fanout.toNat) {selected : List PeatPeer}
    (h : s.selectPeers subtract slice = some selected) : s.Selects slice selected := by
  by_cases hfew : slice.peers.length ≤ s.fanout.toNat
  · obtain rfl := Option.some.inj ((selectPeers_of_le hfew).symm.trans h)
    refine ⟨⟨List.Subset.refl _, hnodes⟩, (Nat.min_eq_right hfew).symm, fun hpeers => ?_⟩
    obtain ⟨best, rest, hsorted, hbest⟩ := exists_strongest hpeers
    exact ⟨best, (sortedPeers_perm slice).mem_iff.mp (hsorted ▸ List.mem_cons_self), hbest⟩
  · have hmany := Nat.lt_of_not_le hfew
    have hpeers : slice.peers ≠ [] := fun hnil => by simp [hnil] at hmany
    obtain ⟨best, rest, hsorted, hbest⟩ := exists_strongest hpeers
    have hperm := sortedPeers_perm slice
    rw [selectPeers_of_lt hmany, hsorted] at h
    rw [hsorted] at hperm
    obtain ⟨first, hfirst, rfl⟩ := Option.map_eq_some_iff.mp h
    obtain ⟨hextends, hsub, hlen⟩ := preferLoop_spec hfirst
    obtain ⟨hkept, hmem, hids⟩ := fillLoop_spec (s := s) (best :: rest) first
    have hsorted_nodes : ((best :: rest).map PeatPeer.nodeId).Nodup :=
      (hperm.map PeatPeer.nodeId).nodup_iff.mpr hnodes
    have hfirst_nodes : (first.map PeatPeer.nodeId).Nodup :=
      (hsub.map PeatPeer.nodeId).nodup hsorted_nodes
    have hlength := congrArg List.length hids
    rw [List.length_map] at hlength
    refine ⟨⟨fun peer hpeer => ?_, hids ▸ nodup_distinct hfirst_nodes⟩, ?_, fun _ => ?_⟩
    · refine hperm.mem_iff.mp ?_
      rcases hmem peer hpeer with hfirst | hlater
      · exact hsub.subset hfirst
      · exact hlater
    · rw [hlength, Nat.min_eq_left (Nat.le_of_lt hmany)]
      refine Nat.le_antisymm (length_distinct_le ?_)
        (limit_le_length hsorted_nodes (List.Subset.refl _) ?_)
      · rw [List.length_map]
        exact hlen hfanout
      · rw [List.length_map, hperm.length_eq]
        exact Nat.le_of_lt hmany
    · exact ⟨best, hkept.subset (hextends.subset (List.mem_singleton_self best)), hbest⟩

end Select

/-! ## The overflow -/

/-- The strengths of a slice, the strongest first. -/
def strengths (slice : PeerSlice) : List Int :=
  (slice.peers.map fun peer => peer.rssi.toInt).mergeSort fun a b => decide (b ≤ a)

/-- Whether the peer at a rank is not much weaker than the one before it. -/
def Close (s : SignalBasedFanout) (values : List Int) (rank : Nat) : Prop :=
  values.getD (rank - 1) 0 - s.rssiThreshold.toInt ≤ values.getD rank 0

/-- No peer whose strength is compared with is too weak for the threshold. Below half of the
fan-out every rank is reached, and beyond it those to which no step down is too long. -/
def StrongEnough (s : SignalBasedFanout) (slice : PeerSlice) : Prop :=
  slice.peers.length ≤ s.fanout.toNat ∨ ∀ rank, rank + 1 < s.fanout.toNat →
    (∀ j, s.fanout.toNat / 2 < j → j ≤ rank → s.Close (strengths slice) j) →
    -128 ≤ (strengths slice).getD rank 0 - s.rssiThreshold.toInt

theorem map_sortedPeers (slice : PeerSlice) :
    (sortedPeers slice).map (fun peer => peer.rssi.toInt) = strengths slice :=
  List.map_mergeSort fun a _ b _ => by simp only [Int8.le_iff_toInt_le]

section Overflow

variable {s : SignalBasedFanout} (hthreshold : 0 ≤ s.rssiThreshold.toInt)

/-- A peer that is left out is not compared with, and what follows it is no stronger. -/
theorem preferLoop_of_weak {subtract : Int8 → Int8 → Option Int8} {peers selected : List PeatPeer}
    {bound : Int8}
    (hbound : subtract ((selected.getLast?.map PeatPeer.rssi).getD (-100)) s.rssiThreshold =
      some bound)
    (hhalf : s.fanout.toNat / 2 + 1 ≤ selected.length) (hweak : ∀ p ∈ peers, p.rssi < bound) :
    s.preferLoop subtract peers selected = some selected := by
  induction peers with
  | nil => rfl
  | cons peer peers ih =>
      have hleft : ¬ (peer.rssi ≥ bound ∨ selected.length < s.fanout.toNat / 2 + 1) := by
        rintro (hstrong | hfew)
        · exact Int8.not_le.mpr (hweak peer List.mem_cons_self) hstrong
        · omega
      simp only [preferLoop, hbound, if_neg hleft]
      split
      · rfl
      · exact ih fun p hp => hweak p (List.mem_cons_of_mem peer hp)

include hthreshold

/-- Only the lower end of the range can be passed. -/
theorem checkedSub_eq (last : Int8) : checkedSub last s.rssiThreshold =
    if -128 ≤ last.toInt - s.rssiThreshold.toInt then some (last - s.rssiThreshold) else none := by
  have hlast := last.toInt_lt
  unfold checkedSub
  split
  · rename_i hfits
    rw [if_pos hfits.1]
  · rename_i hover
    rw [if_neg (by omega)]

theorem toInt_sub_threshold {last : Int8}
    (hfits : -128 ≤ last.toInt - s.rssiThreshold.toInt) :
    (last - s.rssiThreshold).toInt = last.toInt - s.rssiThreshold.toInt := by
  have hlast := last.toInt_lt
  rw [Int8.toInt_sub]
  exact Int.bmod_eq_of_le (by omega) (by omega)

/-- One turn of the first pass, in integers. -/
theorem preferLoop_cons {peer : PeatPeer} {peers selected : List PeatPeer} {last : Int8}
    (hlast : (selected.getLast?.map PeatPeer.rssi).getD (-100) = last)
    (hroom : selected.length < s.fanout.toNat) :
    s.preferLoop checkedSub (peer :: peers) selected =
      if -128 ≤ last.toInt - s.rssiThreshold.toInt then
        if selected.length ≤ s.fanout.toNat / 2 ∨
            last.toInt - s.rssiThreshold.toInt ≤ peer.rssi.toInt then
          s.preferLoop checkedSub peers (selected ++ [peer])
        else s.preferLoop checkedSub peers selected
      else none := by
  simp only [preferLoop, if_neg (Nat.not_le.mpr hroom), hlast, checkedSub_eq hthreshold]
  by_cases hfits : -128 ≤ last.toInt - s.rssiThreshold.toInt
  · simp only [if_pos hfits, ge_iff_le, Int8.le_iff_toInt_le,
      toInt_sub_threshold hthreshold hfits, Nat.lt_succ_iff]
    rw [if_congr Or.comm rfl rfl]
  · simp only [if_neg hfits]

end Overflow

/-- The condition on the ranks that the first pass still has to compare with. -/
def StrongEnoughFrom (s : SignalBasedFanout) (values : List Int) (i : Nat) : Prop :=
  ∀ rank, i ≤ rank + 1 → rank + 1 < s.fanout.toNat → rank + 1 < values.length →
    (∀ j, s.fanout.toNat / 2 < j → i ≤ j → j ≤ rank → s.Close values j) →
    -128 ≤ values.getD rank 0 - s.rssiThreshold.toInt

section FirstPass

variable {s : SignalBasedFanout} {values : List Int} {i : Nat}

theorem strongEnoughFrom_of_done (h : s.fanout.toNat ≤ i ∨ values.length ≤ i) :
    s.StrongEnoughFrom values i := by
  intro rank hrank hfanout hlength
  omega

theorem strongEnoughFrom_iff (hi : 0 < i) (hfanout : i < s.fanout.toNat)
    (hlength : i < values.length) : s.StrongEnoughFrom values i ↔
      -128 ≤ values.getD (i - 1) 0 - s.rssiThreshold.toInt ∧
        (i ≤ s.fanout.toNat / 2 ∨ s.Close values i → s.StrongEnoughFrom values (i + 1)) := by
  constructor
  · intro h
    refine ⟨h (i - 1) (by omega) (by omega) (by omega) fun j _ hj hle => by omega, ?_⟩
    intro hreached rank hrank hwanted hmore hclose
    refine h rank (by omega) hwanted hmore fun j hhalf hj hle => ?_
    by_cases heq : j = i
    · rw [heq]
      exact hreached.resolve_left (by omega)
    · exact hclose j hhalf (by omega) hle
  · rintro ⟨hhere, hnext⟩ rank hrank hwanted hmore hclose
    by_cases heq : rank = i - 1
    · rw [heq]
      exact hhere
    · refine hnext ?_ rank (by omega) hwanted hmore fun j hhalf hj hle =>
        hclose j hhalf (by omega) hle
      by_cases hhalf : s.fanout.toNat / 2 < i
      · exact Or.inr (hclose i hhalf (Nat.le_refl i) (by omega))
      · exact Or.inl (by omega)

theorem strongEnough_iff {slice : PeerSlice} (h : s.fanout.toNat < slice.peers.length) :
    s.StrongEnough slice ↔ s.StrongEnoughFrom (strengths slice) 1 := by
  have hlength : (strengths slice).length = slice.peers.length := by
    rw [strengths, List.length_mergeSort, List.length_map]
  rw [StrongEnough, or_iff_right (by omega)]
  constructor
  · intro hstrong rank _ hwanted _ hclose
    exact hstrong rank hwanted fun j hhalf hle => hclose j hhalf (by omega) hle
  · intro hstrong rank hwanted hclose
    exact hstrong rank (by omega) hwanted (by omega) fun j hhalf _ hle => hclose j hhalf hle

theorem getD_rssi {peers : List PeatPeer} (hlt : i < peers.length) :
    (peers.map fun peer => peer.rssi.toInt).getD i 0 = peers[i].rssi.toInt := by
  rw [List.getD_eq_getElem?_getD, List.getElem?_map, List.getElem?_eq_getElem hlt]
  rfl

theorem rssi_last_taken {peers : List PeatPeer} (hi : 0 < i) (hlt : i < peers.length) :
    ((peers.take i).getLast?.map PeatPeer.rssi).getD (-100) = peers[i - 1].rssi := by
  rw [List.getLast?_take, if_neg (by omega), List.getElem?_eq_getElem (by omega)]
  rfl

variable (hthreshold : 0 ≤ s.rssiThreshold.toInt) {sorted : List PeatPeer}
  (hsorted : sorted.Pairwise fun a b => b.rssi ≤ a.rssi)
include hthreshold hsorted

/-- Behind a peer that is too weak all are, and they are passed over without a fault. -/
theorem preferLoop_isSome_of_weak {peer : PeatPeer} {rest : List PeatPeer} (hi : 0 < i)
    (hlt : i < sorted.length) (hdrop : sorted.drop i = peer :: rest)
    (hfits : -128 ≤ sorted[i - 1].rssi.toInt - s.rssiThreshold.toInt)
    (hhalf : s.fanout.toNat / 2 < i)
    (hweak : peer.rssi.toInt < sorted[i - 1].rssi.toInt - s.rssiThreshold.toInt) :
    (s.preferLoop checkedSub rest (sorted.take i)).isSome = true := by
  have htaken : (sorted.take i).length = i := List.length_take_of_le (Nat.le_of_lt hlt)
  have hbound : checkedSub (((sorted.take i).getLast?.map PeatPeer.rssi).getD (-100))
      s.rssiThreshold = some (sorted[i - 1].rssi - s.rssiThreshold) := by
    rw [rssi_last_taken hi hlt, checkedSub_eq hthreshold, if_pos hfits]
  have hfalling : (peer :: rest).Pairwise fun a b => b.rssi ≤ a.rssi := hdrop ▸ hsorted.drop
  rw [preferLoop_of_weak hbound (by omega) fun p hp => ?_]
  · rfl
  · have hle := Int8.le_iff_toInt_le.mp (List.rel_of_pairwise_cons hfalling hp)
    rw [Int8.lt_iff_toInt_lt, toInt_sub_threshold hthreshold hfits]
    omega

/-- While every peer is taken, those that are taken are the first ones. -/
theorem preferLoop_isSome_iff {rest : List PeatPeer} (hi : 0 < i)
    (hdrop : sorted.drop i = rest) :
    (s.preferLoop checkedSub rest (sorted.take i)).isSome = true ↔
      s.StrongEnoughFrom (sorted.map fun peer => peer.rssi.toInt) i := by
  induction rest generalizing i with
  | nil =>
      have hend := List.drop_eq_nil_iff.mp hdrop
      exact iff_of_true rfl (strongEnoughFrom_of_done (Or.inr (by simpa using hend)))
  | cons peer rest ih =>
      have hlt : i < sorted.length := by
        have hpos := congrArg List.length hdrop
        rw [List.length_drop, List.length_cons] at hpos
        omega
      have hpeer : sorted[i] = peer ∧ sorted.drop (i + 1) = rest := by
        rw [List.drop_eq_getElem_cons hlt] at hdrop
        exact List.cons.inj hdrop
      have htaken : (sorted.take i).length = i := List.length_take_of_le (Nat.le_of_lt hlt)
      have hlast := rssi_last_taken hi hlt
      by_cases hfull : s.fanout.toNat ≤ i
      · rw [preferLoop, if_pos (by rw [htaken]; exact hfull)]
        exact iff_of_true rfl (strongEnoughFrom_of_done (Or.inl hfull))
      · have hhere : (sorted.map fun peer => peer.rssi.toInt).getD (i - 1) 0 =
            sorted[i - 1].rssi.toInt := getD_rssi (by omega)
        have hclose : s.Close (sorted.map fun peer => peer.rssi.toInt) i ↔
            sorted[i - 1].rssi.toInt - s.rssiThreshold.toInt ≤ peer.rssi.toInt := by
          rw [Close, hhere, getD_rssi hlt, hpeer.1]
        rw [strongEnoughFrom_iff hi (Nat.lt_of_not_le hfull) (by simpa using hlt), hhere, hclose,
          preferLoop_cons hthreshold hlast (by omega), htaken]
        by_cases hfits : -128 ≤ sorted[i - 1].rssi.toInt - s.rssiThreshold.toInt
        · rw [if_pos hfits, and_iff_right hfits]
          by_cases htake : i ≤ s.fanout.toNat / 2 ∨
              sorted[i - 1].rssi.toInt - s.rssiThreshold.toInt ≤ peer.rssi.toInt
          · rw [if_pos htake, forall_prop_of_true htake, ← hpeer.1,
              ← List.take_succ_eq_append_getElem hlt]
            exact ih (by omega) hpeer.2
          · rw [if_neg htake]
            refine iff_of_true ?_ fun hreached => absurd hreached htake
            exact preferLoop_isSome_of_weak hthreshold hsorted hi hlt hdrop hfits (by omega)
              (by omega)
        · rw [if_neg hfits]
          exact iff_of_false Bool.false_ne_true fun h => hfits h.1

end FirstPass

theorem selectPeers_isSome_iff {s : SignalBasedFanout} (hthreshold : 0 ≤ s.rssiThreshold.toInt)
    (slice : PeerSlice) :
    (s.selectPeers checkedSub slice).isSome = true ↔ s.StrongEnough slice := by
  by_cases hfew : slice.peers.length ≤ s.fanout.toNat
  · rw [selectPeers_of_le hfew]
    exact iff_of_true rfl (Or.inl hfew)
  · have hmany := Nat.lt_of_not_le hfew
    have hpeers : slice.peers ≠ [] := fun hnil => by simp [hnil] at hmany
    obtain ⟨best, rest, hsorted, -⟩ := exists_strongest hpeers
    have hdrop : (sortedPeers slice).drop 1 = rest := by
      rw [hsorted]
      rfl
    have hfirst := preferLoop_isSome_iff hthreshold (sortedPeers_pairwise slice) Nat.one_pos hdrop
    rw [selectPeers_of_lt hmany, Option.isSome_map, strongEnough_iff hmany, ← map_sortedPeers,
      ← hfirst, hsorted]
    rfl

/-- The selection succeeds exactly for strong enough peers, and what is selected is then right. -/
theorem selectPeers_iff (slice : PeerSlice) (hnodes : (slice.peers.map PeatPeer.nodeId).Nodup)
    (fanout : USize) (rssiThreshold : Int8) (hthreshold : 0 ≤ rssiThreshold.toInt) :
    (∃ selected, (new fanout rssiThreshold).selectPeers checkedSub slice = some selected ∧
      slice.Selection selected ∧ selected.length = min (max fanout.toNat 1) slice.peers.length ∧
      (slice.peers ≠ [] → ∃ best ∈ selected, ∀ peer ∈ slice.peers, peer.rssi ≤ best.rssi)) ↔
    (new fanout rssiThreshold).StrongEnough slice := by
  have hmax : (new fanout rssiThreshold).fanout.toNat = max fanout.toNat 1 :=
    RandomFanout.toNat_max_one fanout
  rw [← selectPeers_isSome_iff (s := new fanout rssiThreshold) hthreshold, ← hmax]
  constructor
  · rintro ⟨selected, hsome, -⟩
    rw [hsome]
    rfl
  · intro hsome
    obtain ⟨selected, hselected⟩ := Option.isSome_iff_exists.mp hsome
    have hright := selects_of_some hnodes (by omega) hselected
    exact ⟨selected, hselected, hright.toSelection, hright.length, hright.strongest⟩

theorem toNat_new_two (rssiThreshold : Int8) : (new 2 rssiThreshold).fanout.toNat = 2 := by
  have htwo : (2 : USize).toNat = 2 := RandomFanout.toNat_of_small (n := 2) (by decide)
  rw [new, RandomFanout.toNat_max_one, htwo]
  rfl

theorem strengths_of_pairwise {slice : PeerSlice} (values : List Int)
    (hvalues : slice.peers.map (fun peer => peer.rssi.toInt) = values)
    (hfalling : values.Pairwise fun a b => decide (b ≤ a) = true) : strengths slice = values := by
  rw [strengths, hvalues]
  exact List.mergeSort_of_pairwise hfalling

theorem selectPeers_iff_fourPeers :
    ∃ selected, (new 2 10).selectPeers checkedSub RandomFanout.fourPeers = some selected ∧
      selected.length = 2 := by
  have hstrong : (new 2 10).StrongEnough RandomFanout.fourPeers := by
    refine Or.inr fun rank hrank _ => ?_
    rw [toNat_new_two] at hrank
    obtain rfl : rank = 0 := by omega
    rw [strengths_of_pairwise [-40, -50, -60, -70] rfl (by decide)]
    decide
  obtain ⟨selected, hsome, -, hlength, -⟩ :=
    (selectPeers_iff RandomFanout.fourPeers (by decide) 2 10 (by decide)).mpr hstrong
  refine ⟨selected, hsome, hlength.trans ?_⟩
  have htwo : (2 : USize).toNat = 2 := RandomFanout.toNat_of_small (n := 2) (by decide)
  rw [htwo]
  rfl

/-- Three peers at the edge of the range. -/
def faintPeers : PeerSlice :=
  ⟨[.new 1 "a" none none (-125), .new 2 "b" none none (-126), .new 3 "c" none none (-127)],
    by have hsize := USize.le_size; simp; omega⟩

/-- With the default settings, the strength of the strongest less the threshold overflows. -/
theorem selectPeers_faintPeers : (faintPeers.peers.map PeatPeer.nodeId).Nodup ∧
    (0 : Int) ≤ (10 : Int8).toInt ∧ (new 2 10).selectPeers checkedSub faintPeers = none := by
  refine ⟨by decide, by decide, ?_⟩
  have hweak : ¬ (new 2 10).StrongEnough faintPeers := by
    rintro (hfew | hstrong)
    · rw [toNat_new_two] at hfew
      exact absurd hfew (by decide)
    · have hfirst := hstrong 0 (by rw [toNat_new_two]; decide) fun j hhalf hle => by
        rw [toNat_new_two] at hhalf
        omega
      rw [strengths_of_pairwise [-125, -126, -127] rfl (by decide)] at hfirst
      exact absurd hfirst (by decide)
  rw [← selectPeers_isSome_iff (by decide)] at hweak
  exact Option.not_isSome_iff_eq_none.mp hweak

end SignalBasedFanout

end PeatBtle
