import Mathlib.Algebra.BigOperators.Group.Finset.Basic
import Mathlib.Algebra.GroupWithZero.Nat
import Mathlib.Algebra.Order.BigOperators.Group.Finset
import Mathlib.Data.Finset.Card
import Mathlib.Data.List.Nodup
import Mathlib.Logic.Relation

/-!
# Flooding with a hop limit

A node that accepts a copy of a message passes it on to its neighbours, except the one it
came from, and accepts no other copy. A copy counts its hops and is not passed on at the
limit. The copies may be delivered in any order, so a node may first hear of the message
over a long way.
-/

namespace PeatBtle.TtlFlood

structure Copy (ι : Type) where
  source : ι
  receiver : ι
  hops : Nat

/-- Some nodes and their neighbours. -/
structure Net (ι : Type) where
  nodes : Finset ι
  neighbours : ι → List ι
  closed : ∀ v ∈ nodes, ∀ w ∈ neighbours v, w ∈ nodes

variable {ι : Type} {net : Net ι} {origin : ι}

/-- What the receiver of an accepted copy sends. -/
def forwarded [DecidableEq ι] (net : Net ι) (limit : Nat) (c : Copy ι) : List (Copy ι) :=
  if c.hops < limit then
    ((net.neighbours c.receiver).filter (· ≠ c.source)).map fun w => ⟨c.receiver, w, c.hops + 1⟩
  else []

/-- What the origin sends. -/
def sent (net : Net ι) (origin : ι) : List (Copy ι) :=
  (net.neighbours origin).map fun w => ⟨origin, w, 0⟩

/-- How many copies the origin and these nodes send at most. -/
def traffic (net : Net ι) (origin : ι) (accepted : List ι) : Nat :=
  (net.neighbours origin).length + (accepted.map fun v => (net.neighbours v).length).sum

/-- A flood under way, after so many deliveries: nothing is sent from where the message was not,
no copy has made more hops than there are nodes that accepted it, and every neighbour of such a
node has accepted the message too or is about to receive it. -/
structure Spread (net : Net ι) (origin : ι) (copies : List (Copy ι)) (accepted : List ι)
    (deliveries : Nat) : Prop where
  nodup : accepted.Nodup
  accepted_mem : ∀ v ∈ accepted, v ∈ net.nodes
  source_known : ∀ c ∈ copies, c.source = origin ∨ c.source ∈ accepted
  receiver_mem : ∀ c ∈ copies, c.receiver ∈ net.nodes
  hops_le : ∀ c ∈ copies, c.hops ≤ accepted.length
  covered : ∀ v, v = origin ∨ v ∈ accepted → ∀ w ∈ net.neighbours v,
    w = origin ∨ w ∈ accepted ∨ ∃ c ∈ copies, c.receiver = w
  counted : deliveries + copies.length ≤ traffic net origin accepted

variable {copies rest : List (Copy ι)} {accepted : List ι} {deliveries limit : Nat} {c : Copy ι}

theorem spread_start (horigin : origin ∈ net.nodes) :
    Spread net origin (sent net origin) [] 0 where
  nodup := List.nodup_nil
  accepted_mem _ h := absurd h List.not_mem_nil
  source_known c hc := by
    obtain ⟨w, -, rfl⟩ := List.mem_map.mp hc
    exact Or.inl rfl
  receiver_mem c hc := by
    obtain ⟨w, hw, rfl⟩ := List.mem_map.mp hc
    exact net.closed origin horigin w hw
  hops_le c hc := by
    obtain ⟨w, -, rfl⟩ := List.mem_map.mp hc
    exact Nat.le_refl 0
  covered v hv w hw := by
    obtain rfl := hv.resolve_right List.not_mem_nil
    exact Or.inr (Or.inr ⟨⟨v, w, 0⟩, List.mem_map_of_mem hw, rfl⟩)
  counted := by simp [sent, traffic]

/-- The order of the copies does not matter. -/
theorem Spread.perm {others : List (Copy ι)} (h : Spread net origin copies accepted deliveries)
    (hperm : copies.Perm others) : Spread net origin others accepted deliveries where
  nodup := h.nodup
  accepted_mem := h.accepted_mem
  source_known c hc := h.source_known c (hperm.mem_iff.mpr hc)
  receiver_mem c hc := h.receiver_mem c (hperm.mem_iff.mpr hc)
  hops_le c hc := h.hops_le c (hperm.mem_iff.mpr hc)
  covered v hv w hw := by
    refine (h.covered v hv w hw).imp_right (Or.imp_right ?_)
    rintro ⟨c, hc, hreceiver⟩
    exact ⟨c, hperm.mem_iff.mp hc, hreceiver⟩
  counted := hperm.length_eq ▸ h.counted

/-- A copy for a node that has accepted the message is dropped. -/
theorem Spread.drop (h : Spread net origin copies accepted deliveries)
    (hcopy : copies.Perm (c :: rest)) (hknown : c.receiver ∈ accepted) :
    Spread net origin rest accepted (deliveries + 1) where
  nodup := h.nodup
  accepted_mem := h.accepted_mem
  source_known d hd := h.source_known d (hcopy.mem_iff.mpr (List.mem_cons_of_mem _ hd))
  receiver_mem d hd := h.receiver_mem d (hcopy.mem_iff.mpr (List.mem_cons_of_mem _ hd))
  hops_le d hd := h.hops_le d (hcopy.mem_iff.mpr (List.mem_cons_of_mem _ hd))
  covered v hv w hw := by
    rcases h.covered v hv w hw with horigin | haccepted | ⟨d, hd, hreceiver⟩
    · exact Or.inl horigin
    · exact Or.inr (Or.inl haccepted)
    · rcases List.mem_cons.mp (hcopy.mem_iff.mp hd) with rfl | hd
      · exact Or.inr (Or.inl (hreceiver ▸ hknown))
      · exact Or.inr (Or.inr ⟨d, hd, hreceiver⟩)
  counted := by
    have hcounted := h.counted
    rw [hcopy.length_eq, List.length_cons] at hcounted
    omega

/-- Whoever can be reached has accepted the message by the time all copies are delivered. -/
theorem Spread.reached (h : Spread net origin [] accepted deliveries) {v : ι}
    (hv : Relation.ReflTransGen (fun u w => w ∈ net.neighbours u) origin v) :
    v = origin ∨ v ∈ accepted := by
  induction hv with
  | refl => exact Or.inl rfl
  | tail _ hstep ih =>
      rcases h.covered _ ih _ hstep with horigin | haccepted | ⟨c, hc, -⟩
      · exact Or.inl horigin
      · exact Or.inr haccepted
      · exact absurd hc List.not_mem_nil

variable [DecidableEq ι]

theorem mem_forwarded {copy : Copy ι} (h : copy ∈ forwarded net limit c) :
    copy.source = c.receiver ∧ copy.receiver ∈ net.neighbours c.receiver ∧
      copy.hops = c.hops + 1 := by
  unfold forwarded at h
  split at h
  · obtain ⟨w, hw, rfl⟩ := List.mem_map.mp h
    exact ⟨rfl, List.mem_of_mem_filter hw, rfl⟩
  · exact absurd h List.not_mem_nil

theorem length_forwarded_le : (forwarded net limit c).length ≤
    (net.neighbours c.receiver).length := by
  unfold forwarded
  split
  · rw [List.length_map]
    exact List.length_filter_le ..
  · exact Nat.zero_le _

/-- As many nodes as the network has are all its nodes. -/
theorem mem_of_card_le (hnodup : accepted.Nodup) (hmem : ∀ v ∈ accepted, v ∈ net.nodes)
    (hcard : net.nodes.card ≤ accepted.length) {v : ι} (hv : v ∈ net.nodes) : v ∈ accepted := by
  have hsubset : accepted.toFinset ⊆ net.nodes := fun w hw => hmem w (List.mem_toFinset.mp hw)
  have heq := Finset.eq_of_subset_of_card_le hsubset
    (by rwa [List.toFinset_card_of_nodup hnodup])
  rw [← heq] at hv
  exact List.mem_toFinset.mp hv

/-- A copy that is accepted is passed on, unless it is out of hops; but then it has been
everywhere. -/
theorem Spread.accept (h : Spread net origin copies accepted deliveries)
    (hlimit : net.nodes.card ≤ limit + 1) (horigin : origin ∈ net.nodes)
    (hcopy : copies.Perm (c :: rest)) (hnew : c.receiver ∉ accepted) :
    Spread net origin (rest ++ forwarded net limit c) (accepted ++ [c.receiver])
      (deliveries + 1) := by
  have hc := hcopy.mem_iff.mpr List.mem_cons_self
  have hold : ∀ d ∈ rest, d ∈ copies := fun d hd => hcopy.mem_iff.mpr (List.mem_cons_of_mem _ hd)
  have hreceiver := h.receiver_mem c hc
  have hnodup : (accepted ++ [c.receiver]).Nodup := by
    rw [List.nodup_append]
    refine ⟨h.nodup, List.nodup_singleton _, ?_⟩
    rintro v hv w hw rfl
    exact hnew (List.mem_singleton.mp hw ▸ hv)
  have hmem : ∀ v ∈ accepted ++ [c.receiver], v ∈ net.nodes := by
    intro v hv
    rcases List.mem_append.mp hv with hv | hv
    · exact h.accepted_mem v hv
    · exact List.mem_singleton.mp hv ▸ hreceiver
  refine ⟨hnodup, hmem, ?_, ?_, ?_, ?_, ?_⟩
  · intro d hd
    rcases List.mem_append.mp hd with hd | hd
    · exact (h.source_known d (hold d hd)).imp_right (List.mem_append_left _)
    · rw [(mem_forwarded hd).1]
      exact Or.inr (List.mem_append_right _ (List.mem_singleton_self _))
  · intro d hd
    rcases List.mem_append.mp hd with hd | hd
    · exact h.receiver_mem d (hold d hd)
    · exact net.closed _ hreceiver _ (mem_forwarded hd).2.1
  · intro d hd
    rw [List.length_append, List.length_singleton]
    rcases List.mem_append.mp hd with hd | hd
    · exact (h.hops_le d (hold d hd)).trans (Nat.le_succ _)
    · rw [(mem_forwarded hd).2.2]
      exact Nat.succ_le_succ (h.hops_le c hc)
  · intro v hv w hw
    rcases Nat.lt_or_ge c.hops limit with hhops | hlast
    · by_cases hself : v = c.receiver
      · subst hself
        by_cases hback : w = c.source
        · rcases h.source_known c hc with hsource | hsource
          · exact Or.inl (hback.trans hsource)
          · exact Or.inr (Or.inl (List.mem_append_left _ (hback ▸ hsource)))
        · refine Or.inr (Or.inr ⟨⟨c.receiver, w, c.hops + 1⟩, List.mem_append_right _ ?_, rfl⟩)
          rw [forwarded, if_pos hhops]
          exact List.mem_map_of_mem (f := fun w => (⟨c.receiver, w, c.hops + 1⟩ : Copy ι))
            (List.mem_filter.mpr ⟨hw, decide_eq_true hback⟩)
      · have hv' : v = origin ∨ v ∈ accepted :=
          hv.imp_right fun hmem => (List.mem_append.mp hmem).resolve_right
            fun hlast => hself (List.mem_singleton.mp hlast)
        rcases h.covered v hv' w hw with horigin | haccepted | ⟨d, hd, rfl⟩
        · exact Or.inl horigin
        · exact Or.inr (Or.inl (List.mem_append_left _ haccepted))
        · rcases List.mem_cons.mp (hcopy.mem_iff.mp hd) with rfl | hd
          · exact Or.inr (Or.inl (List.mem_append_right _ (List.mem_singleton_self _)))
          · exact Or.inr (Or.inr ⟨d, List.mem_append_left _ hd, rfl⟩)
    · -- out of hops: the copy has made a hop for each node that accepted the message before
      have hhops := h.hops_le c hc
      have hvnode : v ∈ net.nodes := hv.elim (fun heq => heq ▸ horigin) (hmem v)
      refine Or.inr (Or.inl (mem_of_card_le hnodup hmem ?_ (net.closed v hvnode w hw)))
      rw [List.length_append, List.length_singleton]
      omega
  · have hcounted := h.counted
    have hforwarded : (forwarded net limit c).length ≤ _ := length_forwarded_le
    rw [hcopy.length_eq, List.length_cons] at hcounted
    simp only [traffic, List.length_append, List.map_append, List.map_singleton, List.sum_append,
      List.sum_singleton] at hcounted ⊢
    omega

/-- Every node sends at most one copy to each neighbour. -/
theorem Spread.deliveries_le (h : Spread net origin copies accepted deliveries) :
    deliveries + copies.length ≤
      (net.neighbours origin).length + ∑ v ∈ net.nodes, (net.neighbours v).length := by
  have hsubset : accepted.toFinset ⊆ net.nodes :=
    fun v hv => h.accepted_mem v (List.mem_toFinset.mp hv)
  have hsum : (accepted.map fun v => (net.neighbours v).length).sum ≤
      ∑ v ∈ net.nodes, (net.neighbours v).length := by
    rw [← List.sum_toFinset _ h.nodup]
    exact Finset.sum_le_sum_of_subset hsubset
  exact h.counted.trans (Nat.add_le_add_left hsum _)

end PeatBtle.TtlFlood
