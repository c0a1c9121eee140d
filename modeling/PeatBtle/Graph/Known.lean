import PeatBtle.Graph.Routes
import Mathlib.Data.Finset.Card

/-!
# Known peers

Direct peers are counted by their state, indirect ones by their distance. A total
of both is the number of known nodes only if no node is both.
-/

namespace PeatBtle

open Std Wire MapMerge

/-! ## Counts -/

structure StateCountSummary where
  discovered : Nat
  connecting : Nat
  connected : Nat
  degraded : Nat
  disconnecting : Nat
  disconnected : Nat
  lost : Nat
deriving DecidableEq

namespace StateCountSummary

def zero : StateCountSummary := ⟨0, 0, 0, 0, 0, 0, 0⟩

def count (s : StateCountSummary) : ConnectionState → StateCountSummary
  | .discovered => { s with discovered := s.discovered + 1 }
  | .connecting => { s with connecting := s.connecting + 1 }
  | .connected => { s with connected := s.connected + 1 }
  | .degraded => { s with degraded := s.degraded + 1 }
  | .disconnecting => { s with disconnecting := s.disconnecting + 1 }
  | .disconnected => { s with disconnected := s.disconnected + 1 }
  | .lost => { s with lost := s.lost + 1 }

def total (s : StateCountSummary) : Nat :=
  s.discovered + s.connecting + s.connected + s.degraded + s.disconnecting + s.disconnected + s.lost

theorem total_count (s : StateCountSummary) (state : ConnectionState) :
    (s.count state).total = s.total + 1 := by
  cases state <;> simp only [count, total] <;> omega

end StateCountSummary

structure FullStateCountSummary where
  direct : StateCountSummary
  oneHop : Nat
  twoHop : Nat
  threeHop : Nat
deriving DecidableEq

namespace FullStateCountSummary

/-- A peer at another distance is not counted. -/
def count (s : FullStateCountSummary) (p : IndirectPeer) : FullStateCountSummary :=
  if p.minHops = 1 then { s with oneHop := s.oneHop + 1 }
  else if p.minHops = 2 then { s with twoHop := s.twoHop + 1 }
  else if p.minHops = 3 then { s with threeHop := s.threeHop + 1 }
  else s

def total (s : FullStateCountSummary) : Nat := s.direct.total + s.oneHop + s.twoHop + s.threeHop

theorem total_count (s : FullStateCountSummary) {p : IndirectPeer}
    (h : 1 ≤ p.minHops ∧ p.minHops ≤ maxTrackedDegree) : (s.count p).total = s.total + 1 := by
  have hhops : p.minHops = 1 ∨ p.minHops = 2 ∨ p.minHops = 3 := by
    obtain ⟨hlow, hhigh⟩ := h
    rw [UInt8.le_iff_toNat_le] at hlow hhigh
    have hone : (1 : UInt8).toNat = 1 := rfl
    have hmax : maxTrackedDegree.toNat = 3 := rfl
    have hcases : p.minHops.toNat = 1 ∨ p.minHops.toNat = 2 ∨ p.minHops.toNat = 3 := by omega
    exact hcases.imp UInt8.toNat_inj.mp (Or.imp UInt8.toNat_inj.mp UInt8.toNat_inj.mp)
  rcases hhops with hone | htwo | hthree
  · simp only [count, hone, if_pos, total]
    omega
  · simp only [count, htwo, total]
    simp
    omega
  · simp only [count, hthree, total]
    simp
    omega

end FullStateCountSummary

namespace ConnectionStateGraph

def stateCounts (g : ConnectionStateGraph) : StateCountSummary :=
  g.peers.toList.foldl (fun summary entry => summary.count entry.2.state) .zero

def fullStateCounts (g : ConnectionStateGraph) : FullStateCountSummary :=
  g.indirectPeers.toList.foldl (fun summary entry => summary.count entry.2)
    ⟨g.stateCounts, 0, 0, 0⟩

theorem total_stateCounts (g : ConnectionStateGraph) : g.stateCounts.total = g.peers.size := by
  have hfold : ∀ (entries : List (NodeId × PeerConnectionState)) (s : StateCountSummary),
      (entries.foldl (fun summary entry => summary.count entry.2.state) s).total =
        s.total + entries.length := by
    intro entries
    induction entries with
    | nil => exact fun s => rfl
    | cons entry entries ih =>
        intro s
        rw [List.foldl_cons, ih, StateCountSummary.total_count, List.length_cons]
        omega
  rw [stateCounts, hfold, ExtTreeMap.length_toList]
  exact Nat.zero_add _

/-- Direct or indirect. -/
def knownNodes (g : ConnectionStateGraph) : Finset NodeId :=
  (g.peers.keys ++ g.indirectPeers.keys).toFinset

/-- No node is both a direct and an indirect peer, and the indirect ones are at a distance that is
tracked. -/
structure Separate (g : ConnectionStateGraph) : Prop where
  apart : ∀ node ∈ g.peers, node ∉ g.indirectPeers
  distant : ∀ (node : NodeId) (p : IndirectPeer), g.indirectPeers[node]? = some p →
    1 ≤ p.minHops ∧ p.minHops ≤ maxTrackedDegree

/-- The summary then counts every known node once. -/
structure Partitioned (g : ConnectionStateGraph) : Prop extends Separate g where
  counted : g.fullStateCounts.total = g.knownNodes.card

section Counting

variable {g : ConnectionStateGraph}

theorem card_knownNodes (h : g.Separate) :
    g.knownNodes.card = g.peers.size + g.indirectPeers.size := by
  have hnodup : (g.peers.keys ++ g.indirectPeers.keys).Nodup := by
    refine List.nodup_append.mpr ⟨ExtTreeMap.nodup_keys, ExtTreeMap.nodup_keys, ?_⟩
    rintro node hdirect _ hindirect rfl
    exact h.apart node (ExtTreeMap.mem_of_mem_keys hdirect) (ExtTreeMap.mem_of_mem_keys hindirect)
  rw [knownNodes, List.toFinset_card_of_nodup hnodup, List.length_append, ExtTreeMap.length_keys,
    ExtTreeMap.length_keys]

theorem total_fullStateCounts (h : g.Separate) :
    g.fullStateCounts.total = g.peers.size + g.indirectPeers.size := by
  have hfold : ∀ (entries : List (NodeId × IndirectPeer)) (s : FullStateCountSummary),
      (∀ entry ∈ entries, 1 ≤ entry.2.minHops ∧ entry.2.minHops ≤ maxTrackedDegree) →
        (entries.foldl (fun summary entry => summary.count entry.2) s).total =
          s.total + entries.length := by
    intro entries
    induction entries with
    | nil => exact fun s _ => rfl
    | cons entry entries ih =>
        intro s hrange
        have hfirst := hrange entry (List.mem_cons_self ..)
        rw [List.foldl_cons, ih _ fun e he => hrange e (List.mem_cons_of_mem _ he),
          FullStateCountSummary.total_count s hfirst, List.length_cons]
        omega
  have hrange : ∀ entry ∈ g.indirectPeers.toList,
      1 ≤ entry.2.minHops ∧ entry.2.minHops ≤ maxTrackedDegree := fun entry hentry =>
    h.distant entry.1 entry.2 (ExtTreeMap.mem_toList_iff_getElem?_eq_some.mp hentry)
  rw [fullStateCounts, hfold _ _ hrange, ExtTreeMap.length_toList, FullStateCountSummary.total,
    total_stateCounts]
  rfl

theorem partitioned_iff : g.Partitioned ↔ g.Separate :=
  ⟨fun h => h.toSeparate,
    fun h => ⟨h, (total_fullStateCounts h).trans (card_knownNodes h).symm⟩⟩

end Counting

/-! ## What keeps them apart -/

/-- Nobody becomes a direct peer who is an indirect one, and no relayed message of a node that is
not a direct peer claims that it came over no hop at all. -/
def Admits (g : ConnectionStateGraph) : Action → Prop
  | .discovered nodeId _ _ _ _ _ => nodeId ∉ g.indirectPeers
  | .imported peer _ => peer.nodeId ∉ g.indirectPeers
  | .relayReceived _ originNode hopCount _ => hopCount = 0 → originNode ∈ g.peers
  | _ => True

section Steps

variable {g after : ConnectionStateGraph}

/-- Direct peers that only go, and indirect ones that stay in range. -/
theorem Separate.of_fewer (h : g.Separate) (hpeers : ∀ node ∈ after.peers, node ∈ g.peers)
    (hindirect : ∀ (node : NodeId) (p : IndirectPeer), after.indirectPeers[node]? = some p →
      ∃ old, g.indirectPeers[node]? = some old ∧
        (1 ≤ old.minHops ∧ old.minHops ≤ maxTrackedDegree →
          1 ≤ p.minHops ∧ p.minHops ≤ maxTrackedDegree)) : after.Separate := by
  constructor
  · intro node hnode hmem
    obtain ⟨p, hp⟩ := Option.isSome_iff_exists.mp (ExtTreeMap.mem_iff_isSome_getElem?.mp hmem)
    obtain ⟨old, hold, -⟩ := hindirect node p hp
    exact h.apart node (hpeers node hnode) (mem_of_getElem? hold)
  · intro node p hp
    obtain ⟨old, hold, hrange⟩ := hindirect node p hp
    exact hrange (h.distant node old hold)

/-- A new direct peer must not be an indirect one. -/
theorem separate_insert_iff (h : g.Separate) (node : NodeId) (p : PeerConnectionState) :
    Separate { g with peers := g.peers.insert node p } ↔ node ∉ g.indirectPeers := by
  constructor
  · exact fun hafter => hafter.apart node (ExtTreeMap.mem_insert_self ..)
  · intro hnew
    refine ⟨fun other hother => ?_, h.distant⟩
    rcases ExtTreeMap.mem_insert.mp hother with heq | hmem
    · rwa [← LawfulEqCmp.eq_of_compare heq]
    · exact h.apart other hmem

theorem separate_modify (h : g.Separate) (node : NodeId)
    (f : PeerConnectionState → PeerConnectionState) :
    Separate { g with peers := g.peers.modify node f } :=
  h.of_fewer (fun _ hother => ExtTreeMap.mem_modify.mp hother)
    fun _ p hp => ⟨p, hp, fun hrange => hrange⟩

theorem positive_heard_iff (hroutes : g.RoutesConsistent) (h : g.Separate)
    (source origin : NodeId) {hopCount : UInt8} (nowMs : UInt64)
    (htracked : hopCount ≤ maxTrackedDegree) :
    1 ≤ (g.heard source origin hopCount nowMs).minHops ↔ 1 ≤ hopCount := by
  unfold heard
  cases hold : g.indirectPeers[origin]? with
  | none => exact Iff.rfl
  | some old =>
      exact (hroutes origin old hold).positive_updatePath_iff (h.distant origin old hold).1
        source nowMs htracked

theorem one_le_iff_ne_zero (hops : UInt8) : 1 ≤ hops ↔ hops ≠ 0 := by
  rw [UInt8.le_iff_toNat_le, ne_eq, ← UInt8.toNat_inj]
  change 1 ≤ hops.toNat ↔ ¬ hops.toNat = 0
  omega

/-- A node that is no direct peer may become an indirect one at any distance within the range. -/
theorem separate_insert_indirect_iff (h : g.Separate) {origin : NodeId}
    (hindirect : origin ∉ g.peers) (p : IndirectPeer) :
    Separate { g with indirectPeers := g.indirectPeers.insert origin p } ↔
      1 ≤ p.minHops ∧ p.minHops ≤ maxTrackedDegree := by
  constructor
  · intro hafter
    exact hafter.distant origin p ((getElem?_insert_eq ..).trans (if_pos rfl))
  · intro hrange
    constructor
    · intro node hnode hmem
      rcases ExtTreeMap.mem_insert.mp hmem with heq | hold
      · exact hindirect (LawfulEqCmp.eq_of_compare heq ▸ hnode)
      · exact h.apart node hnode hold
    · intro node p' hp
      dsimp only at hp
      rw [getElem?_insert_eq] at hp
      split at hp
      · rw [← Option.some.inj hp]
        exact hrange
      · exact h.distant node p' hp

/-- A relayed message must not claim a distance of zero, unless its origin is a direct peer. -/
theorem separate_onRelayReceived_iff (hroutes : g.RoutesConsistent) (h : g.Separate)
    (source origin : NodeId) (hopCount : UInt8) (nowMs : UInt64) :
    (g.onRelayReceived source origin hopCount nowMs).Separate ↔
      (hopCount = 0 → origin ∈ g.peers) := by
  rw [onRelayReceived_eq]
  split
  · rename_i hfar
    refine iff_of_true h fun hnone => ?_
    rw [hnone] at hfar
    cases hfar
  · rename_i hnear
    have htracked : hopCount ≤ maxTrackedDegree := UInt8.not_lt.mp hnear
    split
    · rename_i hdirect
      exact iff_of_true h fun _ => hdirect
    · rename_i hindirect
      have hheard := consistent_heard hroutes source origin nowMs htracked
      rw [separate_insert_indirect_iff h hindirect, and_iff_left hheard.minHops_le,
        positive_heard_iff hroutes h source origin nowMs htracked, one_le_iff_ne_zero]
      exact (imp_iff_not hindirect).symm

theorem separate_act_iff (hroutes : g.RoutesConsistent) (h : g.Separate) (action : Action) :
    (g.act action).Separate ↔ g.Admits action := by
  cases action with
  | discovered nodeId => exact separate_insert_iff h nodeId _
  | imported peer => exact separate_insert_iff h peer.nodeId _
  | relayReceived source origin hopCount nowMs =>
      exact separate_onRelayReceived_iff hroutes h source origin hopCount nowMs
  | connecting node => exact iff_of_true (separate_modify h node _) trivial
  | connected node => exact iff_of_true (separate_modify h node _) trivial
  | disconnected node => exact iff_of_true (separate_modify h node _) trivial
  | rssi node => exact iff_of_true (separate_modify h node _) trivial
  | tick nowMs =>
      refine iff_of_true (h.of_fewer (fun _ hnode => ExtTreeMap.mem_map.mp hnode) ?_) trivial
      exact fun _ p hp => ⟨p, hp, fun hrange => hrange⟩
  | cleanupLost olderThanMs nowMs =>
      refine iff_of_true (h.of_fewer (fun _ hnode => ExtTreeMap.mem_of_mem_filter hnode) ?_) trivial
      exact fun _ p hp => ⟨p, hp, fun hrange => hrange⟩
  | cleanupIndirect nowMs =>
      refine iff_of_true (h.of_fewer (fun _ hnode => hnode) ?_) trivial
      exact fun _ p hp => ⟨p, indirect_cleanupIndirect hp, fun hrange => hrange⟩
  | removeViaPeer viaPeer =>
      refine iff_of_true (h.of_fewer (fun _ hnode => hnode) fun node p hp => ?_) trivial
      obtain ⟨old, hold, hremoved⟩ := indirect_removeViaPeer hp
      have hroute := hroutes node old hold
      exact ⟨old, hold, fun hrange =>
        ⟨UInt8.le_trans hrange.1 (hroute.minHops_le_removePath hremoved),
          (hroute.removePath hremoved).minHops_le⟩⟩

end Steps

/-- The known peers stay partitioned all along a run exactly if every step admits only what
belongs there. -/
theorem partitioned_iff_admits (rssiDegradedThreshold : Int8) (lostTimeoutMs : UInt64)
    (actions : List Action) :
    (∀ front, front <+: actions →
        (LoggedRun.run act (withConfig rssiDegradedThreshold lostTimeoutMs) front).Partitioned) ↔
      LoggedRun.Along act Admits (withConfig rssiDegradedThreshold lostTimeoutMs) actions := by
  have hstart : (withConfig rssiDegradedThreshold lostTimeoutMs).Separate := by
    exact ⟨fun node hnode => absurd hnode ExtTreeMap.not_mem_empty,
      fun node p hp => absurd hp getElem?_empty_ne_some⟩
  have hroutes := routesConsistent_withConfig rssiDegradedThreshold lostTimeoutMs
  rw [← LoggedRun.forall_prefix_iff_along hroutes hstart
    (fun _ action h => routesConsistent_act h action)
    (fun _ action hroutes h => separate_act_iff hroutes h action)]
  exact forall₂_congr fun _ _ => partitioned_iff

/-- A relayed message comes from a node that is then discovered nearby. -/
def relayedThenDiscovered : List Action :=
  [.relayReceived 0x22222222 0x33333333 1 1000,
    .discovered 0x33333333 "AA:BB:CC:DD:EE:03" none none (-60) 2000]

/-- It is known once and counted twice. -/
theorem relayedThenDiscovered_not_partitioned :
    let g := LoggedRun.run act (withConfig (-80) 30000) relayedThenDiscovered
    ((0x33333333 : NodeId) ∈ g.peers ∧ (0x33333333 : NodeId) ∈ g.indirectPeers) ∧
      g.fullStateCounts.total = 2 ∧ g.knownNodes.card = 1 ∧ ¬ g.Partitioned := by
  have hboth : (0x33333333 : NodeId) ∈
        (LoggedRun.run act (withConfig (-80) 30000) relayedThenDiscovered).peers ∧
      (0x33333333 : NodeId) ∈
        (LoggedRun.run act (withConfig (-80) 30000) relayedThenDiscovered).indirectPeers := by
    decide +kernel
  refine ⟨hboth, by decide +kernel, by decide +kernel, fun h => ?_⟩
  exact h.apart _ hboth.1 hboth.2

end ConnectionStateGraph

end PeatBtle
