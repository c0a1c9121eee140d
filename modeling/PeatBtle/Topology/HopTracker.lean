import Mathlib.Data.List.Chain
import Mathlib.Data.List.Induction
import PeatBtle.Data.LoggedRun
import PeatBtle.Topology.Forwarding

/-!
# Hop tracking

A tracker lets a message into each node once and into no more nodes than it may. In a
tree it lets a message follow the parents until the root or the limit is met.
-/

namespace PeatBtle

open LinkedTree

namespace MeshRouter

/-- Aggregated data goes to the parent. -/
def aggregationRoute (topology : MeshTopology) : Option NodeId := topology.parent

def disseminationRoutes (topology : MeshTopology) : List NodeId := topology.children

end MeshRouter

structure HopTracker where
  maxHops : UInt8
  visited : List NodeId
deriving DecidableEq

namespace HopTracker

def new (maxHops : UInt8) : HopTracker := ⟨maxHops, []⟩

variable (t : HopTracker)

/-- A loop is refused, and so is a node beyond the limit. -/
def visit (nodeId : NodeId) : HopTracker × Bool :=
  if nodeId ∈ t.visited then (t, false)
  else if t.maxHops.toNat ≤ t.visited.length then (t, false)
  else ({ t with visited := t.visited ++ [nodeId] }, true)

def hasVisited (nodeId : NodeId) : Bool := decide (nodeId ∈ t.visited)

/-- The number of visits is cut to eight bits. -/
def remainingHops : UInt8 :=
  if UInt8.ofNat t.visited.length ≤ t.maxHops then t.maxHops - UInt8.ofNat t.visited.length else 0

def isExpired : Bool := decide (t.maxHops.toNat ≤ t.visited.length)

/-- The tracker after visits to these nodes, in this order. -/
def run (t : HopTracker) (nodes : List NodeId) : HopTracker :=
  LoggedRun.run (fun t nodeId => (t.visit nodeId).1) t nodes

variable {t} {maxHops : UInt8} {past : List NodeId} {next : NodeId}

theorem run_append (t : HopTracker) (past : List NodeId) (next : NodeId) :
    t.run (past ++ [next]) = ((t.run past).visit next).1 := LoggedRun.run_append ..

theorem maxHops_visit (t : HopTracker) (nodeId : NodeId) :
    (t.visit nodeId).1.maxHops = t.maxHops := by
  unfold visit
  split_ifs <;> rfl

theorem maxHops_run (t : HopTracker) (nodes : List NodeId) : (t.run nodes).maxHops = t.maxHops :=
  @LoggedRun.run_unchanged _ _ (fun (t : HopTracker) nodeId => (t.visit nodeId).1) _ maxHops
    maxHops_visit t nodes

theorem eraseDups_append_one (past : List NodeId) (next : NodeId) :
    (past ++ [next]).eraseDups =
      if next ∈ past then past.eraseDups else past.eraseDups ++ [next] := by
  rw [List.eraseDups_append]
  by_cases hold : next ∈ past <;> simp [List.removeAll, List.eraseDups_cons, hold]

theorem eraseDups_of_nodup {nodes : List NodeId} (h : nodes.Nodup) : nodes.eraseDups = nodes := by
  induction nodes using List.reverseRecOn with
  | nil => exact List.eraseDups_nil
  | append_singleton past next ih =>
      have hsplit := List.nodup_append.mp h
      have hnew : next ∉ past := fun hold =>
        hsplit.2.2 next hold next (List.mem_singleton_self _) rfl
      rw [eraseDups_append_one, if_neg hnew, ih hsplit.1]

/-- The last of distinct nodes is among the first `n` only if all are. -/
theorem getLast_mem_take_iff {nodes : List NodeId} {n : Nat} (h : nodes.Nodup)
    (hne : nodes ≠ []) : nodes.getLast hne ∈ nodes.take n ↔ nodes.length ≤ n := by
  constructor
  · intro hmem
    by_contra hlong
    have hsplit := List.dropLast_append_getLast hne
    have hfirst : nodes.take n = nodes.dropLast.take n := by
      conv_lhs => rw [← hsplit]
      exact List.take_append_of_le_length (by rw [List.length_dropLast]; omega)
    rw [hfirst] at hmem
    have hnodup := List.nodup_append.mp (hsplit ▸ h)
    exact hnodup.2.2 _ (List.mem_of_mem_take hmem) _ (List.mem_singleton_self _) rfl
  · intro hle
    rw [List.take_of_length_le hle]
    exact List.getLast_mem hne

/-- The nodes let in are the first distinct ones. -/
theorem visited_run (maxHops : UInt8) (past : List NodeId) :
    ((new maxHops).run past).visited = past.eraseDups.take maxHops.toNat := by
  induction past using List.reverseRecOn with
  | nil => exact List.take_nil.symm
  | append_singleton past next ih =>
      have hmem : next ∈ ((new maxHops).run past).visited → next ∈ past := fun h =>
        List.mem_eraseDups.mp (List.mem_of_mem_take (ih ▸ h))
      rw [run_append, visit, maxHops_run, eraseDups_append_one]
      split
      · rename_i hvisited
        rw [if_pos (hmem hvisited), ih]
      · rename_i hfresh
        split
        · rename_i hfull
          have hlong : maxHops.toNat ≤ past.eraseDups.length := by
            rw [ih, List.length_take] at hfull
            exact hfull.trans (Nat.min_le_right _ _)
          rw [ih]
          split
          · rfl
          · exact (List.take_append_of_le_length hlong).symm
        · rename_i hroom
          have hshort : past.eraseDups.length < maxHops.toNat := by
            rw [ih, List.length_take] at hroom
            change ¬ maxHops.toNat ≤ _ at hroom
            omega
          have hall : ((new maxHops).run past).visited = past.eraseDups := by
            rw [ih, List.take_of_length_le hshort.le]
          have hnew : next ∉ past := fun h => hfresh (hall ▸ List.mem_eraseDups.mpr h)
          rw [if_neg hnew, List.take_of_length_le (by rw [List.length_append]; exact hshort), hall]

/-- Whatever a message runs into: it enters the first distinct nodes, as many as it may. A visit
is granted to a new node below the limit and to no other, and what is left of the limit is
reported without loss. -/
theorem tracker_is_exact (maxHops : UInt8) (past : List NodeId) (next : NodeId) :
    ((new maxHops).run past).visited = past.eraseDups.take maxHops.toNat ∧
      ((((new maxHops).run past).visit next).2 = true ↔
        next ∉ past ∧ past.eraseDups.length < maxHops.toNat) ∧
      ((new maxHops).run past).remainingHops.toNat =
        maxHops.toNat - min past.eraseDups.length maxHops.toNat := by
  have hvisited := visited_run maxHops past
  have hlength : ((new maxHops).run past).visited.length =
      min maxHops.toNat past.eraseDups.length := by rw [hvisited, List.length_take]
  have hmax : ((new maxHops).run past).maxHops = maxHops := maxHops_run (new maxHops) past
  refine ⟨hvisited, ?_, ?_⟩
  · unfold visit
    rw [hmax, hlength]
    split
    · rename_i hin
      have hold : next ∈ past := List.mem_eraseDups.mp (List.mem_of_mem_take (hvisited ▸ hin))
      simp [hold]
    · rename_i hout
      split
      · rename_i hfull
        simp only [Bool.false_eq_true, false_iff, not_and]
        omega
      · rename_i hroom
        have hall : ((new maxHops).run past).visited = past.eraseDups := by
          rw [hvisited, List.take_of_length_le (by omega)]
        have hnew : next ∉ past := fun h => hout (hall ▸ List.mem_eraseDups.mpr h)
        simp only [true_iff]
        exact ⟨hnew, by omega⟩
  · have hbound := maxHops.toNat_lt
    have hcast : (UInt8.ofNat ((new maxHops).run past).visited.length).toNat =
        min maxHops.toNat past.eraseDups.length := by
      rw [UInt8.toNat_ofNat', hlength]
      exact Nat.mod_eq_of_lt (by omega)
    have hle : UInt8.ofNat ((new maxHops).run past).visited.length ≤ maxHops := by
      rw [UInt8.le_iff_toNat_le, hcast]
      exact Nat.min_le_left _ _
    rw [remainingHops, hmax, if_pos hle, UInt8.toNat_sub_of_le _ _ hle, hcast, Nat.min_comm]

end HopTracker

/-! ## Up a tree -/

variable {topology : NodeId → MeshTopology} {tree : LinkedTree NodeId} {v w : NodeId}

theorem LinkedTree.not_up_trans (hv : v ∈ tree.nodes) : ¬ Relation.TransGen tree.Up v v := by
  intro hloop
  obtain ⟨p, hp, hrest⟩ := Relation.TransGen.head'_iff.mp hloop
  exact not_above_parent hv hp hrest

/-- A way up does not come back. -/
theorem nodup_of_up {way : List NodeId} (hnodes : ∀ w ∈ way, w ∈ tree.nodes)
    (hway : way.IsChain tree.Up) : way.Nodup := by
  have hlonger : way.IsChain (Relation.TransGen tree.Up) :=
    hway.imp fun _ _ h => Relation.TransGen.single h
  refine (List.isChain_iff_pairwise.mp hlonger).imp_of_mem fun {a b} ha _ hab heq => ?_
  subst heq
  exact LinkedTree.not_up_trans (hnodes a ha) hab

/-- From every node of a tree the parents lead to the root, along a way on which each node is a
child that its successor knows; the way has no loops, and a tracker follows it to its limit. -/
theorem aggregation_reaches_root (h : Agrees topology tree) (hv : v ∈ tree.nodes) :
    ∃ way : List NodeId, way.head? = some v ∧ way.getLast? = some tree.root ∧
      way.IsChain (fun c p => MeshRouter.aggregationRoute (topology c) = some p ∧
        c ∈ MeshRouter.disseminationRoutes (topology p)) ∧
      MeshRouter.aggregationRoute (topology tree.root) = none ∧
      way.Nodup ∧ way.length ≤ tree.nodes.card ∧
      ∀ maxHops, ((HopTracker.new maxHops).run way).visited = way.take maxHops.toNat ∧
        (((HopTracker.new maxHops).run way).hasVisited tree.root = true ↔
          way.length ≤ maxHops.toNat) := by
  obtain ⟨rest, hchain, hlast⟩ :=
    List.exists_isChain_cons_of_relationReflTransGen (tree.rooted v hv)
  have hnodes : ∀ w ∈ v :: rest, w ∈ tree.nodes :=
    List.IsChain.induction (fun w => w ∈ tree.nodes) _ hchain
      (fun c p hup hc => tree.parent_mem c hc p hup) fun _ => hv
  have hnodup : (v :: rest).Nodup := nodup_of_up hnodes hchain
  refine ⟨v :: rest, rfl, ?_, ?_, ?_, hnodup, ?_, fun maxHops => ?_⟩
  · rw [List.getLast?_eq_some_getLast (List.cons_ne_nil _ _), hlast]
  · refine hchain.imp_of_mem_imp fun c p hc hp hup => ⟨?_, ?_⟩
    · exact (h.parent c (hnodes c hc)).trans hup
    · rw [MeshRouter.disseminationRoutes, h.children p (hnodes p hp),
        tree.mem_children p (hnodes p hp)]
      exact ⟨hnodes c hc, hup⟩
  · exact (h.parent tree.root tree.root_mem).trans tree.root_parent
  · rw [← List.toFinset_card_of_nodup hnodup]
    exact Finset.card_le_card fun w hw => hnodes w (List.mem_toFinset.mp hw)
  · have hvisited := HopTracker.visited_run maxHops (v :: rest)
    rw [HopTracker.eraseDups_of_nodup hnodup] at hvisited
    refine ⟨hvisited, ?_⟩
    rw [HopTracker.hasVisited, decide_eq_true_iff, hvisited, ← hlast]
    exact HopTracker.getLast_mem_take_iff hnodup (List.cons_ne_nil _ _)

/-- From 4 over 2 to the root in three visits. -/
theorem aggregation_reaches_root_twoBranches :
    ∃ way : List NodeId, way.head? = some 4 ∧ way.getLast? = some 1 ∧
      way.IsChain (fun c p => MeshRouter.aggregationRoute (viewsOf twoBranches c) = some p ∧
        c ∈ MeshRouter.disseminationRoutes (viewsOf twoBranches p)) ∧
      MeshRouter.aggregationRoute (viewsOf twoBranches 1) = none ∧ way.Nodup ∧ way.length ≤ 5 ∧
      ∀ maxHops, ((HopTracker.new maxHops).run way).visited = way.take maxHops.toNat ∧
        (((HopTracker.new maxHops).run way).hasVisited 1 = true ↔ way.length ≤ maxHops.toNat) :=
  aggregation_reaches_root (agrees_viewsOf twoBranches) (by decide)

end PeatBtle
