import PeatBtle.Data.LoggedRun
import PeatBtle.Peer

/-!
# Routes to indirect peers

An indirect peer keeps its hop count beside the paths that it is the minimum of.
-/

namespace PeatBtle

open Std Wire MapMerge

namespace IndirectPeer

/-- There is a path, the hop count is that of a shortest one, and all are short enough to be
tracked. -/
structure Consistent (p : IndirectPeer) : Prop where
  attained : ∃ via : NodeId, p.viaPeers[via]? = some p.minHops
  least : ∀ (via : NodeId) (hops : UInt8), p.viaPeers[via]? = some hops → p.minHops ≤ hops
  tracked : ∀ (via : NodeId) (hops : UInt8), p.viaPeers[via]? = some hops → hops ≤ maxTrackedDegree

section Shortest

variable {viaPeers : Map NodeId UInt8}

theorem mem_hops {hops : UInt8} :
    hops ∈ viaPeers.toList.map Prod.snd ↔ ∃ via : NodeId, viaPeers[via]? = some hops := by
  rw [List.mem_map]
  constructor
  · rintro ⟨⟨via, _⟩, hmem, rfl⟩
    exact ⟨via, ExtTreeMap.mem_toList_iff_getElem?_eq_some.mp hmem⟩
  · rintro ⟨via, hvia⟩
    exact ⟨(via, hops), ExtTreeMap.mem_toList_iff_getElem?_eq_some.mpr hvia, rfl⟩

/-- Where there is a path, the shortest is one of them and none is shorter. -/
theorem shortest_spec (default : UInt8)
    (h : ∃ (via : NodeId) (hops : UInt8), viaPeers[via]? = some hops) :
    (∃ via : NodeId, viaPeers[via]? = some (shortest viaPeers default)) ∧
      ∀ (via : NodeId) (hops : UInt8), viaPeers[via]? = some hops →
        shortest viaPeers default ≤ hops := by
  obtain ⟨via, hops, hvia⟩ := h
  cases hmin : (viaPeers.toList.map Prod.snd).min? with
  | none =>
      have hmem := mem_hops.mpr ⟨via, hvia⟩
      rw [List.min?_eq_none_iff.mp hmin] at hmem
      cases hmem
  | some least =>
      obtain ⟨hmem, hle⟩ := List.min?_eq_some_iff.mp hmin
      have hshortest : shortest viaPeers default = least := by
        rw [shortest, hmin, Option.getD_some]
      rw [hshortest]
      exact ⟨mem_hops.mp hmem, fun via hops hvia => hle hops (mem_hops.mpr ⟨via, hvia⟩)⟩

end Shortest

section Updates

variable {p : IndirectPeer} {hopCount : UInt8}

theorem consistent_new (nodeId viaPeer : NodeId) (nowMs : UInt64)
    (htracked : hopCount ≤ maxTrackedDegree) : (new nodeId viaPeer hopCount nowMs).Consistent := by
  have hlookup : ∀ via : NodeId, (new nodeId viaPeer hopCount nowMs).viaPeers[via]? =
      if viaPeer = via then some hopCount else none := by
    intro via
    unfold new
    dsimp only
    rw [getElem?_insert_eq, ExtTreeMap.getElem?_empty]
  have honly : ∀ (via : NodeId) (hops : UInt8),
      (new nodeId viaPeer hopCount nowMs).viaPeers[via]? = some hops → hopCount = hops := by
    intro via hops hvia
    rw [hlookup] at hvia
    split at hvia
    · exact Option.some.inj hvia
    · cases hvia
  refine ⟨⟨viaPeer, ?_⟩, ?_, ?_⟩
  · rw [hlookup, if_pos rfl]
    rfl
  · intro via hops hvia
    rw [← honly via hops hvia]
    exact UInt8.le_refl _
  · intro via hops hvia
    rw [← honly via hops hvia]
    exact htracked

/-- A shorter path sets the minimum at once. It is looked for again if a path may have become
longer. -/
theorem Consistent.updatePath (h : p.Consistent) (viaPeer : NodeId) (nowMs : UInt64)
    (htracked : hopCount ≤ maxTrackedDegree) :
    (p.updatePath viaPeer hopCount nowMs).Consistent := by
  have hlookup : ∀ via : NodeId, (p.viaPeers.insert viaPeer hopCount)[via]? =
      if viaPeer = via then some hopCount else p.viaPeers[via]? := fun _ => getElem?_insert_eq ..
  have htracks : ∀ (via : NodeId) (hops : UInt8),
      (p.viaPeers.insert viaPeer hopCount)[via]? = some hops → hops ≤ maxTrackedDegree := by
    intro via hops hvia
    rw [hlookup] at hvia
    split at hvia
    · rw [← Option.some.inj hvia]
      exact htracked
    · exact h.tracked via hops hvia
  unfold IndirectPeer.updatePath
  by_cases hbetter : hopCount < p.minHops
  · dsimp only
    rw [if_pos hbetter]
    refine ⟨⟨viaPeer, by rw [hlookup, if_pos rfl]⟩, ?_, htracks⟩
    intro via hops hvia
    rw [hlookup] at hvia
    split at hvia
    · rw [Option.some.inj hvia]
      exact UInt8.le_refl _
    · exact UInt8.le_of_lt (UInt8.lt_of_lt_of_le hbetter (h.least via hops hvia))
  · dsimp only
    rw [if_neg hbetter]
    obtain ⟨hattained, hleast⟩ := shortest_spec hopCount
      ⟨viaPeer, hopCount, (hlookup viaPeer).trans (if_pos rfl)⟩
    exact ⟨hattained, hleast, htracks⟩

/-- A path over no hop at all makes the distance zero, another one leaves it positive. -/
theorem Consistent.positive_updatePath_iff (h : p.Consistent) (hpositive : 1 ≤ p.minHops)
    (viaPeer : NodeId) (nowMs : UInt64) (htracked : hopCount ≤ maxTrackedDegree) :
    1 ≤ (p.updatePath viaPeer hopCount nowMs).minHops ↔ 1 ≤ hopCount := by
  have hafter := h.updatePath viaPeer nowMs htracked
  have hlookup : ∀ via : NodeId, (p.updatePath viaPeer hopCount nowMs).viaPeers[via]? =
      if viaPeer = via then some hopCount else p.viaPeers[via]? := fun _ => getElem?_insert_eq ..
  constructor
  · intro hpos
    exact UInt8.le_trans hpos (hafter.least viaPeer hopCount ((hlookup viaPeer).trans (if_pos rfl)))
  · intro hpos
    obtain ⟨via, hvia⟩ := hafter.attained
    rw [hlookup] at hvia
    split at hvia
    · rwa [← Option.some.inj hvia]
    · exact UInt8.le_trans hpositive (h.least via _ hvia)

theorem lookup_removePath {viaPeer : NodeId} {after : IndirectPeer}
    (h : p.removePath viaPeer = some after) (via : NodeId) :
    after.viaPeers[via]? = if viaPeer = via then none else p.viaPeers[via]? := by
  unfold removePath at h
  dsimp only at h
  split at h
  · cases h
  · rw [← Option.some.inj h]
    exact getElem?_erase_eq ..

/-- The peer stays as long as there is another path to it. -/
theorem Consistent.removePath (h : p.Consistent) {viaPeer : NodeId} {after : IndirectPeer}
    (hafter : p.removePath viaPeer = some after) : after.Consistent := by
  have hlookup := lookup_removePath hafter
  unfold IndirectPeer.removePath at hafter
  dsimp only at hafter
  split at hafter
  · cases hafter
  · rename_i hsome
    obtain rfl := Option.some.inj hafter
    obtain ⟨hattained, hleast⟩ := shortest_spec 255
      (exists_of_isEmpty_eq_false hsome)
    refine ⟨hattained, hleast, fun via hops hvia => ?_⟩
    rw [hlookup] at hvia
    split at hvia
    · cases hvia
    · exact h.tracked via hops hvia

/-- Without one of the paths the distance is no smaller. -/
theorem Consistent.minHops_le_removePath (h : p.Consistent) {viaPeer : NodeId}
    {after : IndirectPeer} (hafter : p.removePath viaPeer = some after) :
    p.minHops ≤ after.minHops := by
  obtain ⟨via, hvia⟩ := (h.removePath hafter).attained
  rw [lookup_removePath hafter] at hvia
  split at hvia
  · cases hvia
  · exact h.least via _ hvia

theorem Consistent.minHops_le (h : p.Consistent) : p.minHops ≤ maxTrackedDegree := by
  obtain ⟨via, hvia⟩ := h.attained
  exact h.tracked via _ hvia

end Updates

end IndirectPeer

namespace ConnectionStateGraph

/-- Every indirect peer is reached as it says. -/
def RoutesConsistent (g : ConnectionStateGraph) : Prop :=
  ∀ (node : NodeId) (p : IndirectPeer), g.indirectPeers[node]? = some p → p.Consistent

section Steps

variable {g : ConnectionStateGraph} {node : NodeId} {p : IndirectPeer}

theorem indirect_removeViaPeer {viaPeer : NodeId}
    (h : (g.removeViaPeer viaPeer).indirectPeers[node]? = some p) :
    ∃ old, g.indirectPeers[node]? = some old ∧ old.removePath viaPeer = some p := by
  unfold removeViaPeer at h
  dsimp only at h
  rw [ExtTreeMap.getElem?_filterMap'] at h
  exact Option.bind_eq_some_iff.mp h

theorem indirect_cleanupIndirect {nowMs : UInt64}
    (h : (g.cleanupIndirect nowMs).indirectPeers[node]? = some p) :
    g.indirectPeers[node]? = some p := by
  unfold cleanupIndirect at h
  dsimp only at h
  rw [ExtTreeMap.getElem?_filter'] at h
  exact Option.eq_some_of_filter_eq_some h

/-- What is known of the origin of a relayed message afterwards. -/
def heard (g : ConnectionStateGraph) (sourcePeer originNode : NodeId) (hopCount : UInt8)
    (nowMs : UInt64) : IndirectPeer :=
  match g.indirectPeers[originNode]? with
  | some existing => existing.updatePath sourcePeer hopCount nowMs
  | none => IndirectPeer.new originNode sourcePeer hopCount nowMs

theorem onRelayReceived_eq (g : ConnectionStateGraph) (source origin : NodeId) (hopCount : UInt8)
    (nowMs : UInt64) : g.onRelayReceived source origin hopCount nowMs =
      if hopCount > maxTrackedDegree then g
      else if origin ∈ g.peers then g
      else { g with
        indirectPeers := g.indirectPeers.insert origin (g.heard source origin hopCount nowMs) } :=
  rfl

theorem consistent_heard (h : g.RoutesConsistent) (source origin : NodeId) {hopCount : UInt8}
    (nowMs : UInt64) (htracked : hopCount ≤ maxTrackedDegree) :
    (g.heard source origin hopCount nowMs).Consistent := by
  unfold heard
  cases hold : g.indirectPeers[origin]? with
  | none => exact IndirectPeer.consistent_new origin source nowMs htracked
  | some old => exact (h origin old hold).updatePath source nowMs htracked

theorem routesConsistent_onRelayReceived (h : g.RoutesConsistent) (source origin : NodeId)
    (hopCount : UInt8) (nowMs : UInt64) :
    (g.onRelayReceived source origin hopCount nowMs).RoutesConsistent := by
  rw [onRelayReceived_eq]
  split
  · exact h
  · rename_i hnear
    split
    · exact h
    · intro node p hp
      dsimp only at hp
      rw [getElem?_insert_eq] at hp
      split at hp
      · rw [← Option.some.inj hp]
        exact consistent_heard h source origin nowMs (UInt8.not_lt.mp hnear)
      · exact h node p hp

theorem routesConsistent_act (h : g.RoutesConsistent) (action : Action) :
    (g.act action).RoutesConsistent := by
  cases action with
  | relayReceived source origin hopCount nowMs =>
      exact routesConsistent_onRelayReceived h source origin hopCount nowMs
  | cleanupIndirect nowMs => exact fun node p hp => h node p (indirect_cleanupIndirect hp)
  | removeViaPeer viaPeer =>
      intro node p hp
      obtain ⟨old, hold, hremoved⟩ := indirect_removeViaPeer hp
      exact (h node old hold).removePath hremoved
  | _ => exact h

end Steps

theorem routesConsistent_run {g : ConnectionStateGraph} (h : g.RoutesConsistent)
    (actions : List Action) : (LoggedRun.run act g actions).RoutesConsistent :=
  LoggedRun.run_keeps h fun _ action _ hkept => routesConsistent_act hkept action

theorem routesConsistent_withConfig (rssiDegradedThreshold : Int8) (lostTimeoutMs : UInt64) :
    (withConfig rssiDegradedThreshold lostTimeoutMs).RoutesConsistent := by
  intro node p hp
  exact absurd hp getElem?_empty_ne_some

/-- After any run the routes are consistent, and none goes through a peer whose paths are then
removed. -/
theorem routes_consistent (rssiDegradedThreshold : Int8) (lostTimeoutMs : UInt64)
    (actions : List Action) :
    let g := LoggedRun.run act (withConfig rssiDegradedThreshold lostTimeoutMs) actions
    g.RoutesConsistent ∧
      ∀ (viaPeer node : NodeId) (p : IndirectPeer),
        (g.removeViaPeer viaPeer).indirectPeers[node]? = some p → viaPeer ∉ p.viaPeers := by
  have hstart := routesConsistent_withConfig rssiDegradedThreshold lostTimeoutMs
  refine ⟨routesConsistent_run hstart actions, ?_⟩
  intro viaPeer node p hp hmem
  obtain ⟨old, -, hremoved⟩ := indirect_removeViaPeer hp
  have hnone := IndirectPeer.lookup_removePath hremoved viaPeer
  rw [if_pos rfl] at hnone
  rw [ExtTreeMap.mem_iff_isSome_getElem?, hnone] at hmem
  cases hmem

end ConnectionStateGraph

end PeatBtle
