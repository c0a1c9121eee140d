import PeatBtle.Data.LoggedRun
import PeatBtle.Peer

/-!
# Lost peers

A peer is lost if it has been disconnected for long enough. That it is still seen
does not count: the sweep goes by the time of the disconnection, and a sighting
only makes a lost peer a disconnected one again.
-/

namespace PeatBtle

open Std Wire MapMerge

namespace ConnectionStateGraph

/-! ## Timed runs -/

def Action.time? : Action → Option UInt64
  | .discovered _ _ _ _ _ nowMs | .connecting _ nowMs | .connected _ nowMs
  | .disconnected _ _ nowMs | .rssi _ _ nowMs | .imported _ nowMs | .tick nowMs
  | .cleanupLost _ nowMs | .relayReceived _ _ _ nowMs | .cleanupIndirect nowMs => some nowMs
  | .removeViaPeer _ => none

/-- The clock does not go back. -/
def Timely (actions : List Action) : Prop :=
  actions.Pairwise fun earlier later =>
    ∀ s ∈ earlier.time?, ∀ t ∈ later.time?, s ≤ t

instance (earlier later : Action) :
    Decidable (∀ s ∈ earlier.time?, ∀ t ∈ later.time?, s ≤ t) :=
  have (s : UInt64) : Decidable (∀ t ∈ later.time?, s ≤ t) :=
    Option.decidableForallMem later.time?
  Option.decidableForallMem earlier.time?

instance (actions : List Action) : Decidable (Timely actions) :=
  inferInstanceAs (Decidable (List.Pairwise _ actions))

def Action.sighting? : Action → Option (NodeId × UInt64)
  | .discovered nodeId _ _ _ _ nowMs => some (nodeId, nowMs)
  | _ => none

/-- When which peer was discovered. -/
def sightings (actions : List Action) : List (NodeId × UInt64) :=
  actions.filterMap Action.sighting?

/-- No sweep of the run declares a peer lost that was seen within the timeout. -/
def LostUnseen (start : ConnectionStateGraph) (actions : List Action) : Prop :=
  ∀ front nowMs, front ++ [Action.tick nowMs] <+: actions →
    ∀ node ∈ ((LoggedRun.run act start front).tick nowMs).2,
      ∀ t, (node, t) ∈ sightings front → saturatingSub nowMs t > start.lostTimeoutMs

/-- What the sweep takes for lost was also last seen that long ago. -/
def SweepsUnseen (g : ConnectionStateGraph) : Action → Prop
  | .tick nowMs => ∀ (node : NodeId) (p : PeerConnectionState), g.peers[node]? = some p →
      g.overdue nowMs p = true → saturatingSub nowMs p.lastSeenMs > g.lostTimeoutMs
  | _ => True

instance (g : ConnectionStateGraph) (action : Action) : Decidable (g.SweepsUnseen action) := by
  cases action with
  | tick nowMs =>
      refine decidable_of_iff (∀ entry ∈ g.peers.toList, g.overdue nowMs entry.2 = true →
        saturatingSub nowMs entry.2.lastSeenMs > g.lostTimeoutMs) ?_
      exact ⟨fun h node p hp => h (node, p) (ExtTreeMap.mem_toList_iff_getElem?_eq_some.mpr hp),
        fun h entry hentry =>
          h entry.1 entry.2 (ExtTreeMap.mem_toList_iff_getElem?_eq_some.mp hentry)⟩
  | _ => exact inferInstanceAs (Decidable True)

/-- The signal of a disconnected peer is not measured. -/
def MeasuresConnected (g : ConnectionStateGraph) : Action → Prop
  | .rssi nodeId _ _ => ∀ p, g.peers[nodeId]? = some p → p.state ≠ .disconnected
  | _ => True

section Steps

variable {g : ConnectionStateGraph} {node : NodeId} {p : PeerConnectionState}

theorem peers_onRelayReceived (g : ConnectionStateGraph) (source origin : NodeId)
    (hopCount : UInt8) (nowMs : UInt64) :
    (g.onRelayReceived source origin hopCount nowMs).peers = g.peers := by
  unfold onRelayReceived
  split
  · rfl
  · split
    · rfl
    · rfl

theorem lostTimeoutMs_act (g : ConnectionStateGraph) (action : Action) :
    (g.act action).lostTimeoutMs = g.lostTimeoutMs := by
  cases action with
  | relayReceived source origin hopCount nowMs =>
      unfold act onRelayReceived
      dsimp only
      split
      · rfl
      · split
        · rfl
        · rfl
  | _ => rfl

theorem mem_tick {nowMs : UInt64} : node ∈ (g.tick nowMs).2 ↔
    ∃ p, g.peers[node]? = some p ∧ g.overdue nowMs p = true := by
  unfold tick
  rw [List.mem_map]
  constructor
  · rintro ⟨⟨_, p⟩, hmem, rfl⟩
    obtain ⟨hentry, hoverdue⟩ := List.mem_filter.mp hmem
    exact ⟨p, ExtTreeMap.mem_toList_iff_getElem?_eq_some.mp hentry, hoverdue⟩
  · rintro ⟨p, hp, hoverdue⟩
    exact ⟨(node, p), List.mem_filter.mpr
      ⟨ExtTreeMap.mem_toList_iff_getElem?_eq_some.mpr hp, hoverdue⟩, rfl⟩

theorem lastSeenMs_updateRssi (p : PeerConnectionState) (rssi : Int8) (nowMs : UInt64)
    (threshold : Int8) : (p.updateRssi rssi nowMs threshold).1.lastSeenMs = nowMs := by
  unfold PeerConnectionState.updateRssi
  dsimp only
  split
  · rfl
  · split
    · rfl
    · rfl

theorem disconnected_of_updateRssi {rssi : Int8} {nowMs : UInt64} {threshold : Int8}
    (h : (p.updateRssi rssi nowMs threshold).1.state = .disconnected) :
    p.state = .disconnected := by
  unfold PeerConnectionState.updateRssi at h
  dsimp only at h
  split at h
  · cases h
  · split at h
    · cases h
    · exact h

theorem unseen_of_same {action : Action} {others : Map NodeId PeerConnectionState}
    (h : others[node]? = some p) (hsame : others = g.peers) (hnone : action.sighting? = none) :
    g.peers[node]? = some p ∧ ∀ t, action.sighting? ≠ some (node, t) := by
  refine ⟨hsame ▸ h, fun t heq => ?_⟩
  rw [hnone] at heq
  cases heq

/-- Whoever is gone after a step was gone before and has not been seen, or has just been written
to: seen, disconnected, declared lost or measured. -/
theorem gone_cases {action : Action} (h : (g.act action).peers[node]? = some p)
    (hgone : p.state = .disconnected ∨ p.state = .lost) :
    (g.peers[node]? = some p ∧ ∀ t, action.sighting? ≠ some (node, t)) ∨
      (action.time? = some p.lastSeenMs ∧ (p.state = .disconnected → g.MeasuresConnected action →
        action.sighting? = some (node, p.lastSeenMs) ∨ p.disconnectedAt = some p.lastSeenMs)) := by
  cases action with
  | discovered nodeId identifier name meshId rssi nowMs =>
      change (g.peers.insert nodeId _)[node]? = some p at h
      rw [getElem?_insert_eq] at h
      split at h
      · rename_i hself
        rw [← Option.some.inj h]
        exact Or.inr ⟨rfl, fun _ _ => Or.inl (by rw [hself]; rfl)⟩
      · rename_i hother
        refine Or.inl ⟨h, fun t heq => hother ?_⟩
        exact (Prod.mk.inj (Option.some.inj heq)).1
  | connecting nodeId nowMs =>
      rcases of_getElem?_modify _ nodeId node h with ⟨-, old, -, rfl⟩ | ⟨-, hsame⟩
      · exact absurd hgone (by simp [PeerConnectionState.setConnecting])
      · exact Or.inl (unseen_of_same hsame rfl rfl)
  | connected nodeId nowMs =>
      rcases of_getElem?_modify _ nodeId node h with ⟨-, old, -, rfl⟩ | ⟨-, hsame⟩
      · exact absurd hgone (by simp [PeerConnectionState.setConnected])
      · exact Or.inl (unseen_of_same hsame rfl rfl)
  | disconnected nodeId reason nowMs =>
      rcases of_getElem?_modify _ nodeId node h with ⟨-, old, -, rfl⟩ | ⟨-, hsame⟩
      · exact Or.inr ⟨rfl, fun _ _ => Or.inr rfl⟩
      · exact Or.inl (unseen_of_same hsame rfl rfl)
  | rssi nodeId rssi nowMs =>
      rcases of_getElem?_modify _ nodeId node h with ⟨hself, old, hold, rfl⟩ | ⟨-, hsame⟩
      · refine Or.inr ⟨congrArg some (lastSeenMs_updateRssi ..).symm, fun hstate hmeasures => ?_⟩
        exact absurd (disconnected_of_updateRssi hstate) (hmeasures old (hself ▸ hold))
      · exact Or.inl (unseen_of_same hsame rfl rfl)
  | imported peer nowMs =>
      change (g.peers.insert peer.nodeId _)[node]? = some p at h
      rw [getElem?_insert_eq] at h
      split at h
      · rw [← Option.some.inj h] at hgone
        unfold PeerConnectionState.fromPeer at hgone
        cases hconnected : peer.isConnected <;> simp [hconnected] at hgone
      · exact Or.inl (unseen_of_same h rfl rfl)
  | tick nowMs =>
      change (g.peers.map _)[node]? = some p at h
      rw [ExtTreeMap.getElem?_map] at h
      obtain ⟨old, hold, hp⟩ := Option.map_eq_some_iff.mp h
      unfold PeerConnectionState.setLost at hp
      split at hp
      · split at hp
        · rw [← hp]
          exact Or.inr ⟨rfl, nofun⟩
        · exact Or.inl (unseen_of_same (hp ▸ hold) rfl rfl)
      · exact Or.inl (unseen_of_same (hp ▸ hold) rfl rfl)
  | cleanupLost olderThanMs nowMs =>
      change (g.peers.filter _)[node]? = some p at h
      rw [ExtTreeMap.getElem?_filter'] at h
      exact Or.inl (unseen_of_same (Option.eq_some_of_filter_eq_some h) rfl rfl)
  | relayReceived source origin hopCount nowMs =>
      rw [act, peers_onRelayReceived] at h
      exact Or.inl (unseen_of_same h rfl rfl)
  | cleanupIndirect nowMs => exact Or.inl (unseen_of_same h rfl rfl)
  | removeViaPeer viaPeer => exact Or.inl (unseen_of_same h rfl rfl)

end Steps

/-! ## Runs -/

section Runs

variable {rssiDegradedThreshold : Int8} {lostTimeoutMs : UInt64} {actions : List Action}
  {node : NodeId} {p : PeerConnectionState}

theorem sightings_concat (front : List Action) (action : Action) :
    sightings (front ++ [action]) = sightings front ++ action.sighting?.toList := by
  rw [sightings, List.filterMap_append, sightings]
  cases hsighting : action.sighting? <;> simp [hsighting]

theorem mem_sightings_concat {front : List Action} {action : Action} {t : UInt64} :
    (node, t) ∈ sightings (front ++ [action]) ↔
      (node, t) ∈ sightings front ∨ action.sighting? = some (node, t) := by
  rw [sightings_concat, List.mem_append, Option.mem_toList]

theorem time_of_sighting {action : Action} {t : UInt64}
    (h : action.sighting? = some (node, t)) : action.time? = some t := by
  cases action with
  | discovered => exact congrArg some (Prod.mk.inj (Option.some.inj h)).2
  | _ => cases h

/-- With a clock that does not go back, a peer that is gone was last seen no earlier than it was
discovered. -/
theorem sighting_le_lastSeen (htimely : Timely actions)
    (h : (LoggedRun.run act (withConfig rssiDegradedThreshold lostTimeoutMs) actions).peers[node]? =
      some p) (hgone : p.state = .disconnected ∨ p.state = .lost) {t : UInt64}
    (hseen : (node, t) ∈ sightings actions) : t ≤ p.lastSeenMs := by
  induction actions using List.reverseRecOn generalizing p with
  | nil => cases hseen
  | append_singleton front action ih =>
      obtain ⟨hfront, -, hlast⟩ := List.pairwise_append.mp htimely
      rw [LoggedRun.run_append] at h
      rcases gone_cases h hgone with ⟨hbefore, hunseen⟩ | ⟨htime, -⟩
      · rcases mem_sightings_concat.mp hseen with hearlier | hnow
        · exact ih hfront hbefore hgone hearlier
        · exact absurd hnow (hunseen t)
      · rcases mem_sightings_concat.mp hseen with hearlier | hnow
        · obtain ⟨earlier, hmem, hsighting⟩ := List.mem_filterMap.mp hearlier
          exact hlast earlier hmem action (List.mem_singleton_self _) t
            (time_of_sighting hsighting) p.lastSeenMs htime
        · rw [time_of_sighting hnow] at htime
          rw [Option.some.inj htime]
          exact UInt64.le_refl _

/-- Unless its signal is measured meanwhile, a disconnected peer was last seen when it was
disconnected or discovered. -/
theorem lastSeen_of_disconnected
    (hmeasures : LoggedRun.Along act MeasuresConnected
      (withConfig rssiDegradedThreshold lostTimeoutMs) actions)
    (h : (LoggedRun.run act (withConfig rssiDegradedThreshold lostTimeoutMs) actions).peers[node]? =
      some p) (hstate : p.state = .disconnected) :
    (node, p.lastSeenMs) ∈ sightings actions ∨ p.disconnectedAt = some p.lastSeenMs := by
  induction actions using List.reverseRecOn generalizing p with
  | nil => exact absurd h getElem?_empty_ne_some
  | append_singleton front action ih =>
      have hearlier := LoggedRun.along_of_prefix hmeasures (List.prefix_append front [action])
      have hnow := LoggedRun.along_iff.mp hmeasures front action (List.prefix_refl _)
      rw [LoggedRun.run_append] at h
      rcases gone_cases h (Or.inl hstate) with ⟨hbefore, -⟩ | ⟨-, hwritten⟩
      · exact (ih hearlier hbefore hstate).imp_left
          fun hseen => mem_sightings_concat.mpr (Or.inl hseen)
      · exact (hwritten hstate hnow).imp_left
          fun hseen => mem_sightings_concat.mpr (Or.inr hseen)

end Runs

theorem lostTimeoutMs_run (g : ConnectionStateGraph) (actions : List Action) :
    (LoggedRun.run act g actions).lostTimeoutMs = g.lostTimeoutMs :=
  LoggedRun.run_unchanged lostTimeoutMs_act g actions

/-- A clock that does not go back makes the sweep declare lost only who was not seen, if what it
goes by is older than the last sighting. Where no disconnected peer is measured, only then. -/
theorem lost_unseen (rssiDegradedThreshold : Int8) (lostTimeoutMs : UInt64) (actions : List Action)
    (htimely : Timely actions) :
    let start := withConfig rssiDegradedThreshold lostTimeoutMs
    (LoggedRun.Along act SweepsUnseen start actions → LostUnseen start actions) ∧
      (LoggedRun.Along act MeasuresConnected start actions → LostUnseen start actions →
        LoggedRun.Along act SweepsUnseen start actions) := by
  extract_lets start
  constructor
  · intro hsweeps front nowMs hprefix node hnode t hseen
    obtain ⟨p, hp, hoverdue⟩ := mem_tick.mp hnode
    have hgone : p.state = .disconnected :=
      of_decide_eq_true (Bool.and_eq_true_iff.mp hoverdue).1
    have hfront : Timely front :=
      htimely.sublist ((List.prefix_append front _).trans hprefix).sublist
    have hle := sighting_le_lastSeen hfront hp (Or.inl hgone) hseen
    have hlong := LoggedRun.along_iff.mp hsweeps front (.tick nowMs) hprefix node p hp hoverdue
    rw [lostTimeoutMs_run] at hlong
    exact UInt64.lt_of_lt_of_le hlong (saturatingSub_anti hle)
  · intro hmeasures hunseen
    rw [LoggedRun.along_iff]
    intro front action hprefix
    cases action with
    | tick nowMs =>
        intro node p hp hoverdue
        obtain ⟨hstate, hsince⟩ := Bool.and_eq_true_iff.mp hoverdue
        have hearlier := LoggedRun.along_of_prefix hmeasures
          ((List.prefix_append front [Action.tick nowMs]).trans hprefix)
        rcases lastSeen_of_disconnected hearlier hp (of_decide_eq_true hstate) with hseen | hleft
        · rw [lostTimeoutMs_run]
          exact hunseen front nowMs hprefix node (mem_tick.mpr ⟨p, hp, hoverdue⟩) _ hseen
        · rw [hleft] at hsince
          exact of_decide_eq_true hsince
    | _ => trivial

/-- A peer that was connected for a while. -/
def departedPeer : List Action :=
  [.discovered 0x22222222 "AA:BB:CC:DD:EE:02" none none (-60) 1000, .connected 0x22222222 2000,
    .disconnected 0x22222222 .linkLoss 3000]

/-- If it falls silent it is lost, and nobody has seen it. -/
theorem departedPeer_lost_unseen :
    let start := withConfig (-80) 30000
    ((LoggedRun.run act start departedPeer).tick 40000).2 = [0x22222222] ∧
      LostUnseen start (departedPeer ++ [Action.tick 40000]) :=
  ⟨by decide +kernel, (lost_unseen (-80) 30000 (departedPeer ++ [Action.tick 40000])
    (by decide +kernel)).1 (by decide +kernel)⟩

/-- If it keeps advertising it is lost all the same, at every sweep. -/
theorem departedPeer_lost_though_seen :
    let start := withConfig (-80) 30000
    let seen := departedPeer ++
      [Action.discovered 0x22222222 "AA:BB:CC:DD:EE:02" none none (-60) 34000]
    let seenAgain := seen ++ [Action.tick 34500,
      .discovered 0x22222222 "AA:BB:CC:DD:EE:02" none none (-60) 35000]
    Timely (seenAgain ++ [Action.tick 35500]) ∧
      ((LoggedRun.run act start seen).tick 34500).2 = [0x22222222] ∧
      ((LoggedRun.run act start seenAgain).tick 35500).2 = [0x22222222] ∧
      ¬ LostUnseen start (seenAgain ++ [Action.tick 35500]) := by
  refine ⟨by decide +kernel, by decide +kernel, by decide +kernel, fun h => ?_⟩
  have hlong := h _ 35500 (List.prefix_refl _) 0x22222222 (by decide +kernel) 35000
    (by decide +kernel)
  revert hlong
  decide +kernel

end ConnectionStateGraph

end PeatBtle
