import PeatBtle.Data.Brackets
import PeatBtle.Topology.Manager

/-!
# Failover

A failover starts when the parent is let go and is over when another is connected, or
when none is. The old parent is not kept in between: the one that the completion tells
is the first candidate.
-/

namespace PeatBtle

open Brackets

/-- The events that bracket a failover. -/
def TopologyEvent.failoverMark : TopologyEvent → Option (Mark NodeId)
  | .parentFailoverStarted oldParent => some (.opens oldParent)
  | .parentFailoverCompleted oldParent _ => some (.closes oldParent)
  | .parentConnected _ _ _ | .parentDisconnected _ _ | .childConnected _ _
  | .childDisconnected _ _ | .topologyChanged _ _ _ | .connectionQualityChanged _ _ => none

namespace MeshManager

/-- All that a run tells the listeners. -/
def emitted : MeshManager → List Action → List TopologyEvent
  | _, [] => []
  | m, action :: actions => (m.perform action).2 ++ emitted (m.step action) actions

/-- The failovers that a run starts and does not complete. -/
def failovers (m : MeshManager) (actions : List Action) : List NodeId :=
  pending [] ((m.emitted actions).filterMap TopologyEvent.failoverMark)

/-- No manager is started by a completion, and one that fails leaves what it finds. -/
structure CompletesCleanly (m : MeshManager)
    (newParent : Option (NodeId × HierarchyLevel × Int8)) : Prop where
  stopped : m.state = .stopped → (m.completeFailover newParent).manager.state ≠ .running
  failed : ∀ e, (m.completeFailover newParent).answer = .error e →
    (m.completeFailover newParent).manager.topology = m.topology ∧
    (m.completeFailover newParent).manager.peers = m.peers ∧
    (m.completeFailover newParent).manager.state = m.state

/-- There is no new parent to connect, or one can be connected. -/
def canComplete (m : MeshManager) (newParent : Option (NodeId × HierarchyLevel × Int8)) : Bool :=
  newParent.isNone || (m.topology.parent.isNone && m.topology.canAcceptConnection)

def firstCandidate (m : MeshManager) : NodeId :=
  (m.candidates.head?.map ParentCandidate.nodeId).getD 0

/-- How an action brackets a failover. -/
def mark (m : MeshManager) : Action → Option (Mark NodeId)
  | .startFailover => if m.state = .running then m.topology.parent.map .opens else none
  | .completeFailover newParent =>
      if m.canComplete newParent then some (.closes m.firstCandidate) else none
  | _ => none

variable {m : MeshManager}

/-- Either the failover is completed, or nothing is changed. -/
theorem completeFailover_cases (m : MeshManager)
    (newParent : Option (NodeId × HierarchyLevel × Int8)) :
    m.canComplete newParent = true ∧
        (m.completeFailover newParent).manager.state = .running ∧
        (m.completeFailover newParent).answer = .ok () ∧
        (m.completeFailover newParent).events.filterMap TopologyEvent.failoverMark =
          [.closes m.firstCandidate] ∨
      m.canComplete newParent = false ∧
        (m.completeFailover newParent).manager = m ∧
        (m.completeFailover newParent).events = [] := by
  cases newParent with
  | none => exact Or.inl ⟨rfl, rfl, rfl, rfl⟩
  | some newParent =>
      obtain ⟨node, level, rssi⟩ := newParent
      unfold completeFailover canComplete
      rcases m.connectParent_cases node level rssi with
        ⟨hsame, hevents, ⟨e, he⟩, hno⟩ | ⟨connected, -, hcall, hnone, hroom⟩
      · refine Or.inr ⟨?_, ?_, ?_⟩
        · rw [← Bool.not_eq_true]
          simpa using hno
        · simp only [he, hsame]
        · simp only [he, hevents]
      · refine Or.inl ⟨by simp [hnone, hroom], ?_, ?_, ?_⟩
        · simp only [hcall]
        · simp only [hcall]
        · simp only [hcall]
          rfl

theorem completesCleanly_iff (newParent : Option (NodeId × HierarchyLevel × Int8)) :
    m.CompletesCleanly newParent ↔ (m.canComplete newParent = true → m.state ≠ .stopped) := by
  rcases m.completeFailover_cases newParent with
    ⟨hyes, hrunning, hok, -⟩ | ⟨hno, hsame, -⟩
  · rw [forall_prop_of_true hyes]
    constructor
    · exact fun h hstopped => h.stopped hstopped hrunning
    · refine fun h => ⟨fun hstopped => absurd hstopped h, fun e he => ?_⟩
      rw [hok] at he
      cases he
  · refine iff_of_true ⟨fun hstopped => ?_, fun e _ => ?_⟩ fun hyes => ?_
    · rw [hsame, hstopped]
      decide
    · rw [hsame]
      exact ⟨rfl, rfl, rfl⟩
    · rw [hno] at hyes
      cases hyes

theorem marks_startFailover (m : MeshManager) :
    m.startFailover.events.filterMap TopologyEvent.failoverMark =
      (m.mark .startFailover).toList := by
  unfold startFailover mark
  by_cases hrunning : m.state = .running
  · rw [if_pos hrunning, if_neg (not_not.mpr hrunning)]
    cases hparent : m.topology.parent with
    | none =>
        rw [m.disconnectParent_none .linkLoss hparent]
        rfl
    | some parent =>
        obtain ⟨left, -, hcall⟩ := m.disconnectParent_some .linkLoss hparent
        rw [hcall]
        rfl
  · rw [if_neg hrunning, if_pos hrunning]
    rfl

/-- An action opens or closes one bracket at most. -/
theorem marks_perform (m : MeshManager) (action : Action) :
    (m.perform action).2.filterMap TopologyEvent.failoverMark = (m.mark action).toList := by
  cases action with
  | startFailover => exact marks_startFailover m
  | completeFailover newParent =>
      show (m.completeFailover newParent).events.filterMap TopologyEvent.failoverMark =
        (if m.canComplete newParent then some (.closes m.firstCandidate) else none).toList
      rcases m.completeFailover_cases newParent with ⟨hyes, -, -, hmarks⟩ | ⟨hno, -, hnone⟩
      · rw [hmarks, hyes, if_pos rfl]
        rfl
      · rw [hnone, hno, if_neg Bool.false_ne_true]
        rfl
  | connectParent node level rssi =>
      show (m.connectParent node level rssi).events.filterMap _ = []
      rcases m.connectParent_cases node level rssi with ⟨-, hnone, -⟩ | ⟨connected, -, hcall, -⟩
      · rw [hnone]
        rfl
      · rw [hcall]
        rfl
  | disconnectParent reason =>
      show (m.disconnectParent reason).events.filterMap _ = []
      cases hparent : m.topology.parent with
      | none =>
          rw [m.disconnectParent_none reason hparent]
          rfl
      | some parent =>
          obtain ⟨left, -, hcall⟩ := m.disconnectParent_some reason hparent
          rw [hcall]
          rfl
  | acceptChild node level =>
      show (m.acceptChild node level).events.filterMap _ = []
      rcases m.acceptChild_cases node level with ⟨-, hnone, -⟩ | ⟨accepted, -, hcall, -⟩
      · rw [hnone]
        rfl
      · rw [hcall]
        rfl
  | removeChild node reason =>
      show (m.removeChild node reason).events.filterMap _ = []
      rcases m.removeChild_cases node reason with ⟨hcall, -⟩ | ⟨left, -, hcall, -⟩
      · rw [hcall]
        rfl
      · rw [hcall]
        rfl
  | start =>
      show m.start.events.filterMap _ = []
      unfold start
      split <;> rfl
  | stop => rfl
  | setTimeMs timeMs => rfl
  | processBeacon beacon rssi => rfl
  | updateRssi node rssi => rfl
  | recordFailure node => rfl
  | ageCandidates elapsedMs => rfl

theorem marks_emitted (m : MeshManager) (actions : List Action) :
    (m.emitted actions).filterMap TopologyEvent.failoverMark =
      LoggedRun.log step mark m actions := by
  induction actions generalizing m with
  | nil => rfl
  | cons action actions ih =>
      rw [emitted, LoggedRun.log, List.filterMap_append, marks_perform, ih]

theorem mark_eq_closes_iff {action : Action} {key : NodeId} :
    m.mark action = some (.closes key) ↔ ∃ newParent, action = .completeFailover newParent ∧
      m.canComplete newParent = true ∧ m.firstCandidate = key := by
  cases action with
  | completeFailover newParent => simp [mark]
  | startFailover =>
      refine iff_of_false ?_ fun ⟨newParent, h, _⟩ => by cases h
      by_cases hrunning : m.state = .running <;> simp [mark, hrunning]
  | start => simp [mark]
  | stop => simp [mark]
  | setTimeMs timeMs => simp [mark]
  | processBeacon beacon rssi => simp [mark]
  | connectParent node level rssi => simp [mark]
  | disconnectParent reason => simp [mark]
  | acceptChild node level => simp [mark]
  | removeChild node reason => simp [mark]
  | updateRssi node rssi => simp [mark]
  | recordFailure node => simp [mark]
  | ageCandidates elapsedMs => simp [mark]

/-- In any run the completions match the failovers started, and are clean, if each one that goes
through finds a manager that is not stopped and a first candidate that is the old parent of a
failover not completed. -/
theorem failover_bracketed_iff (nodeId : NodeId) (level : HierarchyLevel) (config : TopologyConfig)
    (actions : List Action) :
    let start := new nodeId level config
    (Matched [] ((start.emitted actions).filterMap TopologyEvent.failoverMark) ∧
      ∀ front newParent, front ++ [.completeFailover newParent] <+: actions →
        (LoggedRun.run step start front).CompletesCleanly newParent) ↔
    ∀ front newParent, front ++ [.completeFailover newParent] <+: actions →
      let m := LoggedRun.run step start front
      m.canComplete newParent = true →
        m.state ≠ .stopped ∧ m.firstCandidate ∈ start.failovers front := by
  intro start
  rw [marks_emitted, matched_log_iff]
  simp only [failovers, marks_emitted, completesCleanly_iff]
  constructor
  · rintro ⟨hmatched, hclean⟩ front newParent hfront hyes
    refine ⟨hclean front newParent hfront hyes, ?_⟩
    exact hmatched front _ _ hfront (mark_eq_closes_iff.mpr ⟨newParent, rfl, hyes, rfl⟩)
  · intro h
    constructor
    · intro front action key hfront hmark
      obtain ⟨newParent, rfl, hyes, rfl⟩ := mark_eq_closes_iff.mp hmark
      exact (h front newParent hfront hyes).2
    · intro front newParent hfront hyes
      exact (h front newParent hfront hyes).1

/-- The failover from node 5 is completed as one from node zero, and a new manager completes one
that nobody started. -/
theorem completed_unstarted :
    ¬ Matched [] (((new 1 .squad .default).emitted
        [.start, .connectParent 5 .platoon (-60), .startFailover,
          .completeFailover none]).filterMap TopologyEvent.failoverMark) ∧
    ¬ (new 1 .squad .default).CompletesCleanly none := by
  constructor
  · decide
  · exact fun h => h.stopped rfl rfl

end MeshManager

end PeatBtle
