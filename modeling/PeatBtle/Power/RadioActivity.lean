import PeatBtle.Data.Spans
import PeatBtle.Power.SyncQueue

/-!
# Radio activities

The radio follows the scheduler: what `next_event` returns is processed, and in between
syncs are queued, taken out and completed. A critical sync bypasses the schedule, whatever
the radio is doing. Syncs expire in the queue unnoticed until the next one is taken out.
-/

namespace PeatBtle

open LoggedRun Spans

inductive RadioAction where
  | followSchedule (currentTime : UInt64)
  | queueSync (peerId : NodeId) (priority : SyncPriority) (dataSize : Nat) (currentTime : UInt64)
  | nextPendingSync (currentTime : UInt64)
  | completeSync (currentTime : UInt64)
  | setProfile (profile : PowerProfile) (currentTime : UInt64)
  | updateBattery (battery : BatteryState) (currentTime : UInt64)
deriving DecidableEq

/-- An event that was processed, and the scheduler that had returned it. -/
structure IssuedEvent where
  event : SchedulerEvent
  time : UInt64
  before : RadioScheduler
deriving DecidableEq

namespace RadioScheduler

def followSchedule (s : RadioScheduler) (currentTime : UInt64) : RadioScheduler :=
  match s.nextEvent currentTime with
  | some (event, _) => s.processEvent event currentTime
  | none => s

def act (s : RadioScheduler) : RadioAction → RadioScheduler
  | .followSchedule currentTime => s.followSchedule currentTime
  | .queueSync peerId priority dataSize currentTime =>
      (s.queueSync peerId priority dataSize currentTime).1
  | .nextPendingSync currentTime => (s.nextPendingSync currentTime).1
  | .completeSync currentTime => s.completeSync currentTime
  | .setProfile profile currentTime => (s.setProfile profile currentTime).1
  | .updateBattery battery currentTime => s.updateBattery battery currentTime

def issued (s : RadioScheduler) : RadioAction → Option IssuedEvent
  | .followSchedule currentTime =>
      (s.nextEvent currentTime).map fun entry => ⟨entry.1, currentTime, s⟩
  | _ => none

/-- A sync is only completed where one is going on. -/
def Allowed (s : RadioScheduler) : RadioAction → Prop
  | .completeSync _ => s.state = .syncing
  | _ => True

instance (s : RadioScheduler) (action : RadioAction) : Decidable (s.Allowed action) := by
  cases action <;> unfold Allowed <;> infer_instance

end RadioScheduler

namespace IssuedEvent

def Begins (i : IssuedEvent) : Prop :=
  i.event = .startScan ∨ i.event = .startAdvertising ∨ i.event = .syncNow

/-- A sync for the sake of a critical one, which bypasses the schedule. -/
def Preempts (i : IssuedEvent) : Prop := i.event = .syncNow ∧ i.before.hasCriticalSync = true

end IssuedEvent

namespace RadioScheduler

variable {s : RadioScheduler} {currentTime time : UInt64} {event : SchedulerEvent}

/-! ## What the schedule returns -/

theorem nextEvent_cases (h : s.nextEvent currentTime = some (event, time)) :
    (event = .syncNow ∧ s.hasCriticalSync = true) ∨
    (s.state = .idle ∧ event ≠ .stopScan ∧ event ≠ .stopAdvertising ∧
      (event = .syncNow → s.pendingSyncs ≠ [])) ∨
    (s.state = .scanning ∧ event = .stopScan) ∨
    (s.state = .advertising ∧ event = .stopAdvertising) := by
  unfold nextEvent at h
  split at h
  · rename_i hcritical
    obtain ⟨rfl, -⟩ := Prod.mk.inj (Option.some.inj h)
    exact Or.inl ⟨rfl, hcritical⟩
  · split at h
    · rename_i hidle
      refine Or.inr (Or.inl ⟨hidle, ?_⟩)
      split at h
      · obtain ⟨rfl, -⟩ := Prod.mk.inj (Option.some.inj h)
        simp
      · split at h
        · obtain ⟨rfl, -⟩ := Prod.mk.inj (Option.some.inj h)
          simp
        · split at h
          · rename_i hpending
            obtain ⟨rfl, -⟩ := Prod.mk.inj (Option.some.inj h)
            simpa using hpending
          · obtain ⟨rfl, -⟩ := Prod.mk.inj (Option.some.inj h)
            simp
    · rename_i hscanning
      dsimp only at h
      split at h
      · obtain ⟨rfl, -⟩ := Prod.mk.inj (Option.some.inj h)
        exact Or.inr (Or.inr (Or.inl ⟨hscanning, rfl⟩))
      · cases h
    · rename_i hadvertising
      obtain ⟨rfl, -⟩ := Prod.mk.inj (Option.some.inj h)
      exact Or.inr (Or.inr (Or.inr ⟨hadvertising, rfl⟩))
    · cases h
    · cases h

theorem pendingSyncs_ne_nil (h : s.hasCriticalSync = true) : s.pendingSyncs ≠ [] := by
  obtain ⟨p, hp, -⟩ := List.any_eq_true.mp h
  exact List.ne_nil_of_mem hp

/-- A sync is only announced where one is pending. -/
theorem pending_of_syncNow (h : s.nextEvent currentTime = some (.syncNow, time)) :
    s.pendingSyncs ≠ [] := by
  rcases nextEvent_cases h with ⟨-, hcritical⟩ | ⟨-, -, -, hpending⟩ | ⟨-, hevent⟩ | ⟨-, hevent⟩
  · exact pendingSyncs_ne_nil hcritical
  · exact hpending rfl
  · cases hevent
  · cases hevent

theorem nextPendingSync_isSome_iff (s : RadioScheduler) (currentTime : UInt64) :
    (s.nextPendingSync currentTime).2.isSome = true ↔
      ∃ p ∈ s.pendingSyncs, p.isExpired currentTime = false := by
  have hlive : (s.dropExpired currentTime).pendingSyncs ≠ [] ↔
      ∃ p ∈ s.pendingSyncs, p.isExpired currentTime = false := by
    show s.pendingSyncs.filter _ ≠ [] ↔ _
    simp [List.filter_eq_nil_iff]
  rw [← hlive, ne_eq, ← highestIdx_eq_none]
  rcases nextPendingSync_cases s currentTime with ⟨hidx, hnext⟩ | ⟨idx, sync, hidx, -, hnext⟩
  · rw [hnext, hidx]
    simp
  · rw [hnext, hidx]
    simp

/-- While the radio is busy, it is only stopped or preempted. -/
theorem nextEvent_of_busy {stop : SchedulerEvent}
    (hbusy : s.state = .scanning ∧ stop = .stopScan ∨ s.state = .advertising ∧ stop = .stopAdvertising)
    (h : s.nextEvent currentTime = some (event, time)) :
    event = stop ∨ event = .syncNow ∧ s.hasCriticalSync = true := by
  rcases nextEvent_cases h with hpreempts | ⟨hidle, -⟩ | ⟨hscanning, hstop⟩ | ⟨hadvertising, hstop⟩
  · exact Or.inr hpreempts
  · simp [hidle] at hbusy
  · simp only [hscanning, true_and, reduceCtorEq, false_and, or_false] at hbusy
    exact Or.inl (hstop.trans hbusy.symm)
  · simp only [hadvertising, true_and, reduceCtorEq, false_and, false_or] at hbusy
    exact Or.inl (hstop.trans hbusy.symm)

theorem nextEvent_of_scanning (hstate : s.state = .scanning)
    (h : s.nextEvent currentTime = some (event, time)) :
    event = .stopScan ∨ event = .syncNow ∧ s.hasCriticalSync = true :=
  nextEvent_of_busy (Or.inl ⟨hstate, rfl⟩) h

theorem nextEvent_of_advertising (hstate : s.state = .advertising)
    (h : s.nextEvent currentTime = some (event, time)) :
    event = .stopAdvertising ∨ event = .syncNow ∧ s.hasCriticalSync = true :=
  nextEvent_of_busy (Or.inr ⟨hstate, rfl⟩) h

/-! ## What keeps the radio as it is -/

theorem state_queueSync (s : RadioScheduler) (peerId : NodeId) (priority : SyncPriority)
    (dataSize : Nat) (currentTime : UInt64) :
    (s.queueSync peerId priority dataSize currentTime).1.state = s.state := by
  have hevict : s.evict.state = s.state := by
    unfold evict
    split <;> rfl
  unfold queueSync
  dsimp only
  split
  · split
    · rfl
    · exact hevict
  · rfl

theorem state_nextPendingSync (s : RadioScheduler) (currentTime : UInt64) :
    (s.nextPendingSync currentTime).1.state = s.state := by
  rcases nextPendingSync_cases s currentTime with ⟨-, hnext⟩ | ⟨idx, sync, -, -, hnext⟩
  · rw [hnext]
    rfl
  · rw [hnext]
    rfl

theorem state_setProfile (s : RadioScheduler) (profile : PowerProfile) (currentTime : UInt64) :
    (s.setProfile profile currentTime).1.state = s.state := by
  unfold setProfile
  split <;> rfl

theorem state_updateBattery (s : RadioScheduler) (battery : BatteryState)
    (currentTime : UInt64) : (s.updateBattery battery currentTime).state = s.state := by
  unfold updateBattery
  dsimp only
  split
  · split
    · exact state_setProfile _ _ _
    · rfl
  · rfl

/-! ## Runs -/

/-- Where an activity of the radio has begun and neither been stopped nor preempted, the radio
is still at it. -/
structure Follows (past : List IssuedEvent) (s : RadioScheduler) : Prop where
  scan : Open (fun i => i.event = .startScan) (fun i => i.event = .stopScan ∨ i.Preempts) past →
    s.state = .scanning
  advertising : Open (fun i => i.event = .startAdvertising)
    (fun i => i.event = .stopAdvertising ∨ i.Preempts) past → s.state = .advertising

/-- What an activity is followed by. -/
def Ends (start stop : SchedulerEvent) (past : List IssuedEvent) : Prop :=
  ClosedInTime (fun i => i.event = start) (fun i => i.event = stop ∨ i.Preempts)
    IssuedEvent.Begins past

/-- The sync that an event announces is there to be taken out, unless all have expired. -/
def Served (i : IssuedEvent) : Prop :=
  i.event = .syncNow → i.before.pendingSyncs ≠ [] ∧
    ((i.before.nextPendingSync i.time).2.isSome = true ↔
      ∃ p ∈ i.before.pendingSyncs, p.isExpired i.time = false)

structure Bracketed (past : List IssuedEvent) : Prop where
  scan : Ends .startScan .stopScan past
  advertising : Ends .startAdvertising .stopAdvertising past
  served : ∀ i ∈ past, Served i

theorem issued_eq_some {action : RadioAction} {i : IssuedEvent} (h : s.issued action = some i) :
    ∃ time', action = .followSchedule i.time ∧ i.before = s ∧
      s.nextEvent i.time = some (i.event, time') ∧
      s.act action = s.processEvent i.event i.time := by
  cases action with
  | followSchedule currentTime =>
      obtain ⟨entry, hentry, rfl⟩ := Option.map_eq_some_iff.mp h
      refine ⟨entry.2, rfl, rfl, hentry, ?_⟩
      show s.followSchedule currentTime = _
      rw [followSchedule, hentry]
  | _ => cases h

theorem state_of_issued_none {action : RadioAction} (hallowed : s.Allowed action)
    (h : s.issued action = none) :
    (s.act action).state = s.state ∨ s.state = .syncing := by
  cases action with
  | followSchedule currentTime =>
      have hnone := Option.map_eq_none_iff.mp h
      refine Or.inl ?_
      show (s.followSchedule currentTime).state = _
      rw [followSchedule, hnone]
  | queueSync peerId priority dataSize currentTime => exact Or.inl (state_queueSync s _ _ _ _)
  | nextPendingSync currentTime => exact Or.inl (state_nextPendingSync s currentTime)
  | completeSync currentTime => exact Or.inr hallowed
  | setProfile profile currentTime => exact Or.inl (state_setProfile s _ _)
  | updateBattery battery currentTime => exact Or.inl (state_updateBattery s _ _)

theorem Follows.act {past : List IssuedEvent} {action : RadioAction} (h : Follows past s)
    (hallowed : s.Allowed action) :
    Follows (past ++ (s.issued action).toList) (s.act action) := by
  cases hissued : s.issued action with
  | none =>
      rw [Option.toList_none, List.append_nil]
      rcases state_of_issued_none hallowed hissued with hstate | hsyncing
      · exact ⟨fun hopen => hstate.trans (h.scan hopen),
          fun hopen => hstate.trans (h.advertising hopen)⟩
      · refine ⟨fun hopen => ?_, fun hopen => ?_⟩
        · rw [h.scan hopen] at hsyncing
          cases hsyncing
        · rw [h.advertising hopen] at hsyncing
          cases hsyncing
  | some i =>
      obtain ⟨time', rfl, rfl, hnext, hact⟩ := issued_eq_some hissued
      rw [Option.toList_some, hact]
      refine ⟨fun hopen => ?_, fun hopen => ?_⟩
      · rcases open_append hopen with hstart | ⟨hbefore, hkept⟩
        · rw [hstart]
          rfl
        · exact absurd (nextEvent_of_scanning (h.scan hbefore) hnext) hkept
      · rcases open_append hopen with hstart | ⟨hbefore, hkept⟩
        · rw [hstart]
          rfl
        · exact absurd (nextEvent_of_advertising (h.advertising hbefore) hnext) hkept

theorem Bracketed.act {past : List IssuedEvent} {action : RadioAction} (h : Bracketed past)
    (hfollows : Follows past s) : Bracketed (past ++ (s.issued action).toList) := by
  cases hissued : s.issued action with
  | none =>
      rw [Option.toList_none, List.append_nil]
      exact h
  | some i =>
      obtain ⟨time', rfl, rfl, hnext, -⟩ := issued_eq_some hissued
      refine ⟨h.scan.append fun _ hopen => nextEvent_of_scanning (hfollows.scan hopen) hnext,
        h.advertising.append fun _ hopen =>
          nextEvent_of_advertising (hfollows.advertising hopen) hnext, fun other hother => ?_⟩
      rcases List.mem_append.mp hother with hold | hnew
      · exact h.served other hold
      · rw [List.mem_singleton.mp hnew]
        intro hsync
        rw [hsync] at hnext
        exact ⟨pending_of_syncNow hnext, nextPendingSync_isSome_iff i.before i.time⟩

/-- In every run of the schedule, an activity of the radio is stopped before anything else
begins or else preempted by a critical sync, and a sync is announced only where one is pending. -/
theorem radio_activities_bracketed (profile : PowerProfile) (config : SchedulerConfig)
    {actions : List RadioAction} (hallowed : Along act Allowed (new profile config) actions) :
    Bracketed (log act issued (new profile config) actions) := by
  have hstart : Follows [] (new profile config) ∧ Bracketed [] :=
    ⟨⟨fun h => absurd h not_open_nil, fun h => absurd h not_open_nil⟩,
      ⟨closedInTime_nil, closedInTime_nil, fun _ h => absurd h List.not_mem_nil⟩⟩
  have hkept := @invariant_of_good _ _ _ act issued
    (fun past s => Follows past s ∧ Bracketed past) Allowed [] (new profile config) actions
    hstart hallowed (fun past s action hgood h => ⟨h.1.act hgood, h.2.act h.1⟩)
  exact hkept.2

/-- A critical sync that arrives while the radio scans. -/
def preemptedScan : List RadioAction :=
  [.followSchedule 0, .queueSync 0x1234 .critical 50 10, .followSchedule 20,
    .nextPendingSync 20, .completeSync 30, .followSchedule 40]

/-- A critical sync that is not served for more than five seconds. -/
def expiredSync : List RadioAction :=
  [.queueSync 0x1234 .critical 50 0, .followSchedule 6000]

/-- A scan is not stopped before the sync that preempts it, and an expired sync is announced. -/
theorem preempted_or_empty :
    Along act Allowed (new .lowPower .default) preemptedScan ∧
    ¬ ClosedInTime (fun i => i.event = .startScan) (fun i => i.event = .stopScan)
      IssuedEvent.Begins (log act issued (new .lowPower .default) preemptedScan) ∧
    Along act Allowed (new .lowPower .default) expiredSync ∧
    ¬ ∀ i ∈ log act issued (new .lowPower .default) expiredSync, i.event = .syncNow →
      (i.before.nextPendingSync i.time).2.isSome = true := by
  refine ⟨by decide, fun h => ?_, by decide, by decide⟩
  obtain ⟨later, hlater, hstop⟩ := h [] _ [] _ _ rfl rfl (Or.inr (Or.inr rfl))
  rw [List.mem_singleton.mp hlater] at hstop
  cases hstop

theorem radio_activities_bracketed_preemptedScan :
    Along act Allowed (new .lowPower .default) preemptedScan ∧
    Bracketed (log act issued (new .lowPower .default) preemptedScan) := by
  have hallowed : Along act Allowed (new .lowPower .default) preemptedScan := by decide
  exact ⟨hallowed, radio_activities_bracketed .lowPower .default hallowed⟩

end RadioScheduler

end PeatBtle
