import PeatBtle.Platform.WriteQueue

/-!
# One write at a time

However the calls are interleaved, and whichever of them are dropped, the device is
given one write at a time, in the order in which they were queued.
-/

namespace PeatBtle.WriteQueue

/-- The writes that were queued, and those that the device was given. -/
def pushes (log : List WriteEvent) : List QueuedWrite :=
  log.filterMap fun
    | .queued write => some write
    | .started _ | .finished _ _ => none

def starts (log : List WriteEvent) : List QueuedWrite :=
  log.filterMap fun
    | .started write => some write
    | .queued _ | .finished _ _ => none

def finishes (log : List WriteEvent) : List (QueuedWrite × WriteOutcome) :=
  log.filterMap fun
    | .finished write result => some (write, result)
    | .queued _ | .started _ => none

section Log

variable (past : List WriteEvent) (write : QueuedWrite) (result : WriteOutcome)

@[simp] theorem pushes_append (rest : List WriteEvent) :
    pushes (past ++ rest) = pushes past ++ pushes rest := List.filterMap_append

@[simp] theorem starts_append (rest : List WriteEvent) :
    starts (past ++ rest) = starts past ++ starts rest := List.filterMap_append

@[simp] theorem finishes_append (rest : List WriteEvent) :
    finishes (past ++ rest) = finishes past ++ finishes rest := List.filterMap_append

@[simp] theorem pushes_queued : pushes [.queued write] = [write] := rfl
@[simp] theorem pushes_started : pushes [.started write] = [] := rfl
@[simp] theorem pushes_finished : pushes [.finished write result] = [] := rfl
@[simp] theorem starts_queued : starts [.queued write] = [] := rfl
@[simp] theorem starts_started : starts [.started write] = [write] := rfl
@[simp] theorem starts_finished : starts [.finished write result] = [] := rfl
@[simp] theorem finishes_queued : finishes [.queued write] = [] := rfl
@[simp] theorem finishes_started : finishes [.started write] = [] := rfl
@[simp] theorem finishes_finished : finishes [.finished write result] = [(write, result)] := rfl

end Log

/-- The device has at most one write, the last that was started, and it has it only during the turn
of a call. -/
structure Serial (past : List WriteEvent) (s : WriteQueue) : Prop where
  ordered : List.Sublist (starts past ++ s.queue) (pushes past)
  numbered : (pushes past).map QueuedWrite.call = List.range s.calls.length
  turn : ∃ pending : Option QueuedWrite,
    starts past = (finishes past).map Prod.fst ++ pending.toList ∧
      (s.writeInProgress = false → pending = none) ∧
      ∀ (call : Nat) (stage : Stage), s.calls[call]? = some stage → stage.midWrite = true →
        s.writeInProgress = true ∧ stage.pending? = pending
  alone : ∀ call other, s.MidWrite call → s.MidWrite other → call = other

namespace Serial

variable {past : List WriteEvent} {s : WriteQueue} {call : Nat} {device : RemoteDevice}
  {old stage : Stage}

theorem new : Serial [] WriteQueue.new where
  ordered := List.Sublist.refl _
  numbered := rfl
  turn := ⟨none, rfl, fun _ => rfl, fun call stage h => by cases h⟩
  alone := fun call other ⟨stage, h, _⟩ => by cases h

theorem writeInProgress_of_midWrite (h : Serial past s) (hcall : s.MidWrite call) :
    s.writeInProgress = true := by
  obtain ⟨pending, -, -, hturn⟩ := h.turn
  obtain ⟨stage, hstage, hmid⟩ := hcall
  exact (hturn call stage hstage hmid).1

/-- A call that takes no turn, or gives none back, does not matter. -/
theorem setStage (h : Serial past s) (hcall : s.calls[call]? = some old)
    (hmid : stage.midWrite = false) : Serial past (s.setStage call stage) where
  ordered := h.ordered
  numbered := by rw [length_setStage, h.numbered]
  turn := by
    obtain ⟨pending, hstarts, hfree, hturn⟩ := h.turn
    refine ⟨pending, hstarts, hfree, fun other later hother hlater => ?_⟩
    rw [getElem?_setStage hcall] at hother
    split at hother
    · obtain rfl := Option.some.inj hother
      rw [hmid] at hlater
      cases hlater
    · exact hturn other later hother hlater
  alone := by
    have hback : ∀ other, (s.setStage call stage).MidWrite other → s.MidWrite other := by
      rintro other ⟨later, hother, hlater⟩
      rw [getElem?_setStage hcall] at hother
      split at hother
      · obtain rfl := Option.some.inj hother
        rw [hmid] at hlater
        cases hlater
      · exact ⟨later, hother, hlater⟩
    exact fun one other hone hother => h.alone one other (hback one hone) (hback other hother)

theorem setChannel (h : Serial past s) (call : Nat) (channel : Channel) :
    Serial past (s.setChannel call channel) := ⟨h.ordered, h.numbered, h.turn, h.alone⟩

theorem queued (h : Serial past s) (write : QueuedWrite) (hwrite : write.call = s.calls.length) :
    Serial (past ++ [.queued write])
      { s with queue := s.queue ++ [write], calls := s.calls ++ [.processing] } where
  ordered := by
    rw [starts_append, starts_queued, List.append_nil, pushes_append, pushes_queued,
      ← List.append_assoc]
    exact h.ordered.append_right [write]
  numbered := by
    rw [pushes_append, pushes_queued, List.map_append, h.numbered, List.length_append,
      List.length_singleton, List.range_succ, List.map_singleton, hwrite]
  turn := by
    obtain ⟨pending, hstarts, hfree, hturn⟩ := h.turn
    refine ⟨pending, by simpa using hstarts, hfree, fun call stage hcall hmid => ?_⟩
    rcases getElem?_append_singleton hcall with hold | ⟨-, rfl⟩
    · exact hturn call stage hold hmid
    · cases hmid
  alone := by
    have hback : ∀ call, MidWrite
        { s with queue := s.queue ++ [write], calls := s.calls ++ [.processing] } call →
          s.MidWrite call := by
      rintro call ⟨stage, hcall, hmid⟩
      rcases getElem?_append_singleton hcall with hold | ⟨-, rfl⟩
      · exact ⟨stage, hold, hmid⟩
      · cases hmid
    exact fun one other hone hother => h.alone one other (hback one hone) (hback other hother)

/-- A call may only be in the middle of a write if it was before. -/
theorem alone_of_back {s' : WriteQueue} (h : Serial past s)
    (hback : ∀ other, s'.MidWrite other → s.MidWrite other) :
    ∀ one other, s'.MidWrite one → s'.MidWrite other → one = other :=
  fun one other hone hother => h.alone one other (hback one hone) (hback other hother)

theorem takes (h : Serial past s) {write : QueuedWrite} {queue : List QueuedWrite}
    (hcall : s.calls[call]? = some .processing) (hfree : s.writeInProgress = false)
    (hqueue : s.queue = write :: queue) :
    Serial (past ++ [.started write])
      ({ s with queue := queue, writeInProgress := true }.setStage call (.writing write)) := by
  have hnobody : ∀ other, ¬ s.MidWrite other := fun other hmid => by
    rw [h.writeInProgress_of_midWrite hmid] at hfree
    cases hfree
  have honly : ∀ other stage, ({ s with
      queue := queue, writeInProgress := true }.setStage call (.writing write)).calls[other]? =
        some stage → stage.midWrite = true → call = other ∧ stage = .writing write := by
    intro other stage hother hmid
    rw [@getElem?_setStage { s with queue := queue, writeInProgress := true } call _ hcall] at hother
    split at hother
    · rename_i heq
      exact ⟨heq, (Option.some.inj hother).symm⟩
    · exact absurd ⟨stage, hother, hmid⟩ (hnobody other)
  refine ⟨?_, ?_, ?_, ?_⟩
  · have hordered := h.ordered
    rw [hqueue] at hordered
    simpa [WriteQueue.setStage] using hordered
  · simpa using h.numbered
  · obtain ⟨pending, hstarts, hnone, -⟩ := h.turn
    obtain rfl := hnone hfree
    refine ⟨some write, by simpa using hstarts, fun hbusy => Bool.noConfusion hbusy, ?_⟩
    intro other stage hother hmid
    obtain ⟨-, rfl⟩ := honly other stage hother hmid
    exact ⟨rfl, rfl⟩
  · rintro one other ⟨stage, hone, hmid⟩ ⟨stage', hother, hmid'⟩
    exact (honly one stage hone hmid).1.symm.trans (honly other stage' hother hmid').1

theorem writes (h : Serial past s) {write : QueuedWrite} (result : WriteOutcome)
    (hcall : s.calls[call]? = some (.writing write)) :
    Serial (past ++ [.finished write result]) (s.setStage call (.written write result)) := by
  have hback : ∀ other, (s.setStage call (.written write result)).MidWrite other →
      s.MidWrite other := by
    rintro other ⟨stage, hother, hmid⟩
    rw [getElem?_setStage hcall] at hother
    split at hother
    · rename_i heq
      exact heq ▸ ⟨_, hcall, rfl⟩
    · exact ⟨stage, hother, hmid⟩
  refine ⟨?_, ?_, ?_, h.alone_of_back hback⟩
  · simpa [WriteQueue.setStage] using h.ordered
  · simpa using h.numbered
  · obtain ⟨pending, hstarts, hnone, hturn⟩ := h.turn
    obtain ⟨hbusy, rfl⟩ := hturn call _ hcall rfl
    refine ⟨none, by simpa [Stage.pending?] using hstarts, fun _ => rfl, ?_⟩
    intro other stage hother hmid
    obtain rfl := h.alone call other ⟨_, hcall, rfl⟩ (hback other ⟨stage, hother, hmid⟩)
    rw [getElem?_setStage hcall, if_pos rfl] at hother
    obtain rfl := Option.some.inj hother
    exact ⟨hbusy, rfl⟩

theorem releases (h : Serial past s) {write : QueuedWrite} {result : WriteOutcome}
    (hcall : s.calls[call]? = some (.written write result)) :
    Serial past ({ s with writeInProgress := false }.setStage call (.notifying write result)) := by
  have hnobody : ∀ other,
      ¬ ({ s with writeInProgress := false }.setStage call (.notifying write result)).MidWrite
        other := by
    rintro other ⟨stage, hother, hmid⟩
    rw [@getElem?_setStage { s with writeInProgress := false } call _ hcall] at hother
    split at hother
    · obtain rfl := Option.some.inj hother
      cases hmid
    · rename_i hne
      exact hne (h.alone call other ⟨_, hcall, rfl⟩ ⟨stage, hother, hmid⟩)
  refine ⟨h.ordered, ?_, ?_, fun one _ hone _ => absurd hone (hnobody one)⟩
  · simpa using h.numbered
  · obtain ⟨pending, hstarts, -, hturn⟩ := h.turn
    obtain ⟨-, rfl⟩ := hturn call _ hcall rfl
    refine ⟨none, hstarts, fun _ => rfl, fun other stage hother hmid => ?_⟩
    exact absurd ⟨stage, hother, hmid⟩ (hnobody other)

theorem clearWriteQueue (h : Serial past s) : Serial past s.clearWriteQueue := by
  rw [clearWriteQueue_eq]
  refine ⟨?_, h.numbered, h.turn, h.alone⟩
  show List.Sublist (starts past ++ []) _
  exact ((List.nil_sublist s.queue).append_left _).trans h.ordered

theorem poll (h : Serial past s) (call : Nat) (device : RemoteDevice) :
    Serial (past ++ (s.poll call device).2.toList) (s.poll call device).1 := by
  have hpolls := polls s call device
  revert hpolls
  generalize (s.poll call device).1 = s', (s.poll call device).2 = event
  intro hpolls
  cases hpolls with
  | still => simpa using h
  | waits hcall => simpa using h.setStage hcall rfl
  | takes hcall hfree hqueue => exact h.takes hcall hfree hqueue
  | writes hcall => exact h.writes _ hcall
  | releases hcall => simpa using h.releases hcall
  | notifies hcall => simpa using (h.setChannel _ _).setStage hcall rfl
  | answered hcall => simpa using h.setStage hcall rfl
  | abandoned hcall => simpa using h.setStage hcall rfl

theorem drop (h : Serial past s) (call : Nat) : Serial past (s.drop call) := by
  unfold WriteQueue.drop
  split
  · rename_i hcall
    exact (h.setChannel _ _).setStage hcall rfl
  · rename_i hcall
    exact (h.setChannel _ _).setStage hcall rfl
  · rename_i hcall
    exact h.setStage hcall rfl
  · rename_i hcall
    exact h.setStage hcall rfl
  all_goals exact h

theorem step (h : Serial past s) (action : Action) :
    Serial (past ++ (s.emit action).toList) (s.step action) := by
  cases action with
  | writeCharacteristicQueued serviceUuid charUuid value => exact h.queued _ rfl
  | poll call device => exact h.poll call device
  | clearWriteQueue => simpa [emit, WriteQueue.step, advance] using h.clearWriteQueue
  | drop call => simpa [emit, WriteQueue.step, advance] using h.drop call

theorem run (actions : List Action) :
    Serial (WriteQueue.new.log actions) (WriteQueue.new.run actions) :=
  LoggedRun.invariant new fun _ _ action _ h => h.step action

end Serial

end PeatBtle.WriteQueue
