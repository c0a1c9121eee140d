import PeatBtle.Platform.WriteAnswers

/-!
# Every call comes to an end

If no call is dropped before it waits, then every call returns however the turns are
dealt out. A call that is dropped in the middle of its write blocks the queue for good.
-/

namespace PeatBtle

open Wire

/-- How many turns a call may still take, apart from the writes it has yet to take up. -/
def Stage.worth : Stage → Nat
  | .writing _ => 5
  | .written _ _ => 4
  | .notifying _ _ => 3
  | .processing => 2
  | .waiting => 1
  | .returned _ | .dropped => 0

namespace WriteQueue

variable {s : WriteQueue} {call : Nat} {device : RemoteDevice} {old stage : Stage}

def worth (s : WriteQueue) : Nat := 4 * s.queue.length + (s.calls.map Stage.worth).sum

/-! ## Turns -/

theorem sum_map_set {stages : List Stage} (h : stages[call]? = some old) (stage : Stage) :
    ((stages.set call stage).map Stage.worth).sum + old.worth =
      (stages.map Stage.worth).sum + stage.worth := by
  induction stages generalizing call with
  | nil => cases h
  | cons first stages ih =>
      cases call with
      | zero =>
          obtain rfl := Option.some.inj h
          simp only [List.set_cons_zero, List.map_cons, List.sum_cons]
          omega
      | succ call =>
          have hrest := ih h
          simp only [List.set_cons_succ, List.map_cons, List.sum_cons]
          omega

theorem worth_setStage (hcall : s.calls[call]? = some old) (stage : Stage) :
    (s.setStage call stage).worth + old.worth = s.worth + stage.worth := by
  have hsum := sum_map_set hcall stage
  unfold worth setStage
  dsimp only
  omega

/-- A call that cannot go on. -/
def Still (s : WriteQueue) (call : Nat) : Prop :=
  ∀ stage, s.calls[call]? = some stage →
    stage.active = false ∧ (stage = .waiting → s.channels call = .empty)

theorem not_still (hcall : s.calls[call]? = some stage)
    (hmoves : stage.active = true ∨ stage = .waiting ∧ s.channels call ≠ .empty) :
    ¬ s.Still call := by
  intro hstill
  obtain ⟨hidle, hempty⟩ := hstill stage hcall
  rcases hmoves with hactive | ⟨hwaiting, hfull⟩
  · rw [hidle] at hactive
    cases hactive
  · exact hfull (hempty hwaiting)

/-- A turn changes nothing, or it brings the call closer to its end. -/
theorem still_or_worth_lt {s' : WriteQueue} {event : Option WriteEvent}
    (h : Polls s call device s' event) :
    s.Still call ∧ s' = s ∨ ¬ s.Still call ∧ s'.worth < s.worth := by
  cases h with
  | still hstill => exact Or.inl ⟨hstill, rfl⟩
  | waits hcall =>
      have hworth := worth_setStage hcall .waiting
      simp only [Stage.worth] at hworth
      exact Or.inr ⟨not_still hcall (Or.inl rfl), by omega⟩
  | @takes write queue hcall hfree hqueue =>
      have hworth := @worth_setStage { s with queue := queue, writeInProgress := true } call _ hcall
        (.writing write)
      have htaken : worth { s with queue := queue, writeInProgress := true } + 4 = s.worth := by
        simp only [worth, hqueue, List.length_cons]
        omega
      simp only [Stage.worth] at hworth
      exact Or.inr ⟨not_still hcall (Or.inl rfl), by omega⟩
  | @writes write hcall =>
      have hworth := worth_setStage hcall (.written write
        (device.writeCharacteristic write.serviceUuid write.charUuid write.data))
      simp only [Stage.worth] at hworth
      exact Or.inr ⟨not_still hcall (Or.inl rfl), by omega⟩
  | @releases write result hcall =>
      have hworth := @worth_setStage { s with writeInProgress := false } call _ hcall
        (.notifying write result)
      have hsame : worth { s with writeInProgress := false } = s.worth := rfl
      simp only [Stage.worth] at hworth
      exact Or.inr ⟨not_still hcall (Or.inl rfl), by omega⟩
  | @notifies write result hcall =>
      have hworth := @worth_setStage (s.setChannel write.call (.sent result)) call _ hcall
        .processing
      have hsame : (s.setChannel write.call (.sent result)).worth = s.worth := rfl
      simp only [Stage.worth] at hworth
      exact Or.inr ⟨not_still hcall (Or.inl rfl), by omega⟩
  | @answered result hcall hchannel =>
      have hworth := worth_setStage hcall (.returned result)
      simp only [Stage.worth] at hworth
      exact Or.inr ⟨not_still hcall (Or.inr ⟨rfl, by simp [hchannel]⟩), by omega⟩
  | abandoned hcall hchannel =>
      have hworth := worth_setStage hcall (.returned cancelled)
      simp only [Stage.worth] at hworth
      exact Or.inr ⟨not_still hcall (Or.inr ⟨rfl, by simp [hchannel]⟩), by omega⟩

/-- A turn of a call, with what the device answers in it. -/
def turn (s : WriteQueue) (t : Nat × RemoteDevice) : WriteQueue := (s.poll t.1 t.2).1

theorem turn_eq_iff (t : Nat × RemoteDevice) : s.turn t = s ↔ s.Still t.1 := by
  rcases still_or_worth_lt (polls s t.1 t.2) with ⟨hstill, hsame⟩ | ⟨hmoves, hlt⟩
  · exact iff_of_true hsame hstill
  · refine iff_of_false (fun hsame => ?_) hmoves
    have hworth : (s.poll t.1 t.2).1.worth = s.worth := congrArg worth hsame
    omega

@[simp] theorem length_poll (s : WriteQueue) (call : Nat) (device : RemoteDevice) :
    (s.poll call device).1.calls.length = s.calls.length := by
  have hpolls := polls s call device
  revert hpolls
  generalize (s.poll call device).1 = s', (s.poll call device).2 = event
  intro hpolls
  cases hpolls with
  | still => rfl
  | waits | takes | writes | releases | notifies | answered | abandoned =>
      exact length_setStage _

theorem costly (n : Nat) : Rounds.Costly turn (fun s => s.calls.length = n) worth where
  keeps := fun s t hs => (length_poll s t.1 t.2).trans hs
  pays := fun s t _ => (still_or_worth_lt (polls s t.1 t.2)).imp And.right And.right

theorem willing (Inv : WriteQueue → Prop) : Rounds.Willing turn Prod.fst Inv := by
  intro s t _ hmoves other hother
  rw [ne_eq, turn_eq_iff] at hmoves ⊢
  rwa [hother]

/-- A round in which every call has a turn. -/
theorem complete {n : Nat} {round : List (Nat × RemoteDevice)}
    (hround : ∀ call < n, ∃ device, (call, device) ∈ round) :
    Rounds.Complete turn Prod.fst (fun s => s.calls.length = n) round := by
  intro s t hs hmoves
  have hlt : t.1 < n := by
    by_contra hge
    refine hmoves ((turn_eq_iff t).mpr fun stage hstage => ?_)
    rw [List.getElem?_eq_none (by omega)] at hstage
    cases hstage
  obtain ⟨device, hmem⟩ := hround t.1 hlt
  exact ⟨(t.1, device), hmem, rfl⟩

/-! ## Attended queues -/

theorem active_of_midWrite (h : s.MidWrite call) : s.Active call := by
  obtain ⟨stage, hcall, hmid⟩ := h
  refine ⟨stage, hcall, ?_⟩
  cases stage with
  | writing | written => rfl
  | processing | notifying | waiting | returned | dropped => cases hmid

theorem active_setStage_self (hcall : s.calls[call]? = some old) (hactive : stage.active = true) :
    (s.setStage call stage).Active call := (exists_setStage hcall).mpr (by rwa [if_pos rfl])

theorem midWrite_setStage_self (hcall : s.calls[call]? = some old)
    (hmid : stage.midWrite = true) : (s.setStage call stage).MidWrite call :=
  (exists_setStage hcall).mpr (by rwa [if_pos rfl])

/-- The others are where they were. -/
theorem exists_setStage_of_not {p : Stage → Prop} (hcall : s.calls[call]? = some old)
    (hold : ¬ p old) (h : ∃ other : Nat, ∃ later, s.calls[other]? = some later ∧ p later) :
    ∃ other : Nat, ∃ later, (s.setStage call stage).calls[other]? = some later ∧ p later := by
  obtain ⟨other, later, hlater, hp⟩ := h
  refine ⟨other, (exists_setStage hcall).mpr ?_⟩
  rw [if_neg]
  · exact ⟨later, hlater, hp⟩
  · rintro rfl
    rw [hcall] at hlater
    exact hold (Option.some.inj hlater ▸ hp)

/-- Whenever the turn is taken, some call has it. -/
def TurnHeld (s : WriteQueue) : Prop := s.writeInProgress = true → ∃ call, s.MidWrite call

namespace TurnHeld

theorem setStage (h : TurnHeld s) (hcall : s.calls[call]? = some old)
    (hmid : old.midWrite = false) : TurnHeld (s.setStage call stage) := fun hbusy =>
  exists_setStage_of_not (p := fun stage => stage.midWrite = true) hcall (by simp [hmid]) (h hbusy)

theorem setChannel (h : TurnHeld s) (call : Nat) (channel : Channel) :
    TurnHeld (s.setChannel call channel) := h

theorem poll (h : TurnHeld s) (call : Nat) (device : RemoteDevice) :
    TurnHeld (s.poll call device).1 := by
  have hpolls := polls s call device
  revert hpolls
  generalize (s.poll call device).1 = s', (s.poll call device).2 = event
  intro hpolls
  cases hpolls with
  | still => exact h
  | waits hcall => exact h.setStage hcall rfl
  | @takes write queue hcall =>
      exact fun _ => ⟨call, @midWrite_setStage_self { s with
        queue := queue, writeInProgress := true } _ _ _ hcall rfl⟩
  | writes hcall => exact fun _ => ⟨call, midWrite_setStage_self hcall rfl⟩
  | releases hcall => exact fun hbusy => Bool.noConfusion hbusy
  | notifies hcall => exact (h.setChannel _ _).setStage hcall rfl
  | answered hcall => exact h.setStage hcall rfl
  | abandoned hcall => exact h.setStage hcall rfl

/-- The turn is lost only with a call that has it. -/
theorem step (h : TurnHeld s) {action : Action}
    (hdrop : ∀ call, action = .drop call → ¬ s.MidWrite call) : TurnHeld (s.step action) := by
  cases action with
  | writeCharacteristicQueued serviceUuid charUuid value =>
      intro hbusy
      obtain ⟨call, stage, hcall, hmid⟩ := h hbusy
      refine ⟨call, stage, ?_, hmid⟩
      exact (List.getElem?_append_left (List.getElem?_eq_some_iff.mp hcall).1).trans hcall
  | poll call device => exact h.poll call device
  | clearWriteQueue =>
      show TurnHeld s.clearWriteQueue
      rw [clearWriteQueue_eq]
      exact h
  | drop call =>
      have hidle := hdrop call rfl
      show TurnHeld (s.drop call)
      unfold WriteQueue.drop
      split
      · rename_i hcall
        exact absurd ⟨_, hcall, rfl⟩ hidle
      · rename_i hcall
        exact absurd ⟨_, hcall, rfl⟩ hidle
      · rename_i hcall
        exact h.setStage hcall rfl
      · rename_i hcall
        exact h.setStage hcall rfl
      all_goals exact h

end TurnHeld

/-- Somebody works the queue off, and somebody has the turn that is taken. -/
structure Attended (s : WriteQueue) : Prop where
  queue : s.queue ≠ [] → ∃ call, s.Active call
  turn : TurnHeld s

namespace Attended

theorem new : Attended WriteQueue.new := ⟨fun h => absurd rfl h, fun h => by cases h⟩

theorem setStage (h : Attended s) (hcall : s.calls[call]? = some old)
    (hold : old.active = false) : Attended (s.setStage call stage) := by
  have hmid : old.midWrite = false := by
    cases old with
    | writing | written => cases hold
    | processing | notifying | waiting | returned | dropped => rfl
  exact ⟨fun hqueue => exists_setStage_of_not (p := fun stage => stage.active = true) hcall
    (by simp [hold]) (h.queue hqueue), h.turn.setStage hcall hmid⟩

theorem poll (h : Attended s) (call : Nat) (device : RemoteDevice) :
    Attended (s.poll call device).1 := by
  have hturn := h.turn.poll call device
  have hpolls := polls s call device
  revert hpolls hturn
  generalize (s.poll call device).1 = s', (s.poll call device).2 = event
  intro hturn hpolls
  refine ⟨fun hqueue => ?_, hturn⟩
  cases hpolls with
  | still => exact h.queue hqueue
  | waits hcall hnothing =>
      rcases hnothing with hbusy | hnone
      · obtain ⟨other, hother⟩ := hturn hbusy
        exact ⟨other, active_of_midWrite hother⟩
      · exact absurd hnone hqueue
  | @takes write queue hcall =>
      exact ⟨call, @active_setStage_self { s with
        queue := queue, writeInProgress := true } _ _ _ hcall rfl⟩
  | writes hcall => exact ⟨call, active_setStage_self hcall rfl⟩
  | releases hcall =>
      exact ⟨call, @active_setStage_self { s with writeInProgress := false } _ _ _ hcall rfl⟩
  | @notifies write result hcall =>
      exact ⟨call, @active_setStage_self (s.setChannel write.call (.sent result)) _ _ _ hcall rfl⟩
  | answered hcall => exact (h.setStage hcall rfl).queue hqueue
  | abandoned hcall => exact (h.setStage hcall rfl).queue hqueue

theorem step (h : Attended s) {action : Action}
    (hdrop : ∀ call, action = .drop call → ¬ s.Active call) : Attended (s.step action) := by
  have hturn := h.turn.step fun call hcall hmid => hdrop call hcall (active_of_midWrite hmid)
  refine ⟨fun hqueue => ?_, hturn⟩
  cases action with
  | writeCharacteristicQueued serviceUuid charUuid value =>
      exact ⟨s.calls.length, .processing, List.getElem?_concat_length .., rfl⟩
  | poll call device => exact (h.poll call device).queue hqueue
  | clearWriteQueue =>
      refine absurd ?_ hqueue
      show s.clearWriteQueue.queue = []
      rw [clearWriteQueue_eq]
  | drop call =>
      have hidle := hdrop call rfl
      refine Attended.queue ?_ hqueue
      show Attended (s.drop call)
      unfold WriteQueue.drop
      split
      · rename_i hcall
        exact absurd ⟨_, hcall, rfl⟩ hidle
      · rename_i hcall
        exact absurd ⟨_, hcall, rfl⟩ hidle
      · rename_i hcall
        exact absurd ⟨_, hcall, rfl⟩ hidle
      · rename_i hcall
        exact h.setStage hcall rfl
      all_goals exact h

end Attended

/-! ## Everybody is answered -/

/-- In a queue that is attended to and where nobody can go on, nobody waits. -/
theorem ended_of_still {past : List WriteEvent} (hanswers : Answers past s)
    (hattended : Attended s) (hstill : ∀ call, s.Still call) :
    s.queue = [] ∧ s.writeInProgress = false ∧ ∀ call < s.calls.length,
      (∃ result, s.calls[call]? = some (.returned result)) ∨ s.calls[call]? = some .dropped := by
  have hidle : ∀ call, ¬ s.Active call := by
    rintro call ⟨stage, hcall, hactive⟩
    rw [(hstill call stage hcall).1] at hactive
    cases hactive
  have hqueue : s.queue = [] := by
    by_contra hqueue
    obtain ⟨call, hactive⟩ := hattended.queue hqueue
    exact hidle call hactive
  refine ⟨hqueue, ?_, fun call hlt => ?_⟩
  · by_contra hbusy
    obtain ⟨call, hmid⟩ := hattended.turn (by simpa using hbusy)
    exact hidle call (active_of_midWrite hmid)
  · have hcall := List.getElem?_eq_getElem hlt
    obtain ⟨hactive, hempty⟩ := hstill call _ hcall
    rw [hcall]
    cases hstage : s.calls[call] with
    | returned result => exact Or.inl ⟨result, rfl⟩
    | dropped => exact Or.inr rfl
    | processing | writing | written | notifying =>
        rw [hstage] at hactive
        cases hactive
    | waiting =>
        obtain ⟨write, hopen, -⟩ := (hanswers.awaits call hlt).mp (hempty hstage)
        rcases hopen with hmem | ⟨other, stage, hother, hhand⟩
        · rw [hqueue] at hmem
          exact absurd hmem List.not_mem_nil
        · refine absurd ⟨stage, hother, ?_⟩ (hidle other)
          cases stage with
          | writing | written | notifying => rfl
          | processing | waiting | returned | dropped => cases hhand

theorem worth_le {past : List WriteEvent} (hserial : Serial past s) :
    s.worth ≤ 9 * s.calls.length := by
  have hqueue : s.queue.length ≤ s.calls.length := by
    have hlength := congrArg List.length hserial.numbered
    have hle := hserial.ordered.length_le
    rw [List.length_map, List.length_range] at hlength
    rw [List.length_append] at hle
    omega
  have hcalls : (s.calls.map Stage.worth).sum ≤ 5 * s.calls.length := by
    generalize s.calls = stages
    induction stages with
    | nil => exact Nat.le_refl 0
    | cons stage stages ih =>
        have hfive : stage.worth ≤ 5 := by cases stage <;> simp [Stage.worth]
        simp only [List.map_cons, List.sum_cons, List.length_cons]
        omega
  unfold worth
  omega

/-- The turns of some rounds as actions. -/
def turns (rounds : List (List (Nat × RemoteDevice))) : List Action :=
  rounds.flatten.map fun t => .poll t.1 t.2

theorem run_turns (s : WriteQueue) (rounds : List (List (Nat × RemoteDevice))) :
    s.run (turns rounds) = LoggedRun.run turn s rounds.flatten := by
  unfold turns
  induction rounds.flatten generalizing s with
  | nil => rfl
  | cons t ts ih => exact ih (s.turn t)

theorem run_append (s : WriteQueue) (front back : List Action) :
    s.run (front ++ back) = (s.run front).run back := LoggedRun.run_append step s front back

theorem dropped_of_setStage {other : Nat} {old stage : Stage} (hother : s.calls[other]? = some old)
    (h : (s.setStage other stage).calls[call]? = some .dropped) :
    s.calls[call]? = some .dropped ∨ other = call ∧ stage = .dropped := by
  rw [getElem?_setStage hother] at h
  split at h
  · rename_i heq
    exact Or.inr ⟨heq, Option.some.inj h⟩
  · exact Or.inl h

/-- A turn drops nobody. -/
theorem dropped_of_poll {other : Nat} {device : RemoteDevice}
    (h : (s.poll other device).1.calls[call]? = some .dropped) :
    s.calls[call]? = some .dropped := by
  have hmoved : ∀ {s' : WriteQueue} {old stage : Stage}, s'.calls = s.calls →
      s.calls[other]? = some old → stage ≠ .dropped →
        (s'.setStage other stage).calls[call]? = some .dropped →
          s.calls[call]? = some .dropped := by
    intro s' old stage hcalls hother hstage hdropped
    rw [← hcalls] at hother ⊢
    exact (dropped_of_setStage hother hdropped).resolve_right fun hnew => hstage hnew.2
  have hpolls := polls s other device
  revert hpolls h
  generalize (s.poll other device).1 = s', (s.poll other device).2 = event
  intro h hpolls
  cases hpolls with
  | still => exact h
  | takes hcall | releases hcall | notifies hcall | waits hcall | writes hcall | answered hcall
  | abandoned hcall => exact hmoved rfl hcall (by simp) h

theorem dropped_of_drop {other : Nat} (h : (s.drop other).calls[call]? = some .dropped) :
    s.calls[call]? = some .dropped ∨
      other = call ∧ (s.Active call ∨ s.calls[call]? = some .waiting) := by
  unfold WriteQueue.drop at h
  split at h
  · rename_i write hcall
    have hother : (s.setChannel write.call .closed).calls[other]? = some (.writing write) := hcall
    refine (dropped_of_setStage hother h).imp_right fun hnew => ⟨hnew.1, Or.inl ?_⟩
    exact ⟨_, hnew.1 ▸ hcall, rfl⟩
  · rename_i write result hcall
    have hother : (s.setChannel write.call .closed).calls[other]? = some (.written write result) :=
      hcall
    refine (dropped_of_setStage hother h).imp_right fun hnew => ⟨hnew.1, Or.inl ?_⟩
    exact ⟨_, hnew.1 ▸ hcall, rfl⟩
  · rename_i hcall
    refine (dropped_of_setStage hcall h).imp_right fun hnew => ⟨hnew.1, Or.inl ?_⟩
    exact ⟨_, hnew.1 ▸ hcall, rfl⟩
  · rename_i hcall
    refine (dropped_of_setStage hcall h).imp_right fun hnew => ⟨hnew.1, Or.inr ?_⟩
    exact hnew.1 ▸ hcall
  all_goals exact Or.inl h

/-- A call is dropped where its owner drops it, while it has something to do or waits. -/
theorem dropped_of_step {action : Action} (h : (s.step action).calls[call]? = some .dropped) :
    s.calls[call]? = some .dropped ∨
      action = .drop call ∧ (s.Active call ∨ s.calls[call]? = some .waiting) := by
  cases action with
  | writeCharacteristicQueued serviceUuid charUuid value =>
      rcases getElem?_append_singleton h with hold | ⟨-, hnew⟩
      · exact Or.inl hold
      · cases hnew
  | clearWriteQueue =>
      left
      simpa [WriteQueue.step, advance, clearWriteQueue_eq] using h
  | poll other device => exact Or.inl (dropped_of_poll h)
  | drop other =>
      exact (dropped_of_drop h).imp_right fun hnew => ⟨congrArg _ hnew.1, hnew.2⟩

/-- A call that was never dropped while it waited, nor before, has not been dropped. -/
theorem not_dropped_run {actions : List Action}
    (hgood : LoggedRun.Along step (fun s action => ∀ call, action = .drop call → ¬ s.Active call)
      new actions)
    (hkept : ∀ front, front ++ [.drop call] <+: actions →
      (new.run front).calls[call]? ≠ some .waiting) :
    (new.run actions).calls[call]? ≠ some .dropped := by
  have hboth : LoggedRun.Along step (fun s action => action = .drop call →
      ¬ (s.Active call ∨ s.calls[call]? = some .waiting)) new actions := by
    rw [LoggedRun.along_iff] at hgood ⊢
    rintro front action hprefix rfl
    exact not_or.mpr ⟨hgood front _ hprefix call rfl, hkept front hprefix⟩
  refine @LoggedRun.run_keeps_of_good _ _ step (fun s => s.calls[call]? ≠ some .dropped) _ new
    actions nofun hboth fun s action hnot h hnew => ?_
  rcases dropped_of_step hnew with hold | ⟨hdrop, hbusy⟩
  · exact h hold
  · exact hnot hdrop hbusy

def twoCalls : List Action :=
  [.writeCharacteristicQueued 1 2 [3], .writeCharacteristicQueued 1 2 [4]]

/-- Nine turns for each of the two calls, to both of them. -/
def nineTurns : List (List (Nat × RemoteDevice)) :=
  List.replicate 18 [(0, ⟨.ok []⟩), (1, ⟨.ok []⟩)]

/-- The turn is taken, and nobody has it. -/
structure Blocked (s : WriteQueue) : Prop where
  taken : s.writeInProgress = true
  nobody : ∀ call, ¬ s.MidWrite call

namespace Blocked

theorem setStage (h : Blocked s) (hcall : s.calls[call]? = some old)
    (hmid : stage.midWrite = false) : Blocked (s.setStage call stage) := by
  refine ⟨h.taken, fun other hother => ?_⟩
  have hthere := (exists_setStage hcall).mp hother
  split at hthere
  · rw [hmid] at hthere
    cases hthere
  · exact h.nobody other hthere

theorem step (h : Blocked s) (action : Action) :
    Blocked (s.step action) ∧ starts (s.emit action).toList = [] := by
  cases action with
  | writeCharacteristicQueued serviceUuid charUuid value =>
      refine ⟨⟨h.taken, ?_⟩, rfl⟩
      rintro call ⟨stage, hcall, hmid⟩
      rcases getElem?_append_singleton hcall with hold | ⟨-, rfl⟩
      · exact h.nobody call ⟨stage, hold, hmid⟩
      · cases hmid
  | clearWriteQueue =>
      refine ⟨?_, rfl⟩
      show Blocked s.clearWriteQueue
      rw [clearWriteQueue_eq]
      exact ⟨h.taken, h.nobody⟩
  | drop call =>
      refine ⟨?_, rfl⟩
      show Blocked (s.drop call)
      unfold WriteQueue.drop
      split
      · rename_i hcall
        exact absurd ⟨_, hcall, rfl⟩ (h.nobody call)
      · rename_i hcall
        exact absurd ⟨_, hcall, rfl⟩ (h.nobody call)
      · rename_i hcall
        exact h.setStage hcall rfl
      · rename_i hcall
        exact h.setStage hcall rfl
      all_goals exact h
  | poll call device =>
      show Blocked (s.poll call device).1 ∧ starts (s.poll call device).2.toList = []
      have hpolls := polls s call device
      revert hpolls
      generalize (s.poll call device).1 = s', (s.poll call device).2 = event
      intro hpolls
      cases hpolls with
      | still => exact ⟨h, rfl⟩
      | waits hcall => exact ⟨h.setStage hcall rfl, rfl⟩
      | takes hcall hfree =>
          rw [h.taken] at hfree
          cases hfree
      | writes hcall => exact absurd ⟨_, hcall, rfl⟩ (h.nobody call)
      | releases hcall => exact absurd ⟨_, hcall, rfl⟩ (h.nobody call)
      | @notifies write result hcall =>
          have hsent : Blocked (s.setChannel write.call (.sent result)) := ⟨h.taken, h.nobody⟩
          exact ⟨hsent.setStage hcall rfl, rfl⟩
      | answered hcall => exact ⟨h.setStage hcall rfl, rfl⟩
      | abandoned hcall => exact ⟨h.setStage hcall rfl, rfl⟩

theorem starts_log (h : Blocked s) (actions : List Action) : starts (s.log actions) = [] := by
  induction actions generalizing s with
  | nil => rfl
  | cons action actions ih =>
      obtain ⟨hnext, hnone⟩ := h.step action
      show starts ((s.emit action).toList ++ (s.step action).log actions) = []
      rw [starts_append, hnone, ih hnext]
      rfl

/-- The call that has the turn is dropped. -/
theorem drop {past : List WriteEvent} (hserial : Serial past s) (hmid : s.MidWrite call) :
    Blocked (s.drop call) := by
  have htaken := hserial.writeInProgress_of_midWrite hmid
  have halone : ∀ other, call ≠ other → ¬ s.MidWrite other :=
    fun other hne hother => hne (hserial.alone call other hmid hother)
  have hleft : ∀ (other : Nat) (channel : Channel) (old : Stage), s.calls[call]? = some old →
      Blocked ((s.setChannel other channel).setStage call .dropped) := by
    intro other channel old hcall
    refine ⟨htaken, fun later hlater => ?_⟩
    have hthere := (@exists_setStage (s.setChannel other channel) call _ _ hcall _ later).mp hlater
    split at hthere
    · cases hthere
    · rename_i hne
      exact halone later hne hthere
  obtain ⟨stage, hcall, hstage⟩ := hmid
  unfold WriteQueue.drop
  rw [hcall]
  cases stage with
  | writing write => exact hleft _ _ _ hcall
  | written write result => exact hleft _ _ _ hcall
  | processing | notifying | waiting | returned | dropped => cases hstage

end Blocked

/-- Of a queue whose turn is not lost, something more can be started. -/
theorem exists_starts (hturn : TurnHeld s) :
    ∃ more, starts (s.log more) ≠ [] := by
  have hlater : ∀ (s : WriteQueue) (action : Action),
      (∃ more, starts ((s.step action).log more) ≠ []) → ∃ more, starts (s.log more) ≠ [] := by
    rintro s action ⟨more, hmore⟩
    refine ⟨action :: more, fun hnone => hmore ?_⟩
    have hboth : starts ((s.emit action).toList ++ (s.step action).log more) = [] := hnone
    rw [starts_append, List.append_eq_nil_iff] at hboth
    exact hboth.2
  -- With the turn free, a new call takes up what is first in the queue.
  have hfree : ∀ s : WriteQueue, s.writeInProgress = false → ∃ more, starts (s.log more) ≠ [] := by
    intro s hfree
    refine hlater s (.writeCharacteristicQueued 0 0 []) ⟨[.poll s.calls.length ⟨.ok []⟩], ?_⟩
    have hcall : (s.step (.writeCharacteristicQueued 0 0 [])).calls[s.calls.length]? =
        some .processing := List.getElem?_concat_length ..
    have hstill : (s.step (.writeCharacteristicQueued 0 0 [])).writeInProgress = false := hfree
    have hqueue : (s.step (.writeCharacteristicQueued 0 0 [])).queue ≠ [] :=
      List.append_ne_nil_of_right_ne_nil _ (List.cons_ne_nil _ _)
    generalize s.step (.writeCharacteristicQueued 0 0 []) = s' at hcall hstill hqueue
    obtain ⟨write, rest, hcons⟩ := List.exists_cons_of_ne_nil hqueue
    have hevent : s'.emit (.poll s.calls.length ⟨.ok []⟩) = some (.started write) := by
      simp [emit, advance, WriteQueue.poll, hcall, hstill, hcons]
    show starts ((s'.emit _).toList ++ []) ≠ []
    rw [hevent]
    exact List.cons_ne_nil _ _
  have hrelease : ∀ (s : WriteQueue) (call : Nat) (write : QueuedWrite) (result : WriteOutcome),
      s.calls[call]? = some (.written write result) → ∃ more, starts (s.log more) ≠ [] := by
    intro s call write result hcall
    refine hlater s (.poll call ⟨.ok []⟩) (hfree _ ?_)
    simp [WriteQueue.step, advance, WriteQueue.poll, hcall, WriteQueue.setStage]
  by_cases hbusy : s.writeInProgress = true
  · obtain ⟨call, stage, hcall, hmid⟩ := hturn hbusy
    have hlt := (List.getElem?_eq_some_iff.mp hcall).1
    cases stage with
    | written write result => exact hrelease s call write result hcall
    | writing write =>
        refine hlater s (.poll call ⟨.ok []⟩) (hrelease _ call write (.error (.serviceNotFound
          write.serviceUuid)) ?_)
        simp only [WriteQueue.step, advance, WriteQueue.poll, hcall]
        rw [getElem?_setStage hcall, if_pos rfl]
        rfl
    | processing | notifying | waiting | returned | dropped => cases hmid
  · exact hfree s (by simpa using hbusy)

/-- From some time on nothing is written any more, whatever calls are made and cleared, exactly if
a call was dropped in the middle of its write. -/
theorem blocked_iff (actions : List Action) :
    (∀ more, starts ((new.run actions).log more) = []) ↔
      ∃ front call, front ++ [.drop call] <+: actions ∧ (new.run front).MidWrite call := by
  constructor
  · intro hnone
    by_contra hkept
    push Not at hkept
    have hgood : LoggedRun.Along step
        (fun s action => ∀ call, action = .drop call → ¬ s.MidWrite call) new actions := by
      rw [LoggedRun.along_iff]
      rintro front action hprefix call rfl
      exact hkept front call hprefix
    have hturn : TurnHeld (new.run actions) := LoggedRun.run_keeps_of_good
      (fun hbusy => by cases hbusy) hgood fun _ _ hdrop h => h.step hdrop
    obtain ⟨more, hmore⟩ := exists_starts hturn
    exact hmore (hnone more)
  · rintro ⟨front, call, ⟨back, rfl⟩, hmid⟩ more
    have hblocked : Blocked (new.run (front ++ [.drop call])) := by
      rw [run_append]
      exact Blocked.drop (Serial.run front) hmid
    have hrest := hblocked.starts_log (back ++ more)
    unfold log at hrest
    rw [LoggedRun.log_append, starts_append, List.append_eq_nil_iff] at hrest
    rw [run_append]
    exact hrest.2

end WriteQueue

end PeatBtle
