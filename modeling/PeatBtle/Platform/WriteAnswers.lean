import PeatBtle.Platform.WriteOrder

/-!
# Every call gets its own answer

A write is in the queue, in the hand of one call or answered, and the channel of a call
carries nothing but the result of its own write, or word that there is none.
-/

namespace PeatBtle.WriteQueue

open Wire

section Hands

variable {s : WriteQueue} {call other : Nat} {old stage : Stage} {write : QueuedWrite}

theorem holds_setStage (hcall : s.calls[call]? = some old) :
    (s.setStage call stage).Holds other write ↔
      if call = other then stage.hand? = some write else s.Holds other write :=
  exists_setStage hcall

theorem holds_of_getElem? (hcall : s.calls[call]? = some old) :
    s.Holds call write ↔ old.hand? = some write := by
  constructor
  · rintro ⟨stage, hstage, hhand⟩
    rw [hcall] at hstage
    exact (Option.some.inj hstage) ▸ hhand
  · exact fun hhand => ⟨old, hcall, hhand⟩

/-- A call that keeps what it has in hand changes nobody's. -/
theorem holds_setStage_of_same (hcall : s.calls[call]? = some old)
    (hhand : stage.hand? = old.hand?) :
    (s.setStage call stage).Holds other write ↔ s.Holds other write := by
  rw [holds_setStage hcall]
  split
  · rename_i heq
    rw [← heq, holds_of_getElem? hcall, hhand]
  · exact Iff.rfl

theorem holds_append_processing {calls : List Stage} (hcalls : calls = s.calls ++ [.processing]) :
    (∃ stage, calls[call]? = some stage ∧ stage.hand? = some write) ↔ s.Holds call write := by
  subst hcalls
  constructor
  · rintro ⟨stage, hstage, hhand⟩
    rcases getElem?_append_singleton hstage with hold | ⟨-, rfl⟩
    · exact ⟨stage, hold, hhand⟩
    · cases hhand
  · rintro ⟨stage, hstage, hhand⟩
    refine ⟨stage, ?_, hhand⟩
    rw [List.getElem?_append_left (List.getElem?_eq_some_iff.mp hstage).1, hstage]

end Hands

/-- A write that nobody has answered. -/
def Open (s : WriteQueue) (write : QueuedWrite) : Prop :=
  write ∈ s.queue ∨ ∃ call, s.Holds call write

namespace Serial

variable {past : List WriteEvent} {s : WriteQueue} {write queued : QueuedWrite}

theorem call_lt (h : Serial past s) (hwrite : write ∈ starts past ∨ write ∈ s.queue) :
    write.call < s.calls.length := by
  have hmem : write ∈ pushes past := h.ordered.subset (List.mem_append.mpr hwrite)
  have hcall := List.mem_map_of_mem (f := QueuedWrite.call) hmem
  rwa [h.numbered, List.mem_range] at hcall

/-- What is still in the queue was queued later than all that has started. -/
theorem started_lt_queued (h : Serial past s) (hwrite : write ∈ starts past)
    (hqueued : queued ∈ s.queue) : write.call < queued.call := by
  have hsorted : ((pushes past).map QueuedWrite.call).Pairwise (· < ·) := by
    rw [h.numbered]
    exact List.pairwise_lt_range
  have hboth := hsorted.sublist (h.ordered.map QueuedWrite.call)
  rw [List.map_append, List.pairwise_append] at hboth
  exact hboth.2.2 _ (List.mem_map_of_mem hwrite) _ (List.mem_map_of_mem hqueued)

end Serial

/-- The channel of a call is empty as long as its write waits in the queue or is in the hand of
some call, and what it then carries is the result of that write, or says that there is none. -/
structure Answers (past : List WriteEvent) (s : WriteQueue) : Prop where
  handOnce : ∀ one other write write', s.Holds one write → s.Holds other write' →
    write.call = write'.call → one = other
  started : ∀ call write, s.Holds call write → write ∈ starts past
  finished : ∀ (call : Nat) (write : QueuedWrite) (result : WriteOutcome),
    s.calls[call]? = some (.written write result) ∨
      s.calls[call]? = some (.notifying write result) → (write, result) ∈ finishes past
  awaits : ∀ call < s.calls.length,
    s.channels call = .empty ↔ ∃ write, s.Open write ∧ write.call = call
  fresh : ∀ call, s.calls.length ≤ call → s.channels call = .empty
  sent : ∀ call result, s.channels call = .sent result →
    (∃ write, (write, result) ∈ finishes past ∧ write.call = call) ∨
      result = cleared ∧ ∀ write ∈ starts past, write.call ≠ call
  closed : ∀ call, s.channels call = .closed → ∃ other : Nat, s.calls[other]? = some .dropped
  returned : ∀ (call : Nat) (result : WriteOutcome), s.calls[call]? = some (.returned result) →
    s.channels call = .sent result ∨ s.channels call = .closed ∧ result = cancelled

namespace Answers

variable {past : List WriteEvent} {s : WriteQueue} {call : Nat} {old stage : Stage}
  {write : QueuedWrite}

theorem new : Answers [] WriteQueue.new where
  handOnce := fun one other write write' ⟨stage, h, _⟩ => by cases h
  started := fun call write ⟨stage, h, _⟩ => by cases h
  finished := fun call write result h => by rcases h with h | h <;> cases h
  awaits := fun call h => absurd h (Nat.not_lt_zero call)
  fresh := fun _ _ => rfl
  sent := fun call result h => by cases h
  closed := fun call h => by cases h
  returned := fun call result h => by cases h

theorem open_lt (h : Answers past s) (hserial : Serial past s) (hopen : s.Open write) :
    write.call < s.calls.length := by
  rcases hopen with hqueue | ⟨call, hholds⟩
  · exact hserial.call_lt (Or.inr hqueue)
  · exact hserial.call_lt (Or.inl (h.started call write hholds))

theorem channel_of_open (h : Answers past s) (hserial : Serial past s) (hopen : s.Open write) :
    s.channels write.call = .empty :=
  (h.awaits _ (h.open_lt hserial hopen)).mpr ⟨write, hopen, rfl⟩

/-- No two open writes have one call. -/
theorem held_of_open (h : Answers past s) (hserial : Serial past s) (hholds : s.Holds call write)
    {queued : QueuedWrite} (hopen : s.Open queued) (hcall : queued.call = write.call) :
    s.Holds call queued := by
  rcases hopen with hqueue | ⟨other, hother⟩
  · exact absurd hcall (Nat.ne_of_gt
      (hserial.started_lt_queued (h.started call write hholds) hqueue))
  · exact h.handOnce other call queued write hother hholds hcall ▸ hother

theorem log_finished (h : Answers past s) (write : QueuedWrite) (result : WriteOutcome) :
    Answers (past ++ [.finished write result]) s where
  handOnce := h.handOnce
  started := by simpa using h.started
  finished := fun call write' result' hcall => by
    simpa using Or.inl (h.finished call write' result' hcall)
  awaits := h.awaits
  fresh := h.fresh
  sent := fun call result' hsent => by
    rcases h.sent call result' hsent with ⟨write', hmem, hcall⟩ | ⟨hcleared, hnone⟩
    · exact Or.inl ⟨write', by simpa using Or.inl hmem, hcall⟩
    · exact Or.inr ⟨hcleared, by simpa using hnone⟩
  closed := h.closed
  returned := h.returned

/-- A call goes on with the same in hand. -/
theorem setStage (h : Answers past s) (hcall : s.calls[call]? = some old)
    (hhand : stage.hand? = old.hand?) (hold : old ≠ .dropped)
    (hfinished : ∀ write result, stage = .written write result ∨ stage = .notifying write result →
      (write, result) ∈ finishes past)
    (hreturned : ∀ result, stage = .returned result →
      s.channels call = .sent result ∨ s.channels call = .closed ∧ result = cancelled) :
    Answers past (s.setStage call stage) where
  handOnce := by
    intro one other write write' hone hother
    rw [holds_setStage_of_same hcall hhand] at hone hother
    exact h.handOnce one other write write' hone hother
  started := by
    intro other write hother
    rw [holds_setStage_of_same hcall hhand] at hother
    exact h.started other write hother
  finished := by
    intro other write result hother
    rw [getElem?_setStage hcall] at hother
    split at hother
    · exact hfinished write result (hother.imp Option.some.inj Option.some.inj)
    · exact h.finished other write result hother
  awaits := by
    intro other hlt
    rw [length_setStage] at hlt
    have hopen : ∀ write, (s.setStage call stage).Open write ↔ s.Open write := fun write =>
      or_congr Iff.rfl (exists_congr fun _ => holds_setStage_of_same hcall hhand)
    simp only [hopen]
    exact h.awaits other hlt
  fresh := by
    rw [length_setStage]
    exact h.fresh
  sent := h.sent
  closed := by
    intro other hclosed
    obtain ⟨lost, hlost⟩ := h.closed other hclosed
    refine ⟨lost, ?_⟩
    rw [getElem?_setStage hcall, if_neg, hlost]
    rintro rfl
    rw [hcall] at hlost
    exact hold (Option.some.inj hlost)
  returned := by
    intro other result hother
    rw [getElem?_setStage hcall] at hother
    split at hother
    · rename_i heq
      exact heq ▸ hreturned result (Option.some.inj hother)
    · exact h.returned other result hother

/-- A call parts with the write in its hand, and the channel of the write is no longer empty. -/
theorem settle (h : Answers past s) (hserial : Serial past s)
    (hcall : s.calls[call]? = some old) (hold : old.hand? = some write) {channel : Channel}
    (hfull : channel ≠ .empty) (hsent : ∀ result, channel = .sent result →
      (write, result) ∈ finishes past)
    (hstage : stage = .processing ∧ channel ≠ .closed ∨ stage = .dropped) :
    Answers past ((s.setChannel write.call channel).setStage call stage) := by
  have hholds : s.Holds call write := (holds_of_getElem? hcall).mpr hold
  have hempty := h.channel_of_open hserial (Or.inr ⟨call, hholds⟩)
  have hstages : ∀ other, ((s.setChannel write.call channel).setStage call stage).calls[other]? =
      if call = other then some stage else s.calls[other]? :=
    fun other => @getElem?_setStage (s.setChannel write.call channel) call old hcall stage other
  have hchannels : ∀ other, ((s.setChannel write.call channel).setStage call stage).channels other =
      if other = write.call then channel else s.channels other :=
    fun other => Function.update_apply ..
  have hhand : stage.hand? = none := by
    rcases hstage with ⟨rfl, -⟩ | rfl
    · rfl
    · rfl
  have hhands : ∀ other write',
      ((s.setChannel write.call channel).setStage call stage).Holds other write' ↔
        call ≠ other ∧ s.Holds other write' := by
    intro other write'
    rw [@holds_setStage (s.setChannel write.call channel) call other old stage write' hcall, hhand]
    split
    · rename_i heq
      exact iff_of_false (fun hnone => by cases hnone) fun hboth => hboth.1 heq
    · rename_i hne
      exact (and_iff_right hne).symm
  constructor
  case handOnce =>
    intro one other write' write'' hone hother
    exact h.handOnce one other write' write'' ((hhands one write').mp hone).2
      ((hhands other write'').mp hother).2
  case started =>
    exact fun other write' hother => h.started other write' ((hhands other write').mp hother).2
  case finished =>
    intro other write' result hother
    rw [hstages] at hother
    split at hother
    · rcases hstage with ⟨rfl, -⟩ | rfl
      · rcases hother with hother | hother <;> cases hother
      · rcases hother with hother | hother <;> cases hother
    · exact h.finished other write' result hother
  case awaits =>
    intro other hlt
    rw [length_setStage] at hlt
    rw [hchannels]
    split
    · rename_i hother
      refine iff_of_false hfull ?_
      rintro ⟨write', hopen', hcall'⟩
      have hopen : s.Open write' := hopen'.imp id fun ⟨later, hlater⟩ =>
        ⟨later, ((hhands later write').mp hlater).2⟩
      have hheld := h.held_of_open hserial hholds hopen (hcall'.trans hother)
      rcases hopen' with hqueue | ⟨later, hlater⟩
      · exact absurd (hcall'.trans hother) (Nat.ne_of_gt
          (hserial.started_lt_queued (h.started call write hholds) hqueue))
      · obtain ⟨hne, hlater⟩ := (hhands later write').mp hlater
        exact hne (h.handOnce call later write' write' hheld hlater rfl)
    · rename_i hother
      rw [h.awaits other hlt]
      refine exists_congr fun write' => and_congr_left fun hcall' => or_congr Iff.rfl ?_
      refine exists_congr fun later => ?_
      rw [hhands, iff_and_self]
      rintro hlater rfl
      have hsame : write' = write := by
        rw [holds_of_getElem? hcall, hold] at hlater
        exact (Option.some.inj hlater).symm
      exact hother (hcall' ▸ hsame ▸ rfl)
  case fresh =>
    intro other hge
    rw [length_setStage] at hge
    rw [hchannels, if_neg, h.fresh other hge]
    rintro rfl
    exact absurd (h.open_lt hserial (Or.inr ⟨call, hholds⟩)) (Nat.not_lt.mpr hge)
  case sent =>
    intro other result hother
    rw [hchannels] at hother
    split at hother
    · rename_i heq
      exact Or.inl ⟨write, hsent result hother, heq.symm⟩
    · exact h.sent other result hother
  case closed =>
    intro other hother
    rw [hchannels] at hother
    split at hother
    · rcases hstage with ⟨-, hnot⟩ | rfl
      · exact absurd hother hnot
      · exact ⟨call, by rw [hstages, if_pos rfl]⟩
    · obtain ⟨lost, hlost⟩ := h.closed other hother
      refine ⟨lost, ?_⟩
      rw [hstages, if_neg, hlost]
      rintro rfl
      rw [hcall] at hlost
      obtain rfl := Option.some.inj hlost
      cases hold
  case returned =>
    intro other result hother
    rw [hstages] at hother
    split at hother
    · rcases hstage with ⟨rfl, -⟩ | rfl <;> cases hother
    · have hreturned := h.returned other result hother
      rw [hchannels, if_neg]
      · exact hreturned
      · rintro rfl
        rw [hempty] at hreturned
        rcases hreturned with hsent | ⟨hclosed, -⟩
        · cases hsent
        · cases hclosed

theorem sent_takes (h : Answers past s) (hserial : Serial past s) (hopen : s.Open write)
    (other : Nat) (result : WriteOutcome) (hsent : s.channels other = .sent result) :
    (∃ write', (write', result) ∈ finishes (past ++ [.started write]) ∧ write'.call = other) ∨
      result = cleared ∧ ∀ write' ∈ starts (past ++ [.started write]), write'.call ≠ other := by
  rcases h.sent other result hsent with ⟨write', hmem, hcall⟩ | ⟨hcleared, hnone⟩
  · exact Or.inl ⟨write', by simpa using hmem, hcall⟩
  · refine Or.inr ⟨hcleared, fun write' hmem => ?_⟩
    rw [starts_append, starts_started, List.mem_append, List.mem_singleton] at hmem
    rcases hmem with hold | rfl
    · exact hnone write' hold
    · rintro rfl
      rw [h.channel_of_open hserial hopen] at hsent
      cases hsent

theorem takes (h : Answers past s) (hserial : Serial past s) {queue : List QueuedWrite}
    (hcall : s.calls[call]? = some .processing) (hqueue : s.queue = write :: queue) :
    Answers (past ++ [.started write])
      ({ s with queue := queue, writeInProgress := true }.setStage call (.writing write)) := by
  have hfirst : s.Open write := Or.inl (hqueue ▸ List.mem_cons_self ..)
  have hstages : ∀ other, ({ s with
      queue := queue, writeInProgress := true }.setStage call (.writing write)).calls[other]? =
        if call = other then some (.writing write) else s.calls[other]? :=
    fun other => @getElem?_setStage { s with queue := queue, writeInProgress := true } call _ hcall
      _ other
  have hempty : ∀ write', ¬ s.Holds call write' := fun write' hholds => by
    rw [holds_of_getElem? hcall] at hholds
    cases hholds
  have hhands : ∀ other write', ({ s with
      queue := queue, writeInProgress := true }.setStage call (.writing write)).Holds other write' ↔
        call = other ∧ write = write' ∨ s.Holds other write' := by
    intro other write'
    rw [@holds_setStage { s with queue := queue, writeInProgress := true } call other _ _ write'
      hcall]
    split
    · rename_i heq
      rw [← heq, or_iff_left (hempty write'), and_iff_right rfl]
      exact ⟨fun hhand => Option.some.inj hhand, congrArg some⟩
    · rename_i hne
      exact (or_iff_right fun hboth => hne hboth.1).symm
  have hopen : ∀ write', ({ s with
      queue := queue, writeInProgress := true }.setStage call (.writing write)).Open write' ↔
        s.Open write' := by
    intro write'
    unfold Open
    simp only [hhands, hqueue, List.mem_cons, exists_or, exists_and_right, exists_eq',
      true_and, eq_comm (a := write')]
    tauto
  have hlater : ∀ other write', s.Holds other write' → write'.call ≠ write.call :=
    fun other write' hholds => Nat.ne_of_lt (hserial.started_lt_queued
      (h.started other write' hholds) (hqueue ▸ List.mem_cons_self ..))
  constructor
  case sent => exact h.sent_takes hserial hfirst
  case handOnce =>
    intro one other write' write'' hone hother heq
    rcases (hhands one write').mp hone with ⟨rfl, rfl⟩ | hone'
    · rcases (hhands other write'').mp hother with ⟨rfl, rfl⟩ | hother'
      · rfl
      · exact absurd heq.symm (hlater other write'' hother')
    · rcases (hhands other write'').mp hother with ⟨rfl, rfl⟩ | hother'
      · exact absurd heq (hlater one write' hone')
      · exact h.handOnce one other write' write'' hone' hother' heq
  case started =>
    intro other write' hother
    rw [starts_append, starts_started, List.mem_append, List.mem_singleton]
    rcases (hhands other write').mp hother with ⟨-, rfl⟩ | hother'
    · exact Or.inr rfl
    · exact Or.inl (h.started other write' hother')
  case finished =>
    intro other write' result hother
    rw [hstages] at hother
    split at hother
    · rcases hother with hother | hother <;> cases hother
    · simpa using h.finished other write' result hother
  case awaits =>
    intro other hlt
    rw [length_setStage] at hlt
    simp only [hopen]
    exact h.awaits other hlt
  case fresh =>
    rw [length_setStage]
    exact h.fresh
  case closed =>
    intro other hclosed
    obtain ⟨lost, hlost⟩ := h.closed other hclosed
    refine ⟨lost, ?_⟩
    rw [hstages, if_neg, hlost]
    rintro rfl
    rw [hcall] at hlost
    cases hlost
  case returned =>
    intro other result hother
    rw [hstages] at hother
    split at hother
    · cases hother
    · exact h.returned other result hother

theorem clearWriteQueue (h : Answers past s) (hserial : Serial past s) :
    Answers past s.clearWriteQueue := by
  have hqueued : ∀ call ∈ s.queue.map QueuedWrite.call, s.channels call = .empty := by
    intro call hcall
    obtain ⟨write, hwrite, rfl⟩ := List.mem_map.mp hcall
    exact h.channel_of_open hserial (Or.inl hwrite)
  rw [clearWriteQueue_eq]
  constructor
  case handOnce => exact h.handOnce
  case started => exact h.started
  case finished => exact h.finished
  case awaits =>
    intro call hlt
    dsimp only
    split
    · rename_i hcall
      refine iff_of_false (fun hempty => by cases hempty) ?_
      rintro ⟨write, hnone | ⟨other, hholds⟩, rfl⟩
      · exact List.not_mem_nil hnone
      · obtain ⟨queued, hmem, heq⟩ := List.mem_map.mp hcall
        exact Nat.ne_of_gt (hserial.started_lt_queued (h.started other write hholds) hmem) heq
    · rename_i hcall
      rw [h.awaits call hlt]
      refine exists_congr fun write => and_congr_left fun heq => ?_
      have hnot : write ∉ s.queue := fun hmem => hcall (heq ▸ List.mem_map_of_mem hmem)
      exact iff_of_eq (congrArg (· ∨ _) (propext (iff_of_false hnot List.not_mem_nil)))
  case fresh =>
    intro call hge
    dsimp only
    rw [if_neg, h.fresh call hge]
    intro hcall
    obtain ⟨write, hwrite, rfl⟩ := List.mem_map.mp hcall
    exact absurd (h.open_lt hserial (Or.inl hwrite)) (Nat.not_lt.mpr hge)
  case sent =>
    intro call result hsent
    dsimp only at hsent
    split at hsent
    · rename_i hcall
      obtain ⟨queued, hmem, rfl⟩ := List.mem_map.mp hcall
      obtain rfl := Channel.sent.inj hsent
      exact Or.inr ⟨rfl, fun write hwrite =>
        Nat.ne_of_lt (hserial.started_lt_queued hwrite hmem)⟩
    · exact h.sent call result hsent
  case closed =>
    intro call hclosed
    dsimp only at hclosed
    split at hclosed
    · cases hclosed
    · exact h.closed call hclosed
  case returned =>
    intro call result hcall
    have hreturned := h.returned call result hcall
    dsimp only
    rw [if_neg]
    · exact hreturned
    · intro hmem
      rw [hqueued call hmem] at hreturned
      rcases hreturned with hsent | ⟨hclosed, -⟩
      · cases hsent
      · cases hclosed

theorem queued (h : Answers past s) (write : QueuedWrite)
    (hwrite : write.call = s.calls.length) :
    Answers (past ++ [.queued write])
      { s with queue := s.queue ++ [write], calls := s.calls ++ [.processing] } := by
  have hhands : ∀ call write', Holds
      { s with queue := s.queue ++ [write], calls := s.calls ++ [.processing] } call write' ↔
        s.Holds call write' := fun _ _ => holds_append_processing rfl
  have hstages : ∀ (call : Nat) (stage : Stage), stage ≠ .processing →
      (s.calls ++ [.processing])[call]? = some stage → s.calls[call]? = some stage := by
    intro call stage hne hcall
    rcases getElem?_append_singleton hcall with hold | ⟨-, heq⟩
    · exact hold
    · exact absurd heq hne
  constructor
  case handOnce =>
    intro one other write' write'' hone hother
    exact h.handOnce one other write' write'' ((hhands _ _).mp hone) ((hhands _ _).mp hother)
  case started =>
    intro call write' hcall
    simpa using h.started call write' ((hhands _ _).mp hcall)
  case finished =>
    intro call write' result hcall
    have hold := h.finished call write' result
      (hcall.imp (hstages call _ (by simp)) (hstages call _ (by simp)))
    simpa using hold
  case awaits =>
    intro call hlt
    rw [List.length_append, List.length_singleton] at hlt
    unfold Open
    simp only [hhands, List.mem_append, List.mem_singleton]
    rcases Nat.lt_or_eq_of_le (Nat.le_of_lt_succ hlt) with hold | rfl
    · rw [h.awaits call hold]
      refine exists_congr fun write' => and_congr_left fun heq => ?_
      have hne : write' ≠ write := by
        rintro rfl
        omega
      unfold Open
      rw [or_iff_left hne]
    · exact iff_of_true (h.fresh _ (Nat.le_refl _)) ⟨write, Or.inl (Or.inr rfl), hwrite⟩
  case fresh =>
    intro call hge
    rw [List.length_append, List.length_singleton] at hge
    exact h.fresh call (by omega)
  case sent =>
    simpa using h.sent
  case closed =>
    intro call hclosed
    obtain ⟨lost, hlost⟩ := h.closed call hclosed
    refine ⟨lost, ?_⟩
    rw [List.getElem?_append_left (List.getElem?_eq_some_iff.mp hlost).1, hlost]
  case returned =>
    exact fun call result hcall => h.returned call result (hstages call _ (by simp) hcall)

theorem poll (h : Answers past s) (hserial : Serial past s) (call : Nat) (device : RemoteDevice) :
    Answers (past ++ (s.poll call device).2.toList) (s.poll call device).1 := by
  have hpolls := polls s call device
  revert hpolls
  generalize (s.poll call device).1 = s', (s.poll call device).2 = event
  intro hpolls
  cases hpolls with
  | still => simpa using h
  | waits hcall =>
      rw [Option.toList_none, List.append_nil]
      exact h.setStage hcall rfl (by simp) (by simp) (by simp)
  | takes hcall hfree hqueue => exact h.takes hserial hcall hqueue
  | @writes write hcall =>
      refine (h.log_finished _ _).setStage hcall rfl (by simp) ?_ (by simp)
      rintro write' result (heq | heq)
      · obtain ⟨rfl, rfl⟩ := Stage.written.inj heq
        simp
      · cases heq
  | @releases write result hcall =>
      have hreleased : Answers past { s with writeInProgress := false } :=
        ⟨h.handOnce, h.started, h.finished, h.awaits, h.fresh, h.sent, h.closed, h.returned⟩
      have hfinished := h.finished call write result (Or.inl hcall)
      rw [Option.toList_none, List.append_nil]
      refine hreleased.setStage hcall rfl (by simp) ?_ (by simp)
      rintro write' result' (heq | heq)
      · cases heq
      · obtain ⟨rfl, rfl⟩ := Stage.notifying.inj heq
        exact hfinished
  | @notifies write result hcall =>
      have hfinished := h.finished call write result (Or.inr hcall)
      rw [Option.toList_none, List.append_nil]
      refine h.settle hserial hcall rfl (by simp) ?_ (Or.inl ⟨rfl, by simp⟩)
      intro result' heq
      exact Channel.sent.inj heq ▸ hfinished
  | answered hcall hchannel =>
      rw [Option.toList_none, List.append_nil]
      refine h.setStage hcall rfl (by simp) (by simp) fun result heq => Or.inl ?_
      exact Stage.returned.inj heq ▸ hchannel
  | abandoned hcall hchannel =>
      rw [Option.toList_none, List.append_nil]
      exact h.setStage hcall rfl (by simp) (by simp) fun result heq =>
        Or.inr ⟨hchannel, (Stage.returned.inj heq).symm⟩

theorem drop (h : Answers past s) (hserial : Serial past s) (call : Nat) :
    Answers past (s.drop call) := by
  unfold WriteQueue.drop
  split
  · rename_i hcall
    exact h.settle hserial hcall rfl (by simp) (by simp) (Or.inr rfl)
  · rename_i hcall
    exact h.settle hserial hcall rfl (by simp) (by simp) (Or.inr rfl)
  · rename_i hcall
    exact h.setStage hcall rfl (by simp) (by simp) (by simp)
  · rename_i hcall
    exact h.setStage hcall rfl (by simp) (by simp) (by simp)
  all_goals exact h

theorem step (h : Answers past s) (hserial : Serial past s) (action : Action) :
    Answers (past ++ (s.emit action).toList) (s.step action) := by
  cases action with
  | writeCharacteristicQueued serviceUuid charUuid value => exact h.queued _ rfl
  | poll call device => exact h.poll hserial call device
  | clearWriteQueue => simpa [emit, WriteQueue.step, advance] using h.clearWriteQueue hserial
  | drop call => simpa [emit, WriteQueue.step, advance] using h.drop hserial call

theorem run (actions : List Action) :
    Answers (WriteQueue.new.log actions) (WriteQueue.new.run actions) :=
  (@LoggedRun.invariant _ _ _ WriteQueue.step emit (fun past s => Serial past s ∧ Answers past s)
    _ _ ⟨.new, new⟩ fun _ _ action _ h => ⟨h.1.step action, h.2.step h.1 action⟩).2

end Answers

/-! ## Runs -/

section Runs

variable {s : WriteQueue} {action : Action} {write : QueuedWrite} {result : WriteOutcome}

theorem writeInProgress_of_emit_started (h : s.emit action = some (.started write)) :
    s.writeInProgress = false := by
  cases action with
  | writeCharacteristicQueued | clearWriteQueue | drop => cases h
  | poll call device =>
      have hpolls := polls s call device
      have hevent : (s.poll call device).2 = some (.started write) := h
      rw [hevent] at hpolls
      generalize (s.poll call device).1 = s' at hpolls
      cases hpolls with
      | takes hcall hfree hqueue => exact hfree

theorem poll_of_emit_finished (h : s.emit action = some (.finished write result)) :
    ∃ call device, action = .poll call device ∧
      result = device.writeCharacteristic write.serviceUuid write.charUuid write.data := by
  cases action with
  | writeCharacteristicQueued | clearWriteQueue | drop => cases h
  | poll call device =>
      have hpolls := polls s call device
      have hevent : (s.poll call device).2 = some (.finished write result) := h
      rw [hevent] at hpolls
      generalize (s.poll call device).1 = s' at hpolls
      cases hpolls with
      | writes => exact ⟨call, device, rfl, rfl⟩

theorem mem_log_of_mem_finishes {log : List WriteEvent} (h : (write, result) ∈ finishes log) :
    .finished write result ∈ log := by
  obtain ⟨event, hevent, heq⟩ := List.mem_filterMap.mp h
  cases event with
  | queued | started => cases heq
  | finished write' result' =>
      obtain ⟨rfl, rfl⟩ := Prod.mk.inj (Option.some.inj heq)
      exact hevent

end Runs

/-- What a call asks for. -/
def Action.request? : Action → Option (Uuid × Uuid × Bytes)
  | .writeCharacteristicQueued serviceUuid charUuid value => some (serviceUuid, charUuid, value)
  | .poll _ _ | .clearWriteQueue | .drop _ => none

theorem pushes_log (s : WriteQueue) (actions : List Action) :
    (pushes (s.log actions)).map (fun write => (write.serviceUuid, write.charUuid, write.data)) =
      actions.filterMap Action.request? := by
  induction actions generalizing s with
  | nil => rfl
  | cons action actions ih =>
      have hlog : s.log (action :: actions) =
          (s.emit action).toList ++ (s.step action).log actions := rfl
      rw [hlog, pushes_append, List.map_append, ih]
      cases action with
      | writeCharacteristicQueued serviceUuid charUuid value => rfl
      | clearWriteQueue | drop => rfl
      | poll call device =>
          have hpolls := polls s call device
          have hnone : pushes (s.poll call device).2.toList = [] := by
            revert hpolls
            generalize (s.poll call device).1 = s', (s.poll call device).2 = event
            intro hpolls
            cases hpolls <;> rfl
          show (pushes (s.poll call device).2.toList).map _ ++ _ = _
          rw [hnone]
          rfl

/-- Whatever the calls, their interleaving, and whichever of them are dropped or cleared: a write
starts only when every write that started before has finished, and the writes start in the order in
which they were queued, none twice. A write finishes with what the device answers to it in that
turn. A call that returns has what its own write finished with; or it was cleared, and the device
was never given its write; or some call was dropped. -/
theorem writes_are_serialised (actions : List Action) :
    let log := new.log actions
    let s := new.run actions
    (∀ past write rest, log = past ++ .started write :: rest →
        starts past = (finishes past).map Prod.fst) ∧
      (∃ pending : Option QueuedWrite,
        starts log = (finishes log).map Prod.fst ++ pending.toList) ∧
      List.Sublist (starts log ++ s.queue) (pushes log) ∧
      (pushes log).map QueuedWrite.call = List.range s.calls.length ∧
      (pushes log).map (fun write => (write.serviceUuid, write.charUuid, write.data)) =
        actions.filterMap Action.request? ∧
      (∀ past write result rest, log = past ++ .finished write result :: rest →
        ∃ front call device back, actions = front ++ .poll call device :: back ∧
          past = new.log front ∧
          result = device.writeCharacteristic write.serviceUuid write.charUuid write.data) ∧
      ∀ (call : Nat) (result : WriteOutcome), s.calls[call]? = some (.returned result) →
        (∃ write, .finished write result ∈ log ∧ write.call = call) ∨
          result = cleared ∧ (∀ write ∈ starts log, write.call ≠ call) ∨
          result = cancelled ∧ ∃ other : Nat, s.calls[other]? = some .dropped := by
  intro log s
  have hserial := Serial.run actions
  have hanswers := Answers.run actions
  obtain ⟨pending, hturn, -, -⟩ := hserial.turn
  refine ⟨?_, ⟨pending, hturn⟩, hserial.ordered, hserial.numbered, pushes_log new actions, ?_, ?_⟩
  · intro past write rest hlog
    obtain ⟨front, action, back, -, rfl, hemit⟩ := LoggedRun.log_split hlog
    obtain ⟨pending, hstarts, hfree, -⟩ := (Serial.run front).turn
    have hnone := hfree (writeInProgress_of_emit_started hemit)
    rw [hnone, Option.toList_none, List.append_nil] at hstarts
    exact hstarts
  · intro past write result rest hlog
    obtain ⟨front, action, back, hactions, hpast, hemit⟩ := LoggedRun.log_split hlog
    obtain ⟨call, device, rfl, hresult⟩ := poll_of_emit_finished hemit
    exact ⟨front, call, device, back, hactions, hpast, hresult⟩
  · intro call result hcall
    rcases hanswers.returned call result hcall with hsent | ⟨hclosed, hcancelled⟩
    · rcases hanswers.sent call result hsent with ⟨write, hfinished, hown⟩ | hcleared
      · exact Or.inl ⟨write, mem_log_of_mem_finishes hfinished, hown⟩
      · exact Or.inr (Or.inl hcleared)
    · exact Or.inr (Or.inr ⟨hcancelled, hanswers.closed call hclosed⟩)

end PeatBtle.WriteQueue
