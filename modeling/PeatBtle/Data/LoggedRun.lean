import Mathlib.Data.List.Basic

/-!
# Runs with a log

A deterministic system takes one action at a time, and an action may leave an
entry in the log. An invariant may relate the state to the log so far; an entry of
the log determines the state in which it was written.
-/

namespace PeatBtle.LoggedRun

variable {σ α ε : Type} (step : σ → α → σ) (emit : σ → α → Option ε)

def run (s : σ) (actions : List α) : σ := actions.foldl step s

def log : σ → List α → List ε
  | _, [] => []
  | s, action :: actions => (emit s action).toList ++ log (step s action) actions

@[simp] theorem run_nil (s : σ) : run step s [] = s := rfl

@[simp] theorem run_cons (s : σ) (action : α) (actions : List α) :
    run step s (action :: actions) = run step (step s action) actions := rfl

theorem run_append (s : σ) (front back : List α) :
    run step s (front ++ back) = run step (run step s front) back := List.foldl_append

theorem log_append (s : σ) (front back : List α) :
    log step emit s (front ++ back) =
      log step emit s front ++ log step emit (run step s front) back := by
  induction front generalizing s with
  | nil => rfl
  | cons action front ih => simp [log, ih]

/-- Every action of a run is good in the state where it is taken. -/
def Along (Good : σ → α → Prop) : σ → List α → Prop
  | _, [] => True
  | s, action :: actions => Good s action ∧ Along Good (step s action) actions

instance decidableAlong (Good : σ → α → Prop) [∀ s action, Decidable (Good s action)] :
    ∀ s actions, Decidable (Along step Good s actions)
  | _, [] => inferInstanceAs (Decidable True)
  | s, action :: actions =>
      have := decidableAlong Good (step s action) actions
      inferInstanceAs (Decidable (_ ∧ _))

variable {step emit}

/-- A view of the states that the steps respect turns runs into runs. -/
theorem run_view {τ : Type} {step' : τ → α → τ} {view : σ → τ}
    (h : ∀ s action, view (step s action) = step' (view s) action) (s : σ) (actions : List α) :
    view (run step s actions) = run step' (view s) actions := by
  induction actions generalizing s with
  | nil => rfl
  | cons action actions ih => rw [run_cons, run_cons, ih, h]

theorem log_view {τ : Type} {step' : τ → α → τ} {view : σ → τ}
    (h : ∀ s action, view (step s action) = step' (view s) action) (emit' : τ → α → Option ε)
    (s : σ) (actions : List α) :
    log step (fun s action => emit' (view s) action) s actions =
      log step' emit' (view s) actions := by
  induction actions generalizing s with
  | nil => rfl
  | cons action actions ih => rw [log, log, ih, h]

theorem along_of_mem {Good : σ → α → Prop} {actions : List α}
    (h : ∀ action ∈ actions, ∀ s, Good s action) (s : σ) : Along step Good s actions := by
  induction actions generalizing s with
  | nil => trivial
  | cons action actions ih =>
      exact ⟨h action (by simp) s, ih (fun a ha => h a (List.mem_cons_of_mem _ ha)) _⟩

theorem along_append {Good : σ → α → Prop} {s : σ} {front back : List α} :
    Along step Good s (front ++ back) ↔
      Along step Good s front ∧ Along step Good (run step s front) back := by
  induction front generalizing s with
  | nil => exact (and_iff_right trivial).symm
  | cons action front ih =>
      show Good s action ∧ Along step Good (step s action) (front ++ back) ↔ _
      rw [ih, ← and_assoc]
      rfl

/-- Every action of a run is good in the state that the actions before it led to. -/
theorem along_iff {Good : σ → α → Prop} {s : σ} {actions : List α} :
    Along step Good s actions ↔
      ∀ front action, front ++ [action] <+: actions → Good (run step s front) action := by
  induction actions generalizing s with
  | nil =>
      refine iff_of_true trivial ?_
      intro front action h
      exact absurd (List.prefix_nil.mp h) (by simp)
  | cons first actions ih =>
      constructor
      · rintro ⟨hfirst, hrest⟩ front action h
        cases front with
        | nil =>
            obtain ⟨rfl, -⟩ := List.cons_prefix_cons.mp h
            exact hfirst
        | cons head front =>
            obtain ⟨rfl, htail⟩ := List.cons_prefix_cons.mp h
            exact ih.mp hrest front action htail
      · intro h
        refine ⟨h [] first ⟨actions, rfl⟩, ih.mpr ?_⟩
        intro front action hprefix
        exact h (first :: front) action (List.cons_prefix_cons.mpr ⟨rfl, hprefix⟩)

theorem along_of_prefix {Good : σ → α → Prop} {s : σ} {front actions : List α}
    (h : Along step Good s actions) (hfront : front <+: actions) : Along step Good s front :=
  along_iff.mpr fun past action hpast => along_iff.mp h past action (hpast.trans hfront)

/-- A property of states that every good step keeps holds after every run of good steps. -/
theorem run_keeps_of_good {P : σ → Prop} {Good : σ → α → Prop} {s : σ} {actions : List α}
    (hstart : P s) (hgood : Along step Good s actions)
    (hstep : ∀ s action, Good s action → P s → P (step s action)) : P (run step s actions) := by
  induction actions generalizing s with
  | nil => exact hstart
  | cons action actions ih => exact ih (hstep s action hgood.1 hstart) hgood.2

theorem run_keeps {P : σ → Prop} {s : σ} {actions : List α} (hstart : P s)
    (hstep : ∀ s, ∀ action ∈ actions, P s → P (step s action)) : P (run step s actions) :=
  run_keeps_of_good hstart (along_of_mem (fun _ h _ => h) s) hstep

/-- What no step changes is the same after a run. -/
theorem run_unchanged {β : Type} {view : σ → β} (h : ∀ s action, view (step s action) = view s)
    (s : σ) (actions : List α) : view (run step s actions) = view s :=
  @run_keeps _ _ step (fun later => view later = view s) _ _ rfl
    fun later action _ hlater => (h later action).trans hlater

/-- An invariant of the log and the state that every good step keeps holds after every run of good
steps. -/
theorem invariant_of_good {Inv : List ε → σ → Prop} {Good : σ → α → Prop} {past : List ε} {s : σ}
    {actions : List α} (hstart : Inv past s) (hgood : Along step Good s actions)
    (hstep : ∀ past s action, Good s action → Inv past s →
      Inv (past ++ (emit s action).toList) (step s action)) :
    Inv (past ++ log step emit s actions) (run step s actions) := by
  induction actions generalizing past s with
  | nil =>
      rw [log, List.append_nil]
      exact hstart
  | cons action actions ih =>
      have hrest := ih (hstep past s action hgood.1 hstart) hgood.2
      rwa [List.append_assoc] at hrest

/-- Two properties of steps that agree under an invariant agree all along a run, if the good steps
keep the invariant. -/
theorem along_congr_of_good {Inv : σ → Prop} {Does Good : σ → α → Prop} {s : σ} {actions : List α}
    (hinv : Inv s) (hkeep : ∀ s action, Inv s → Good s action → Inv (step s action))
    (hstep : ∀ s action, Inv s → (Does s action ↔ Good s action)) :
    Along step Does s actions ↔ Along step Good s actions := by
  induction actions generalizing s with
  | nil => exact Iff.rfl
  | cons action actions ih =>
      have hiff := hstep s action hinv
      constructor
      · rintro ⟨hdoes, hrest⟩
        have hgood := hiff.mp hdoes
        exact ⟨hgood, (ih (hkeep s action hinv hgood)).mp hrest⟩
      · rintro ⟨hgood, hrest⟩
        exact ⟨hiff.mpr hgood, (ih (hkeep s action hinv hgood)).mpr hrest⟩

/-- The same where every step keeps the invariant. -/
theorem along_congr {Inv : σ → Prop} {Does Good : σ → α → Prop} {s : σ} {actions : List α}
    (hinv : Inv s) (hkeep : ∀ s action, Inv s → Inv (step s action))
    (hstep : ∀ s action, Inv s → (Does s action ↔ Good s action)) :
    Along step Does s actions ↔ Along step Good s actions :=
  along_congr_of_good hinv (fun s action h _ => hkeep s action h) hstep

/-- If a step keeps a property of states and has one of its own exactly when it is good, then both
hold all along a run exactly when every step of the run is good. -/
theorem forall_step_iff_along {Inv P : σ → Prop} {Does Good : σ → α → Prop} {s : σ}
    {actions : List α} (hinv : Inv s) (hstart : P s)
    (hkeep : ∀ s action, Inv s → Inv (step s action))
    (hstep : ∀ s action, Inv s → P s → (P (step s action) ∧ Does s action ↔ Good s action)) :
    (∀ front, front <+: actions → P (run step s front)) ∧ Along step Does s actions ↔
      Along step Good s actions := by
  induction actions generalizing s with
  | nil =>
      refine iff_of_true ⟨fun front hfront => ?_, trivial⟩ trivial
      rw [List.prefix_nil.mp hfront]
      exact hstart
  | cons action actions ih =>
      have hiff := hstep s action hinv hstart
      have hnext := hkeep s action hinv
      constructor
      · rintro ⟨hall, hdoes, hrest⟩
        have hafter : P (step s action) := hall [action] ⟨actions, rfl⟩
        refine ⟨hiff.mp ⟨hafter, hdoes⟩, (ih hnext hafter).mp ⟨fun front hfront => ?_, hrest⟩⟩
        exact hall (action :: front) (List.cons_prefix_cons.mpr ⟨rfl, hfront⟩)
      · rintro ⟨hgood, hrest⟩
        obtain ⟨hafter, hdoes⟩ := hiff.mpr hgood
        obtain ⟨hall, hlater⟩ := (ih hnext hafter).mpr hrest
        refine ⟨fun front hfront => ?_, hdoes, hlater⟩
        cases front with
        | nil => exact hstart
        | cons first front =>
            obtain ⟨rfl, htail⟩ := List.cons_prefix_cons.mp hfront
            exact hall front htail

/-- The same for a property of states alone. -/
theorem forall_prefix_iff_along {Inv P : σ → Prop} {Good : σ → α → Prop} {s : σ}
    {actions : List α} (hinv : Inv s) (hstart : P s)
    (hkeep : ∀ s action, Inv s → Inv (step s action))
    (hstep : ∀ s action, Inv s → P s → (P (step s action) ↔ Good s action)) :
    (∀ front, front <+: actions → P (run step s front)) ↔ Along step Good s actions := by
  have hdoes : Along step (fun _ _ => True) s actions := along_of_mem (fun _ _ _ => trivial) s
  rw [← forall_step_iff_along hinv hstart hkeep
    (fun s action h hP => (and_iff_left trivial).trans (hstep s action h hP))]
  exact (and_iff_left hdoes).symm

/-- The same where the property itself is all that a step needs. -/
theorem forall_prefix_iff_along_of_step {P : σ → Prop} {Good : σ → α → Prop} {s : σ}
    {actions : List α} (hstart : P s)
    (hstep : ∀ s action, P s → (P (step s action) ↔ Good s action)) :
    (∀ front, front <+: actions → P (run step s front)) ↔ Along step Good s actions :=
  @forall_prefix_iff_along _ _ step (fun _ => True) P Good s actions trivial hstart
    (fun _ _ _ => trivial) fun s action _ h => hstep s action h

/-- One step at a time, an invariant holds of the log and the state after every run. -/
theorem invariant {Inv : List ε → σ → Prop} {s : σ} {actions : List α} (hstart : Inv [] s)
    (hstep : ∀ past s action, action ∈ actions → Inv past s →
      Inv (past ++ (emit s action).toList) (step s action)) :
    Inv (log step emit s actions) (run step s actions) :=
  invariant_of_good hstart (along_of_mem (fun _ h _ => h) s) hstep

/-- Each entry was written by some action, in the state that the actions before it led to, and the
actions after it wrote the entries after it. -/
theorem log_split_rest {s : σ} {actions : List α} {past rest : List ε} {entry : ε}
    (h : log step emit s actions = past ++ entry :: rest) :
    ∃ front action back, actions = front ++ action :: back ∧ past = log step emit s front ∧
      emit (run step s front) action = some entry ∧
      rest = log step emit (run step s (front ++ [action])) back := by
  induction actions generalizing s past with
  | nil => simp [log] at h
  | cons action actions ih =>
      cases hemit : emit s action with
      | none =>
          rw [log, hemit] at h
          obtain ⟨front, a, back, rfl, hpast, ha⟩ := ih h
          exact ⟨action :: front, a, back, rfl, by rw [log, hemit]; exact hpast, ha⟩
      | some first =>
          rw [log, hemit] at h
          cases past with
          | nil =>
              obtain ⟨rfl, hrest⟩ := List.cons.inj h
              exact ⟨[], action, actions, rfl, rfl, hemit, hrest.symm⟩
          | cons head past =>
              obtain ⟨rfl, htail⟩ := List.cons.inj h
              obtain ⟨front, a, back, rfl, hpast, ha⟩ := ih htail
              refine ⟨action :: front, a, back, rfl, ?_, ha⟩
              rw [log, hemit, hpast]
              rfl

theorem log_split {s : σ} {actions : List α} {past rest : List ε} {entry : ε}
    (h : log step emit s actions = past ++ entry :: rest) :
    ∃ front action back, actions = front ++ action :: back ∧ past = log step emit s front ∧
      emit (run step s front) action = some entry := by
  obtain ⟨front, action, back, hactions, hpast, hemit, -⟩ := log_split_rest h
  exact ⟨front, action, back, hactions, hpast, hemit⟩

theorem mem_log {s : σ} {actions : List α} {entry : ε} (h : entry ∈ log step emit s actions) :
    ∃ front action back, actions = front ++ action :: back ∧
      emit (run step s front) action = some entry := by
  obtain ⟨past, rest, hsplit⟩ := List.append_of_mem h
  obtain ⟨front, action, back, hactions, -, hemit⟩ := log_split hsplit
  exact ⟨front, action, back, hactions, hemit⟩

end PeatBtle.LoggedRun
