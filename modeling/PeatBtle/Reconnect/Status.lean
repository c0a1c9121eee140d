import PeatBtle.Reconnect

/-!
# Reconnection status

The status of one peer and the list of the peers to try are two answers to the same
question, and the rule is written out for each of them.
-/

namespace PeatBtle

open Std Wire

inductive ReconnectionStatus where
  | ready
  | waiting (remaining : Nat)
  | exhausted (attempts : UInt32)
  | notTracked
deriving DecidableEq

namespace ReconnectionManager

def getStatus (m : ReconnectionManager) (address : String) (now : Nat) : ReconnectionStatus :=
  match m.peers[address]? with
  | none => .notTracked
  | some state =>
      if state.attempts ≥ m.config.maxAttempts then
        -- the reset is left to the next call that lists the peers
        if m.config.resetOnExhaustion then .ready else .exhausted state.attempts
      else if state.attempts = 0 then .ready
      else
        let delay := m.calculateDelay state.attempts
        let elapsed := now - state.lastAttempt
        if elapsed ≥ delay then .ready else .waiting (delay - elapsed)

/-- A peer whose attempts are to be counted again has none left to make: the limit is zero. -/
def NoneAllowed (m : ReconnectionManager) (address : String) : Prop :=
  m.isTracked address = true ∧ m.config.resetOnExhaustion = true ∧ m.config.maxAttempts = 0

instance (m : ReconnectionManager) (address : String) : Decidable (m.NoneAllowed address) :=
  inferInstanceAs (Decidable (_ ∧ _ ∧ _))

section Agreement

variable {m : ReconnectionManager} {address : String} {now : Nat} {state : PeerReconnectionState}

theorem isTracked_of_getElem? (h : m.peers[address]? = some state) :
    m.isTracked address = true := by
  rw [isTracked, ExtTreeMap.contains_eq_isSome_getElem?, h]
  rfl

theorem mem_getPeersToReconnect : address ∈ (m.getPeersToReconnect now).2 ↔
    ∃ state, m.peers[address]? = some state ∧ m.isDue now (if m.resets state then
      { state with attempts := 0, lastAttempt := now } else state) = true := by
  change address ∈ ((Pacing.mk m []).step (.check now)).ready ↔ _
  rw [Pacing.mem_ready_check, Pacing.stateOf_check]
  constructor
  · rintro ⟨state, hstate, hdue⟩
    obtain ⟨old, hold, rfl⟩ := Option.map_eq_some_iff.mp hstate
    exact ⟨old, hold, hdue⟩
  · rintro ⟨old, hold, hdue⟩
    exact ⟨_, Option.map_eq_some_iff.mpr ⟨old, hold, rfl⟩, hdue⟩

theorem getStatus_untracked (h : m.peers[address]? = none) :
    m.getStatus address now = .notTracked := by
  rw [getStatus, h]

/-- A peer is ready if it is due, and also if its counter is to be reset. -/
theorem getStatus_eq_ready_iff (h : m.peers[address]? = some state) :
    m.getStatus address now = .ready ↔ m.resets state = true ∨ m.isDue now state = true := by
  simp only [getStatus, h]
  by_cases hexhausted : state.attempts ≥ m.config.maxAttempts
  · have hnot : m.isDue now state = false := if_pos hexhausted
    simp only [if_pos hexhausted, resets, hnot, decide_eq_true hexhausted, Bool.and_true,
      Bool.false_eq_true, or_false]
    cases m.config.resetOnExhaustion <;> simp
  · have hkept : m.resets state = false := by
      rw [resets, decide_eq_false hexhausted, Bool.and_false]
    simp only [if_neg hexhausted, hkept, Bool.false_eq_true, false_or, isDue]
    by_cases hfirst : state.attempts = 0
    · simp only [if_pos hfirst]
    · simp only [if_neg hfirst, decide_eq_true_eq]
      split
      · rename_i hlong
        exact iff_of_true rfl hlong
      · rename_i hshort
        exact iff_of_false (fun hready => ReconnectionStatus.noConfusion hready) hshort

/-- After a reset the first attempt is due at once, unless none is allowed. -/
theorem isDue_reset : m.isDue now { state with attempts := 0, lastAttempt := now } = true ↔
    m.config.maxAttempts ≠ 0 := by
  rw [isDue_iff, and_iff_left (Or.inl rfl)]
  exact UInt32.pos_iff_ne_zero

theorem mem_getPeersToReconnect_iff (h : m.peers[address]? = some state) :
    address ∈ (m.getPeersToReconnect now).2 ↔
      if m.resets state then m.config.maxAttempts ≠ 0 else m.isDue now state = true := by
  have hlisted : address ∈ (m.getPeersToReconnect now).2 ↔ m.isDue now (if m.resets state then
      { state with attempts := 0, lastAttempt := now } else state) = true := by
    rw [mem_getPeersToReconnect]
    constructor
    · rintro ⟨other, hother, hdue⟩
      obtain rfl := Option.some.inj (h.symm.trans hother)
      exact hdue
    · intro hdue
      exact ⟨state, h, hdue⟩
  rw [hlisted]
  split
  · exact isDue_reset
  · exact Iff.rfl

theorem resets_of_noneAllowed (h : m.NoneAllowed address) : m.resets state = true := by
  rw [resets, h.2.1, h.2.2, Bool.true_and, decide_eq_true_eq]
  exact UInt32.zero_le

end Agreement

theorem getStatus_ready_iff (m : ReconnectionManager) (address : String) (now : Nat) :
    (m.getStatus address now = .ready ↔ address ∈ (m.getPeersToReconnect now).2) ↔
      ¬ m.NoneAllowed address := by
  cases h : m.peers[address]? with
  | none =>
      have hunlisted : address ∉ (m.getPeersToReconnect now).2 := fun hmem => by
        obtain ⟨state, hstate, -⟩ := mem_getPeersToReconnect.mp hmem
        exact absurd (h.symm.trans hstate) (Option.some_ne_none state).symm
      have huntracked : ¬ m.NoneAllowed address := fun hnone => by
        have htracked := hnone.1
        rw [isTracked, ExtTreeMap.contains_eq_isSome_getElem?, h] at htracked
        exact Bool.false_ne_true htracked
      rw [getStatus_untracked h]
      exact iff_of_true (iff_of_false (fun hready => ReconnectionStatus.noConfusion hready)
        hunlisted) huntracked
  | some state =>
      rw [getStatus_eq_ready_iff h, mem_getPeersToReconnect_iff h]
      cases hresets : m.resets state with
      | true =>
          have hreset : m.config.resetOnExhaustion = true :=
            (Bool.and_eq_true_iff.mp hresets).1
          simp [NoneAllowed, isTracked_of_getElem? h, hreset]
      | false =>
          have hallowed : ¬ m.NoneAllowed address := fun hnone =>
            Bool.false_ne_true (hresets.symm.trans (resets_of_noneAllowed hnone))
          simp [hallowed]

/-- With a limit of zero, a peer that was just lost is reported as ready and never listed. -/
theorem getStatus_ready_unlisted :
    let config := { ReconnectionConfig.kotlinHighPriority with maxAttempts := 0 }
    let m := (new config).trackDisconnection "peer-1" 0
    ¬ (m.getStatus "peer-1" 0 = .ready ↔ "peer-1" ∈ (m.getPeersToReconnect 0).2) := by
  decide

end ReconnectionManager

end PeatBtle
