import PeatBtle.Basic
import PeatBtle.Data.LoggedRun

/-!
# Reconnection

A peer that is lost is tried again, at once the first time and then with growing
delays. Whether a peer is due is asked first and the attempt is recorded
afterwards. Durations and readings of the clock are in nanoseconds.
-/

namespace PeatBtle

open Std Wire MapMerge

namespace Duration

def fromMillis (ms : UInt64) : Nat := ms.toNat * 1000000

/-- `as_millis() as u64`: whole milliseconds, cut to 64 bits. -/
def asMillis (d : Nat) : UInt64 := UInt64.ofNat (d / 1000000)

theorem toNat_asMillis {d : Nat} (hfits : d < 2 ^ 64 * 1000000) :
    (asMillis d).toNat = d / 1000000 :=
  UInt64.toNat_ofNat_of_lt' (Nat.div_lt_of_lt_mul (by omega))

end Duration

structure ReconnectionConfig where
  baseDelay : Nat
  maxDelay : Nat
  maxAttempts : UInt32
  checkInterval : Nat
  useFlatDelay : Bool
  resetOnExhaustion : Bool
deriving DecidableEq

namespace ReconnectionConfig

def kotlinNormal : ReconnectionConfig :=
  ⟨Duration.fromMillis 1000, Duration.fromMillis 15000, 20, Duration.fromMillis 5000, false, false⟩

def kotlinHighPriority : ReconnectionConfig :=
  ⟨Duration.fromMillis 1000, Duration.fromMillis 15000, 20, Duration.fromMillis 5000, true, true⟩

/-- Delays in whole milliseconds, short enough to be multiplied. -/
structure InMillis (config : ReconnectionConfig) : Prop where
  base : 1000000 ∣ config.baseDelay
  max : 1000000 ∣ config.maxDelay
  baseFits : config.baseDelay < 2 ^ 34 * 1000000
  maxFits : config.maxDelay < 2 ^ 64 * 1000000

/-- The delay that is meant after so many attempts. -/
def delay (config : ReconnectionConfig) (attempts : Nat) : Nat :=
  if config.useFlatDelay then config.baseDelay
  else min (config.baseDelay * 2 ^ min attempts 30) config.maxDelay

section Delay

variable {config : ReconnectionConfig} (hordered : config.baseDelay ≤ config.maxDelay)
include hordered

theorem baseDelay_le_delay (attempts : Nat) : config.baseDelay ≤ config.delay attempts := by
  unfold delay
  split
  · exact Nat.le_refl _
  · exact Nat.le_min.mpr ⟨Nat.le_mul_of_pos_right _ (Nat.two_pow_pos _), hordered⟩

omit hordered in
theorem delay_mono {attempts later : Nat} (h : attempts ≤ later) :
    config.delay attempts ≤ config.delay later := by
  unfold delay
  split
  · exact Nat.le_refl _
  · have hpow : 2 ^ min attempts 30 ≤ 2 ^ min later 30 :=
      Nat.pow_le_pow_right (by decide) (by omega)
    exact min_le_min_right _ (Nat.mul_le_mul_left _ hpow)

end Delay

end ReconnectionConfig

structure PeerReconnectionState where
  attempts : UInt32
  lastAttempt : Nat
  disconnectedAt : Nat
deriving DecidableEq

def PeerReconnectionState.new (now : Nat) : PeerReconnectionState := ⟨0, now, now⟩

structure ReconnectionManager where
  config : ReconnectionConfig
  peers : Map String PeerReconnectionState

namespace ReconnectionManager

def new (config : ReconnectionConfig) : ReconnectionManager := ⟨config, ∅⟩

def trackDisconnection (m : ReconnectionManager) (address : String) (now : Nat) :
    ReconnectionManager :=
  { m with peers := m.peers.alter address fun old => some (old.getD (.new now)) }

def isTracked (m : ReconnectionManager) (address : String) : Bool := m.peers.contains address

/-- The shift is bounded to prevent an overflow. -/
def multiplier (attempts : UInt32) : UInt64 := 1 <<< (min attempts 30).toUInt64

def calculateDelay (m : ReconnectionManager) (attempts : UInt32) : Nat :=
  if m.config.useFlatDelay then m.config.baseDelay
  else
    let delayMs := Duration.asMillis m.config.baseDelay * multiplier attempts
    let maxMs := Duration.asMillis m.config.maxDelay
    Duration.fromMillis (min delayMs maxMs)

/-- Whether the counter of a peer starts again. -/
def resets (m : ReconnectionManager) (state : PeerReconnectionState) : Bool :=
  m.config.resetOnExhaustion && decide (state.attempts ≥ m.config.maxAttempts)

/-- The first attempt is due at once. -/
def isDue (m : ReconnectionManager) (now : Nat) (state : PeerReconnectionState) : Bool :=
  if state.attempts ≥ m.config.maxAttempts then false
  else if state.attempts = 0 then true
  else decide (now - state.lastAttempt ≥ m.calculateDelay state.attempts)

theorem isDue_iff {m : ReconnectionManager} {now : Nat} {state : PeerReconnectionState} :
    m.isDue now state = true ↔ state.attempts < m.config.maxAttempts ∧
      (state.attempts = 0 ∨ m.calculateDelay state.attempts ≤ now - state.lastAttempt) := by
  unfold isDue
  split
  · rename_i hexhausted
    exact iff_of_false Bool.false_ne_true fun hdue => UInt32.not_le.mpr hdue.1 hexhausted
  · rename_i hopen
    rw [and_iff_right (UInt32.not_le.mp hopen)]
    split
    · rename_i hfirst
      exact iff_of_true rfl (Or.inl hfirst)
    · rename_i hlater
      rw [decide_eq_true_eq, or_iff_right hlater]

/-- The clock is read once. -/
def getPeersToReconnect (m : ReconnectionManager) (now : Nat) :
    ReconnectionManager × List String :=
  let peers := m.peers.map fun _ state =>
    if m.resets state then { state with attempts := 0, lastAttempt := now } else state
  ({ m with peers := peers }, (peers.toList.filter fun entry => m.isDue now entry.2).map Prod.fst)

def recordAttempt (m : ReconnectionManager) (address : String) (now : Nat) :
    ReconnectionManager :=
  { m with peers := m.peers.modify address fun state =>
      { state with attempts := state.attempts + 1, lastAttempt := now } }

def onConnectionSuccess (m : ReconnectionManager) (address : String) : ReconnectionManager :=
  { m with peers := m.peers.erase address }

def stopTracking (m : ReconnectionManager) (address : String) : ReconnectionManager :=
  { m with peers := m.peers.erase address }

def clear (m : ReconnectionManager) : ReconnectionManager := { m with peers := ∅ }

/-! ## Delays -/

theorem toNat_multiplier (attempts : UInt32) :
    (multiplier attempts).toNat = 2 ^ min attempts.toNat 30 := by
  have hshift : (min attempts 30).toUInt64.toNat = min attempts.toNat 30 := by
    rw [UInt32.toNat_toUInt64, UInt32.toNat_min]
    rfl
  have hpow : 2 ^ min attempts.toNat 30 ≤ 2 ^ 30 := Nat.pow_le_pow_right (by decide) (by omega)
  rw [multiplier, UInt64.toNat_shiftLeft, hshift, Nat.mod_eq_of_lt (by omega : _ < 64),
    Nat.shiftLeft_eq]
  change 1 * 2 ^ min attempts.toNat 30 % 2 ^ 64 = _
  rw [Nat.one_mul, Nat.mod_eq_of_lt (by omega)]

section Delays

variable {config : ReconnectionConfig} (h : config.InMillis) (attempts : UInt32)
include h

/-- The product does not overflow. -/
theorem delayMs_lt :
    (Duration.asMillis config.baseDelay).toNat * (multiplier attempts).toNat < 2 ^ 64 := by
  have hfits := h.baseFits
  have hbase : config.baseDelay / 1000000 < 2 ^ 34 := Nat.div_lt_of_lt_mul (by omega)
  have hpow : 2 ^ min attempts.toNat 30 ≤ 2 ^ 30 := Nat.pow_le_pow_right (by decide) (by omega)
  rw [Duration.toNat_asMillis (by omega), toNat_multiplier]
  calc config.baseDelay / 1000000 * 2 ^ min attempts.toNat 30
      ≤ config.baseDelay / 1000000 * 2 ^ 30 := Nat.mul_le_mul_left _ hpow
    _ < 2 ^ 34 * 2 ^ 30 := Nat.mul_lt_mul_of_pos_right hbase (by decide)
    _ = 2 ^ 64 := by decide

theorem fromMillis_delayMs :
    Duration.fromMillis (min (Duration.asMillis config.baseDelay * multiplier attempts)
      (Duration.asMillis config.maxDelay)) =
        min (config.baseDelay * 2 ^ min attempts.toNat 30) config.maxDelay := by
  have hfits := h.baseFits
  have hproduct := delayMs_lt h attempts
  rw [Duration.fromMillis, UInt64.toNat_min, UInt64.toNat_mul, Nat.mod_eq_of_lt hproduct,
    Duration.toNat_asMillis (by omega), Duration.toNat_asMillis h.maxFits, toNat_multiplier,
    ← Nat.mul_min_mul_right, Nat.div_mul_cancel h.max, Nat.mul_right_comm,
    Nat.div_mul_cancel h.base]

end Delays

theorem calculateDelay_eq (m : ReconnectionManager)
    (h : m.config.useFlatDelay = false → m.config.InMillis) (attempts : UInt32) :
    m.calculateDelay attempts = m.config.delay attempts.toNat := by
  unfold calculateDelay ReconnectionConfig.delay
  cases hflat : m.config.useFlatDelay with
  | true => rfl
  | false =>
      rw [if_neg Bool.false_ne_true, if_neg Bool.false_ne_true]
      exact fromMillis_delayMs (h hflat) attempts

end ReconnectionManager

/-! ## Runs -/

/-- A manager, with the addresses that it has just returned and that were not tried since. -/
structure Pacing where
  manager : ReconnectionManager
  ready : List String

namespace Pacing

inductive Action where
  | track (address : String) (now : Nat)
  | check (now : Nat)
  | attempt (address : String) (now : Nat)
  | success (address : String)
  | stop (address : String)
  | clear
deriving DecidableEq

def Action.time? : Action → Option Nat
  | .track _ now | .check now | .attempt _ now => some now
  | .success _ | .stop _ | .clear => none

/-- The clock does not go back. -/
def Timely (actions : List Action) : Prop :=
  actions.Pairwise fun earlier later => ∀ s ∈ earlier.time?, ∀ t ∈ later.time?, s ≤ t

instance (actions : List Action) : Decidable (Timely actions) :=
  inferInstanceAs (Decidable (List.Pairwise _ actions))

def start (config : ReconnectionConfig) : Pacing := ⟨.new config, []⟩

def step (p : Pacing) : Action → Pacing
  | .track address now => { p with manager := p.manager.trackDisconnection address now }
  | .check now =>
      let checked := p.manager.getPeersToReconnect now
      ⟨checked.1, checked.2⟩
  | .attempt address now => ⟨p.manager.recordAttempt address now, p.ready.filter (· ≠ address)⟩
  | .success address => { p with manager := p.manager.onConnectionSuccess address }
  | .stop address => { p with manager := p.manager.stopTracking address }
  | .clear => { p with manager := p.manager.clear }

/-- Only an address that was returned is tried. -/
def AttemptsReady (p : Pacing) : Action → Prop
  | .attempt address _ => address ∈ p.ready
  | _ => True

instance (p : Pacing) : (action : Action) → Decidable (p.AttemptsReady action)
  | .attempt address _ => inferInstanceAs (Decidable (address ∈ p.ready))
  | .track .. | .check .. | .success .. | .stop .. | .clear => inferInstanceAs (Decidable True)

def stateOf (p : Pacing) (address : String) : Option PeerReconnectionState :=
  p.manager.peers[address]?

/-- The peer is not tried, stays tracked and its counter is not reset. -/
def Undisturbed (address : String) (p : Pacing) : Action → Prop
  | .attempt other _ | .success other | .stop other => other ≠ address
  | .check _ => (p.stateOf address).any p.manager.resets = false
  | .clear => False
  | .track .. => True

/-- What is known by a time: no attempt was later, and an address that was returned may be tried
now. -/
structure KnownBy (t : Nat) (p : Pacing) : Prop where
  past : ∀ address state, p.stateOf address = some state → state.lastAttempt ≤ t
  allowed : ∀ address ∈ p.ready, 0 < p.manager.config.maxAttempts
  due : ∀ address ∈ p.ready, ∀ state, p.stateOf address = some state →
    state.attempts < p.manager.config.maxAttempts ∧ (state.attempts = 0 ∨
      state.lastAttempt + p.manager.calculateDelay state.attempts ≤ t)

section Steps

variable {p : Pacing} {t : Nat}

theorem config_step (p : Pacing) (action : Action) :
    (p.step action).manager.config = p.manager.config := by
  cases action <;> rfl

theorem calculateDelay_step (p : Pacing) (action : Action) (attempts : UInt32) :
    (p.step action).manager.calculateDelay attempts = p.manager.calculateDelay attempts := by
  unfold ReconnectionManager.calculateDelay
  rw [config_step]

theorem stateOf_check (now : Nat) (address : String) : (p.step (.check now)).stateOf address =
    (p.stateOf address).map fun state => if p.manager.resets state then
      { state with attempts := 0, lastAttempt := now } else state :=
  ExtTreeMap.getElem?_map

theorem stateOf_attempt (address other : String) (now : Nat) :
    (p.step (.attempt address now)).stateOf other =
      if address = other then (p.stateOf address).map fun state =>
        { state with attempts := state.attempts + 1, lastAttempt := now }
      else p.stateOf other :=
  getElem?_modify_eq ..

theorem stateOf_track (address other : String) (now : Nat) :
    (p.step (.track address now)).stateOf other =
      if address = other then some ((p.stateOf address).getD (.new now)) else p.stateOf other :=
  getElem?_alter_eq ..

/-- A peer that is removed is not looked up, and the others are as before. -/
theorem stateOf_of_erase {address other : String} {state : PeerReconnectionState}
    (h : (p.manager.peers.erase address)[other]? = some state) : p.stateOf other = some state := by
  rw [getElem?_erase_eq] at h
  split at h
  · cases h
  · exact h

theorem mem_ready_check {now : Nat} {address : String} :
    address ∈ (p.step (.check now)).ready ↔ ∃ state,
      (p.step (.check now)).stateOf address = some state ∧ p.manager.isDue now state = true := by
  change address ∈ List.map Prod.fst (List.filter _ (ExtTreeMap.toList _)) ↔ _
  rw [List.mem_map]
  constructor
  · rintro ⟨⟨other, state⟩, hentry, rfl⟩
    obtain ⟨hmem, hdue⟩ := List.mem_filter.mp hentry
    exact ⟨state, ExtTreeMap.mem_toList_iff_getElem?_eq_some.mp hmem, hdue⟩
  · rintro ⟨state, hstate, hdue⟩
    exact ⟨(address, state), List.mem_filter.mpr
      ⟨ExtTreeMap.mem_toList_iff_getElem?_eq_some.mpr hstate, hdue⟩, rfl⟩

theorem due_of_isDue {now : Nat} {state : PeerReconnectionState} (hnow : now ≤ t)
    (hpast : state.lastAttempt ≤ t) (hdue : p.manager.isDue now state = true) :
    state.attempts < p.manager.config.maxAttempts ∧ (state.attempts = 0 ∨
      state.lastAttempt + p.manager.calculateDelay state.attempts ≤ t) := by
  obtain ⟨hopen, hwaited⟩ := ReconnectionManager.isDue_iff.mp hdue
  refine ⟨hopen, hwaited.imp_right fun hlong => ?_⟩
  omega

theorem KnownBy.past_step (h : KnownBy t p) {action : Action} (htime : ∀ s ∈ action.time?, s ≤ t)
    {address : String} {state : PeerReconnectionState}
    (hstate : (p.step action).stateOf address = some state) : state.lastAttempt ≤ t := by
  cases action with
  | track other now =>
      rw [stateOf_track] at hstate
      split at hstate
      · obtain rfl := Option.some.inj hstate
        cases hold : p.stateOf other with
        | none => exact htime now rfl
        | some old => exact h.past other old hold
      · exact h.past address state hstate
  | check now =>
      rw [stateOf_check] at hstate
      obtain ⟨old, hold, rfl⟩ := Option.map_eq_some_iff.mp hstate
      split
      · exact htime now rfl
      · exact h.past address old hold
  | attempt other now =>
      rw [stateOf_attempt] at hstate
      split at hstate
      · obtain ⟨old, -, rfl⟩ := Option.map_eq_some_iff.mp hstate
        exact htime now rfl
      · exact h.past address state hstate
  | success other => exact h.past address state (stateOf_of_erase hstate)
  | stop other => exact h.past address state (stateOf_of_erase hstate)
  | clear => exact absurd hstate getElem?_empty_ne_some

theorem knownBy_step (h : KnownBy t p) {action : Action} (htime : ∀ s ∈ action.time?, s ≤ t) :
    KnownBy t (p.step action) := by
  refine ⟨fun _ _ hstate => h.past_step htime hstate, fun address hready => ?_,
    fun address hready state hstate => ?_⟩
  · rw [config_step]
    cases action with
    | check now =>
        obtain ⟨state, -, hdue⟩ := mem_ready_check.mp hready
        exact UInt32.lt_of_le_of_lt UInt32.zero_le (ReconnectionManager.isDue_iff.mp hdue).1
    | attempt other now => exact h.allowed address (List.mem_filter.mp hready).1
    | _ => exact h.allowed address hready
  · rw [config_step, calculateDelay_step]
    cases action with
    | track other now =>
        have hopen := h.allowed address hready
        rw [stateOf_track] at hstate
        split at hstate
        · rename_i hother
          obtain rfl := hother
          obtain rfl := Option.some.inj hstate
          cases hold : p.stateOf other with
          | none => exact ⟨hopen, Or.inl rfl⟩
          | some old => exact h.due other hready old hold
        · exact h.due address hready state hstate
    | check now =>
        obtain ⟨due, hdue, hisDue⟩ := mem_ready_check.mp hready
        obtain rfl := Option.some.inj (hdue.symm.trans hstate)
        exact due_of_isDue (htime now rfl) (h.past_step htime hdue) hisDue
    | attempt other now =>
        obtain ⟨hmem, hother⟩ := List.mem_filter.mp hready
        rw [stateOf_attempt, if_neg (Ne.symm (of_decide_eq_true hother))] at hstate
        exact h.due address hmem state hstate
    | success other => exact h.due address hready state (stateOf_of_erase hstate)
    | stop other => exact h.due address hready state (stateOf_of_erase hstate)
    | clear => exact absurd hstate getElem?_empty_ne_some

theorem stateOf_undisturbed {address : String} {state : PeerReconnectionState} {action : Action}
    (hstate : p.stateOf address = some state) (h : p.Undisturbed address action) :
    (p.step action).stateOf address = some state := by
  have herase : ∀ {other}, other ≠ address →
      (p.manager.peers.erase other)[address]? = some state := by
    intro other hother
    rw [getElem?_erase_eq, if_neg hother]
    exact hstate
  cases action with
  | track other now =>
      rw [stateOf_track]
      split
      · rename_i hother
        rw [hother, hstate]
        rfl
      · exact hstate
  | check now =>
      have hkept : p.manager.resets state = false := by
        change (p.stateOf address).any p.manager.resets = false at h
        rwa [hstate] at h
      rw [stateOf_check, hstate, Option.map_some, hkept, if_neg Bool.false_ne_true]
  | attempt other now =>
      rw [stateOf_attempt, if_neg h]
      exact hstate
  | success other => exact herase h
  | stop other => exact herase h
  | clear => exact h.elim

/-- A peer whose counter starts again is tried at once. -/
theorem ready_of_resets {address : String} {state : PeerReconnectionState} (now : Nat)
    (hstate : p.stateOf address = some state) (hresets : p.manager.resets state = true)
    (hopen : 0 < p.manager.config.maxAttempts) : address ∈ (p.step (.check now)).ready := by
  refine mem_ready_check.mpr ⟨{ state with attempts := 0, lastAttempt := now }, ?_, ?_⟩
  · rw [stateOf_check, hstate, Option.map_some, if_pos hresets]
  · exact ReconnectionManager.isDue_iff.mpr ⟨hopen, Or.inl rfl⟩

end Steps

/-! ## Along a run -/

section Runs

variable {config : ReconnectionConfig} {actions : List Action}

theorem config_run (p : Pacing) (actions : List Action) :
    (LoggedRun.run step p actions).manager.config = p.manager.config :=
  @LoggedRun.run_unchanged _ _ step _ (fun p => p.manager.config) config_step p actions

theorem knownBy_run {t : Nat} (htime : ∀ action ∈ actions, ∀ s ∈ action.time?, s ≤ t) :
    KnownBy t (LoggedRun.run step (start config) actions) := by
  have hstart : KnownBy t (start config) := by
    refine ⟨fun address state hstate => ?_, fun _ hready => ?_, fun _ hready => ?_⟩
    · exact absurd hstate getElem?_empty_ne_some
    · exact nomatch hready
    · exact nomatch hready
  exact LoggedRun.run_keeps hstart fun _ action hmem hknown =>
    knownBy_step hknown (htime action hmem)

theorem stateOf_run_undisturbed {p : Pacing} {address : String} {state : PeerReconnectionState}
    (hstate : p.stateOf address = some state)
    (h : LoggedRun.Along step (Undisturbed address) p actions) :
    (LoggedRun.run step p actions).stateOf address = some state :=
  @LoggedRun.run_keeps_of_good _ _ step (fun p => p.stateOf address = some state)
    (Undisturbed address) p actions hstate h fun _ _ hundisturbed hkept =>
      stateOf_undisturbed hkept hundisturbed

/-- With a clock that does not go back, everything is known by the time of the last action. -/
theorem knownBy_of_timely (config : ReconnectionConfig) {front : List Action} {action : Action}
    {t : Nat} (htimely : Timely actions) (hfront : front ++ [action] <+: actions)
    (htime : action.time? = some t) : KnownBy t (LoggedRun.run step (start config) front) := by
  obtain ⟨-, -, hlast⟩ := List.pairwise_append.mp (htimely.sublist hfront.sublist)
  exact knownBy_run fun earlier hearlier s hs =>
    hlast earlier hearlier action (List.mem_singleton_self _) s hs t htime

end Runs

/-- Every delay is as it is meant to be, and nothing overflows on the way. -/
def DelaysExact (config : ReconnectionConfig) : Prop :=
  ∀ attempts : UInt32,
    (ReconnectionManager.new config).calculateDelay attempts = config.delay attempts.toNat ∧
      (config.useFlatDelay = false → (Duration.asMillis config.baseDelay).toNat *
        (ReconnectionManager.multiplier attempts).toNat < 2 ^ 64)

/-- Two attempts one after the other are the delay of the first apart, which is at least the base
delay and at most the delay of the second. -/
def AttemptsPaced (config : ReconnectionConfig) (actions : List Action) : Prop :=
  ∀ front address t₁ middle t₂,
    (front ++ [Action.attempt address t₁]) ++ middle ++ [Action.attempt address t₂] <+: actions →
    ∀ first,
    (LoggedRun.run step (start config) (front ++ [Action.attempt address t₁])).stateOf address =
      some first →
    LoggedRun.Along step (Undisturbed address)
      (LoggedRun.run step (start config) (front ++ [Action.attempt address t₁])) middle →
    config.baseDelay ≤ config.delay first.attempts.toNat ∧
      t₁ + config.delay first.attempts.toNat ≤ t₂ ∧
      ∃ second,
        (LoggedRun.run step (start config) ((front ++ [Action.attempt address t₁]) ++ middle ++
          [Action.attempt address t₂])).stateOf address = some second ∧
        second.attempts.toNat = first.attempts.toNat + 1 ∧
        config.delay first.attempts.toNat ≤ config.delay second.attempts.toNat

/-- A peer whose counter starts again may be tried at once. -/
def ResetsAtOnce (config : ReconnectionConfig) (actions : List Action) : Prop :=
  ∀ front now, front ++ [Action.check now] <+: actions → ∀ address state,
    (LoggedRun.run step (start config) front).stateOf address = some state →
    (LoggedRun.run step (start config) front).manager.resets state = true →
    0 < config.maxAttempts →
    address ∈ (LoggedRun.run step (start config) (front ++ [Action.check now])).ready

section Paced

variable {config : ReconnectionConfig} {actions : List Action}

theorem delaysExact (hmillis : config.useFlatDelay = false → config.InMillis) :
    DelaysExact config := fun attempts =>
  ⟨ReconnectionManager.calculateDelay_eq (.new config) hmillis attempts,
    fun hflat => ReconnectionManager.delayMs_lt (hmillis hflat) attempts⟩

theorem resetsAtOnce (config : ReconnectionConfig) (actions : List Action) :
    ResetsAtOnce config actions := by
  intro front now _ address state hstate hresets hopen
  rw [LoggedRun.run_append]
  refine ready_of_resets now hstate hresets ?_
  rw [config_run]
  exact hopen

/-- The counter of a peer that is tried goes up by one. -/
theorem attempts_of_ready {p : Pacing} {t : Nat} (h : KnownBy t p) {address : String}
    (hready : address ∈ p.ready) {state : PeerReconnectionState}
    (hstate : p.stateOf address = some state) (now : Nat) :
    (p.step (.attempt address now)).stateOf address = some
        { state with attempts := state.attempts + 1, lastAttempt := now } ∧
      (state.attempts + 1).toNat = state.attempts.toNat + 1 := by
  rw [stateOf_attempt, if_pos rfl, hstate]
  refine ⟨rfl, ?_⟩
  have hopen := UInt32.lt_iff_toNat_lt.mp (h.due address hready state hstate).1
  have hbound := p.manager.config.maxAttempts.toNat_lt
  rw [UInt32.toNat_add]
  exact Nat.mod_eq_of_lt (by change state.attempts.toNat + 1 < _; omega)

theorem counted_of_attempt {p : Pacing} {t : Nat} (h : KnownBy t p) {address : String}
    (hready : address ∈ p.ready) {now : Nat} {state : PeerReconnectionState}
    (hstate : (p.step (.attempt address now)).stateOf address = some state) :
    state.lastAttempt = now ∧ state.attempts ≠ 0 := by
  cases hold : p.stateOf address with
  | none =>
      rw [stateOf_attempt, if_pos rfl, hold] at hstate
      cases hstate
  | some old =>
      obtain ⟨hafter, hnext⟩ := attempts_of_ready h hready hold now
      obtain rfl := Option.some.inj (hafter.symm.trans hstate)
      refine ⟨rfl, fun hzero => ?_⟩
      have hnonzero := congrArg UInt32.toNat hzero
      exact Nat.succ_ne_zero _ (hnext.symm.trans hnonzero)

theorem attemptsPaced (hordered : config.baseDelay ≤ config.maxDelay)
    (hmillis : config.useFlatDelay = false → config.InMillis) (htimely : Timely actions)
    (hready : LoggedRun.Along step AttemptsReady (start config) actions) :
    AttemptsPaced config actions := by
  intro front address t₁ middle t₂ hprefix first hfirst hundisturbed
  have hprefix₁ : front ++ [Action.attempt address t₁] <+: actions :=
    ((List.prefix_append _ middle).trans (List.prefix_append _ _)).trans hprefix
  -- the first attempt was of an address that was returned, so its counter is not zero
  obtain ⟨hlast, hcounted⟩ : first.lastAttempt = t₁ ∧ first.attempts ≠ 0 :=
    counted_of_attempt (knownBy_of_timely config htimely hprefix₁ rfl)
      (LoggedRun.along_iff.mp hready front _ hprefix₁) (by rwa [LoggedRun.run_append] at hfirst)
  have hkept : (LoggedRun.run step (start config)
      ((front ++ [Action.attempt address t₁]) ++ middle)).stateOf address = some first := by
    rw [LoggedRun.run_append]
    exact stateOf_run_undisturbed hfirst hundisturbed
  have hknown := knownBy_of_timely config htimely hprefix rfl
  have hready₂ := LoggedRun.along_iff.mp hready _ _ hprefix
  obtain ⟨hsecond, hnext⟩ := attempts_of_ready hknown hready₂ hkept t₂
  have hwaited := (hknown.due address hready₂ first hkept).2.resolve_left hcounted
  rw [hlast, ReconnectionManager.calculateDelay_eq _ (by rw [config_run]; exact hmillis),
    config_run] at hwaited
  refine ⟨config.baseDelay_le_delay hordered _, hwaited,
    { first with attempts := first.attempts + 1, lastAttempt := t₂ }, ?_, hnext, ?_⟩
  · rw [LoggedRun.run_append]
    exact hsecond
  · have hle : first.attempts.toNat ≤ (first.attempts + 1).toNat := by omega
    exact config.delay_mono hle

end Paced

/-- If attempts are made only when they are due, they are paced between the times that a counter
starts again, and a peer whose counter does may be tried at once. -/
theorem attempts_paced (config : ReconnectionConfig) (hordered : config.baseDelay ≤ config.maxDelay)
    (hmillis : config.useFlatDelay = false → config.InMillis) (actions : List Action)
    (htimely : Timely actions)
    (hready : LoggedRun.Along step AttemptsReady (start config) actions) :
    DelaysExact config ∧ AttemptsPaced config actions ∧ ResetsAtOnce config actions :=
  ⟨delaysExact hmillis, attemptsPaced hordered hmillis htimely hready, resetsAtOnce config actions⟩

/-- A peer that is tried twice. -/
def triedTwice : List Action :=
  [.track "AA:BB:CC:DD:EE:01" 0, .check 0, .attempt "AA:BB:CC:DD:EE:01" 0, .check 2000000000,
    .attempt "AA:BB:CC:DD:EE:01" 2000000000]

theorem triedTwice_paced :
    DelaysExact .kotlinNormal ∧ AttemptsPaced .kotlinNormal triedTwice ∧
      ResetsAtOnce .kotlinNormal triedTwice :=
  attempts_paced .kotlinNormal (by decide) (fun _ => ⟨by decide, by decide, by decide, by decide⟩)
    triedTwice (by decide) (by decide +kernel)

/-- One attempt with a flat delay, then again from the start. -/
def restless : ReconnectionConfig := { ReconnectionConfig.kotlinHighPriority with maxAttempts := 1 }

def triedAtOnce : List Action :=
  [.track "AA:BB:CC:DD:EE:01" 0, .check 0, .attempt "AA:BB:CC:DD:EE:01" 0, .check 1,
    .attempt "AA:BB:CC:DD:EE:01" 1]

/-- A maximum of almost twenty-five days, and a base delay of almost two hundred. -/
def patient : ReconnectionConfig :=
  ⟨Duration.fromMillis 1, Duration.fromMillis 2147483648, 40, 0, false, false⟩

def glacial : ReconnectionConfig :=
  ⟨Duration.fromMillis 17179869184, Duration.fromMillis 17179869184, 40, 0, false, false⟩

/-- A counter that starts again lets the next attempt through after a nanosecond. The delays do not
grow in the flat mode, nor after thirty attempts in the other one, and a large one overflows. -/
theorem triedAtOnce_unpaced :
    (restless.baseDelay ≤ restless.maxDelay ∧ Timely triedAtOnce ∧
        LoggedRun.Along step AttemptsReady (start restless) triedAtOnce ∧ 1 < restless.baseDelay) ∧
      (ReconnectionManager.new restless).calculateDelay 1 ≠
        min (restless.baseDelay * 2 ^ 1) restless.maxDelay ∧
      (ReconnectionManager.new patient).calculateDelay 31 ≠
        min (patient.baseDelay * 2 ^ 31) patient.maxDelay ∧
      (ReconnectionManager.new glacial).calculateDelay 30 = 0 := by
  refine ⟨⟨by decide, by decide, by decide +kernel, by decide⟩, ?_, ?_, ?_⟩
  · decide +kernel
  · decide +kernel
  · decide +kernel

end Pacing

end PeatBtle
