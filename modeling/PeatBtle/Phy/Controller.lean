import PeatBtle.Data.LoggedRun
import PeatBtle.Phy.Strategy

/-!
# The PHY controller

A controller negotiates, averages the signal, recommends a switch and is told how an
update ended. It takes a result for one of its own requests in any state, so that a late
one, or one that the peer asked for, makes it active and counts.
-/

namespace PeatBtle

inductive PhyControllerState where
  | idle
  | negotiating
  | active
  | switching
  | error
deriving DecidableEq

inductive PhyUpdateResult where
  | success (txPhy rxPhy : BlePhy)
  | rejected
  | notSupported
  | timeout
  | failed
deriving DecidableEq

inductive PhyControllerEvent where
  | negotiationComplete (localCaps peerCaps : PhyCapabilities)
  | switchRecommended (fromPhy toPhy : BlePhy) (rssi : Int8)
  | updateComplete (result : PhyUpdateResult)
deriving DecidableEq

structure PhyStats where
  switches : Nat
  successfulSwitches : Nat
  failedSwitches : Nat
  rssiSamples : Nat
deriving DecidableEq

def PhyStats.default : PhyStats := ⟨0, 0, 0, 0⟩

structure PhyControllerConfig where
  strategy : PhyStrategy
  minSamplesForSwitch : Nat
  rssiWindowSize : Nat
  switchCooldownMs : UInt64
  autoSwitch : Bool
deriving DecidableEq

def PhyControllerConfig.default : PhyControllerConfig where
  strategy := .adaptive (-50) (-75) 5 .leCodedS2
  minSamplesForSwitch := 5
  rssiWindowSize := 10
  switchCooldownMs := 5000
  autoSwitch := true

structure PhyController where
  config : PhyControllerConfig
  state : PhyControllerState
  txPhy : BlePhy
  rxPhy : BlePhy
  localCaps : PhyCapabilities
  peerCaps : PhyCapabilities
  rssiSamples : List Int8
  lastSwitchTime : UInt64
  stats : PhyStats
deriving DecidableEq

namespace PhyController

def new (config : PhyControllerConfig) (localCaps : PhyCapabilities) : PhyController where
  config := config
  state := .idle
  txPhy := .le1M
  rxPhy := .le1M
  localCaps := localCaps
  peerCaps := PhyCapabilities.le1MOnly
  rssiSamples := []
  lastSwitchTime := 0
  stats := PhyStats.default

variable (c : PhyController)

def effectiveCapabilities : PhyCapabilities where
  le2M := c.localCaps.le2M && c.peerCaps.le2M
  leCoded := c.localCaps.leCoded && c.peerCaps.leCoded

def startNegotiation : PhyController := { c with state := .negotiating, rssiSamples := [] }

def completeNegotiation (peerCaps : PhyCapabilities) : PhyController × PhyControllerEvent :=
  ({ c with peerCaps := peerCaps, state := .active },
    .negotiationComplete c.localCaps peerCaps)

/-- The division rounds towards zero. -/
def averageRssi : Int8 :=
  if c.rssiSamples.isEmpty then -100
  else
    let sum := (c.rssiSamples.map Int8.toInt32).foldl (· + ·) 0
    (sum / Int32.ofNat c.rssiSamples.length).toInt8

def evaluateSwitch (rssi : Int8) : PhySwitchDecision :=
  evaluatePhySwitch c.config.strategy c.txPhy rssi c.effectiveCapabilities

/-- The oldest sample goes when there are too many. -/
def keepSample (rssi : Int8) : PhyController :=
  let samples := c.rssiSamples ++ [rssi]
  { c with
    rssiSamples := if samples.length > c.config.rssiWindowSize then samples.drop 1 else samples
    stats := { c.stats with rssiSamples := c.stats.rssiSamples + 1 } }

/-- Automatic, active and with enough samples. -/
def readyToSwitch : Bool :=
  c.config.autoSwitch && decide (c.state = .active) &&
    decide (c.rssiSamples.length ≥ c.config.minSamplesForSwitch)

/-- The end of the cooldown wraps. -/
def recordRssi (rssi : Int8) (currentTime : UInt64) : PhyController × Option PhyControllerEvent :=
  let kept := c.keepSample rssi
  if kept.readyToSwitch &&
      decide (currentTime ≥ kept.lastSwitchTime + kept.config.switchCooldownMs) then
    match kept.evaluateSwitch kept.averageRssi with
    | .switch toPhy => (kept, some (.switchRecommended kept.txPhy toPhy kept.averageRssi))
    | .keep => (kept, none)
  else (kept, none)

def requestSwitch (toPhy : BlePhy) : PhyController × Option PhyPreference :=
  if c.state ≠ .active then (c, none)
  else if !c.effectiveCapabilities.supports toPhy then (c, none)
  else
    ({ c with
        state := .switching
        stats := { c.stats with switches := c.stats.switches + 1 } },
      some (PhyPreference.symmetric toPhy))

/-- The state in which the result comes is not looked at. -/
def handleUpdateResult (result : PhyUpdateResult) (currentTime : UInt64) :
    PhyController × PhyControllerEvent :=
  (match result with
    | .success txPhy rxPhy =>
        { c with
          txPhy := txPhy
          rxPhy := rxPhy
          lastSwitchTime := currentTime
          state := .active
          stats := { c.stats with successfulSwitches := c.stats.successfulSwitches + 1 } }
    | .rejected | .notSupported | .timeout | .failed =>
        { c with
          state := .active
          stats := { c.stats with failedSwitches := c.stats.failedSwitches + 1 } },
    .updateComplete result)

def reset : PhyController :=
  { c with
    state := .idle
    txPhy := .le1M
    rxPhy := .le1M
    peerCaps := PhyCapabilities.le1MOnly
    rssiSamples := []
    lastSwitchTime := 0 }

def setStrategy (strategy : PhyStrategy) : PhyController :=
  { c with config := { c.config with strategy := strategy } }

def setAutoSwitch (enabled : Bool) : PhyController :=
  { c with config := { c.config with autoSwitch := enabled } }

/-! ## What a sample recommends -/

variable {c} {rssi : Int8} {currentTime : UInt64}

/-- Ready, and on another PHY than the strategy wants. -/
def wantsSwitch (c : PhyController) : Bool :=
  c.readyToSwitch && decide (c.evaluateSwitch c.averageRssi ≠ .keep)

theorem recordRssi_fst (c : PhyController) (rssi : Int8) (currentTime : UInt64) :
    (c.recordRssi rssi currentTime).1 = c.keepSample rssi := by
  unfold recordRssi
  dsimp only
  split
  · split <;> rfl
  · rfl

theorem recordRssi_eq_some_iff {fromPhy toPhy : BlePhy} {average : Int8} :
    (c.recordRssi rssi currentTime).2 = some (.switchRecommended fromPhy toPhy average) ↔
      (c.keepSample rssi).readyToSwitch = true ∧
        c.lastSwitchTime + c.config.switchCooldownMs ≤ currentTime ∧
        (c.keepSample rssi).evaluateSwitch (c.keepSample rssi).averageRssi = .switch toPhy ∧
        c.txPhy = fromPhy ∧ (c.keepSample rssi).averageRssi = average := by
  let kept := c.keepSample rssi
  unfold recordRssi
  dsimp only
  by_cases hready : (kept.readyToSwitch &&
      decide (currentTime ≥ kept.lastSwitchTime + kept.config.switchCooldownMs)) = true
  · rw [if_pos hready]
    obtain ⟨hsamples, htime⟩ := Bool.and_eq_true_iff.mp hready
    have hcooled : c.lastSwitchTime + c.config.switchCooldownMs ≤ currentTime :=
      of_decide_eq_true htime
    rw [and_iff_right hsamples, and_iff_right hcooled]
    cases (c.keepSample rssi).evaluateSwitch (c.keepSample rssi).averageRssi with
    | keep => exact iff_of_false (Option.some_ne_none _).symm fun h => by cases h.1
    | switch phy =>
        rw [Option.some.injEq, PhyControllerEvent.switchRecommended.injEq,
          PhySwitchDecision.switch.injEq]
        exact ⟨fun ⟨h, h', h''⟩ => ⟨h', h, h''⟩, fun ⟨h, h', h''⟩ => ⟨h', h, h''⟩⟩
  · rw [if_neg hready]
    refine iff_of_false (Option.some_ne_none _).symm fun h => hready ?_
    exact Bool.and_eq_true_iff.mpr ⟨h.1, decide_eq_true h.2.1⟩

theorem supports_effectiveCapabilities {phy : BlePhy}
    (h : c.effectiveCapabilities.supports phy = true) :
    c.localCaps.supports phy = true ∧ c.peerCaps.supports phy = true := by
  cases phy with
  | le1M => exact ⟨rfl, rfl⟩
  | le2M => exact Bool.and_eq_true_iff.mp h
  | leCodedS2 => exact Bool.and_eq_true_iff.mp h
  | leCodedS8 => exact Bool.and_eq_true_iff.mp h

/-- A request is refused without a change, or granted in the active state. -/
theorem requestSwitch_cases (c : PhyController) (toPhy : BlePhy) :
    (c.requestSwitch toPhy).1 = c ∨
      c.state = .active ∧ (c.requestSwitch toPhy).1 =
        { c with
          state := .switching
          stats := { c.stats with switches := c.stats.switches + 1 } } := by
  unfold requestSwitch
  split
  · exact Or.inl rfl
  · rename_i hactive
    split
    · exact Or.inl rfl
    · exact Or.inr ⟨not_not.mp hactive, rfl⟩

/-- Every result makes the controller active and is counted. -/
theorem handleUpdateResult_spec (c : PhyController) (result : PhyUpdateResult)
    (currentTime : UInt64) :
    (c.handleUpdateResult result currentTime).1.state = .active ∧
      (c.handleUpdateResult result currentTime).1.stats.successfulSwitches +
          (c.handleUpdateResult result currentTime).1.stats.failedSwitches =
        c.stats.successfulSwitches + c.stats.failedSwitches + 1 ∧
      (c.handleUpdateResult result currentTime).1.stats.switches = c.stats.switches := by
  cases result with
  | success txPhy rxPhy => exact ⟨rfl, Nat.succ_add _ _, rfl⟩
  | _ => exact ⟨rfl, rfl, rfl⟩

theorem length_keepSample_le (h : c.rssiSamples.length ≤ c.config.rssiWindowSize) (rssi : Int8) :
    (c.keepSample rssi).rssiSamples.length ≤ c.config.rssiWindowSize := by
  show (if (c.rssiSamples ++ [rssi]).length > _ then _ else _ : List Int8).length ≤ _
  split
  · rw [List.length_drop, List.length_append, List.length_singleton]
    omega
  · omega

end PhyController

/-! ## Runs -/

/-- A controller and what has happened on its connection. -/
structure PhyLink where
  controller : PhyController
  /-- Since the last reset or start of a negotiation. -/
  negotiated : Bool
  /-- The time of the last successful update since the last reset. -/
  lastSuccess : Option UInt64

namespace PhyLink

def new (config : PhyControllerConfig) (localCaps : PhyCapabilities) : PhyLink :=
  ⟨PhyController.new config localCaps, false, none⟩

inductive Call where
  | startNegotiation
  | completeNegotiation (peerCaps : PhyCapabilities)
  | recordRssi (rssi : Int8) (currentTime : UInt64)
  | requestSwitch (toPhy : BlePhy)
  | handleUpdateResult (result : PhyUpdateResult) (currentTime : UInt64)
  | reset
  | setStrategy (strategy : PhyStrategy)
  | setAutoSwitch (enabled : Bool)

def call (s : PhyLink) : Call → PhyLink
  | .startNegotiation =>
      { s with controller := s.controller.startNegotiation, negotiated := false }
  | .completeNegotiation peerCaps =>
      { s with controller := (s.controller.completeNegotiation peerCaps).1, negotiated := true }
  | .recordRssi rssi currentTime =>
      { s with controller := (s.controller.recordRssi rssi currentTime).1 }
  | .requestSwitch toPhy => { s with controller := (s.controller.requestSwitch toPhy).1 }
  | .handleUpdateResult result currentTime =>
      { s with
        controller := (s.controller.handleUpdateResult result currentTime).1
        lastSuccess := match result with
          | .success _ _ => some currentTime
          | _ => s.lastSuccess }
  | .reset => ⟨s.controller.reset, false, none⟩
  | .setStrategy strategy => { s with controller := s.controller.setStrategy strategy }
  | .setAutoSwitch enabled => { s with controller := s.controller.setAutoSwitch enabled }

/-- Active or switching only after a negotiation, and no more results than requests. -/
structure Follows (s : PhyLink) : Prop where
  negotiated : s.controller.state = .active ∨ s.controller.state = .switching → s.negotiated = true
  results_le : s.controller.stats.successfulSwitches + s.controller.stats.failedSwitches ≤
    s.controller.stats.switches

/-- What a sample recommends is supported by both sides, is another PHY, and does not come within
the cooldown. -/
def WellAdvised (s : PhyLink) : Call → Prop
  | .recordRssi rssi currentTime => ∀ fromPhy toPhy average,
      (s.controller.recordRssi rssi currentTime).2 =
        some (.switchRecommended fromPhy toPhy average) →
      s.controller.localCaps.supports toPhy = true ∧ s.controller.peerCaps.supports toPhy = true ∧
        toPhy ≠ s.controller.txPhy ∧ ∀ last, s.lastSuccess = some last →
          last.toNat + s.controller.config.switchCooldownMs.toNat ≤ currentTime.toNat
  | _ => True

/-- A result answers a request on a negotiated connection, and the end of the cooldown does not
wrap where that lets a switch through. -/
def InTurn (s : PhyLink) : Call → Prop
  | .handleUpdateResult _ _ => s.negotiated = true ∧
      s.controller.stats.successfulSwitches + s.controller.stats.failedSwitches <
        s.controller.stats.switches
  | .recordRssi rssi currentTime => ∀ last, s.lastSuccess = some last →
      last.toNat + s.controller.config.switchCooldownMs.toNat < 2 ^ 64 ∨
        currentTime < last + s.controller.config.switchCooldownMs ∨
          (s.controller.keepSample rssi).wantsSwitch = false
  | _ => True

/-- The samples fit the window, and the time of the last switch is that of the last success. -/
structure Kept (s : PhyLink) : Prop where
  samples_le : s.controller.rssiSamples.length ≤ s.controller.config.rssiWindowSize
  last_eq : s.controller.lastSwitchTime = s.lastSuccess.getD 0

variable {s : PhyLink}

theorem kept_new (config : PhyControllerConfig) (localCaps : PhyCapabilities) :
    (new config localCaps).Kept := ⟨Nat.zero_le _, rfl⟩

theorem Kept.lastSwitchTime_eq (h : s.Kept) {last : UInt64} (hlast : s.lastSuccess = some last) :
    s.controller.lastSwitchTime = last := by
  rw [h.last_eq, hlast]
  rfl

/-- Before a negotiation is complete there is nothing to follow. -/
theorem follows_of_inactive (hactive : s.controller.state ≠ .active)
    (hswitching : s.controller.state ≠ .switching)
    (hresults : s.controller.stats.successfulSwitches + s.controller.stats.failedSwitches ≤
      s.controller.stats.switches) : s.Follows :=
  ⟨fun h => absurd h (not_or.mpr ⟨hactive, hswitching⟩), hresults⟩

theorem follows_new (config : PhyControllerConfig) (localCaps : PhyCapabilities) :
    (new config localCaps).Follows := follows_of_inactive nofun nofun (Nat.le_refl _)

theorem Kept.call (h : s.Kept) (c : Call) : (s.call c).Kept := by
  cases c with
  | startNegotiation => exact ⟨Nat.zero_le _, h.last_eq⟩
  | recordRssi rssi currentTime =>
      have hfst := s.controller.recordRssi_fst rssi currentTime
      constructor
      · show ((s.controller.recordRssi rssi currentTime).1).rssiSamples.length ≤ _
        rw [PhyLink.call, hfst]
        exact PhyController.length_keepSample_le h.samples_le rssi
      · show ((s.controller.recordRssi rssi currentTime).1).lastSwitchTime = _
        rw [hfst]
        exact h.last_eq
  | requestSwitch toPhy =>
      rcases s.controller.requestSwitch_cases toPhy with hsame | ⟨-, hgranted⟩
      · constructor <;> simp only [PhyLink.call, hsame]
        · exact h.samples_le
        · exact h.last_eq
      · constructor <;> simp only [PhyLink.call, hgranted]
        · exact h.samples_le
        · exact h.last_eq
  | handleUpdateResult result currentTime =>
      cases result with
      | success txPhy rxPhy => exact ⟨h.samples_le, rfl⟩
      | _ => exact ⟨h.samples_le, h.last_eq⟩
  | reset => exact ⟨Nat.zero_le _, rfl⟩
  | _ => exact ⟨h.samples_le, h.last_eq⟩

/-- A sample is answered well unless the end of the cooldown wraps to the past. -/
theorem wellAdvised_iff_inTurn (hkept : s.Kept) (rssi : Int8) (currentTime : UInt64) :
    s.WellAdvised (.recordRssi rssi currentTime) ↔ s.InTurn (.recordRssi rssi currentTime) := by
  constructor
  · intro hadvised last hlast
    by_contra hturn
    obtain ⟨hwraps, hpast, hwants⟩ := not_or.mp hturn |>.imp id not_or.mp
    obtain ⟨hready, hdecision⟩ := Bool.and_eq_true_iff.mp (Bool.not_eq_false _ ▸ hwants)
    have hend := hkept.lastSwitchTime_eq hlast
    cases hswitch : (s.controller.keepSample rssi).evaluateSwitch
        (s.controller.keepSample rssi).averageRssi with
    | keep => simp [hswitch] at hdecision
    | switch toPhy =>
        have hrecommended := PhyController.recordRssi_eq_some_iff.mpr
          ⟨hready, hend ▸ UInt64.not_lt.mp hpast, hswitch, rfl, rfl⟩
        have hcooled := (hadvised _ _ _ hrecommended).2.2.2 last hlast
        have hmax := currentTime.toNat_lt
        omega
  · intro hturn fromPhy toPhy average hrecommended
    obtain ⟨hready, htime, hswitch, -, -⟩ := PhyController.recordRssi_eq_some_iff.mp hrecommended
    obtain ⟨hsupported, hother⟩ := of_evaluatePhySwitch hswitch
    obtain ⟨hours, htheirs⟩ := PhyController.supports_effectiveCapabilities hsupported
    refine ⟨hours, htheirs, hother, fun last hlast => ?_⟩
    have hend := hkept.lastSwitchTime_eq hlast
    rw [hend] at htime
    rcases hturn last hlast with hfits | hfuture | hcontent
    · have hle := UInt64.le_iff_toNat_le.mp htime
      rwa [UInt64.toNat_add, Nat.mod_eq_of_lt hfits] at hle
    · exact absurd hfuture (UInt64.not_lt.mpr htime)
    · simp [PhyController.wantsSwitch, hready, hswitch] at hcontent

theorem follows_call_iff (hkept : s.Kept) (h : s.Follows) (c : Call) :
    (s.call c).Follows ∧ s.WellAdvised c ↔ s.InTurn c := by
  cases c with
  | startNegotiation =>
      exact iff_of_true ⟨follows_of_inactive nofun nofun h.results_le, trivial⟩ trivial
  | completeNegotiation peerCaps =>
      exact iff_of_true ⟨⟨fun _ => rfl, h.results_le⟩, trivial⟩ trivial
  | recordRssi rssi currentTime =>
      have hfollows : (s.call (.recordRssi rssi currentTime)).Follows := by
        constructor <;> simp only [call, PhyController.recordRssi_fst]
        · exact h.negotiated
        · exact h.results_le
      rw [and_iff_right hfollows]
      exact wellAdvised_iff_inTurn hkept rssi currentTime
  | requestSwitch toPhy =>
      refine iff_of_true ⟨?_, trivial⟩ trivial
      rcases s.controller.requestSwitch_cases toPhy with hsame | ⟨hactive, hgranted⟩
      · constructor <;> simp only [call, hsame]
        · exact h.negotiated
        · exact h.results_le
      · constructor <;> simp only [call, hgranted]
        · exact fun _ => h.negotiated (Or.inl hactive)
        · exact Nat.le_succ_of_le h.results_le
  | handleUpdateResult result currentTime =>
      have hnext : (s.call (.handleUpdateResult result currentTime)).Follows ↔
          s.InTurn (.handleUpdateResult result currentTime) := by
        obtain ⟨hstate, hsum, hswitches⟩ :=
          s.controller.handleUpdateResult_spec result currentTime
        constructor
        · rintro ⟨hnegotiated, hresults⟩
          exact ⟨hnegotiated (Or.inl hstate), by simp only [call] at hresults; omega⟩
        · rintro ⟨hnegotiated, hresults⟩
          exact ⟨fun _ => hnegotiated, by simp only [call]; omega⟩
      exact (and_iff_left trivial).trans hnext
  | reset => exact iff_of_true ⟨follows_of_inactive nofun nofun h.results_le, trivial⟩ trivial
  | setStrategy strategy => exact iff_of_true ⟨⟨h.negotiated, h.results_le⟩, trivial⟩ trivial
  | setAutoSwitch enabled => exact iff_of_true ⟨⟨h.negotiated, h.results_le⟩, trivial⟩ trivial

/-- The controller follows its connection, and recommends what it may, exactly along the runs whose
results answer requests on a negotiated connection and whose cooldowns do not end in the past; the
samples always fit the window. -/
theorem controller_follows_iff (config : PhyControllerConfig) (localCaps : PhyCapabilities)
    (calls : List Call) :
    ((∀ front, front <+: calls → (LoggedRun.run call (new config localCaps) front).Follows) ∧
        LoggedRun.Along call WellAdvised (new config localCaps) calls ↔
      LoggedRun.Along call InTurn (new config localCaps) calls) ∧
    (LoggedRun.run call (new config localCaps) calls).controller.rssiSamples.length ≤
      (LoggedRun.run call (new config localCaps) calls).controller.config.rssiWindowSize := by
  constructor
  · exact LoggedRun.forall_step_iff_along (kept_new config localCaps)
      (follows_new config localCaps) (fun _ c h => h.call c)
      fun _ c hkept h => follows_call_iff hkept h c
  · have hkept : (LoggedRun.run call (new config localCaps) calls).Kept :=
      LoggedRun.run_keeps (kept_new config localCaps) fun _ c _ h => h.call c
    exact hkept.samples_le

/-- A result that comes after a reset makes the controller active, one that the peer asked for is
counted as a success without a request, and a cooldown that should never end is over at once. -/
theorem late_result_followed :
    let start := new PhyControllerConfig.default PhyCapabilities.ble5Full
    let late := LoggedRun.run call start [.completeNegotiation PhyCapabilities.ble5Full,
      .requestSwitch .le2M, .reset, .handleUpdateResult (.success .le2M .le2M) 100]
    let unasked := LoggedRun.run call start [.completeNegotiation PhyCapabilities.ble5Full,
      .handleUpdateResult (.success .le2M .le2M) 100]
    let patient := { PhyControllerConfig.default with
      minSamplesForSwitch := 1, switchCooldownMs := 0xFFFFFFFFFFFFFFFF }
    let hasty := LoggedRun.run call (new patient PhyCapabilities.ble5Full)
      [.completeNegotiation PhyCapabilities.ble5Full, .requestSwitch .le2M,
        .handleUpdateResult (.success .le1M .le1M) 1]
    (late.controller.state = .active ∧ late.negotiated = false) ∧
      unasked.controller.stats.switches < unasked.controller.stats.successfulSwitches ∧
      (hasty.controller.recordRssi (-40) 2).2 = some (.switchRecommended .le1M .le2M (-40)) := by
  decide

end PhyLink

end PeatBtle
