import Mathlib.Logic.Function.Iterate
import PeatBtle.Basic

/-!
# PHY selection

The adaptive strategy takes the fast PHY above one threshold and the long-range one
below another. The thresholds are shifted by the hysteresis in favour of the current
PHY, in signed eight-bit arithmetic on an unsigned setting.
-/

namespace PeatBtle

inductive BlePhy where
  | le1M
  | le2M
  | leCodedS2
  | leCodedS8
deriving DecidableEq

def BlePhy.isCoded : BlePhy → Bool
  | .leCodedS2 | .leCodedS8 => true
  | _ => false

structure PhyCapabilities where
  le2M : Bool
  leCoded : Bool
deriving DecidableEq

namespace PhyCapabilities

def le1MOnly : PhyCapabilities := ⟨false, false⟩
def ble5Full : PhyCapabilities := ⟨true, true⟩

def supports (caps : PhyCapabilities) : BlePhy → Bool
  | .le1M => true
  | .le2M => caps.le2M
  | .leCodedS2 | .leCodedS8 => caps.leCoded

theorem supports_of_isCoded (caps : PhyCapabilities) {phy : BlePhy} (h : phy.isCoded = true) :
    caps.supports phy = caps.leCoded := by
  cases phy with
  | leCodedS2 => rfl
  | leCodedS8 => rfl
  | le1M => cases h
  | le2M => cases h

end PhyCapabilities

structure PhyPreference where
  tx : BlePhy
  rx : BlePhy
deriving DecidableEq

def PhyPreference.symmetric (phy : BlePhy) : PhyPreference := ⟨phy, phy⟩

inductive PhyStrategy where
  | fixed (phy : BlePhy)
  | adaptive (rssiThresholdHigh rssiThresholdLow : Int8) (hysteresisDb : UInt8) (codedPhy : BlePhy)
  | maxRange
  | maxThroughput
  | powerOptimized (rssiThreshold : Int8)
deriving DecidableEq

namespace PhyStrategy

/-- The two thresholds while on the current PHY. The arithmetic wraps. -/
def thresholds (high low : Int8) (hysteresisDb : UInt8) (currentPhy : BlePhy) : Int8 × Int8 :=
  if currentPhy = .le2M then (high - hysteresisDb.toInt8, low)
  else if currentPhy.isCoded then (high, low + hysteresisDb.toInt8)
  else (high, low)

/-- Before the choice is checked against the capabilities. -/
def choosePhy (currentPhy : BlePhy) (rssi : Int8) (caps : PhyCapabilities) : PhyStrategy → BlePhy
  | .fixed phy => phy
  | .adaptive high low hysteresisDb codedPhy =>
      let (highThresh, lowThresh) := thresholds high low hysteresisDb currentPhy
      if rssi > highThresh then .le2M
      else if rssi < lowThresh then codedPhy
      else .le1M
  | .maxRange => if caps.leCoded then .leCodedS8 else .le1M
  | .maxThroughput => if caps.le2M then .le2M else .le1M
  | .powerOptimized rssiThreshold =>
      if rssi > rssiThreshold && caps.le2M then .le2M else .le1M

def selectPhy (strategy : PhyStrategy) (currentPhy : BlePhy) (rssi : Int8)
    (caps : PhyCapabilities) : BlePhy :=
  let selected := strategy.choosePhy currentPhy rssi caps
  if caps.supports selected then selected else .le1M

/-- No strategy selects what the capabilities do not support. -/
theorem supports_selectPhy (strategy : PhyStrategy) (currentPhy : BlePhy) (rssi : Int8)
    (caps : PhyCapabilities) : caps.supports (strategy.selectPhy currentPhy rssi caps) = true := by
  unfold selectPhy
  dsimp only
  split
  · assumption
  · rfl

end PhyStrategy

inductive PhySwitchDecision where
  | keep
  | switch (phy : BlePhy)
deriving DecidableEq

def evaluatePhySwitch (strategy : PhyStrategy) (currentPhy : BlePhy) (rssi : Int8)
    (caps : PhyCapabilities) : PhySwitchDecision :=
  let recommended := strategy.selectPhy currentPhy rssi caps
  if recommended ≠ currentPhy then .switch recommended else .keep

/-- A switch goes to a PHY that is supported and not the current one. -/
theorem of_evaluatePhySwitch {strategy : PhyStrategy} {currentPhy phy : BlePhy} {rssi : Int8}
    {caps : PhyCapabilities} (h : evaluatePhySwitch strategy currentPhy rssi caps = .switch phy) :
    caps.supports phy = true ∧ phy ≠ currentPhy := by
  unfold evaluatePhySwitch at h
  dsimp only at h
  split at h
  · rename_i hne
    obtain rfl := PhySwitchDecision.switch.inj h
    exact ⟨strategy.supports_selectPhy currentPhy rssi caps, hne⟩
  · cases h

/-! ## The adaptive strategy -/

namespace Adaptive

/-- A number that an `i8` can hold. -/
def Fits8 (x : Int) : Prop := -128 ≤ x ∧ x ≤ 127

variable (high low : Int8) (hysteresisDb : UInt8)

/-- The threshold that keeps the fast PHY, before it wraps. -/
def keep2M : Int := high.toInt - hysteresisDb.toInt8.toInt

/-- The threshold that keeps the coded PHY, before it wraps. -/
def keepCoded : Int := low.toInt + hysteresisDb.toInt8.toInt

/-- The threshold for the current PHY does not wrap. -/
def NoOverflow (phy : BlePhy) : Prop :=
  (phy = .le2M → Fits8 (keep2M high hysteresisDb)) ∧
    (phy.isCoded = true → Fits8 (keepCoded low hysteresisDb))

/-- The thresholds as numbers. -/
def upper (phy : BlePhy) : Int := if phy = .le2M then keep2M high hysteresisDb else high.toInt

def lower (phy : BlePhy) : Int := if phy.isCoded then keepCoded low hysteresisDb else low.toInt

variable {high low hysteresisDb} {phy : BlePhy}

theorem bmod_of_fits8 {x : Int} (h : Fits8 x) : x.bmod (2 ^ 8) = x :=
  Int.bmod_eq_of_le h.1 (Int.lt_of_le_of_lt h.2 (by decide))

theorem thresholds_toInt (h : NoOverflow high low hysteresisDb phy) :
    (PhyStrategy.thresholds high low hysteresisDb phy).1.toInt = upper high hysteresisDb phy ∧
      (PhyStrategy.thresholds high low hysteresisDb phy).2.toInt = lower low hysteresisDb phy := by
  obtain ⟨h2M, hcoded⟩ := h
  have hlow (hphy : phy.isCoded = true) :
      (low + hysteresisDb.toInt8).toInt = keepCoded low hysteresisDb := by
    rw [Int8.toInt_add]
    exact bmod_of_fits8 (hcoded hphy)
  cases phy with
  | le1M => exact ⟨rfl, rfl⟩
  | le2M =>
      refine ⟨?_, rfl⟩
      show (high - hysteresisDb.toInt8).toInt = keep2M high hysteresisDb
      rw [Int8.toInt_sub]
      exact bmod_of_fits8 (h2M rfl)
  | leCodedS2 => exact ⟨rfl, hlow rfl⟩
  | leCodedS8 => exact ⟨rfl, hlow rfl⟩

variable {codedPhy : BlePhy} {rssi : Int8} {caps : PhyCapabilities}

/-- The choice in terms of the thresholds as numbers. -/
theorem selectPhy_eq (hcoded : codedPhy.isCoded = true)
    (h : NoOverflow high low hysteresisDb phy) :
    (PhyStrategy.adaptive high low hysteresisDb codedPhy).selectPhy phy rssi caps =
      if upper high hysteresisDb phy < rssi.toInt then if caps.le2M then .le2M else .le1M
      else if rssi.toInt < lower low hysteresisDb phy then
        if caps.leCoded then codedPhy else .le1M
      else .le1M := by
  obtain ⟨hupper, hlower⟩ := thresholds_toInt h
  rw [PhyStrategy.selectPhy, PhyStrategy.choosePhy]
  simp only [gt_iff_lt, Int8.lt_iff_toInt_lt, hupper, hlower]
  split
  · rfl
  · split
    · rw [caps.supports_of_isCoded hcoded]
    · rfl

/-- What is selected: the fast PHY, the coded one, or neither. -/
theorem selectPhy_cases (hcoded : codedPhy.isCoded = true)
    (h : NoOverflow high low hysteresisDb phy) (rssi : Int8) (caps : PhyCapabilities) :
    let selected := (PhyStrategy.adaptive high low hysteresisDb codedPhy).selectPhy phy rssi caps
    let fast := caps.le2M = true ∧ upper high hysteresisDb phy < rssi.toInt
    let far := caps.leCoded = true ∧ rssi.toInt ≤ upper high hysteresisDb phy ∧
      rssi.toInt < lower low hysteresisDb phy
    (fast ∧ selected = .le2M) ∨ (¬ fast ∧ far ∧ selected = codedPhy) ∨
      (¬ fast ∧ ¬ far ∧ selected = .le1M) := by
  intro selected fast far
  have hselected : selected = _ := selectPhy_eq hcoded h
  by_cases hup : upper high hysteresisDb phy < rssi.toInt
  · rw [if_pos hup] at hselected
    cases hm : caps.le2M <;> simp_all [fast, far, not_le]
  · rw [if_neg hup] at hselected
    by_cases hdown : rssi.toInt < lower low hysteresisDb phy
    · rw [if_pos hdown] at hselected
      cases hm : caps.leCoded <;> simp_all [fast, far]
    · rw [if_neg hdown] at hselected
      simp_all [fast, far]

/-- The selected PHY, once it is the current one, is selected again, and no sum wraps. -/
structure Settles (high low : Int8) (hysteresisDb : UInt8) (codedPhy : BlePhy)
    (caps : PhyCapabilities) (phy : BlePhy) (rssi : Int8) : Prop where
  noOverflow : NoOverflow high low hysteresisDb phy
  supported : caps.supports ((PhyStrategy.adaptive high low hysteresisDb codedPhy).selectPhy phy
    rssi caps) = true
  noOverflow_selected : NoOverflow high low hysteresisDb
    ((PhyStrategy.adaptive high low hysteresisDb codedPhy).selectPhy phy rssi caps)
  selected_again : (PhyStrategy.adaptive high low hysteresisDb codedPhy).selectPhy
      ((PhyStrategy.adaptive high low hysteresisDb codedPhy).selectPhy phy rssi caps) rssi caps =
    (PhyStrategy.adaptive high low hysteresisDb codedPhy).selectPhy phy rssi caps

/-- A PHY that is selected again. -/
def Stays (high low : Int8) (hysteresisDb : UInt8) (codedPhy : BlePhy) (caps : PhyCapabilities)
    (rssi : Int8) (phy : BlePhy) : Prop :=
  NoOverflow high low hysteresisDb phy ∧
    (PhyStrategy.adaptive high low hysteresisDb codedPhy).selectPhy phy rssi caps = phy

theorem settles_iff_stays : Settles high low hysteresisDb codedPhy caps phy rssi ↔
    NoOverflow high low hysteresisDb phy ∧ Stays high low hysteresisDb codedPhy caps rssi
      ((PhyStrategy.adaptive high low hysteresisDb codedPhy).selectPhy phy rssi caps) :=
  ⟨fun h => ⟨h.noOverflow, h.noOverflow_selected, h.selected_again⟩,
    fun h => ⟨h.1, PhyStrategy.supports_selectPhy .., h.2.1, h.2.2⟩⟩

theorem ne_of_isCoded (hcoded : codedPhy.isCoded = true) : codedPhy ≠ .le2M ∧ codedPhy ≠ .le1M := by
  constructor <;> rintro rfl <;> cases hcoded

theorem noOverflow_1M : NoOverflow high low hysteresisDb .le1M :=
  ⟨(fun h => by cases h), (fun h => by cases h)⟩

theorem noOverflow_2M_iff :
    NoOverflow high low hysteresisDb .le2M ↔ Fits8 (keep2M high hysteresisDb) :=
  ⟨fun h => h.1 rfl, fun h => ⟨fun _ => h, fun hcoded => by cases hcoded⟩⟩

theorem noOverflow_coded_iff (hcoded : codedPhy.isCoded = true) :
    NoOverflow high low hysteresisDb codedPhy ↔ Fits8 (keepCoded low hysteresisDb) :=
  ⟨fun h => h.2 hcoded, fun h => ⟨fun h2M => absurd h2M (ne_of_isCoded hcoded).1, fun _ => h⟩⟩

theorem stays_1M_iff (hcoded : codedPhy.isCoded = true) :
    Stays high low hysteresisDb codedPhy caps rssi .le1M ↔
      ¬ (caps.le2M = true ∧ high.toInt < rssi.toInt) ∧
        ¬ (caps.leCoded = true ∧ rssi.toInt ≤ high.toInt ∧ rssi.toInt < low.toInt) := by
  rw [Stays, and_iff_right noOverflow_1M]
  rcases selectPhy_cases hcoded (@noOverflow_1M high low hysteresisDb) rssi caps with
    ⟨hfast, heq⟩ | ⟨hslow, hfar, heq⟩ | ⟨hslow, hnear, heq⟩
  · rw [heq]
    exact iff_of_false (by decide) fun h => h.1 hfast
  · rw [heq]
    exact iff_of_false (ne_of_isCoded hcoded).2 fun h => h.2 hfar
  · exact iff_of_true heq ⟨hslow, hnear⟩

theorem stays_2M_iff (hcoded : codedPhy.isCoded = true) :
    Stays high low hysteresisDb codedPhy caps rssi .le2M ↔
      Fits8 (keep2M high hysteresisDb) ∧ caps.le2M = true ∧
        keep2M high hysteresisDb < rssi.toInt := by
  rw [Stays, noOverflow_2M_iff]
  refine and_congr_right fun hfits => ?_
  rcases selectPhy_cases hcoded (noOverflow_2M_iff.mpr hfits) rssi caps with
    ⟨hfast, heq⟩ | ⟨hslow, -, heq⟩ | ⟨hslow, -, heq⟩
  · exact iff_of_true heq hfast
  · rw [heq]
    exact iff_of_false (ne_of_isCoded hcoded).1 hslow
  · rw [heq]
    exact iff_of_false (by decide) hslow

theorem stays_coded_iff (hcoded : codedPhy.isCoded = true) :
    Stays high low hysteresisDb codedPhy caps rssi codedPhy ↔
      Fits8 (keepCoded low hysteresisDb) ∧ caps.leCoded = true ∧ rssi.toInt ≤ high.toInt ∧
        rssi.toInt < keepCoded low hysteresisDb := by
  have hupper : upper high hysteresisDb codedPhy = high.toInt := if_neg (ne_of_isCoded hcoded).1
  have hlower : lower low hysteresisDb codedPhy = keepCoded low hysteresisDb := if_pos hcoded
  rw [Stays, noOverflow_coded_iff hcoded]
  refine and_congr_right fun hfits => ?_
  have hcases := @selectPhy_cases high low hysteresisDb codedPhy codedPhy hcoded
    ((noOverflow_coded_iff hcoded).mpr hfits) rssi caps
  rw [hupper, hlower] at hcases
  rcases hcases with ⟨hfast, heq⟩ | ⟨hslow, hfar, heq⟩ | ⟨hslow, hnear, heq⟩
  · rw [heq]
    exact iff_of_false (Ne.symm (ne_of_isCoded hcoded).1) fun h => absurd hfast.2 (not_lt.mpr h.2.1)
  · exact iff_of_true heq hfar
  · rw [heq]
    exact iff_of_false (Ne.symm (ne_of_isCoded hcoded).2) hnear

/-- Which thresholds apply, and that the shifted one does not wrap. -/
theorem thresholds_cases (h : NoOverflow high low hysteresisDb phy) :
    upper high hysteresisDb phy = high.toInt ∧ lower low hysteresisDb phy = low.toInt ∨
    upper high hysteresisDb phy = keep2M high hysteresisDb ∧ Fits8 (keep2M high hysteresisDb) ∧
      lower low hysteresisDb phy = low.toInt ∨
    upper high hysteresisDb phy = high.toInt ∧
      lower low hysteresisDb phy = keepCoded low hysteresisDb ∧
      Fits8 (keepCoded low hysteresisDb) := by
  cases phy with
  | le1M => exact Or.inl ⟨rfl, rfl⟩
  | le2M => exact Or.inr (Or.inl ⟨rfl, h.1 rfl, rfl⟩)
  | leCodedS2 => exact Or.inr (Or.inr ⟨rfl, rfl, h.2 rfl⟩)
  | leCodedS8 => exact Or.inr (Or.inr ⟨rfl, rfl, h.2 rfl⟩)

/-- The choice settles unless a threshold for the current PHY wraps, or a signal that calls for a
switch does not reach the threshold that keeps the new PHY. -/
theorem settles_iff (high low : Int8) (hysteresisDb : UInt8) (codedPhy : BlePhy)
    (caps : PhyCapabilities) (phy : BlePhy) (rssi : Int8) (hcoded : codedPhy.isCoded = true)
    (horder : low ≤ high) :
    Settles high low hysteresisDb codedPhy caps phy rssi ↔
      NoOverflow high low hysteresisDb phy ∧
      (high.toInt < rssi.toInt → caps.le2M = true →
        Fits8 (keep2M high hysteresisDb) ∧ keep2M high hysteresisDb < rssi.toInt) ∧
      (rssi.toInt < low.toInt → caps.leCoded = true →
        if upper high hysteresisDb phy < rssi.toInt then caps.le2M = true
        else Fits8 (keepCoded low hysteresisDb) ∧ rssi.toInt < keepCoded low hysteresisDb) := by
  have hle := Int8.le_iff_toInt_le.mp horder
  rw [settles_iff_stays]
  refine and_congr_right fun hno => ?_
  have hthresholds := thresholds_cases hno
  have hmax : rssi.toInt ≤ 127 := Int.le_of_lt_add_one rssi.toInt_lt
  rcases selectPhy_cases hcoded hno rssi caps with
    ⟨hfast, heq⟩ | ⟨hslow, hfar, heq⟩ | ⟨hslow, hnear, heq⟩
  · rw [heq, stays_2M_iff hcoded]
    grind
  · rw [heq, stays_coded_iff hcoded]
    grind
  · rw [heq, stays_1M_iff hcoded]
    grind

/-- No switch after the first. -/
theorem Settles.keep (h : Settles high low hysteresisDb codedPhy caps phy rssi) (n : Nat) :
    let strategy := PhyStrategy.adaptive high low hysteresisDb codedPhy
    evaluatePhySwitch strategy ((fun phy => strategy.selectPhy phy rssi caps)^[n + 1] phy) rssi caps =
      .keep := by
  intro strategy
  have hiterate : (fun phy => strategy.selectPhy phy rssi caps)^[n + 1] phy =
      strategy.selectPhy phy rssi caps := by
    rw [Function.iterate_succ_apply]
    exact Function.iterate_fixed h.selected_again n
  rw [hiterate, evaluatePhySwitch]
  exact if_neg (not_not_intro h.selected_again)

/-- When the choice settles, and that it then never switches again. -/
theorem adaptive_settles_iff (high low : Int8) (hysteresisDb : UInt8) (codedPhy : BlePhy)
    (caps : PhyCapabilities) (phy : BlePhy) (rssi : Int8) (hcoded : codedPhy.isCoded = true)
    (horder : low ≤ high) :
    (Settles high low hysteresisDb codedPhy caps phy rssi ↔
      NoOverflow high low hysteresisDb phy ∧
      (high.toInt < rssi.toInt → caps.le2M = true →
        Fits8 (keep2M high hysteresisDb) ∧ keep2M high hysteresisDb < rssi.toInt) ∧
      (rssi.toInt < low.toInt → caps.leCoded = true →
        if upper high hysteresisDb phy < rssi.toInt then caps.le2M = true
        else Fits8 (keepCoded low hysteresisDb) ∧ rssi.toInt < keepCoded low hysteresisDb)) ∧
    (Settles high low hysteresisDb codedPhy caps phy rssi → ∀ n,
      let strategy := PhyStrategy.adaptive high low hysteresisDb codedPhy
      evaluatePhySwitch strategy ((fun phy => strategy.selectPhy phy rssi caps)^[n + 1] phy) rssi
        caps = .keep) :=
  ⟨settles_iff high low hysteresisDb codedPhy caps phy rssi hcoded horder, fun h n => h.keep n⟩

/-- The default strategy on a strong signal. -/
theorem adaptive_settles_default :
    Settles (-50) (-75) 5 .leCodedS2 PhyCapabilities.ble5Full .le1M (-40) := by
  refine (adaptive_settles_iff (-50) (-75) 5 .leCodedS2 PhyCapabilities.ble5Full .le1M (-40) rfl
    (by decide)).1.mpr ⟨noOverflow_1M, fun _ _ => ?_, fun hlow => absurd hlow (by decide)⟩
  unfold Fits8
  decide

/-- A hysteresis of 200 dB is read as -56: the fast PHY is left at once and taken again. -/
theorem adaptive_oscillates :
    let strategy := PhyStrategy.adaptive (-50) (-75) 200 .leCodedS2
    strategy.selectPhy .le1M (-40) PhyCapabilities.ble5Full = .le2M ∧
      strategy.selectPhy .le2M (-40) PhyCapabilities.ble5Full = .le1M ∧
        ¬ Settles (-50) (-75) 200 .leCodedS2 PhyCapabilities.ble5Full .le1M (-40) := by
  refine ⟨by decide, by decide, fun h => ?_⟩
  exact absurd h.selected_again (by decide)

end Adaptive

end PeatBtle
