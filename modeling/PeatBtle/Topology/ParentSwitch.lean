import PeatBtle.Topology.Manager

/-!
# Switching parents

The best candidate is the last of those with the highest score, and it is compared with
the record of the parent by signal strength alone. The candidates may include the parent
itself, and the bound is a sum in 8 bits.
-/

namespace PeatBtle

/-! ## Sums in 8 bits -/

theorem toInt_toInt8 (x : UInt8) :
    x.toInt8.toInt = if x.toNat < 128 then (x.toNat : Int) else (x.toNat : Int) - 256 := by
  have hx := x.toNat_lt
  rw [show x.toInt8.toInt = x.toBitVec.toInt from rfl, BitVec.toInt_eq_toNat_cond]
  show (if 2 * x.toNat < 2 ^ 8 then (x.toNat : Int) else (x.toNat : Int) - 2 ^ 8) = _
  split <;> split <;> omega

theorem checkedAdd_eq_none_iff {a b : Int8} :
    checkedAdd a b = none ↔ ¬ (-128 ≤ a.toInt + b.toInt ∧ a.toInt + b.toInt ≤ 127) := by
  unfold checkedAdd
  split
  case isTrue h => exact iff_of_false (Option.some_ne_none _) (not_not.mpr h)
  case isFalse h => exact iff_of_true rfl h

theorem checkedAdd_eq_some_iff {a b sum : Int8} :
    checkedAdd a b = some sum ↔ sum.toInt = a.toInt + b.toInt := by
  have hlow := sum.le_toInt
  have hhigh := sum.toInt_lt
  unfold checkedAdd
  split
  case isTrue h =>
    have hsum : (a + b).toInt = a.toInt + b.toInt := by
      rw [Int8.toInt_add]
      exact Int.bmod_eq_of_le (by omega) (by omega)
    rw [Option.some.injEq, ← hsum, ← Int8.toInt_inj, eq_comm]
  case isFalse h =>
    refine iff_of_false (Option.some_ne_none sum).symm fun heq => h ?_
    omega

/-! ## The score -/

/-- A score is far from the bounds of 32 bits. -/
theorem ParentCandidate.score_bounds (c : ParentCandidate) (myLevel : HierarchyLevel) :
    -3881 ≤ c.score myLevel ∧ c.score myLevel ≤ 504 := by
  have hlow := c.rssi.le_toInt
  have hhigh := c.rssi.toInt_lt
  have hfailures := c.failureCount.toNat_lt
  unfold score
  dsimp only
  constructor <;> split_ifs <;> omega

namespace MeshManager

/-- What a switch promises: the sum does not overflow, and a candidate that is returned is not
the parent, is within the limits and is stronger by more than the hysteresis. -/
structure SwitchImproves (m : MeshManager) : Prop where
  noOverflow : m.shouldSwitchParent ≠ none
  improves : ∀ c, m.shouldSwitchParent = some (some c) →
    ∃ parent rssi, m.topology.parent = some parent ∧
      m.peers[parent]?.bind PeerInfo.rssi = some rssi ∧
      c.nodeId ≠ parent ∧ m.withinLimits c = true ∧
      rssi.toInt + m.config.rssiHysteresis.toNat < c.rssi.toInt

/-- The last of the candidates within the limits that have the highest score. -/
def IsBest (m : MeshManager) (c : ParentCandidate) : Prop :=
  IsLastMax (·.score m.myLevel) (m.candidates.filter m.withinLimits) c

/-- Up to 127 the hysteresis is what it says, and the parent must not be the better candidate. From
128 it counts 256 less, so a candidate that is compared at all must not exceed the lesser bound. -/
def ComparesWell (m : MeshManager) (parent : NodeId) (rssi : Int8) (best : ParentCandidate) :
    Prop :=
  let bound : Int := rssi.toInt + m.config.rssiHysteresis.toNat
  if m.config.rssiHysteresis.toNat < 128 then
    bound ≤ 127 ∧ (best.nodeId = parent → best.rssi.toInt ≤ bound)
  else 128 ≤ bound ∧ best.rssi.toInt ≤ bound - 256

instance (m : MeshManager) (parent : NodeId) (rssi : Int8) (best : ParentCandidate) :
    Decidable (m.ComparesWell parent rssi best) :=
  inferInstanceAs (Decidable (if _ < 128 then _ ∧ (_ → _) else _ ∧ _))

/-- Where there is something to compare, it compares well. -/
def SwitchesWell (m : MeshManager) : Prop :=
  ∀ parent rssi best, m.topology.parent = some parent →
    m.peers[parent]?.bind PeerInfo.rssi = some rssi → m.IsBest best →
    m.ComparesWell parent rssi best

variable {m : MeshManager}

theorem selectBestParent_eq_some_iff {c : ParentCandidate} :
    m.selectBestParent = some c ↔ m.IsBest c := maxByKey_eq_some_iff

theorem IsBest.withinLimits {c : ParentCandidate} (h : m.IsBest c) : m.withinLimits c = true :=
  (List.mem_filter.mp h.mem).2

/-- Nothing is compared, or the best candidate is compared with the record of the parent. -/
theorem shouldSwitchParent_cases (m : MeshManager) :
    m.shouldSwitchParent = some none ∧
        (¬ ∃ parent rssi best, m.topology.parent = some parent ∧
          m.peers[parent]?.bind PeerInfo.rssi = some rssi ∧ m.IsBest best) ∨
      ∃ parent rssi best, m.topology.parent = some parent ∧
        m.peers[parent]?.bind PeerInfo.rssi = some rssi ∧ m.IsBest best ∧
        m.shouldSwitchParent = (checkedAdd rssi m.config.rssiHysteresis.toInt8).map fun bound =>
          if best.rssi > bound then some best else none := by
  simp only [← selectBestParent_eq_some_iff]
  unfold shouldSwitchParent
  cases hparent : m.topology.parent with
  | none => exact Or.inl ⟨rfl, fun ⟨_, _, _, h, _⟩ => by cases h⟩
  | some parent =>
      dsimp only
      cases hrssi : m.peers[parent]?.bind PeerInfo.rssi with
      | none =>
          refine Or.inl ⟨rfl, ?_⟩
          rintro ⟨other, rssi, best, h, hother, -⟩
          cases h
          rw [hrssi] at hother
          cases hother
      | some rssi =>
          cases hbest : m.selectBestParent with
          | none => exact Or.inl ⟨rfl, fun ⟨_, _, _, _, _, h⟩ => by cases h⟩
          | some best => exact Or.inr ⟨parent, rssi, best, rfl, hrssi, rfl, rfl⟩

section Compared

variable {parent : NodeId} {rssi : Int8} {best : ParentCandidate}
  (hparent : m.topology.parent = some parent)
  (hrssi : m.peers[parent]?.bind PeerInfo.rssi = some rssi) (hbest : m.IsBest best)
include hparent hrssi hbest

theorem switchesWell_iff_of_compared : m.SwitchesWell ↔ m.ComparesWell parent rssi best := by
  constructor
  · exact fun h => h parent rssi best hparent hrssi hbest
  · intro h other otherRssi otherBest hother hotherRssi hotherBest
    obtain rfl : parent = other := Option.some.inj (hparent.symm.trans hother)
    obtain rfl : rssi = otherRssi := Option.some.inj (hrssi.symm.trans hotherRssi)
    rw [← selectBestParent_eq_some_iff] at hbest hotherBest
    obtain rfl : best = otherBest := Option.some.inj (hbest.symm.trans hotherBest)
    exact h

theorem switchImproves_iff_of_compared
    (hcall : m.shouldSwitchParent =
      (checkedAdd rssi m.config.rssiHysteresis.toInt8).map fun bound =>
        if best.rssi > bound then some best else none) :
    m.SwitchImproves ↔
      let sum : Int := rssi.toInt + m.config.rssiHysteresis.toInt8.toInt
      (-128 ≤ sum ∧ sum ≤ 127) ∧
        (sum < best.rssi.toInt → best.nodeId ≠ parent ∧
          rssi.toInt + m.config.rssiHysteresis.toNat < best.rssi.toInt) := by
  cases hsum : checkedAdd rssi m.config.rssiHysteresis.toInt8 with
  | none =>
      refine iff_of_false (fun h => h.noOverflow ?_) fun h => ?_
      · rw [hcall, hsum, Option.map_none]
      · exact checkedAdd_eq_none_iff.mp hsum h.1
  | some sum =>
      have hvalue := checkedAdd_eq_some_iff.mp hsum
      have hlow := sum.le_toInt
      have hhigh := sum.toInt_lt
      rw [hsum, Option.map_some] at hcall
      dsimp only
      rw [← hvalue]
      constructor
      · intro h
        refine ⟨⟨by omega, by omega⟩, fun hless => ?_⟩
        have hreturned : m.shouldSwitchParent = some (some best) := by
          rw [hcall, if_pos (Int8.lt_iff_toInt_lt.mpr hless)]
        obtain ⟨other, otherRssi, hother, hotherRssi, hne, -, hstronger⟩ :=
          h.improves best hreturned
        obtain rfl : parent = other := Option.some.inj (hparent.symm.trans hother)
        obtain rfl : rssi = otherRssi := Option.some.inj (hrssi.symm.trans hotherRssi)
        exact ⟨hne, hstronger⟩
      · rintro ⟨-, himproves⟩
        constructor
        · rw [hcall]
          exact Option.some_ne_none _
        · intro c hc
          rw [hcall, Option.some.injEq] at hc
          split at hc
          case isTrue hless =>
            obtain rfl := Option.some.inj hc
            obtain ⟨hne, hstronger⟩ := himproves (Int8.lt_iff_toInt_lt.mp hless)
            exact ⟨parent, rssi, hparent, hrssi, hne, hbest.withinLimits, hstronger⟩
          case isFalse => cases hc

end Compared

theorem switchImproves_iff (m : MeshManager) : m.SwitchImproves ↔ m.SwitchesWell := by
  rcases m.shouldSwitchParent_cases with
    ⟨hcall, hno⟩ | ⟨parent, rssi, best, hparent, hrssi, hbest, hcall⟩
  · refine iff_of_true ⟨?_, fun c hc => ?_⟩ ?_
    · rw [hcall]
      exact Option.some_ne_none none
    · rw [hcall] at hc
      cases hc
    · intro parent rssi best hparent hrssi hbest
      exact absurd ⟨parent, rssi, best, hparent, hrssi, hbest⟩ hno
  · rw [switchImproves_iff_of_compared hparent hrssi hbest hcall,
      switchesWell_iff_of_compared hparent hrssi hbest]
    have hlow := rssi.le_toInt
    have hhigh := rssi.toInt_lt
    have hbestHigh := best.rssi.toInt_lt
    have hhysteresis := m.config.rssiHysteresis.toNat_lt
    unfold ComparesWell
    dsimp only
    rw [toInt_toInt8]
    by_cases hsame : best.nodeId = parent
    · simp only [hsame, ne_eq, not_true_eq_false, false_and, forall_true_left, imp_false]
      split_ifs <;> omega
    · simp only [hsame, ne_eq, not_false_eq_true, true_and, true_or, and_true, imp_iff_not_or]
      split_ifs <;> omega

/-- Whatever a run has done, a switch is the improvement it promises in just these states. -/
theorem switch_improves_iff (nodeId : NodeId) (level : HierarchyLevel) (config : TopologyConfig)
    (actions : List Action) :
    let m := LoggedRun.run step (new nodeId level config) actions
    m.SwitchImproves ↔ m.SwitchesWell :=
  switchImproves_iff _

/-- A stronger beacon of the parent is taken for a better one, and 125 and 6 do not fit in 8
bits. -/
theorem switches_to_parent :
    ¬ (LoggedRun.run step (new 1 .squad .default) [.connectParent 5 .platoon (-70),
        .processBeacon ⟨1, 0, 5, .platoon, 0, 255, 0⟩ (-40)]).SwitchImproves ∧
    ¬ (LoggedRun.run step (new 1 .squad .default) [.connectParent 5 .platoon 125,
        .processBeacon ⟨1, 0, 6, .platoon, 0, 255, 0⟩ (-40)]).SwitchImproves := by
  constructor
  · rw [switchImproves_iff]
    intro h
    have hbound := h 5 (-70) ⟨5, .platoon, -40, 0, 0⟩ rfl ?_ ?_
    · exact absurd hbound (by decide)
    · rfl
    · rw [← selectBestParent_eq_some_iff]
      rfl
  · rw [switchImproves_iff]
    intro h
    have hbound := h 5 125 ⟨6, .platoon, -40, 0, 0⟩ rfl ?_ ?_
    · exact absurd hbound (by decide)
    · rfl
    · rw [← selectBestParent_eq_some_iff]
      rfl

end MeshManager

end PeatBtle
