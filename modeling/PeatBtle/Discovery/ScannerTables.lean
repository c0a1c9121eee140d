import PeatBtle.Data.TwoWay
import PeatBtle.Discovery.Privacy
import PeatBtle.Discovery.Scanner

/-!
# The scanner's tables

Every address in the address map leads to a device that was first seen there, and
exactly the tracked nodes have been processed. A device keeps the address it was
first seen at. So it is found by its address as long as no other device appears
there, and by the address of its last advertisement as long as it does not move.
-/

namespace PeatBtle

open Wire Std MapMerge TwoWay

namespace Scanner

variable {s : Scanner}

/-- The way from addresses to nodes and back. -/
def addresses (s : Scanner) : Index String NodeId where
  target := fun address => s.addressMap[address]?
  ownName := fun nodeId => s.devices[nodeId]?.map TrackedDevice.address

/-- Every address leads to a tracked device. -/
def AddressesTracked (s : Scanner) : Prop :=
  ∀ address nodeId, s.getNodeIdForAddress address = some nodeId → nodeId ∈ s.devices

/-- Every tracked device is found by its address. -/
def AddressesLeadBack (s : Scanner) : Prop :=
  ∀ nodeId device, s.devices[nodeId]? = some device →
    s.getNodeIdForAddress device.address = some nodeId

/-- Exactly the tracked nodes have been processed. -/
def ProcessedTracked (s : Scanner) : Prop :=
  ∀ nodeId, nodeId ∈ s.lastProcessed ↔ nodeId ∈ s.devices

theorem addressesLeadBack_iff : s.AddressesLeadBack ↔
    ∀ nodeId address, s.addresses.ownName nodeId = some address →
      s.addresses.target address = some nodeId := by
  constructor
  · intro h nodeId address hown
    obtain ⟨device, hdevice, rfl⟩ := Option.map_eq_some_iff.mp hown
    exact h nodeId device hdevice
  · intro h nodeId device hdevice
    exact h nodeId device.address (by simp [addresses, hdevice])

theorem AddressesTracked.of_owned (h : s.addresses.Owned) : s.AddressesTracked := by
  intro address nodeId hlookup
  obtain ⟨device, hdevice, -⟩ := Option.map_eq_some_iff.mp (h address nodeId hlookup)
  exact mem_of_getElem? hdevice

/-! ## What the operations do to the tables -/

section Track

variable {beacon : PeatBeacon} {adv : ParsedAdvertisement} {device : TrackedDevice}

theorem addresses_track_known (h : s.devices[beacon.nodeId]? = some device) :
    (s.track beacon adv).1.addresses = s.addresses := by
  unfold track addresses
  rw [h]
  dsimp only
  congr 1
  funext nodeId
  rw [getElem?_insert_eq]
  split
  · rename_i heq
    rw [← heq, h]
    rfl
  · rfl

theorem addresses_track_new (h : s.devices[beacon.nodeId]? = none) :
    (s.track beacon adv).1.addresses = s.addresses.pair adv.address beacon.nodeId := by
  unfold track addresses Index.pair
  rw [h]
  dsimp only
  congr 1
  · funext address
    rw [getElem?_insert_eq]
    exact if_congr eq_comm rfl rfl
  · funext nodeId
    rw [getElem?_insert_eq, apply_ite (Option.map TrackedDevice.address)]
    exact if_congr eq_comm rfl rfl

/-- The device of the node has the beacon and has just been seen; the others are as they were. -/
theorem devices_track (s : Scanner) (beacon : PeatBeacon) (adv : ParsedAdvertisement) :
    ∃ tracked : TrackedDevice,
      (s.track beacon adv).1.devices = s.devices.insert beacon.nodeId tracked ∧
        tracked.beacon = beacon ∧ tracked.lastSeenMs = s.currentTimeMs := by
  unfold track
  cases s.devices[beacon.nodeId]? with
  | none => exact ⟨_, rfl, rfl, rfl⟩
  | some known => exact ⟨_, rfl, rfl, rfl⟩

theorem lastProcessed_track (s : Scanner) (beacon : PeatBeacon) (adv : ParsedAdvertisement) :
    (s.track beacon adv).1.lastProcessed =
      s.lastProcessed.insert beacon.nodeId s.currentTimeMs := by
  unfold track
  cases s.devices[beacon.nodeId]? with
  | none => rfl
  | some known => rfl

theorem processedTracked_track (h : s.ProcessedTracked) :
    (s.track beacon adv).1.ProcessedTracked := by
  intro nodeId
  obtain ⟨tracked, hdevices, -⟩ := devices_track s beacon adv
  rw [lastProcessed_track, hdevices, ExtTreeMap.mem_insert, ExtTreeMap.mem_insert, h nodeId]

end Track

theorem addresses_removeDevice (nodeId : NodeId) :
    (s.removeDevice nodeId).addresses = s.addresses.remove nodeId := by
  unfold removeDevice addresses Index.remove Index.release Index.drop
  cases hdevice : s.devices[nodeId]? with
  | none =>
      dsimp only
      congr 1
      · funext address
        simp [hdevice]
      · funext holder
        by_cases heq : holder = nodeId
        · simp [heq, hdevice]
        · simp [heq]
  | some device =>
      dsimp only
      congr 1
      · funext address
        rw [getElem?_erase_eq]
        exact if_congr (by rw [hdevice, Option.map_some, Option.some.injEq]) rfl rfl
      · funext holder
        rw [getElem?_erase_eq, apply_ite (Option.map TrackedDevice.address)]
        exact if_congr eq_comm rfl rfl

theorem processedTracked_removeDevice (h : s.ProcessedTracked) (nodeId : NodeId) :
    (s.removeDevice nodeId).ProcessedTracked := by
  intro other
  unfold removeDevice
  cases s.devices[nodeId]? with
  | none => exact h other
  | some device => simp only [ExtTreeMap.mem_erase, h other]

/-- What holds and survives the removal of any device survives the removal of stale ones. -/
theorem removeStale_induction {P : Scanner → Prop} (hstart : P s)
    (hstep : ∀ s nodeId, P s → P (s.removeDevice nodeId)) : P s.removeStale.1 := by
  unfold removeStale
  dsimp only
  induction (s.devices.toList.filter fun entry =>
    entry.2.isStale s.deviceTimeoutMs s.currentTimeMs).map Prod.fst generalizing s with
  | nil => exact hstart
  | cons nodeId rest ih => exact ih (hstep s nodeId hstart)

/-! ## Runs -/

section Runs

variable (blake : Blake3)

/-- Right after the advertisement its address leads to the node. -/
def Recognised (s : Scanner) (action : ScannerAction) : Prop :=
  ∀ adv beacon, action = .processAdvertisement adv → s.takenIn blake adv = some beacon →
    (s.act blake action).getNodeIdForAddress adv.address = some beacon.nodeId

/-- A tracked node still has the address it was first seen at, and a new node comes from an
address that no tracked device has. -/
def UnambiguousAt (s : Scanner) (nodeId : NodeId) (address : String) : Prop :=
  match s.devices[nodeId]? with
  | some device => device.address = address
  | none => ∀ (other : NodeId) (device : TrackedDevice),
      s.devices[other]? = some device → device.address ≠ address

def Unambiguous (s : Scanner) (action : ScannerAction) : Prop :=
  ∀ adv beacon, action = .processAdvertisement adv → s.takenIn blake adv = some beacon →
    s.UnambiguousAt beacon.nodeId adv.address

/-- What holds of the tables after every step. -/
structure Kept (s : Scanner) : Prop where
  owned : s.addresses.Owned
  processed : s.ProcessedTracked

theorem kept_clear (s : Scanner) : s.clear.Kept :=
  ⟨fun _ _ h => absurd h getElem?_empty_ne_some,
    fun _ => iff_of_false ExtTreeMap.not_mem_empty ExtTreeMap.not_mem_empty⟩

/-- A new scanner is as if it had been cleared. -/
theorem kept_new : Scanner.new.Kept := kept_clear new

theorem Kept.track (h : s.Kept) (beacon : PeatBeacon) (adv : ParsedAdvertisement) :
    (s.track beacon adv).1.Kept := by
  refine ⟨?_, processedTracked_track h.processed⟩
  cases hdevice : s.devices[beacon.nodeId]? with
  | some device =>
      rw [addresses_track_known hdevice]
      exact h.owned
  | none =>
      rw [addresses_track_new hdevice]
      exact h.owned.pair (by simp [addresses, hdevice])

theorem Kept.removeDevice (h : s.Kept) (nodeId : NodeId) : (s.removeDevice nodeId).Kept := by
  refine ⟨?_, processedTracked_removeDevice h.processed nodeId⟩
  rw [addresses_removeDevice]
  exact h.owned.remove

theorem Kept.act (h : s.Kept) (action : ScannerAction) : (s.act blake action).Kept := by
  cases action with
  | processAdvertisement adv =>
      show (s.processAdvertisement blake adv).1.Kept
      rw [processAdvertisement_eq]
      cases s.takenIn blake adv with
      | none => exact h
      | some beacon => exact h.track beacon adv
  | removeStale => exact removeStale_induction h fun s nodeId hs => hs.removeDevice nodeId
  | clear => exact kept_clear s
  | _ => exact ⟨h.owned, h.processed⟩

theorem inverse_clear (s : Scanner) : s.clear.addresses.Inverse := by
  intro address nodeId
  simp [clear, addresses]

/-- An advertisement that is taken in keeps the map inverse and is recognised exactly if it is
unambiguous. -/
theorem track_iff (h : s.addresses.Inverse) (beacon : PeatBeacon) (adv : ParsedAdvertisement) :
    ((s.track beacon adv).1.addresses.Inverse ∧
      (s.track beacon adv).1.getNodeIdForAddress adv.address = some beacon.nodeId) ↔
      s.UnambiguousAt beacon.nodeId adv.address := by
  have hlookup : ∀ after : Scanner, after.getNodeIdForAddress adv.address =
      after.addresses.target adv.address := fun _ => rfl
  unfold UnambiguousAt
  cases hdevice : s.devices[beacon.nodeId]? with
  | some device =>
      rw [hlookup, addresses_track_known hdevice, and_iff_right h, h, addresses]
      simp [hdevice]
  | none =>
      have hnew : s.addresses.ownName beacon.nodeId = none := by simp [addresses, hdevice]
      have hfound : (s.addresses.pair adv.address beacon.nodeId).target adv.address =
          some beacon.nodeId := if_pos rfl
      rw [hlookup, addresses_track_new hdevice, and_iff_left hfound, Index.inverse_pair h]
      constructor
      · rintro ⟨hfree, -⟩ other device hother heq
        have hown : s.addresses.ownName other = some adv.address := by
          simp [addresses, hother, heq]
        rw [hfree other ((h adv.address other).mpr hown), hnew] at hown
        cases hown
      · intro hapart
        refine ⟨fun other htarget => ?_, fun other hother => ?_⟩
        · obtain ⟨device, hother, heq⟩ := Option.map_eq_some_iff.mp ((h adv.address other).mp htarget)
          exact absurd heq (hapart other device hother)
        · rw [hnew] at hother
          cases hother

theorem Kept.leadBack_iff (h : s.Kept) : s.AddressesLeadBack ↔ s.addresses.Inverse :=
  addressesLeadBack_iff.trans h.owned.inverse_iff.symm

/-- Nothing but an advertisement makes an address ambiguous. -/
theorem inverse_act_other (h : s.addresses.Inverse) {action : ScannerAction}
    (hother : ∀ adv, action ≠ .processAdvertisement adv) :
    (s.act blake action).addresses.Inverse := by
  cases action with
  | processAdvertisement adv => exact absurd rfl (hother adv)
  | removeStale =>
      refine @removeStale_induction s (fun s => s.addresses.Inverse) h fun s nodeId hs => ?_
      rw [addresses_removeDevice]
      exact Index.inverse_remove hs
  | clear => exact inverse_clear s
  | _ => exact h

theorem act_iff (h : s.addresses.Inverse) (action : ScannerAction) :
    ((s.act blake action).addresses.Inverse ∧ Recognised blake s action) ↔
      Unambiguous blake s action := by
  by_cases hadv : ∃ adv, action = .processAdvertisement adv
  · obtain ⟨adv, rfl⟩ := hadv
    have hact : s.act blake (.processAdvertisement adv) = (s.processAdvertisement blake adv).1 := rfl
    unfold Recognised Unambiguous
    rw [hact, processAdvertisement_eq]
    cases htaken : s.takenIn blake adv with
    | none =>
        have hnothing : ∀ adv' beacon, ScannerAction.processAdvertisement adv =
            .processAdvertisement adv' → s.takenIn blake adv' ≠ some beacon := by
          intro adv' beacon heq hsome
          cases heq
          rw [htaken] at hsome
          cases hsome
        exact iff_of_true ⟨h, fun adv' beacon heq hsome => absurd hsome (hnothing adv' beacon heq)⟩
          fun adv' beacon heq hsome => absurd hsome (hnothing adv' beacon heq)
    | some beacon =>
        rw [Option.elim_some]
        constructor
        · rintro ⟨hinv, hrecognised⟩ adv' beacon' heq htaken'
          cases heq
          obtain rfl := Option.some.inj (htaken.symm.trans htaken')
          exact (track_iff h beacon adv).mp ⟨hinv, hrecognised adv beacon rfl htaken⟩
        · intro hgood
          obtain ⟨hinv, hfound⟩ := (track_iff h beacon adv).mpr (hgood adv beacon rfl htaken)
          refine ⟨hinv, fun adv' beacon' heq htaken' => ?_⟩
          cases heq
          obtain rfl := Option.some.inj (htaken.symm.trans htaken')
          exact hfound
  · have hother : ∀ adv, action ≠ .processAdvertisement adv := fun adv heq => hadv ⟨adv, heq⟩
    exact iff_of_true
      ⟨inverse_act_other blake h hother, fun adv _ heq => absurd heq (hother adv)⟩
      fun adv _ heq => absurd heq (hother adv)

theorem kept_run (h : s.Kept) (actions : List ScannerAction) :
    (LoggedRun.run (act blake) s actions).Kept :=
  LoggedRun.run_keeps h fun _ action _ hkept => hkept.act blake action

/-- The tables agree all along a run, and every advertisement that is taken in is recognised,
exactly if none is ambiguous. That addresses lead to tracked devices and that exactly those have
been processed holds in every run. -/
theorem scanner_tables_agree_iff (actions : List ScannerAction) :
    ((∀ front, front <+: actions →
        (LoggedRun.run (act blake) new front).AddressesTracked ∧
        (LoggedRun.run (act blake) new front).AddressesLeadBack ∧
        (LoggedRun.run (act blake) new front).ProcessedTracked) ∧
      LoggedRun.Along (act blake) (Recognised blake) new actions) ↔
    LoggedRun.Along (act blake) (Unambiguous blake) new actions := by
  have hstart : new.AddressesLeadBack := kept_new.leadBack_iff.mpr (inverse_clear new)
  have hiff := @LoggedRun.forall_step_iff_along _ _ (act blake) Kept AddressesLeadBack
    (Recognised blake) (Unambiguous blake) new actions kept_new hstart
    (fun s action h => h.act blake action) (fun s action h hback => by
      rw [(h.act blake action).leadBack_iff]
      exact act_iff blake (h.leadBack_iff.mp hback) action)
  rw [← hiff]
  constructor
  · rintro ⟨hall, hrecognised⟩
    exact ⟨fun front hfront => (hall front hfront).2.1, hrecognised⟩
  · rintro ⟨hback, hrecognised⟩
    refine ⟨fun front hfront => ?_, hrecognised⟩
    have hkept := kept_run blake kept_new front
    exact ⟨.of_owned hkept.owned, hback front hfront, hkept.processed⟩

end Runs

/-- A plain advertisement of a node from an address. -/
def advertisementOf (nodeId : NodeId) (address : String) : ParsedAdvertisement :=
  ⟨address, -60, some (PeatBeacon.new nodeId), none, none, true⟩

/-- A device that moves is not found where it is, and one that takes over another's address hides
the other one. -/
theorem moved_or_hidden :
    ¬ LoggedRun.Along (act Advertiser.zeroBlake) (Recognised Advertiser.zeroBlake) new
      [.processAdvertisement (advertisementOf 1 "A"), .setTimeMs 1000,
        .processAdvertisement (advertisementOf 1 "B")] ∧
    ¬ (LoggedRun.run (act Advertiser.zeroBlake) new
      [.processAdvertisement (advertisementOf 1 "A"),
        .processAdvertisement (advertisementOf 2 "A")]).AddressesLeadBack := by
  constructor
  · rintro ⟨-, -, hsecond, -⟩
    have hfound := hsecond (advertisementOf 1 "B") (PeatBeacon.new 1) rfl (by decide)
    revert hfound
    decide
  · intro hback
    have hdevice := hback 1
      (TrackedDevice.new (PeatBeacon.new 1) "A" (-60) true 0) (by decide)
    revert hdevice
    decide

end Scanner

end PeatBtle
