import PeatBtle.Discovery.ScannerTables

/-!
# Filters and encrypted beacons

A filter is applied before an encrypted beacon is decrypted, so the criteria for
the beacon do not see it. The two forms of a beacon are treated alike exactly
where that makes no difference: another criterion turns both away, the beacon
meets the criteria, or what it says is already known.
-/

namespace PeatBtle

open Wire Std MapMerge

/-! ## Decryption undoes encryption -/

theorem zipWith_xor_cancel {plain key : Bytes} (h : plain.length ≤ key.length) :
    List.zipWith (· ^^^ ·) (List.zipWith (· ^^^ ·) plain key) key = plain := by
  induction plain generalizing key with
  | nil => rfl
  | cons byte plain ih =>
      cases key with
      | nil => simp at h
      | cons k key =>
          have hbyte : byte ^^^ k ^^^ k = byte := by
            rw [UInt8.xor_assoc, UInt8.xor_self, UInt8.xor_zero]
          simp only [List.zipWith_cons_cons, hbyte, ih (Nat.le_of_succ_le_succ h)]

theorem u16ToBe_eq (v : UInt16) : u16ToBe v = (u16ToLe v).reverse := by
  have hlow : v.toUInt8 = UInt8.ofNat v.toNat := by
    apply UInt8.toNat_inj.mp
    simp
  have hhigh : (v >>> 8).toUInt8 = UInt8.ofNat (v.toNat / 256) := by
    apply UInt8.toNat_inj.mp
    simp [Nat.shiftRight_eq_div_pow]
  rw [u16ToBe, hlow, hhigh]
  rfl

theorem u32ToBe_eq (v : UInt32) : u32ToBe v = (u32ToLe v).reverse := by
  have hbyte : ∀ k : UInt32, k.toNat < 32 →
      (v >>> k).toUInt8 = UInt8.ofNat (v.toNat / 2 ^ k.toNat) := by
    intro k hk
    apply UInt8.toNat_inj.mp
    simp [Nat.shiftRight_eq_div_pow, Nat.mod_eq_of_lt hk]
  have hlow : v.toUInt8 = UInt8.ofNat v.toNat := by
    apply UInt8.toNat_inj.mp
    simp
  have hdigits : u32ToLe v = [UInt8.ofNat v.toNat, UInt8.ofNat (v.toNat / 2 ^ 8),
      UInt8.ofNat (v.toNat / 2 ^ 16), UInt8.ofNat (v.toNat / 2 ^ 24)] := by
    simp only [u32ToLe, leBytes, Nat.div_div_eq_div_mul]
    rfl
  rw [u32ToBe, hdigits, hlow, hbyte 24 (by decide), hbyte 16 (by decide), hbyte 8 (by decide)]
  rfl

section BigEndian

variable {front rest : Bytes} {n : Nat}

theorem u16AtBe_middle (h : front.length = n) (v : UInt16) :
    u16AtBe (front ++ (u16ToBe v ++ rest)) n = v := by
  have hslice : slice (front ++ (u16ToBe v ++ rest)) n (n + 2) = u16ToBe v := slice_middle h
  rw [u16AtBe, hslice, u16ToBe_eq, List.reverse_reverse, u16ToLe, leNat_leBytes v.toNat_lt,
    UInt16.ofNat_toNat]

theorem u32AtBe_middle (h : front.length = n) (v : UInt32) :
    u32AtBe (front ++ (u32ToBe v ++ rest)) n = v := by
  have hslice : slice (front ++ (u32ToBe v ++ rest)) n (n + 4) = u32ToBe v := slice_middle h
  rw [u32AtBe, hslice, u32ToBe_eq, List.reverse_reverse, u32ToLe, leNat_leBytes v.toNat_lt,
    UInt32.ofNat_toNat]

end BigEndian

theorem slice_part {front middle rest : Bytes} {start stop : Nat} (hstart : front.length = start)
    (hstop : start + middle.length = stop) :
    slice (front ++ (middle ++ rest)) start stop = middle := by
  rw [← hstop]
  exact slice_middle hstart

theorem EncryptedBeacon.decrypt_encrypt (blake : Blake3) (b : EncryptedBeacon) (key : BeaconKey)
    (meshIdBytes : MeshIdBytes) (nonce : BeaconNonce) :
    decrypt blake (b.encrypt blake key meshIdBytes nonce) key = some (b, meshIdBytes) := by
  let encrypted := b.identity blake key meshIdBytes nonce
  let mac := key.computeMac blake nonce encrypted
  have hencrypted : encrypted.length = 8 := by simp [encrypted]
  have hmac : mac.length = 4 := by simp [mac]
  have hplain : List.zipWith (· ^^^ ·) encrypted (key.deriveKeystream blake nonce) =
      meshIdBytes.toList ++ u32ToBe b.nodeId := zipWith_xor_cancel (by simp [u32ToBe_length])
  let tail := u16ToBe b.capabilities ++ [b.hierarchyLevel, b.batteryPercent]
  let data := [encryptedBeaconVersion] ++ (nonce.toList ++ (encrypted ++ (mac ++ tail)))
  have hdata : b.encrypt blake key meshIdBytes nonce = data := by
    simp [encrypt, data, tail, encrypted, mac]
  have hnonce : slice data 1 5 = nonce.toList := slice_part rfl (by simp)
  have hidentity : slice data 5 13 = encrypted := by
    have hsplit : data = ([encryptedBeaconVersion] ++ nonce.toList) ++
        (encrypted ++ (mac ++ tail)) := by simp [data]
    rw [hsplit]
    exact slice_part (by simp) (by omega)
  have hreceived : slice data 13 17 = mac := by
    have hsplit : data = ([encryptedBeaconVersion] ++ nonce.toList ++ encrypted) ++
        (mac ++ tail) := by simp [data]
    rw [hsplit]
    exact slice_part (by simp [hencrypted]) (by omega)
  have hfront : data = ([encryptedBeaconVersion] ++ nonce.toList ++ encrypted ++ mac) ++ tail := by
    simp [data]
  have hlength : ([encryptedBeaconVersion] ++ nonce.toList ++ encrypted ++ mac).length = 17 := by
    simp [hencrypted, hmac]
  have hcapabilities : u16AtBe data 17 = b.capabilities := by
    rw [hfront]
    exact u16AtBe_middle hlength b.capabilities
  have htail : ∀ i, byteAt data (17 + i) = byteAt tail i := by
    intro i
    rw [hfront, byteAt_skip (by omega), hlength, Nat.add_sub_cancel_left]
  have hlevel : byteAt data 19 = b.hierarchyLevel := htail 2
  have hbattery : byteAt data 20 = b.batteryPercent := htail 3
  have hlong : ¬ data.length < encryptedBeaconSize := by
    rw [← hdata, encrypt_length]
    decide
  have hnode : u32AtBe (meshIdBytes.toList ++ u32ToBe b.nodeId) 4 = b.nodeId := by
    have hread := @u32AtBe_middle meshIdBytes.toList [] 4 (by simp) b.nodeId
    rwa [List.append_nil] at hread
  have hmesh : slice (meshIdBytes.toList ++ u32ToBe b.nodeId) 0 4 = meshIdBytes.toList :=
    slice_append_left (by simp)
  rw [hdata, decrypt, if_neg hlong, if_neg (by simp [data])]
  simp only [hnonce, hidentity, hreceived, ofFn_byteAt, hplain, hnode, hmesh, hcapabilities,
    hlevel, hbattery]
  exact if_neg (not_not.mpr rfl)

/-! ## Records that an update leaves as they are -/

namespace TrackedDevice

variable {d : TrackedDevice} {beacon : PeatBeacon} {rssi : Int8} {connectable : Bool}
  {currentTimeMs : UInt64}

/-- The record says already what the advertisement does, ten times over. -/
structure Settled (d : TrackedDevice) (beacon : PeatBeacon) (rssi : Int8) (connectable : Bool)
    (currentTimeMs : UInt64) : Prop where
  beacon_eq : d.beacon = beacon
  rssi_eq : d.rssi = rssi
  seen : d.lastSeenMs = currentTimeMs
  connectable_eq : d.connectable = connectable
  history_full : 10 ≤ d.rssiHistory.length
  history_eq : ∀ reading ∈ d.rssiHistory, reading = rssi

theorem tail_append_eq_iff {α : Type} {x y : α} {xs : List α} :
    xs ++ [x] = y :: xs ↔ ∀ z ∈ y :: xs, z = x := by
  induction xs generalizing y with
  | nil => simp [eq_comm]
  | cons z xs ih =>
      rw [List.cons_append, List.cons.injEq, ih]
      constructor
      · rintro ⟨rfl, hall⟩
        exact List.forall_mem_cons.mpr ⟨hall z List.mem_cons_self, hall⟩
      · intro hall
        obtain ⟨hy, hrest⟩ := List.forall_mem_cons.mp hall
        exact ⟨(hrest z List.mem_cons_self).trans hy.symm, hrest⟩

theorem history_update_eq_iff {history : List Int8} :
    (if (history ++ [rssi]).length > 10 then (history ++ [rssi]).drop 1 else history ++ [rssi]) =
      history ↔ 10 ≤ history.length ∧ ∀ reading ∈ history, reading = rssi := by
  rw [List.length_append, List.length_singleton]
  by_cases hlong : 10 ≤ history.length
  · rw [if_pos (by omega), and_iff_right hlong]
    cases history with
    | nil => simp at hlong
    | cons first history => exact tail_append_eq_iff
  · rw [if_neg (by omega)]
    exact iff_of_false (by simp) fun h => hlong h.1

theorem update_eq_self_iff :
    d.update beacon rssi connectable currentTimeMs = d ↔
      d.Settled beacon rssi connectable currentTimeMs := by
  have hhistory := @history_update_eq_iff rssi d.rssiHistory
  constructor
  · intro h
    obtain ⟨hlength, hreadings⟩ := hhistory.mp (congrArg rssiHistory h)
    exact ⟨(congrArg TrackedDevice.beacon h).symm, (congrArg TrackedDevice.rssi h).symm,
      (congrArg lastSeenMs h).symm, (congrArg TrackedDevice.connectable h).symm, hlength,
      hreadings⟩
  · rintro ⟨rfl, rfl, rfl, rfl, hlength, hreadings⟩
    unfold update
    dsimp only
    rw [hhistory.mpr ⟨hlength, hreadings⟩]

end TrackedDevice

/-! ## The two forms of a beacon -/

namespace ParsedAdvertisement

/-- The advertisement with its beacon encrypted. -/
def sealed (adv : ParsedAdvertisement) (data : Bytes) : ParsedAdvertisement :=
  { adv with beacon := none, encryptedServiceData := some data }

/-- The advertisement with its beacon in plain. -/
def plain (adv : ParsedAdvertisement) (beacon : PeatBeacon) : ParsedAdvertisement :=
  { adv with beacon := some beacon, encryptedServiceData := none }

theorem signalMatches_plain (f : ScanFilter) (adv : ParsedAdvertisement) (data : Bytes)
    (beacon : PeatBeacon) :
    f.signalMatches (adv.plain beacon) = f.signalMatches (adv.sealed data) := rfl

end ParsedAdvertisement

namespace Scanner

variable {blake : Blake3} {s : Scanner} {adv : ParsedAdvertisement} {data : Bytes}
  {beacon : PeatBeacon} {meshId : MeshIdBytes}

/-- Both forms leave the same devices and give the same answer, and none of them makes a device
tracked whose beacon does not meet the criteria. -/
structure Alike (blake : Blake3) (s : Scanner) (adv : ParsedAdvertisement) (data : Bytes)
    (beacon : PeatBeacon) : Prop where
  devices : (s.processAdvertisement blake (adv.sealed data)).1.devices =
    (s.processAdvertisement blake (adv.plain beacon)).1.devices
  answer : (s.processAdvertisement blake (adv.sealed data)).2 =
    (s.processAdvertisement blake (adv.plain beacon)).2
  criteria : ∀ (nodeId : NodeId) (device : TrackedDevice), s.devices[nodeId]? = none →
    (s.processAdvertisement blake (adv.sealed data)).1.devices[nodeId]? = some device →
      s.filter.beaconMatches device.beacon = true

theorem takenIn_sealed (h : s.tryDecryptBeacon blake data = some (beacon, meshId)) :
    s.takenIn blake (adv.sealed data) =
      if s.filter.signalMatches (adv.sealed data) && !s.isDuplicate beacon.nodeId then some beacon
      else none := by
  have hextract : s.extractBeacon blake (adv.sealed data) = some beacon := by
    simp [extractBeacon, ParsedAdvertisement.sealed, h]
  have haccepts : s.filter.accepts (adv.sealed data) =
      s.filter.signalMatches (adv.sealed data) := Bool.and_true _
  unfold takenIn
  rw [hextract, haccepts]
  cases s.filter.signalMatches (adv.sealed data) <;>
    cases hdup : s.isDuplicate beacon.nodeId <;> simp [Option.filter, hdup]

theorem takenIn_plain :
    s.takenIn blake (adv.plain beacon) =
      if s.filter.signalMatches (adv.plain beacon) && s.filter.beaconMatches beacon &&
        !s.isDuplicate beacon.nodeId then some beacon else none := by
  have haccepts : s.filter.accepts (adv.plain beacon) =
      (s.filter.signalMatches (adv.plain beacon) && s.filter.beaconMatches beacon) := rfl
  have hextract : s.extractBeacon blake (adv.plain beacon) = some beacon := rfl
  unfold takenIn
  rw [hextract, haccepts]
  cases s.filter.signalMatches (adv.plain beacon) <;> cases s.filter.beaconMatches beacon <;>
    cases hdup : s.isDuplicate beacon.nodeId <;> simp [Option.filter, hdup]

/-- A device that the advertisement makes tracked has the beacon that it brought. -/
theorem beacon_of_track {nodeId : NodeId} {device : TrackedDevice}
    (hbefore : s.devices[nodeId]? = none)
    (hafter : (s.track beacon adv).1.devices[nodeId]? = some device) : device.beacon = beacon := by
  obtain ⟨tracked, hdevices, hbeacon, -⟩ := devices_track s beacon adv
  rw [hdevices, getElem?_insert_eq] at hafter
  split at hafter
  · rw [← Option.some.inj hafter]
    exact hbeacon
  · rw [hbefore] at hafter
    cases hafter

theorem alike_of_takenIn_eq
    (h : s.takenIn blake (adv.sealed data) = s.takenIn blake (adv.plain beacon))
    (hmatches : ∀ taken, s.takenIn blake (adv.sealed data) = some taken →
      s.filter.beaconMatches taken = true) : Alike blake s adv data beacon := by
  have hsame : s.processAdvertisement blake (adv.sealed data) =
      s.processAdvertisement blake (adv.plain beacon) := by
    rw [processAdvertisement_eq, processAdvertisement_eq, h]
    rfl
  refine ⟨congrArg (fun after => after.1.devices) hsame, congrArg Prod.snd hsame, ?_⟩
  intro nodeId device hbefore hafter
  rw [processAdvertisement_eq] at hafter
  cases htaken : s.takenIn blake (adv.sealed data) with
  | none =>
      rw [htaken, Option.elim_none, hbefore] at hafter
      cases hafter
  | some taken =>
      rw [htaken, Option.elim_some] at hafter
      rw [beacon_of_track hbefore hafter]
      exact hmatches taken htaken

/-- Where only the encrypted form is taken in, nothing changes exactly if nothing is news. -/
theorem alike_iff_settled (hsealed : s.takenIn blake (adv.sealed data) = some beacon)
    (hplain : s.takenIn blake (adv.plain beacon) = none) :
    Alike blake s adv data beacon ↔ ∃ device, s.devices[beacon.nodeId]? = some device ∧
      device.Settled beacon adv.rssi adv.connectable s.currentTimeMs := by
  have hafter : s.processAdvertisement blake (adv.sealed data) =
      s.track beacon (adv.sealed data) := by
    rw [processAdvertisement_eq, hsealed]
    rfl
  have hunchanged : s.processAdvertisement blake (adv.plain beacon) = (s, false) := by
    rw [processAdvertisement_eq, hplain]
    rfl
  cases hknown : s.devices[beacon.nodeId]? with
  | none =>
      refine iff_of_false (fun h => ?_) (by simp)
      have hanswer := h.answer
      rw [hafter, hunchanged, track, hknown] at hanswer
      cases hanswer
  | some device =>
      have htrack : (s.track beacon (adv.sealed data)).1.devices = s.devices.insert beacon.nodeId
          (device.update beacon adv.rssi adv.connectable s.currentTimeMs) := by
        rw [track, hknown]
        rfl
      have hsettled : s.devices.insert beacon.nodeId
          (device.update beacon adv.rssi adv.connectable s.currentTimeMs) = s.devices ↔
            device.Settled beacon adv.rssi adv.connectable s.currentTimeMs := by
        rw [insert_eq_self_iff, hknown, Option.some.injEq, eq_comm,
          TrackedDevice.update_eq_self_iff]
      constructor
      · intro h
        have hdevices := h.devices
        rw [hafter, hunchanged, htrack] at hdevices
        exact ⟨device, rfl, hsettled.mp hdevices⟩
      · rintro ⟨same, hsame, hrecord⟩
        obtain rfl := Option.some.inj hsame
        have hdevices := hsettled.mpr hrecord
        refine ⟨?_, ?_, fun nodeId other hbefore hother => ?_⟩
        · rw [hafter, hunchanged, htrack, hdevices]
        · rw [hafter, hunchanged, track, hknown]
        · rw [hafter, htrack, hdevices, hbefore] at hother
          cases hother

theorem alike_iff (h : s.tryDecryptBeacon blake data = some (beacon, meshId))
    (adv : ParsedAdvertisement) :
    Alike blake s adv data beacon ↔
      s.filter.beaconMatches beacon = true ∨
      s.filter.signalMatches (adv.sealed data) = false ∨
      s.isDuplicate beacon.nodeId = true ∨
      ∃ device, s.devices[beacon.nodeId]? = some device ∧
        device.Settled beacon adv.rssi adv.connectable s.currentTimeMs := by
  have hsealed := @takenIn_sealed blake s adv data beacon meshId h
  have hplain := @takenIn_plain blake s adv beacon
  rw [ParsedAdvertisement.signalMatches_plain s.filter adv data beacon] at hplain
  cases hmatches : s.filter.beaconMatches beacon with
  | true =>
      have hsame : s.takenIn blake (adv.sealed data) = s.takenIn blake (adv.plain beacon) := by
        rw [hsealed, hplain, hmatches, Bool.and_true]
      refine iff_of_true (alike_of_takenIn_eq hsame fun taken htaken => ?_) (Or.inl rfl)
      rw [hsealed] at htaken
      split at htaken
      · rw [← Option.some.inj htaken]
        exact hmatches
      · cases htaken
  | false =>
      have hnone : s.takenIn blake (adv.plain beacon) = none := by
        rw [hplain, hmatches, Bool.and_false, Bool.false_and]
        rfl
      by_cases hreaches : s.filter.signalMatches (adv.sealed data) = true ∧
          s.isDuplicate beacon.nodeId = false
      · have hsome : s.takenIn blake (adv.sealed data) = some beacon := by
          rw [hsealed, hreaches.1, hreaches.2]
          rfl
        rw [alike_iff_settled hsome hnone, hreaches.1, hreaches.2]
        simp
      · have hdropped : s.takenIn blake (adv.sealed data) = none := by
          rw [hsealed, if_neg]
          simpa using hreaches
        refine iff_of_true (alike_of_takenIn_eq (hdropped.trans hnone.symm) fun taken htaken => ?_) ?_
        · rw [hdropped] at htaken
          cases htaken
        · grind

/-! ## In runs -/

/-- When a tracked device was seen last is when its node was last processed. -/
def SeenWhenProcessed (s : Scanner) : Prop :=
  ∀ (nodeId : NodeId) (device : TrackedDevice), s.devices[nodeId]? = some device →
    s.lastProcessed[nodeId]? = some device.lastSeenMs

theorem SeenWhenProcessed.track (h : s.SeenWhenProcessed) (beacon : PeatBeacon)
    (adv : ParsedAdvertisement) : (s.track beacon adv).1.SeenWhenProcessed := by
  intro nodeId device hdevice
  obtain ⟨tracked, hdevices, -, hseen⟩ := devices_track s beacon adv
  rw [hdevices, getElem?_insert_eq] at hdevice
  rw [lastProcessed_track, getElem?_insert_eq]
  split at hdevice
  · rename_i heq
    rw [if_pos heq, ← Option.some.inj hdevice, hseen]
  · rename_i hne
    rw [if_neg hne, h nodeId device hdevice]

theorem SeenWhenProcessed.removeDevice (h : s.SeenWhenProcessed) (gone : NodeId) :
    (s.removeDevice gone).SeenWhenProcessed := by
  intro nodeId device hdevice
  unfold Scanner.removeDevice at hdevice ⊢
  cases hgone : s.devices[gone]? with
  | none =>
      rw [hgone] at hdevice
      exact h nodeId device hdevice
  | some known =>
      rw [hgone] at hdevice
      dsimp only at hdevice ⊢
      rw [getElem?_erase_eq] at hdevice ⊢
      split at hdevice
      · cases hdevice
      · rename_i hne
        rw [if_neg hne, h nodeId device hdevice]

theorem SeenWhenProcessed.act (h : s.SeenWhenProcessed) (action : ScannerAction) :
    (s.act blake action).SeenWhenProcessed := by
  cases action with
  | processAdvertisement adv =>
      show (s.processAdvertisement blake adv).1.SeenWhenProcessed
      rw [processAdvertisement_eq]
      cases s.takenIn blake adv with
      | none => exact h
      | some beacon => exact h.track beacon adv
  | removeStale => exact removeStale_induction h fun s nodeId hs => hs.removeDevice nodeId
  | clear => exact fun _ _ hdevice => absurd hdevice getElem?_empty_ne_some
  | _ => exact h

theorem seenWhenProcessed_run (actions : List ScannerAction) :
    (LoggedRun.run (Scanner.act blake) new actions).SeenWhenProcessed := by
  have hnew : new.SeenWhenProcessed := fun _ _ hdevice => absurd hdevice getElem?_empty_ne_some
  exact LoggedRun.run_keeps hnew fun _ action _ h => h.act action

/-- No record of a reached state says already what an advertisement does that is taken in. -/
theorem duplicate_of_settled (h : s.SeenWhenProcessed) {device : TrackedDevice}
    (hdevice : s.devices[beacon.nodeId]? = some device)
    (hsettled : device.Settled beacon adv.rssi adv.connectable s.currentTimeMs) :
    s.isDuplicate beacon.nodeId = true := by
  have hlast := h beacon.nodeId device hdevice
  rw [hsettled.seen] at hlast
  simp [isDuplicate, hlast, saturatingSub]
  decide

/-- The two forms of a beacon are treated alike exactly if the beacon meets the criteria for it,
another criterion turns the advertisement away, the node was heard just before, or its record
says all that already; the last does not happen by itself in a run. -/
theorem beacon_forms_alike_iff (h : s.tryDecryptBeacon blake data = some (beacon, meshId))
    (adv : ParsedAdvertisement) :
    (Alike blake s adv data beacon ↔
      s.filter.beaconMatches beacon = true ∨
      s.filter.signalMatches (adv.sealed data) = false ∨
      s.isDuplicate beacon.nodeId = true ∨
      ∃ device, s.devices[beacon.nodeId]? = some device ∧
        device.Settled beacon adv.rssi adv.connectable s.currentTimeMs) ∧
    ((∃ actions, s = LoggedRun.run (act blake) new actions) →
      (Alike blake s adv data beacon ↔
        s.filter.beaconMatches beacon = true ∨
        s.filter.signalMatches (adv.sealed data) = false ∨
        s.isDuplicate beacon.nodeId = true)) := by
  refine ⟨alike_iff h adv, ?_⟩
  rintro ⟨actions, hrun⟩
  have hseen : s.SeenWhenProcessed := by
    rw [hrun]
    exact seenWhenProcessed_run actions
  rw [alike_iff h adv]
  refine or_congr Iff.rfl (or_congr Iff.rfl (or_iff_left_of_imp ?_))
  rintro ⟨device, hdevice, hsettled⟩
  exact duplicate_of_settled hseen hdevice hsettled

/-- What a scanner with the key and the mesh reads from an encrypted beacon. -/
theorem tryDecryptBeacon_encrypt {key : BeaconKey} (hkey : s.beaconKey = some key)
    (hmesh : s.meshIdBytes = some meshId) (b : EncryptedBeacon) (nonce : BeaconNonce) :
    s.tryDecryptBeacon blake (b.encrypt blake key meshId nonce) =
      some (⟨1, b.capabilities, b.nodeId, HierarchyLevel.ofU8 b.hierarchyLevel, 0,
        b.batteryPercent, 0⟩, meshId) := by
  simp [tryDecryptBeacon, hkey, hmesh, EncryptedBeacon.decrypt_encrypt]

/-- A scanner that looks for squads. -/
def squadScanner : Scanner :=
  { new with
    filter := { ScanFilter.default with minHierarchyLevel := some .squad }
    beaconKey := some Advertiser.zeroKey
    meshIdBytes := some Advertiser.zeroMesh }

/-- The encrypted beacon of a node at the given level. -/
def beaconAt (level : UInt8) : Bytes :=
  EncryptedBeacon.encrypt Advertiser.zeroBlake ⟨0x12345678, 0, level, 85⟩ Advertiser.zeroKey
    Advertiser.zeroMesh (Vector.replicate 4 0)

/-- An advertisement without its beacon. -/
def blankAdvertisement : ParsedAdvertisement := ⟨"A", -60, none, none, none, true⟩

theorem beacon_forms_alike_squad :
    Alike Advertiser.zeroBlake squadScanner blankAdvertisement (beaconAt 1)
      ⟨1, 0, 0x12345678, .squad, 0, 85, 0⟩ := by
  have hdecrypt := @tryDecryptBeacon_encrypt Advertiser.zeroBlake squadScanner Advertiser.zeroMesh
    Advertiser.zeroKey rfl rfl ⟨0x12345678, 0, 1, 85⟩ (Vector.replicate 4 0)
  exact (beacon_forms_alike_iff hdecrypt blankAdvertisement).1.mpr (Or.inl (by decide))

/-- A platform below the level that the filter asks for is tracked if its beacon is encrypted. -/
theorem encrypted_platform_tracked :
    squadScanner.tryDecryptBeacon Advertiser.zeroBlake (beaconAt 0) =
      some (⟨1, 0, 0x12345678, .platform, 0, 85, 0⟩, Advertiser.zeroMesh) ∧
    squadScanner.filter.beaconMatches ⟨1, 0, 0x12345678, .platform, 0, 85, 0⟩ = false ∧
    ¬ Alike Advertiser.zeroBlake squadScanner blankAdvertisement (beaconAt 0)
      ⟨1, 0, 0x12345678, .platform, 0, 85, 0⟩ := by
  have hdecrypt := @tryDecryptBeacon_encrypt Advertiser.zeroBlake squadScanner Advertiser.zeroMesh
    Advertiser.zeroKey rfl rfl ⟨0x12345678, 0, 0, 85⟩ (Vector.replicate 4 0)
  refine ⟨hdecrypt, by decide, fun halike => ?_⟩
  have hanswer := halike.answer
  revert hanswer
  decide

end Scanner

end PeatBtle
