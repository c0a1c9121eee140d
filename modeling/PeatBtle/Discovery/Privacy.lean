import PeatBtle.Discovery.WellFormed

/-!
# What encrypted advertising hides

Two advertisers take the same operations, but stand for different nodes, meshes
and names. Encrypted mode is meant to leave no difference between their packets
outside the encrypted identity and its authentication code. The mode alone does
not see to that: the secrets and the generic name come with `with_encryption`,
and a later `with_name` undoes the name.
-/

namespace PeatBtle

open Wire

/-- The beacon without its node. -/
def PeatBeacon.unnamed (b : PeatBeacon) : PeatBeacon := { b with nodeId := 0 }

/-- The same operation, up to node, mesh and name. -/
inductive AdvertiserOp.SameButIdentity : AdvertiserOp → AdvertiserOp → Prop
  | same (op : AdvertiserOp) : SameButIdentity op op
  | withName (name name' : String) : SameButIdentity (.withName name) (.withName name')
  | withEncryption (key : BeaconKey) (meshIdBytes meshIdBytes' : MeshIdBytes) :
      SameButIdentity (.withEncryption key meshIdBytes) (.withEncryption key meshIdBytes')
  | beaconMut (beacon beacon' : PeatBeacon) (h : beacon.unnamed = beacon'.unnamed) :
      SameButIdentity (.beaconMut beacon) (.beaconMut beacon')

/-- `with_encryption` has been called, and no name was set since. -/
def AdvertiserOp.covers (covered : Bool) : AdvertiserOp → Bool
  | .withEncryption _ _ => true
  | .withName _ => false
  | _ => covered

/-- What an operation does to the beacon. -/
def AdvertiserOp.onBeacon (b : PeatBeacon) : AdvertiserOp → PeatBeacon
  | .beaconMut beacon => beacon
  | .setHierarchyLevel level => { b with hierarchyLevel := level }
  | .setCapabilities caps => { b with capabilities := caps }
  | .setBattery percent => { b with batteryPercent := min percent 100 }
  | .setGeohash geohash => { b with geohash := geohash &&& 0x00FFFFFF }
  | .incrementSequence => b.incrementSeq
  | _ => b

namespace Advertiser

/-- Equal outside the encrypted identity and its authentication code. -/
def SameOutsideIdentity (p q : AdvertisingPacket) : Prop :=
  p.advData.length = q.advData.length ∧ p.advData.take 16 = q.advData.take 16 ∧
    p.advData.drop 28 = q.advData.drop 28 ∧ p.scanRsp = q.scanRsp ∧ p.extended = q.extended

def create (lite : Bool) (nodeId : NodeId) : Advertiser :=
  if lite then peatLite nodeId else new nodeId

/-- No other node, mesh and names would have led to a different packet. -/
def Hides (blake : Blake3) (lite : Bool) (ops : List AdvertiserOp) : Prop :=
  ∀ (nodeId nodeId' : NodeId) (ops' : List AdvertiserOp) (nonce : BeaconNonce),
    List.Forall₂ AdvertiserOp.SameButIdentity ops ops' →
    SameOutsideIdentity ((create lite nodeId).packetAfter blake ops nonce)
      ((create lite nodeId').packetAfter blake ops' nonce)

variable {blake : Blake3} {a a' : Advertiser} {op op' : AdvertiserOp} {ops ops' : List AdvertiserOp}
  {covered : Bool} {nonce : BeaconNonce}

/-! ## The settings of two runs -/

/-- The settings that do not name the node. -/
structure Alike (a a' : Advertiser) : Prop where
  beacon : a.beacon.unnamed = a'.beacon.unnamed
  mode : a.mode = a'.mode
  beaconKey : a.beaconKey = a'.beaconKey
  meshIdBytes : a.meshIdBytes.isSome = a'.meshIdBytes.isSome
  txPower : a.txPower = a'.txPower
  useExtended : a.useExtended = a'.useExtended

/-- Building a packet changes the cache only. -/
theorem buildPacket_fst (blake : Blake3) (a : Advertiser) (nonce : BeaconNonce) :
    ∃ cachedPacket cacheDirty,
      (a.buildPacket blake nonce).1 = { a with cachedPacket, cacheDirty } := by
  unfold buildPacket
  split
  · exact ⟨a.cachedPacket, a.cacheDirty, rfl⟩
  · exact ⟨_, _, rfl⟩

theorem beacon_buildPacket (blake : Blake3) (a : Advertiser) (nonce : BeaconNonce) :
    (a.buildPacket blake nonce).1.beacon = a.beacon := by
  obtain ⟨p, d, heq⟩ := buildPacket_fst blake a nonce
  rw [heq]

theorem beacon_apply (blake : Blake3) (a : Advertiser) (op : AdvertiserOp) :
    (a.apply blake op).beacon = op.onBeacon a.beacon := by
  cases op with
  | resume =>
      rw [apply]
      split <;> rfl
  | buildPacket nonce => exact beacon_buildPacket blake a nonce
  | rebuildPacket nonce => exact beacon_buildPacket blake { a with cacheDirty := true } nonce
  | _ => rfl

theorem Alike.buildPacket (h : Alike a a') (nonce : BeaconNonce) :
    Alike (a.buildPacket blake nonce).1 (a'.buildPacket blake nonce).1 := by
  obtain ⟨p, d, heq⟩ := buildPacket_fst blake a nonce
  obtain ⟨p', d', heq'⟩ := buildPacket_fst blake a' nonce
  rw [heq, heq']
  exact { h with }

theorem unnamed_onBeacon {b b' : PeatBeacon} (h : b.unnamed = b'.unnamed) (op : AdvertiserOp) :
    (op.onBeacon b).unnamed = (op.onBeacon b').unnamed := by
  cases op with
  | beaconMut beacon => rfl
  | setHierarchyLevel level => exact congrArg (fun b => { b with hierarchyLevel := level }) h
  | setCapabilities caps => exact congrArg (fun b => { b with capabilities := caps }) h
  | setBattery percent => exact congrArg (fun b => { b with batteryPercent := min percent 100 }) h
  | setGeohash geohash => exact congrArg (fun b => { b with geohash := geohash &&& 0x00FFFFFF }) h
  | incrementSequence => exact congrArg PeatBeacon.incrementSeq h
  | _ => exact h

theorem Alike.apply_same (h : Alike a a') (op : AdvertiserOp) :
    Alike (a.apply blake op) (a'.apply blake op) := by
  have hbeacon : (a.apply blake op).beacon.unnamed = (a'.apply blake op).beacon.unnamed := by
    rw [beacon_apply, beacon_apply]
    exact unnamed_onBeacon h.beacon op
  cases op with
  | withTxPower txPower => exact { h with txPower := rfl }
  | withExtendedAdvertising enabled => exact { h with useExtended := rfl }
  | withEncryption key meshIdBytes =>
      exact { h with mode := rfl, beaconKey := rfl, meshIdBytes := rfl }
  | setMode mode => exact { h with mode := rfl }
  | setBeaconKey key => exact { h with beaconKey := rfl }
  | resume =>
      rw [apply, apply]
      split <;> split <;> exact { h with }
  | buildPacket nonce => exact h.buildPacket nonce
  | rebuildPacket nonce =>
      have hdirty : Alike { a with cacheDirty := true } { a' with cacheDirty := true } :=
        { h with }
      exact hdirty.buildPacket nonce
  | _ => exact { h with beacon := hbeacon }

theorem Alike.apply (h : Alike a a') (hop : op.SameButIdentity op') :
    Alike (a.apply blake op) (a'.apply blake op') := by
  cases hop with
  | same => exact h.apply_same op
  | withName name name' => exact { h with }
  | withEncryption key meshIdBytes meshIdBytes' =>
      exact { h with mode := rfl, beaconKey := rfl, meshIdBytes := rfl }
  | beaconMut beacon beacon' heq => exact { h with beacon := heq }

variable (blake) in
theorem Alike.run (h : Alike a a') (hops : List.Forall₂ AdvertiserOp.SameButIdentity ops ops') :
    Alike (a.run blake ops) (a'.run blake ops') := by
  induction hops generalizing a a' with
  | nil => exact h
  | cons hop _ ih => exact ih (h.apply hop)

theorem create_eq (lite : Bool) (nodeId : NodeId) :
    create lite nodeId =
      ofBeacon (if lite then PeatBeacon.peatLite nodeId else PeatBeacon.new nodeId) := by
  cases lite <;> rfl

theorem alike_create (lite : Bool) (nodeId nodeId' : NodeId) :
    Alike (create lite nodeId) (create lite nodeId') := by
  cases lite <;> exact ⟨rfl, rfl, rfl, rfl, rfl, rfl⟩

theorem cacheNonce_eq (hops : List.Forall₂ AdvertiserOp.SameButIdentity ops ops')
    (cached : Option BeaconNonce) :
    ops.foldl AdvertiserOp.cacheNonce cached = ops'.foldl AdvertiserOp.cacheNonce cached := by
  induction hops generalizing cached with
  | nil => rfl
  | @cons op op' _ _ hop _ ih =>
      have hstep : op.cacheNonce cached = op'.cacheNonce cached := by
        cases hop <;> rfl
      rw [List.foldl_cons, List.foldl_cons, hstep, ih]

theorem covers_eq (hops : List.Forall₂ AdvertiserOp.SameButIdentity ops ops') (covered : Bool) :
    ops.foldl AdvertiserOp.covers covered = ops'.foldl AdvertiserOp.covers covered := by
  induction hops generalizing covered with
  | nil => rfl
  | @cons op op' _ _ hop _ ih =>
      have hstep : op.covers covered = op'.covers covered := by
        cases hop <;> rfl
      rw [List.foldl_cons, List.foldl_cons, hstep, ih]

/-! ## The secrets of one run -/

/-- A mesh comes with a key and a name, and the name is the generic one while it is covered. -/
structure Configured (covered : Bool) (a : Advertiser) : Prop where
  secrets : a.meshIdBytes.isSome → a.beaconKey.isSome ∧ a.deviceName.isSome
  generic : covered = true → a.meshIdBytes.isSome ∧ a.deviceName = some encryptedDeviceName

theorem Configured.buildPacket (h : Configured covered a) (nonce : BeaconNonce) :
    Configured covered (a.buildPacket blake nonce).1 := by
  obtain ⟨p, d, heq⟩ := buildPacket_fst blake a nonce
  rw [heq]
  exact { h with }

theorem Configured.apply (h : Configured covered a) (op : AdvertiserOp) :
    Configured (op.covers covered) (a.apply blake op) := by
  cases op with
  | withName name =>
      exact ⟨fun hmesh => ⟨(h.secrets hmesh).1, rfl⟩, fun hcovered => (nomatch hcovered)⟩
  | withEncryption key meshIdBytes => exact ⟨fun _ => ⟨rfl, rfl⟩, fun _ => ⟨rfl, rfl⟩⟩
  | setBeaconKey key => exact ⟨fun hmesh => ⟨rfl, (h.secrets hmesh).2⟩, h.generic⟩
  | resume =>
      rw [Advertiser.apply]
      split
      · exact { h with }
      · exact h
  | buildPacket nonce => exact h.buildPacket nonce
  | rebuildPacket nonce =>
      have hdirty : Configured covered { a with cacheDirty := true } := { h with }
      exact hdirty.buildPacket nonce
  | _ => exact { h with }

variable (blake) in
theorem Configured.run (h : Configured covered a) (ops : List AdvertiserOp) :
    Configured (ops.foldl AdvertiserOp.covers covered) (a.run blake ops) := by
  induction ops generalizing a covered with
  | nil => exact h
  | cons op ops ih => exact ih (h.apply op)

theorem configured_create (lite : Bool) (nodeId : NodeId) :
    Configured false (create lite nodeId) := by
  cases lite <;> exact ⟨fun hmesh => (nomatch hmesh), fun hcovered => (nomatch hcovered)⟩

/-! ## Covered advertisers -/

/-- What comes before the encrypted identity. -/
def publicHead (nonce : BeaconNonce) : Bytes :=
  flags ++ serviceUuids ++ [UInt8.ofNat (2 + encryptedBeaconSize), adTypeServiceData16] ++
    uuidBytes ++ [encryptedBeaconVersion] ++ nonce.toList

/-- What comes after its authentication code. -/
def publicTail (a : Advertiser) : Bytes :=
  u16ToBe a.beacon.capabilities ++ [a.beacon.hierarchyLevel.toU8, a.beacon.batteryPercent]

theorem publicHead_length (nonce : BeaconNonce) : (publicHead nonce).length = 16 := by
  simp [publicHead, flags, serviceUuids, uuidBytes]

variable (blake nonce) in
/-- With the secrets at hand, the identity and its code are twelve bytes in the middle. -/
theorem advFront_encrypted (hmode : a.mode = .encrypted) (hkey : a.beaconKey.isSome)
    (hmesh : a.meshIdBytes.isSome) :
    ∃ hidden : Bytes, hidden.length = 12 ∧
      a.advFront blake nonce = publicHead nonce ++ (hidden ++ a.publicTail) := by
  obtain ⟨key, hkey⟩ := Option.isSome_iff_exists.mp hkey
  obtain ⟨meshIdBytes, hmesh⟩ := Option.isSome_iff_exists.mp hmesh
  let identity := a.encryptedBeacon.identity blake key meshIdBytes nonce
  refine ⟨identity ++ key.computeMac blake nonce identity, ?_, ?_⟩
  · rw [List.length_append, EncryptedBeacon.identity_length, BeaconKey.computeMac_length]
  · rw [advFront, beaconService, hmode, hkey, hmesh]
    simp only [serviceData, EncryptedBeacon.encrypt, publicHead, publicTail, encryptedBeacon,
      List.append_assoc]
    rfl

theorem txPowerFits_encrypted (hmode : a.mode = .encrypted) (hkey : a.beaconKey.isSome)
    (hmesh : a.meshIdBytes.isSome) : a.txPowerFits blake nonce = false := by
  obtain ⟨hidden, hlength, hfront⟩ := advFront_encrypted blake nonce hmode hkey hmesh
  have hmax : legacyAdvMax = 31 := rfl
  have htail : a.publicTail.length = 4 := rfl
  have hwide : ¬ 16 + (12 + a.publicTail.length) + 3 ≤ legacyAdvMax := by omega
  rw [txPowerFits, hfront, List.length_append, List.length_append, publicHead_length, hlength]
  exact decide_eq_false hwide

theorem publicTail_eq (h : Alike a a') : a.publicTail = a'.publicTail := by
  have hcapabilities := congrArg PeatBeacon.capabilities h.beacon
  have hlevel := congrArg PeatBeacon.hierarchyLevel h.beacon
  have hbattery := congrArg PeatBeacon.batteryPercent h.beacon
  change a.beacon.capabilities = a'.beacon.capabilities at hcapabilities
  change a.beacon.hierarchyLevel = a'.beacon.hierarchyLevel at hlevel
  change a.beacon.batteryPercent = a'.beacon.batteryPercent at hbattery
  rw [publicTail, publicTail, hcapabilities, hlevel, hbattery]

theorem txPowerBytes_congr (h : Alike a a') : a.txPowerBytes = a'.txPowerBytes := by
  rw [txPowerBytes, txPowerBytes, h.txPower]

theorem sameOutside_of_encrypted (h : Alike a a') (hname : a.deviceName = a'.deviceName)
    (hmode : a.mode = .encrypted) (hkey : a.beaconKey.isSome) (hmesh : a.meshIdBytes.isSome) :
    SameOutsideIdentity (a.buildPacketInner blake nonce) (a'.buildPacketInner blake nonce) := by
  have hmode' : a'.mode = .encrypted := h.mode.symm.trans hmode
  have hkey' : a'.beaconKey.isSome := by rwa [← h.beaconKey]
  have hmesh' : a'.meshIdBytes.isSome := by rwa [← h.meshIdBytes]
  obtain ⟨hidden, hlength, hfront⟩ := advFront_encrypted blake nonce hmode hkey hmesh
  obtain ⟨hidden', hlength', hfront'⟩ := advFront_encrypted blake nonce hmode' hkey' hmesh'
  have hadv : a.advBytes blake nonce = publicHead nonce ++ (hidden ++ a.publicTail) := by
    rw [advBytes, txPowerFits_encrypted hmode hkey hmesh, hfront]
    exact List.append_nil _
  have hadv' : a'.advBytes blake nonce = publicHead nonce ++ (hidden' ++ a.publicTail) := by
    rw [advBytes, txPowerFits_encrypted hmode' hkey' hmesh', hfront', publicTail_eq h]
    exact List.append_nil _
  have hscan : a.scanBytes blake nonce = a'.scanBytes blake nonce := by
    rw [scanBytes, scanBytes, txPowerFits_encrypted hmode hkey hmesh,
      txPowerFits_encrypted hmode' hkey' hmesh', hname, txPowerBytes_congr h]
  have hsize : (a.advBytes blake nonce).length = (a'.advBytes blake nonce).length := by
    rw [hadv, hadv']
    simp only [List.length_append, hlength, hlength']
  have hhead := publicHead_length nonce
  refine ⟨hsize, ?_, ?_, ?_, ?_⟩
  · change (a.advBytes blake nonce).take 16 = (a'.advBytes blake nonce).take 16
    rw [hadv, hadv', List.take_left' hhead, List.take_left' hhead]
  · change (a.advBytes blake nonce).drop 28 = (a'.advBytes blake nonce).drop 28
    have hpast : ∀ middle : Bytes, middle.length = 12 →
        (publicHead nonce ++ (middle ++ a.publicTail)).drop 28 = a.publicTail := by
      intro middle hmiddle
      rw [← List.append_assoc]
      exact List.drop_left' (by rw [List.length_append, hhead, hmiddle])
    rw [hadv, hadv', hpast hidden hlength, hpast hidden' hlength']
  · simp only [buildPacketInner, hscan]
  · simp only [buildPacketInner, hscan, hsize, h.useExtended]

end Advertiser

/-! ## Another identity -/

/-- A node with another first byte. -/
def NodeId.elsewhere (node : NodeId) : NodeId := if (node >>> 24).toUInt8 = 0 then 0x01000000 else 0

def otherName (name : String) : String := if name = "" then "A" else ""

def PeatBeacon.moved (b : PeatBeacon) : PeatBeacon := { b with nodeId := b.nodeId.elsewhere }

def AdvertiserOp.disguise : AdvertiserOp → AdvertiserOp
  | .withName name => .withName (otherName name)
  | .beaconMut beacon => .beaconMut beacon.moved
  | op => op

theorem AdvertiserOp.sameButIdentity_disguise (ops : List AdvertiserOp) :
    List.Forall₂ AdvertiserOp.SameButIdentity ops (ops.map AdvertiserOp.disguise) := by
  induction ops with
  | nil => exact List.Forall₂.nil
  | cons op ops ih =>
      refine List.Forall₂.cons ?_ ih
      cases op with
      | withName name => exact .withName name (otherName name)
      | beaconMut beacon => exact .beaconMut beacon beacon.moved rfl
      | _ => exact .same _

theorem firstByte_elsewhere (node : NodeId) :
    (node.elsewhere >>> 24).toUInt8 ≠ (node >>> 24).toUInt8 := by
  unfold NodeId.elsewhere
  split
  · rename_i hzero
    rw [hzero]
    decide
  · rename_i hnonzero
    exact fun heq => hnonzero heq.symm

namespace Advertiser

variable {blake : Blake3} {a a' : Advertiser} {covered : Bool} {nonce : BeaconNonce}

theorem nameBytes_length (name : String) :
    (nameBytes name).length = 2 + min maxNameLen (utf8 name).length := by
  rw [nameBytes_eq, nameStructure]
  split
  · rename_i hfits
    rw [Nat.min_eq_right hfits, Nat.add_comm]
    rfl
  · rw [AdStructure.encode, List.length_cons, List.length_cons, List.length_take]
    omega

theorem utf8_length_pos {name : String} (h : name ≠ "") : 0 < (utf8 name).length := by
  by_contra hzero
  have hnil : utf8 name = [] := List.length_eq_zero_iff.mp (Nat.eq_zero_of_not_pos hzero)
  have hread := fromUtf8_utf8 name
  have hempty := fromUtf8_utf8 ""
  rw [hnil] at hread
  exact h (Option.some.inj (hread.symm.trans hempty))

theorem nameBytes_otherName (name : String) : nameBytes name ≠ nameBytes (otherName name) := by
  intro heq
  have hlength := congrArg List.length heq
  have hmax : maxNameLen = 29 := rfl
  have hempty : (utf8 "").length = 0 := rfl
  have hone : (utf8 "A").length = 1 := by decide +kernel
  rw [nameBytes_length, nameBytes_length, otherName] at hlength
  split at hlength
  · rename_i hname
    rw [hname] at hlength
    omega
  · rename_i hname
    have hpos := utf8_length_pos hname
    omega

/-- The second run stands for another node, and its name for another one unless it is covered. -/
structure Disguised (covered : Bool) (a a' : Advertiser) : Prop where
  beacon : a'.beacon = a.beacon.moved
  deviceName : a'.deviceName = if covered then a.deviceName else a.deviceName.map otherName

theorem Disguised.buildPacket (h : Disguised covered a a') (nonce : BeaconNonce) :
    Disguised covered (a.buildPacket blake nonce).1 (a'.buildPacket blake nonce).1 := by
  obtain ⟨p, d, heq⟩ := buildPacket_fst blake a nonce
  obtain ⟨p', d', heq'⟩ := buildPacket_fst blake a' nonce
  rw [heq, heq']
  exact { h with }

theorem onBeacon_moved (b : PeatBeacon) (op : AdvertiserOp) :
    op.disguise.onBeacon b.moved = (op.onBeacon b).moved := by
  cases op <;> rfl

theorem Disguised.apply (h : Disguised covered a a') (op : AdvertiserOp) :
    Disguised (op.covers covered) (a.apply blake op) (a'.apply blake op.disguise) := by
  have hbeacon : (a'.apply blake op.disguise).beacon = (a.apply blake op).beacon.moved := by
    rw [beacon_apply, beacon_apply, h.beacon, onBeacon_moved]
  cases op with
  | withName name => exact ⟨hbeacon, rfl⟩
  | withEncryption key meshIdBytes => exact ⟨hbeacon, rfl⟩
  | resume =>
      change Disguised covered (a.apply blake .resume) (a'.apply blake .resume)
      rw [Advertiser.apply, Advertiser.apply]
      split <;> split <;> exact { h with }
  | buildPacket nonce => exact h.buildPacket nonce
  | rebuildPacket nonce =>
      have hdirty : Disguised covered { a with cacheDirty := true } { a' with cacheDirty := true } :=
        { h with }
      exact hdirty.buildPacket nonce
  | _ => exact ⟨hbeacon, h.deviceName⟩

variable (blake) in
theorem Disguised.run (h : Disguised covered a a') (ops : List AdvertiserOp) :
    Disguised (ops.foldl AdvertiserOp.covers covered) (a.run blake ops)
      (a'.run blake (ops.map AdvertiserOp.disguise)) := by
  induction ops generalizing a a' covered with
  | nil => exact h
  | cons op ops ih => exact ih (h.apply op)

theorem disguised_create (lite : Bool) (nodeId : NodeId) :
    Disguised false (create lite nodeId) (create lite nodeId.elsewhere) := by
  cases lite <;> exact ⟨rfl, rfl⟩

/-! ## Leaks -/

/-- Without a mesh the mode falls back to the plaintext beacon. -/
theorem beaconService_of_no_mesh (hmesh : a.meshIdBytes = none) :
    a.beaconService blake nonce = serviceData beaconCompactSize a.beacon.encodeCompact := by
  rw [beaconService, hmesh]
  cases a.mode <;> cases a.beaconKey <;> rfl

theorem firstByte_of_no_mesh (hmesh : a.meshIdBytes = none) :
    byteAt ((a.advBytes blake nonce).take 16) 13 = (a.beacon.nodeId >>> 24).toUInt8 := by
  have hfront : a.advFront blake nonce =
      flags ++ serviceUuids ++ serviceData beaconCompactSize a.beacon.encodeCompact := by
    rw [advFront, beaconService_of_no_mesh hmesh]
  rw [advBytes, List.take_append_of_le_length (hfront ▸ Nat.le_of_ble_eq_true rfl), hfront]
  rfl

theorem not_sameOutside_of_no_mesh (h : Disguised covered a a') (hmesh : a.meshIdBytes = none)
    (hmesh' : a'.meshIdBytes = none) :
    ¬ SameOutsideIdentity (a.buildPacketInner blake nonce) (a'.buildPacketInner blake nonce) := by
  rintro ⟨-, hhead, -⟩
  change (a.advBytes blake nonce).take 16 = (a'.advBytes blake nonce).take 16 at hhead
  have hbyte : byteAt ((a.advBytes blake nonce).take 16) 13 =
      byteAt ((a'.advBytes blake nonce).take 16) 13 := by rw [hhead]
  rw [firstByte_of_no_mesh hmesh, firstByte_of_no_mesh hmesh', h.beacon] at hbyte
  exact firstByte_elsewhere a.beacon.nodeId hbyte.symm

/-- A name of one's own shows in the scan response. -/
theorem not_sameOutside_of_named (halike : Alike a a') (h : Disguised false a a')
    (hfits : a.txPowerFits blake nonce = a'.txPowerFits blake nonce)
    (hname : a.deviceName.isSome) :
    ¬ SameOutsideIdentity (a.buildPacketInner blake nonce) (a'.buildPacketInner blake nonce) := by
  rintro ⟨-, -, -, hscan, -⟩
  obtain ⟨name, hname⟩ := Option.isSome_iff_exists.mp hname
  have hname' : a'.deviceName = some (otherName name) := by
    rw [h.deviceName, hname]
    rfl
  let front := if a.txPowerFits blake nonce then [] else a.txPowerBytes
  have hbytes : a.scanBytes blake nonce = front ++ nameBytes name := by
    rw [scanBytes, hname]
    rfl
  have hbytes' : a'.scanBytes blake nonce = front ++ nameBytes (otherName name) := by
    rw [scanBytes, hname', ← hfits, ← txPowerBytes_congr halike]
    rfl
  have hnonempty : ∀ n : String, (front ++ nameBytes n).isEmpty = false := by
    intro n
    rw [List.isEmpty_eq_false_iff, ← List.length_pos_iff, List.length_append, nameBytes_length]
    omega
  simp only [buildPacketInner, hbytes, hbytes', hnonempty] at hscan
  exact nameBytes_otherName name (List.append_cancel_left (Option.some.inj hscan))

/-! ## Privacy -/

theorem packetAfter_create (lite : Bool) (nodeId : NodeId) (ops : List AdvertiserOp) :
    (create lite nodeId).packetAfter blake ops nonce =
      ((create lite nodeId).run blake ops).buildPacketInner blake
        ((ops.foldl AdvertiserOp.cacheNonce none).getD nonce) := by
  rw [create_eq, packetAfter_eq]

/-- Operations that end in encrypted mode hide node, mesh and name exactly if `with_encryption` was
among them and no name was set after it. -/
theorem hides_iff (lite : Bool) (nodeId : NodeId) (ops : List AdvertiserOp)
    (hmode : ((create lite nodeId).run blake ops).mode = .encrypted) :
    Hides blake lite ops ↔ ops.foldl AdvertiserOp.covers false = true := by
  constructor
  · intro hhides
    by_contra huncovered
    have huncovered := Bool.eq_false_iff.mpr huncovered
    have hsame := AdvertiserOp.sameButIdentity_disguise ops
    have halike := (alike_create lite nodeId nodeId.elsewhere).run blake hsame
    have hdisguised := (disguised_create lite nodeId).run blake ops
    have hconfigured := (configured_create lite nodeId).run blake ops
    have hpackets := hhides nodeId nodeId.elsewhere _ (Vector.replicate 4 0) hsame
    rw [packetAfter_create, packetAfter_create, ← cacheNonce_eq hsame] at hpackets
    rw [huncovered] at hdisguised
    cases hmesh : ((create lite nodeId).run blake ops).meshIdBytes with
    | none =>
        have hmesh' := halike.meshIdBytes
        rw [hmesh] at hmesh'
        exact not_sameOutside_of_no_mesh hdisguised hmesh
          (Option.isNone_iff_eq_none.mp (by simpa using hmesh'.symm)) hpackets
    | some meshIdBytes =>
        have hsome : ((create lite nodeId).run blake ops).meshIdBytes.isSome := by rw [hmesh]; rfl
        obtain ⟨hkey, hname⟩ := hconfigured.secrets hsome
        refine not_sameOutside_of_named halike hdisguised ?_ hname hpackets
        rw [txPowerFits_encrypted hmode hkey hsome,
          txPowerFits_encrypted (halike.mode.symm.trans hmode) (by rwa [← halike.beaconKey])
            (by rwa [← halike.meshIdBytes])]
  · intro hcovered n n' ops' nonce hsame
    have hself : List.Forall₂ AdvertiserOp.SameButIdentity ops ops :=
      List.forall₂_same.mpr fun op _ => .same op
    have hstart := (alike_create lite nodeId n).run blake hself
    have halike := (alike_create lite n n').run blake hsame
    have hconfigured := (configured_create lite n).run blake ops
    have hconfigured' := (configured_create lite n').run blake ops'
    rw [← covers_eq hsame] at hconfigured'
    obtain ⟨hmesh, hname⟩ := hconfigured.generic hcovered
    rw [packetAfter_create, packetAfter_create, ← cacheNonce_eq hsame]
    exact sameOutside_of_encrypted halike (hname.trans (hconfigured'.generic hcovered).2.symm)
      (hstart.mode.symm.trans hmode) (hconfigured.secrets hmesh).1 hmesh

def zeroBlake : Blake3 := ⟨fun _ => Vector.replicate 32 0, fun _ _ => Vector.replicate 32 0⟩

def zeroKey : BeaconKey := ⟨Vector.replicate 32 0⟩

def zeroMesh : MeshIdBytes := Vector.replicate 4 0

theorem hides_withEncryption :
    Hides zeroBlake false [.withName "ALPHA-1", .withEncryption zeroKey zeroMesh] :=
  (hides_iff false 1 [.withName "ALPHA-1", .withEncryption zeroKey zeroMesh] rfl).mpr rfl

/-- The same two operations the other way round show the name, and the mode by itself the node. -/
theorem name_and_node_shown :
    (((create false 1).run zeroBlake [.withEncryption zeroKey zeroMesh, .withName "ALPHA-1"]).mode =
        .encrypted ∧
      ¬ Hides zeroBlake false [.withEncryption zeroKey zeroMesh, .withName "ALPHA-1"]) ∧
    ((create false 1).run zeroBlake [.setMode .encrypted]).mode = .encrypted ∧
      ¬ Hides zeroBlake false [.setMode .encrypted] := by
  refine ⟨⟨rfl, fun hhides => ?_⟩, rfl, fun hhides => ?_⟩
  · have hscan := (hhides 1 1 [.withEncryption zeroKey zeroMesh, .withName "BRAVO-2"] zeroMesh
      (.cons (.same _) (.cons (.withName _ _) .nil))).2.2.2.1
    revert hscan
    decide +kernel
  · have hhead := (hhides 1 0x01000001 [.setMode .encrypted] zeroMesh (.cons (.same _) .nil)).2.1
    revert hhead
    decide +kernel

end Advertiser

end PeatBtle
