import PeatBtle.Basic
import PeatBtle.Data.LoggedRun
import PeatBtle.Data.TwoWay

/-!
# Address rotation

A device is known by its name while its address changes. Names and addresses are
both kept together with the way back, and an update clears what the device itself
had before, not what another one had.
-/

namespace PeatBtle

open Std Wire MapMerge TwoWay

structure DeviceLookupResult where
  nodeId : NodeId
  currentAddress : String
  addressChanged : Bool
  previousAddress : Option String
deriving DecidableEq

structure AddressRotationHandler where
  nameToNode : Map String NodeId
  nodeToName : Map NodeId String
  nodeToAddress : Map NodeId String
  addressToNode : Map String NodeId

namespace AddressRotationHandler

def new : AddressRotationHandler := ⟨∅, ∅, ∅, ∅⟩

def lookupByName (h : AddressRotationHandler) (name : String) : Option NodeId := h.nameToNode[name]?

def lookupByAddress (h : AddressRotationHandler) (address : String) : Option NodeId :=
  h.addressToNode[address]?

def getAddress (h : AddressRotationHandler) (nodeId : NodeId) : Option String :=
  h.nodeToAddress[nodeId]?

def getName (h : AddressRotationHandler) (nodeId : NodeId) : Option String := h.nodeToName[nodeId]?

/-- A device without a name is known by its address alone. -/
def registerDevice (h : AddressRotationHandler) (name address : String) (nodeId : NodeId) :
    AddressRotationHandler :=
  let named := if name.isEmpty then h else
    { h with
      nameToNode := h.nameToNode.insert name nodeId
      nodeToName := h.nodeToName.insert nodeId name }
  { named with
    addressToNode := named.addressToNode.insert address nodeId
    nodeToAddress := named.nodeToAddress.insert nodeId address }

def updateAddressInternal (h : AddressRotationHandler) (nodeId : NodeId) (newAddress : String)
    (oldAddress : Option String) : AddressRotationHandler :=
  let cleared := oldAddress.elim h.addressToNode h.addressToNode.erase
  { h with
    addressToNode := cleared.insert newAddress nodeId
    nodeToAddress := h.nodeToAddress.insert nodeId newAddress }

/-- A known device at the address, or none if it is a new one. -/
def foundByAddress (h : AddressRotationHandler) (address : String) : Option DeviceLookupResult :=
  (h.lookupByAddress address).map fun nodeId => ⟨nodeId, address, false, none⟩

/-- A device that is known by its name may have come to another address. -/
def onDeviceDiscovered (h : AddressRotationHandler) (name address : String) :
    AddressRotationHandler × Option DeviceLookupResult :=
  if name.isEmpty then (h, h.foundByAddress address)
  else
    match h.lookupByName name with
    | none => (h, h.foundByAddress address)
    | some nodeId =>
        let currentAddress := h.getAddress nodeId
        let addressChanged := decide (currentAddress ≠ some address)
        (if addressChanged then h.updateAddressInternal nodeId address currentAddress else h,
          some ⟨nodeId, address, addressChanged, if addressChanged then currentAddress else none⟩)

def updateAddress (h : AddressRotationHandler) (name newAddress : String) :
    AddressRotationHandler × Bool :=
  match h.lookupByName name with
  | some nodeId => (h.updateAddressInternal nodeId newAddress (h.getAddress nodeId), true)
  | none => (h, false)

/-- An empty name takes the old one out of use, but the device keeps it. -/
def updateName (h : AddressRotationHandler) (nodeId : NodeId) (newName : String) :
    AddressRotationHandler :=
  let cleared := (h.getName nodeId).elim h.nameToNode fun oldName =>
    if oldName ≠ newName then h.nameToNode.erase oldName else h.nameToNode
  if newName.isEmpty then { h with nameToNode := cleared }
  else
    { h with
      nameToNode := cleared.insert newName nodeId
      nodeToName := h.nodeToName.insert nodeId newName }

def removeDevice (h : AddressRotationHandler) (nodeId : NodeId) : AddressRotationHandler where
  nameToNode := (h.getName nodeId).elim h.nameToNode h.nameToNode.erase
  nodeToName := h.nodeToName.erase nodeId
  nodeToAddress := h.nodeToAddress.erase nodeId
  addressToNode := (h.getAddress nodeId).elim h.addressToNode h.addressToNode.erase

def clear (_ : AddressRotationHandler) : AddressRotationHandler := new

/-! ## The maps as names and their holders -/

section Maps

variable (forward : Map String NodeId) (backward : Map NodeId String) (name : String)
  (nodeId : NodeId)

def ofMaps : Index String NodeId := ⟨fun key => forward[key]?, fun holder => backward[holder]?⟩

/-- The way to a node without the name that leads back from it. -/
def cleared : Map String NodeId := backward[nodeId]?.elim forward forward.erase

theorem lookup_cleared (key : String) : (cleared forward backward nodeId)[key]? =
    if backward[nodeId]? = some key then none else forward[key]? := by
  unfold cleared
  cases backward[nodeId]? with
  | none => rfl
  | some old =>
      rw [Option.elim_some, getElem?_erase_eq]
      exact if_congr (by rw [Option.some.injEq]) rfl rfl

theorem lookup_insert_backward (holder : NodeId) : (backward.insert nodeId name)[holder]? =
    if holder = nodeId then some name else backward[holder]? := by
  rw [getElem?_insert_eq]
  exact if_congr eq_comm rfl rfl

theorem ofMaps_pair : ofMaps (forward.insert name nodeId) (backward.insert nodeId name) =
    (ofMaps forward backward).pair name nodeId := by
  refine congrArg₂ Index.mk (funext fun key => ?_)
    (funext fun holder => lookup_insert_backward backward name nodeId holder)
  rw [getElem?_insert_eq]
  exact if_congr eq_comm rfl rfl

theorem ofMaps_rename :
    ofMaps ((cleared forward backward nodeId).insert name nodeId) (backward.insert nodeId name) =
      (ofMaps forward backward).rename name nodeId := by
  refine congrArg₂ Index.mk (funext fun key => ?_)
    (funext fun holder => lookup_insert_backward backward name nodeId holder)
  rw [getElem?_insert_eq, lookup_cleared]
  exact if_congr eq_comm rfl rfl

theorem ofMaps_release : ofMaps (cleared forward backward nodeId) backward =
    (ofMaps forward backward).release nodeId :=
  congrArg₂ Index.mk (funext fun key => lookup_cleared forward backward nodeId key) rfl

theorem ofMaps_remove : ofMaps (cleared forward backward nodeId) (backward.erase nodeId) =
    (ofMaps forward backward).remove nodeId := by
  refine congrArg₂ Index.mk (funext fun key => lookup_cleared forward backward nodeId key)
    (funext fun holder => ?_)
  rw [getElem?_erase_eq]
  exact if_congr eq_comm rfl rfl

end Maps

def names (h : AddressRotationHandler) : Index String NodeId := ofMaps h.nameToNode h.nodeToName

def addresses (h : AddressRotationHandler) : Index String NodeId :=
  ofMaps h.addressToNode h.nodeToAddress

/-- Looking up a name or an address and asking a node for its own are inverse of each other. -/
structure MutuallyInverse (h : AddressRotationHandler) : Prop where
  name : ∀ name nodeId, h.lookupByName name = some nodeId ↔ h.getName nodeId = some name
  address : ∀ address nodeId,
    h.lookupByAddress address = some nodeId ↔ h.getAddress nodeId = some address

theorem mutuallyInverse_iff {h : AddressRotationHandler} :
    h.MutuallyInverse ↔ h.names.Inverse ∧ h.addresses.Inverse :=
  ⟨fun hinv => ⟨hinv.name, hinv.address⟩, fun hboth => ⟨hboth.1, hboth.2⟩⟩

theorem new_mutuallyInverse : new.MutuallyInverse := by
  have hnone : ∀ key, (∅ : Map String NodeId)[key]? = none := fun _ => ExtTreeMap.getElem?_empty
  have hnone' : ∀ holder, (∅ : Map NodeId String)[holder]? = none :=
    fun _ => ExtTreeMap.getElem?_empty
  constructor
  · intro name nodeId
    unfold lookupByName getName new
    rw [hnone, hnone']
    exact iff_of_false (Option.some_ne_none _).symm (Option.some_ne_none _).symm
  · intro address nodeId
    unfold lookupByAddress getAddress new
    rw [hnone, hnone']
    exact iff_of_false (Option.some_ne_none _).symm (Option.some_ne_none _).symm

section Updates

variable (h : AddressRotationHandler) (nodeId : NodeId) (name address : String)

theorem names_registerDevice : (h.registerDevice name address nodeId).names =
    if name.isEmpty then h.names else h.names.pair name nodeId := by
  unfold registerDevice
  dsimp only
  split
  · rfl
  · exact ofMaps_pair ..

theorem addresses_registerDevice : (h.registerDevice name address nodeId).addresses =
    h.addresses.pair address nodeId := by
  unfold registerDevice
  dsimp only
  split
  · exact ofMaps_pair ..
  · exact ofMaps_pair ..

theorem names_updateAddressInternal (oldAddress : Option String) :
    (h.updateAddressInternal nodeId address oldAddress).names = h.names := rfl

theorem addresses_updateAddressInternal :
    (h.updateAddressInternal nodeId address (h.getAddress nodeId)).addresses =
      h.addresses.rename address nodeId := ofMaps_rename ..

/-- The old name is cleared before or replaced afterwards, so it does not matter if it is the new
one. -/
theorem names_updateName (hname : name.isEmpty = false) :
    (h.updateName nodeId name).names = h.names.rename name nodeId := by
  refine Eq.trans ?_ (ofMaps_rename h.nameToNode h.nodeToName name nodeId)
  unfold updateName getName cleared
  rw [hname, if_neg Bool.false_ne_true]
  cases h.nodeToName[nodeId]? with
  | none => rfl
  | some old =>
      dsimp only [Option.elim_some]
      refine congrArg₂ Index.mk (funext fun key => ?_) rfl
      rw [getElem?_insert_eq, getElem?_insert_eq]
      split
      · rfl
      · rename_i hkey
        split
        · rfl
        · rename_i hsame
          rw [getElem?_erase_eq, if_neg]
          rintro rfl
          exact hkey (not_not.mp hsame).symm

theorem names_updateName_empty (hname : name.isEmpty = true) :
    (h.updateName nodeId name).names =
      if h.getName nodeId = some name then h.names else h.names.release nodeId := by
  unfold updateName
  rw [hname, if_pos rfl]
  cases hown : h.getName nodeId with
  | none =>
      rw [if_neg (Option.some_ne_none _).symm]
      refine Eq.trans ?_ (ofMaps_release h.nameToNode h.nodeToName nodeId)
      rw [cleared, ← getName, hown]
      rfl
  | some old =>
      by_cases hsame : old = name
      · rw [hsame, if_pos rfl, Option.elim_some, if_neg (not_not.mpr rfl)]
      · rw [if_neg (hsame ∘ Option.some.inj), Option.elim_some, if_pos hsame]
        refine Eq.trans ?_ (ofMaps_release h.nameToNode h.nodeToName nodeId)
        rw [cleared, ← getName, hown]
        rfl

theorem addresses_updateName : (h.updateName nodeId name).addresses = h.addresses := by
  unfold updateName
  dsimp only
  split
  · rfl
  · rfl

theorem names_removeDevice : (h.removeDevice nodeId).names = h.names.remove nodeId :=
  ofMaps_remove ..

theorem addresses_removeDevice : (h.removeDevice nodeId).addresses = h.addresses.remove nodeId :=
  ofMaps_remove ..

end Updates

/-! ## Runs -/

inductive Action where
  | register (name address : String) (nodeId : NodeId)
  | discovered (name address : String)
  | address (name newAddress : String)
  | name (nodeId : NodeId) (newName : String)
  | remove (nodeId : NodeId)
  | clear
deriving DecidableEq

def act (h : AddressRotationHandler) : Action → AddressRotationHandler
  | .register name address nodeId => h.registerDevice name address nodeId
  | .discovered name address => (h.onDeviceDiscovered name address).1
  | .address name newAddress => (h.updateAddress name newAddress).1
  | .name nodeId newName => h.updateName nodeId newName
  | .remove nodeId => h.removeDevice nodeId
  | .clear => h.clear

/-- A device that is removed is found under no name and no address. -/
def RemovesWholly (h : AddressRotationHandler) : Action → Prop
  | .remove nodeId =>
      (∀ name, (h.removeDevice nodeId).lookupByName name ≠ some nodeId) ∧
        ∀ address, (h.removeDevice nodeId).lookupByAddress address ≠ some nodeId
  | _ => True

/-- Nobody takes a name or an address that another device has, and a device that is registered
has no other name and no other address. An empty name is not given to a device that has one. -/
def TakesFree (h : AddressRotationHandler) : Action → Prop
  | .register name address nodeId =>
      (name.isEmpty = false → h.names.Free name nodeId ∧
        ∀ oldName, h.getName nodeId = some oldName → oldName = name) ∧
      h.addresses.Free address nodeId ∧
        ∀ oldAddress, h.getAddress nodeId = some oldAddress → oldAddress = address
  | .discovered name address => name.isEmpty = false →
      ∀ nodeId, h.lookupByName name = some nodeId → h.addresses.Free address nodeId
  | .address name newAddress =>
      ∀ nodeId, h.lookupByName name = some nodeId → h.addresses.Free newAddress nodeId
  | .name nodeId newName =>
      if newName.isEmpty then ∀ oldName, h.getName nodeId = some oldName → oldName = newName
      else h.names.Free newName nodeId
  | _ => True

section Steps

variable {h : AddressRotationHandler} (hinv : h.MutuallyInverse)
include hinv

theorem updateAddressInternal_iff (nodeId : NodeId) (address : String) :
    (h.updateAddressInternal nodeId address (h.getAddress nodeId)).MutuallyInverse ↔
      h.addresses.Free address nodeId := by
  obtain ⟨hnames, haddresses⟩ := mutuallyInverse_iff.mp hinv
  rw [mutuallyInverse_iff, names_updateAddressInternal, addresses_updateAddressInternal,
    Index.inverse_rename haddresses]
  exact and_iff_right hnames

theorem registerDevice_iff (name address : String) (nodeId : NodeId) :
    (h.registerDevice name address nodeId).MutuallyInverse ↔
      h.TakesFree (.register name address nodeId) := by
  obtain ⟨hnames, haddresses⟩ := mutuallyInverse_iff.mp hinv
  rw [mutuallyInverse_iff, names_registerDevice, addresses_registerDevice,
    Index.inverse_pair haddresses]
  refine and_congr ?_ Iff.rfl
  cases name.isEmpty with
  | true => exact iff_of_true hnames fun hnamed => nomatch hnamed
  | false =>
      rw [if_neg Bool.false_ne_true, forall_prop_of_true rfl]
      exact Index.inverse_pair hnames

/-- An address that does not change is the device's own, so it is free for it. -/
theorem onDeviceDiscovered_iff (name address : String) :
    (h.onDeviceDiscovered name address).1.MutuallyInverse ↔
      h.TakesFree (.discovered name address) := by
  unfold onDeviceDiscovered TakesFree
  dsimp only
  cases name.isEmpty with
  | true => exact iff_of_true hinv fun hnamed => nomatch hnamed
  | false =>
      rw [if_neg Bool.false_ne_true, forall_prop_of_true rfl]
      cases hknown : h.lookupByName name with
      | none => exact iff_of_true hinv fun _ hnone => nomatch hnone
      | some nodeId =>
          simp only [Option.some.injEq, forall_eq']
          by_cases hsame : h.getAddress nodeId = some address
          · rw [decide_eq_false (not_not.mpr hsame), if_neg Bool.false_ne_true]
            refine iff_of_true hinv fun other hother => ?_
            exact Option.some.inj (hother.symm.trans ((hinv.address address nodeId).mpr hsame))
          · rw [decide_eq_true hsame, if_pos rfl]
            exact updateAddressInternal_iff hinv nodeId address

theorem updateAddress_iff (name newAddress : String) :
    (h.updateAddress name newAddress).1.MutuallyInverse ↔
      h.TakesFree (.address name newAddress) := by
  unfold updateAddress TakesFree
  dsimp only
  cases hknown : h.lookupByName name with
  | none => exact iff_of_true hinv fun _ hnone => nomatch hnone
  | some nodeId =>
      simp only [Option.some.injEq, forall_eq']
      exact updateAddressInternal_iff hinv nodeId newAddress

theorem updateName_iff (nodeId : NodeId) (newName : String) :
    (h.updateName nodeId newName).MutuallyInverse ↔ h.TakesFree (.name nodeId newName) := by
  obtain ⟨hnames, haddresses⟩ := mutuallyInverse_iff.mp hinv
  rw [mutuallyInverse_iff, addresses_updateName, and_iff_left haddresses]
  unfold TakesFree
  dsimp only
  cases hempty : newName.isEmpty with
  | true =>
      rw [names_updateName_empty h nodeId newName hempty, if_pos rfl]
      split
      · rename_i hsame
        refine iff_of_true hnames fun oldName hold => ?_
        exact Option.some.inj (hold.symm.trans hsame)
      · rename_i hother
        rw [Index.inverse_release hnames]
        change h.getName nodeId = none ↔ _
        cases hown : h.getName nodeId with
        | none => exact iff_of_true rfl fun _ hnone => nomatch hnone
        | some old =>
            refine iff_of_false (Option.some_ne_none old) fun hall => hother ?_
            rw [hown, hall old rfl]
  | false =>
      rw [names_updateName h nodeId newName hempty, if_neg Bool.false_ne_true]
      exact Index.inverse_rename hnames

theorem removeDevice_mutuallyInverse (nodeId : NodeId) :
    (h.removeDevice nodeId).MutuallyInverse := by
  obtain ⟨hnames, haddresses⟩ := mutuallyInverse_iff.mp hinv
  rw [mutuallyInverse_iff, names_removeDevice, addresses_removeDevice]
  exact ⟨Index.inverse_remove hnames, Index.inverse_remove haddresses⟩

theorem removesWholly (action : Action) : h.RemovesWholly action := by
  obtain ⟨hnames, haddresses⟩ := mutuallyInverse_iff.mp hinv
  cases action with
  | remove nodeId =>
      refine ⟨fun name => ?_, fun address => ?_⟩
      · change (h.removeDevice nodeId).names.target name ≠ some nodeId
        rw [names_removeDevice]
        exact Index.target_remove_ne hnames
      · change (h.removeDevice nodeId).addresses.target address ≠ some nodeId
        rw [addresses_removeDevice]
        exact Index.target_remove_ne haddresses
  | _ => trivial

end Steps

theorem act_iff {h : AddressRotationHandler} (hinv : h.MutuallyInverse) (action : Action) :
    (h.act action).MutuallyInverse ∧ h.RemovesWholly action ↔ h.TakesFree action := by
  rw [and_iff_left (removesWholly hinv action)]
  cases action with
  | register name address nodeId => exact registerDevice_iff hinv name address nodeId
  | discovered name address => exact onDeviceDiscovered_iff hinv name address
  | address name newAddress => exact updateAddress_iff hinv name newAddress
  | name nodeId newName => exact updateName_iff hinv nodeId newName
  | remove nodeId => exact iff_of_true (removeDevice_mutuallyInverse hinv nodeId) trivial
  | clear => exact iff_of_true new_mutuallyInverse trivial

/-- The maps stay inverse of each other, and whoever is removed is gone, all along a run exactly if
every step takes only what is free. -/
theorem mutuallyInverse_iff_takesFree (actions : List Action) :
    (∀ front, front <+: actions → (LoggedRun.run act new front).MutuallyInverse) ∧
        LoggedRun.Along act RemovesWholly new actions ↔
      LoggedRun.Along act TakesFree new actions :=
  @LoggedRun.forall_step_iff_along _ _ act (fun _ => True) MutuallyInverse RemovesWholly TakesFree
    new actions trivial new_mutuallyInverse (fun _ _ _ => trivial)
    (fun _ action _ hinv => act_iff hinv action)

/-- A device comes to an address that another one had. -/
def takenOver : List Action :=
  [.register "WEAROS-ABCD" "AA:BB:CC:DD:EE:01" 0x11111111,
    .register "WEAROS-EFGH" "AA:BB:CC:DD:EE:02" 0x22222222,
    .discovered "WEAROS-EFGH" "AA:BB:CC:DD:EE:01"]

/-- The other one still counts it as its own. When that one is removed, the address goes, though
the device that has it stays. -/
theorem takenOver_not_mutuallyInverse :
    let h := LoggedRun.run act new takenOver
    h.getAddress 0x11111111 = some "AA:BB:CC:DD:EE:01" ∧
      h.lookupByAddress "AA:BB:CC:DD:EE:01" = some 0x22222222 ∧
      (h.removeDevice 0x11111111).lookupByAddress "AA:BB:CC:DD:EE:01" = none ∧
      (h.removeDevice 0x11111111).getAddress 0x22222222 = some "AA:BB:CC:DD:EE:01" ∧
      ¬ h.MutuallyInverse := by
  have hown : (LoggedRun.run act new takenOver).getAddress 0x11111111 =
    some "AA:BB:CC:DD:EE:01" := by decide +kernel
  have hother : (LoggedRun.run act new takenOver).lookupByAddress "AA:BB:CC:DD:EE:01" =
    some 0x22222222 := by decide +kernel
  refine ⟨hown, hother, by decide +kernel, by decide +kernel, fun hinv => ?_⟩
  have hback := (hinv.address _ _).mpr hown
  rw [hother] at hback
  cases hback

end AddressRotationHandler

end PeatBtle
