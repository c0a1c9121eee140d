import PeatBtle.PeerManager
import PeatBtle.Wire.Parts

/-!
# Device names

A node advertises a name of its mesh and its identifier with a hyphen in between. One
parser takes the first hyphen for it and the other one the last.
-/

namespace PeatBtle

open Wire

structure MeshConfig where
  meshId : String
deriving DecidableEq

namespace MeshConfig

def deviceName (c : MeshConfig) (nodeId : NodeId) : String :=
  "PEAT_" ++ c.meshId ++ "-" ++ hex08 nodeId

/-- A name of the older form has no mesh. -/
def parseDeviceName (name : String) : Option (Option String × NodeId) :=
  match stripPrefix "PEAT_".toList name.toList with
  | some rest => do
      let (meshId, nodeIdStr) ← splitOnce '-' rest
      let nodeId ← parseHex nodeIdStr
      some (some (String.ofList meshId), nodeId)
  | none =>
      match stripPrefix "PEAT-".toList name.toList with
      | some nodeIdStr => do
          let nodeId ← parseHex nodeIdStr
          some (none, nodeId)
      | none => none

end MeshConfig

/-! ## Hexadecimal digits and their values -/

theorem hexDigit_facts : ∀ d : Fin 16, (hexDigit d).utf8Size = 1 ∧ hexDigit d ≠ '+' ∧
    hexDigit d ≠ '-' ∧ hexValue (hexDigit d) = some d.val := by
  decide

theorem of_mem_hexDigits {c : Char} {width n : Nat} (h : c ∈ hexDigits width n) :
    c.utf8Size = 1 ∧ c ≠ '+' ∧ c ≠ '-' := by
  induction width generalizing n with
  | zero => cases h
  | succ width ih =>
      rcases List.mem_append.mp h with hhigh | hlow
      · exact ih hhigh
      · obtain ⟨hsize, hplus, hminus, -⟩ := hexDigit_facts ⟨n % 16, Nat.mod_lt n (by decide)⟩
        rw [List.mem_singleton.mp hlow]
        exact ⟨hsize, hplus, hminus⟩

theorem foldlM_hexDigits {width n : Nat} (hn : n < 16 ^ width) :
    (hexDigits width n).foldlM (fun acc c => (hexValue c).map fun d => acc * 16 + d) 0 =
      some n := by
  induction width generalizing n with
  | zero =>
      have hzero : n = 0 := by simpa using hn
      rw [hzero]
      rfl
  | succ width ih =>
      have hhigh : n / 16 < 16 ^ width := by
        rw [Nat.pow_succ] at hn
        omega
      obtain ⟨-, -, -, hvalue⟩ := hexDigit_facts ⟨n % 16, Nat.mod_lt n (by decide)⟩
      rw [hexDigits, List.foldlM_append, ih hhigh]
      simp only [Option.bind_eq_bind, Option.bind_some, List.foldlM_cons, List.foldlM_nil, hvalue,
        Option.map_some]
      exact congrArg some (by omega)

/-- What is written with eight digits is read back. -/
theorem parseHex_hexDigits (v : UInt32) : parseHex (hexDigits 8 v.toNat) = some v := by
  have hne : hexDigits 8 v.toNat ≠ [] := by
    rw [← List.length_pos_iff, hexDigits_length]
    decide
  have hhead : (hexDigits 8 v.toNat).head? ≠ some '+' := fun h =>
    (of_mem_hexDigits (List.mem_of_head? h)).2.1 rfl
  have hlt : v.toNat < 2 ^ 32 := v.toNat_lt
  have hvalue := @foldlM_hexDigits 8 v.toNat (by omega)
  have hback : UInt32.ofNat v.toNat = v := UInt32.ofNat_toNat
  unfold parseHex
  simp only [if_neg hhead, List.isEmpty_iff, if_neg hne, hvalue, Option.bind_eq_bind,
    Option.bind_some, if_pos hlt, hback]

theorem hexValue_of_foldlM {digits : List Char} {start value : Nat}
    (h : digits.foldlM (fun acc c => (hexValue c).map fun d => acc * 16 + d) start = some value) :
    ∀ c ∈ digits, (hexValue c).isSome = true := by
  induction digits generalizing start with
  | nil => exact fun c hc => absurd hc List.not_mem_nil
  | cons first digits ih =>
      rw [List.foldlM_cons] at h
      obtain ⟨acc, hfirst, hrest⟩ := Option.bind_eq_some_iff.mp h
      obtain ⟨d, hd, -⟩ := Option.map_eq_some_iff.mp hfirst
      intro c hc
      rcases List.mem_cons.mp hc with rfl | hc
      · rw [hd]
        rfl
      · exact ih hrest c hc

/-- All that follows a leading plus sign are digits. -/
theorem hexValue_of_parseHex {chars : List Char} {v : UInt32} (h : parseHex chars = some v) :
    ∀ c ∈ (if chars.head? = some '+' then chars.tail else chars),
      (hexValue c).isSome = true := by
  unfold parseHex at h
  dsimp only at h
  generalize (if chars.head? = some '+' then chars.tail else chars) = digits at h ⊢
  by_cases hempty : digits.isEmpty = true
  · rw [if_pos hempty] at h
    cases h
  · rw [if_neg hempty] at h
    obtain ⟨value, hvalue, -⟩ := Option.bind_eq_some_iff.mp h
    exact hexValue_of_foldlM hvalue

/-- A hyphen is no part of a number. -/
theorem not_mem_of_parseHex {chars : List Char} {v : UInt32} (h : parseHex chars = some v) :
    '-' ∉ chars := by
  have hdigits := hexValue_of_parseHex h
  intro hmem
  by_cases hplus : chars.head? = some '+'
  · rw [if_pos hplus] at hdigits
    obtain ⟨digits, rfl⟩ := List.head?_eq_some_iff.mp hplus
    rcases List.mem_cons.mp hmem with heq | hrest
    · cases heq
    · exact absurd (hdigits '-' hrest) (by decide)
  · rw [if_neg hplus] at hdigits
    exact absurd (hdigits '-' hmem) (by decide)

theorem utf8_ofList (chars : List Char) :
    utf8 (String.ofList chars) = chars.flatMap String.utf8EncodeChar := by
  rw [utf8, String.toByteArray_ofList, List.utf8Encode]
  simp

theorem utf8_hexDigits_length (width n : Nat) :
    (utf8 (String.ofList (hexDigits width n))).length = width := by
  rw [utf8_ofList, List.length_flatMap]
  have hone : (hexDigits width n).map (fun c => (String.utf8EncodeChar c).length) =
      (hexDigits width n).map fun _ => 1 := by
    refine List.map_congr_left fun c hc => ?_
    rw [String.length_utf8EncodeChar]
    exact (of_mem_hexDigits hc).1
  rw [hone]
  simp

/-! ## Names and their parts -/

variable {name : String} {front chars : List Char} {nodeId : NodeId}

/-- The identifier behind the last hyphen. -/
theorem parseNodeIdFromName_append (hname : name.toList = front ++ '-' :: chars)
    (hchars : '-' ∉ chars) :
    parseNodeIdFromName (some name) =
      if (utf8 (String.ofList chars)).length ≠ 8 then none else parseHex chars := by
  have hmem : '-' ∈ name.toList := by
    rw [hname]
    exact List.mem_append_right _ List.mem_cons_self
  have hlast := lastPart_append front hchars
  unfold lastPart at hlast
  rw [← hname] at hlast
  simp only [parseNodeIdFromName, Option.bind_eq_bind, Option.bind_some, if_pos hmem, hlast]

/-- A name that is parsed ends in the number behind its last hyphen. -/
theorem of_parseDeviceName {meshId : Option String}
    (h : MeshConfig.parseDeviceName name = some (meshId, nodeId)) :
    ∃ front chars, name.toList = front ++ '-' :: chars ∧ parseHex chars = some nodeId := by
  unfold MeshConfig.parseDeviceName at h
  split at h
  · rename_i rest hrest
    obtain ⟨⟨mesh, nodeIdStr⟩, hparts, hnode⟩ := Option.bind_eq_some_iff.mp h
    obtain ⟨number, hnumber, heq⟩ := Option.bind_eq_some_iff.mp hnode
    obtain ⟨-, rfl⟩ := Prod.mk.inj (Option.some.inj heq)
    obtain ⟨rfl, -⟩ := of_splitOnce hparts
    refine ⟨"PEAT_".toList ++ mesh, nodeIdStr, ?_, hnumber⟩
    rw [of_stripPrefix hrest, List.append_assoc]
  · split at h
    · rename_i nodeIdStr hrest
      obtain ⟨number, hnumber, heq⟩ := Option.bind_eq_some_iff.mp h
      obtain ⟨-, rfl⟩ := Prod.mk.inj (Option.some.inj heq)
      refine ⟨"PEAT".toList, nodeIdStr, ?_, hnumber⟩
      rw [of_stripPrefix hrest]
      rfl
    · cases h

/-- Where both parsers find an identifier, they find the same. -/
theorem parsers_agree {meshId : Option String} {other : NodeId}
    (h : MeshConfig.parseDeviceName name = some (meshId, nodeId))
    (hother : parseNodeIdFromName (some name) = some other) : nodeId = other := by
  obtain ⟨front, chars, hname, hnumber⟩ := of_parseDeviceName h
  rw [parseNodeIdFromName_append hname (not_mem_of_parseHex hnumber)] at hother
  split at hother
  · cases hother
  · exact Option.some.inj (hnumber.symm.trans hother)

theorem toList_deviceName (c : MeshConfig) (nodeId : NodeId) :
    (c.deviceName nodeId).toList =
      "PEAT_".toList ++ (c.meshId.toList ++ '-' :: hexDigits 8 nodeId.toNat) := by
  simp [MeshConfig.deviceName, hex08]

theorem hyphen_not_mem_hexDigits (width n : Nat) : '-' ∉ hexDigits width n := fun h =>
  (of_mem_hexDigits h).2.2 rfl

/-- The last hyphen is the right one, whatever the mesh is called. -/
theorem parseNodeIdFromName_deviceName (c : MeshConfig) (nodeId : NodeId) :
    parseNodeIdFromName (some (c.deviceName nodeId)) = some nodeId := by
  have hname : (c.deviceName nodeId).toList =
      ("PEAT_".toList ++ c.meshId.toList) ++ '-' :: hexDigits 8 nodeId.toNat := by
    rw [toList_deviceName, List.append_assoc]
  rw [parseNodeIdFromName_append hname (hyphen_not_mem_hexDigits 8 _),
    if_neg (by rw [utf8_hexDigits_length]; decide), parseHex_hexDigits]

/-- The first hyphen is the right one unless the name of the mesh has one. -/
theorem parseDeviceName_deviceName_iff (c : MeshConfig) (nodeId : NodeId) :
    MeshConfig.parseDeviceName (c.deviceName nodeId) = some (some c.meshId, nodeId) ↔
      '-' ∉ c.meshId.toList := by
  have hstrip : stripPrefix "PEAT_".toList (c.deviceName nodeId).toList =
      some (c.meshId.toList ++ '-' :: hexDigits 8 nodeId.toNat) := by
    rw [toList_deviceName, stripPrefix_append]
  unfold MeshConfig.parseDeviceName
  rw [hstrip]
  dsimp only
  constructor
  · intro h
    obtain ⟨⟨mesh, nodeIdStr⟩, hparts, hnode⟩ := Option.bind_eq_some_iff.mp h
    obtain ⟨number, -, heq⟩ := Option.bind_eq_some_iff.mp hnode
    obtain ⟨hmesh, -⟩ := Prod.mk.inj (Option.some.inj heq)
    obtain ⟨-, hfree⟩ := of_splitOnce hparts
    rw [← Option.some.inj hmesh, String.toList_ofList]
    exact hfree
  · intro hfree
    rw [splitOnce_append hfree]
    simp only [Option.bind_eq_bind, Option.bind_some, parseHex_hexDigits, String.ofList_toList]

/-- The name of a node leads both parsers back to it exactly if its mesh has no hyphen in its
name; and on every name, what both parsers find is the same. -/
theorem device_names_unambiguous_iff (c : MeshConfig) (nodeId : NodeId) :
    (MeshConfig.parseDeviceName (c.deviceName nodeId) = some (some c.meshId, nodeId) ∧
      parseNodeIdFromName (some (c.deviceName nodeId)) = some nodeId ∧
      ∀ name meshId node other, MeshConfig.parseDeviceName name = some (meshId, node) →
        parseNodeIdFromName (some name) = some other → node = other) ↔
      '-' ∉ c.meshId.toList := by
  rw [← parseDeviceName_deviceName_iff c nodeId]
  constructor
  · exact And.left
  · exact fun h => ⟨h, parseNodeIdFromName_deviceName c nodeId,
      fun _ _ _ _ hparsed hother => parsers_agree hparsed hother⟩

/-- A mesh whose name has a hyphen: the node cannot be discovered by the name that it advertises. -/
theorem device_name_of_hyphenated_mesh :
    MeshConfig.parseDeviceName (MeshConfig.deviceName ⟨"TEST-MESH"⟩ 0x12345678) ≠
      some (some "TEST-MESH", 0x12345678) := by
  decide

end PeatBtle
