import PeatBtle.Security.IdentityRegistry
import PeatBtle.Security.Signing

/-!
# Enrollment

An authority issues tokens, and signs other things with the same key. Tokens travel as
bytes through hands that may keep, change or invent them; every node has a registry that
takes what it is shown. A callsign in a registry is the authority's word all the same.
-/

namespace PeatBtle

open Std Wire MapMerge

namespace IdentityRecord

def callsignStr (record : IdentityRecord) : Option String :=
  record.callsign.map fun callsign =>
    (fromUtf8 (callsign.toList.take (callsign.toList.findIdx (· == 0)))).getD ""

/-- An expiry of zero is no expiry, and a record without a token has none. -/
def isTokenExpired (record : IdentityRecord) (nowMs : UInt64) : Bool :=
  match record.tokenExpiresMs with
  | none => false
  | some expires => expires != 0 && decide (nowMs > expires)

end IdentityRecord

namespace IdentityRegistry

def isKnown (r : IdentityRegistry) (nodeId : NodeId) : Bool := r.known[nodeId]?.isSome

def getCallsign (r : IdentityRegistry) (nodeId : NodeId) : Option String :=
  r.known[nodeId]?.bind IdentityRecord.callsignStr

end IdentityRegistry

/-! ## Issued tokens -/

theorem parseHexByte_hexDigits (byte : UInt8) :
    parseHexByte (hexDigits 2 byte.toNat) = some byte := by
  have hdigits : byte.toNat < 16 ^ 2 := byte.toNat_lt
  have hbyte : byte.toNat < 2 ^ 8 := byte.toNat_lt
  have hne : hexDigits 2 byte.toNat ≠ [] := by
    rw [← List.length_pos_iff, hexDigits_length]
    decide
  have hhead : (hexDigits 2 byte.toNat).head? ≠ some '+' := fun h =>
    (of_mem_hexDigits (List.mem_of_head? h)).2.1 rfl
  have hword : (UInt32.ofNat byte.toNat).toNat = byte.toNat := by
    rw [UInt32.toNat_ofNat']
    exact Nat.mod_eq_of_lt (by omega)
  unfold parseHexByte parseHex
  simp only [if_neg hhead, List.isEmpty_iff, if_neg hne, foldlM_hexDigits hdigits,
    Option.bind_eq_bind, Option.bind_some]
  rw [if_pos (by omega), Option.bind_some, hword, if_pos hbyte, UInt8.ofNat_toNat]

theorem slice_flatMap {α : Type} {write : α → Bytes} {width : Nat}
    (hwidth : ∀ a, (write a).length = width) {items : List α} {i : Nat} (hi : i < items.length) :
    slice (items.flatMap write) (width * i) (width * i + width) = write items[i] := by
  induction items generalizing i with
  | nil => cases hi
  | cons item items ih =>
      rw [List.flatMap_cons]
      cases i with
      | zero =>
          rw [Nat.mul_zero, Nat.zero_add]
          exact slice_append_left (hwidth item)
      | succ i =>
          rw [slice_skip (by rw [hwidth, Nat.mul_succ]; omega), hwidth,
            show width * (i + 1) - width = width * i by rw [Nat.mul_succ, Nat.add_sub_cancel],
            show width * (i + 1) + width - width = width * i + width by
              rw [Nat.add_sub_cancel, Nat.mul_succ],
            List.getElem_cons_succ]
          exact ih (Nat.lt_of_succ_lt_succ hi)

theorem utf8_flatMap_hexDigits (bytes : Bytes) :
    utf8 (String.ofList (bytes.flatMap fun byte => hexDigits 2 byte.toNat)) =
      bytes.flatMap fun byte => utf8 (String.ofList (hexDigits 2 byte.toNat)) := by
  induction bytes with
  | nil => rfl
  | cons byte bytes ih =>
      rw [List.flatMap_cons, String.ofList_append, utf8_append, ih, List.flatMap_cons]

namespace MembershipToken

/-- The identifier of a mesh is read from its own text. -/
theorem meshIdBytes_hex (id : Vector UInt8 meshIdSize) :
    meshIdBytes (String.ofList (id.toList.flatMap fun byte => hexDigits 2 byte.toNat)) = id := by
  have hwidth : ∀ byte : UInt8, (utf8 (String.ofList (hexDigits 2 byte.toNat))).length = 2 :=
    fun byte => utf8_hexDigits_length 2 _
  have hlength : (utf8 (String.ofList
      (id.toList.flatMap fun byte => hexDigits 2 byte.toNat))).length = 8 := by
    have hfour : id.toList.length = 4 := Vector.length_toList
    rw [utf8_flatMap_hexDigits, List.length_flatMap, List.map_congr_left fun byte _ => hwidth byte,
      List.map_const', List.sum_replicate_nat, hfour]
  rw [meshIdBytes, if_pos hlength, utf8_flatMap_hexDigits]
  ext i hi
  rw [Vector.getElem_ofFn]
  dsimp only
  rw [slice_flatMap hwidth (by simpa using hi), fromUtf8_utf8, Option.getD_some,
    String.toList_ofList, parseHexByte_hexDigits, Option.getD_some, Vector.getElem_toList]

theorem meshIdBytes_meshId (crypto : GenesisCrypto) (genesis : MeshGenesis) :
    String.ofList ((meshIdBytes (genesis.meshId crypto)).toList.flatMap fun byte =>
      hexDigits 2 byte.toNat) = genesis.meshId crypto := by
  have hfront : (crypto.keyedHash genesis.meshSeed (utf8 genesis.meshName)).toList.take 4 =
      (vectorAt meshIdSize (crypto.keyedHash genesis.meshSeed
        (utf8 genesis.meshName)).toList 0).toList :=
    (toList_vectorAt_zero (by simp)).symm
  rw [MeshGenesis.meshId, hfront, meshIdBytes_hex]

theorem callsign_text {callsign : CallsignBytes} {name : String}
    (hcallsign : callsign = vectorAt maxCallsignLen (utf8 name) 0)
    (hshort : (utf8 name).length ≤ maxCallsignLen) (hnul : 0 ∉ utf8 name) :
    (fromUtf8 (callsign.toList.take (callsign.toList.findIdx (· == 0)))).getD "" = name := by
  have hlist : callsign.toList =
      utf8 name ++ List.replicate (maxCallsignLen - (utf8 name).length) 0 := by
    rw [hcallsign, toList_vectorAt, List.take_of_length_le hshort]
  have hidx : callsign.toList.findIdx (· == 0) = (utf8 name).length := by
    have hnone : (utf8 name).findIdx (· == 0) = (utf8 name).length := by
      refine List.findIdx_eq_length.mpr fun byte hbyte => ?_
      simpa using ne_of_mem_of_not_mem hbyte hnul
    rw [hlist, List.findIdx_append, hnone, if_neg (Nat.lt_irrefl _)]
    cases hrest : maxCallsignLen - (utf8 name).length with
    | zero => simp
    | succ n => simp [List.replicate_succ, List.findIdx_cons]
  rw [hidx, hlist, List.take_left, fromUtf8_utf8, Option.getD_some]

end MembershipToken

/-- A token that verifies is taken until its term runs out, by a registry without another key for
its member. -/
theorem IdentityRegistry.registerMember_of_verify {crypto : IdentityCrypto}
    {t : MembershipToken} {authority : PublicKey} (hverify : t.verify crypto authority = true)
    (r : IdentityRegistry) (nowMs : UInt64) :
    if t.isExpired nowMs = false ∧
        ∀ key ∈ r.getPublicKey (crypto.nodeIdFromPublicKey t.publicKey), key = t.publicKey then
      r.registerMember crypto t authority nowMs =
        ({ r with
            known := r.known.insert (crypto.nodeIdFromPublicKey t.publicKey)
              ⟨t.publicKey, nowMs, nowMs, 1, some t.callsign, some t.expiresAtMs⟩ },
          .ok (crypto.nodeIdFromPublicKey t.publicKey))
    else (r.registerMember crypto t authority nowMs).1 = r := by
  have hother : (r.known[crypto.nodeIdFromPublicKey t.publicKey]?.any fun existing =>
      decide (existing.publicKey ≠ t.publicKey)) = true ↔
        ¬ ∀ key ∈ r.getPublicKey (crypto.nodeIdFromPublicKey t.publicKey), key = t.publicKey := by
    unfold IdentityRegistry.getPublicKey
    cases r.known[crypto.nodeIdFromPublicKey t.publicKey]? with
    | none => simp
    | some existing => simp
  unfold IdentityRegistry.registerMember
  rw [if_pos hverify]
  by_cases hexpired : t.isExpired nowMs = true
  · have hterm : t.isExpired nowMs ≠ false := ne_of_eq_of_ne hexpired (by decide)
    rw [if_neg fun h => hterm h.1, if_pos hexpired]
  · rw [if_neg hexpired]
    dsimp only
    by_cases hkey : ∀ key ∈ r.getPublicKey (crypto.nodeIdFromPublicKey t.publicKey),
        key = t.publicKey
    · rw [if_pos ⟨by simpa using hexpired, hkey⟩, if_neg fun h => hother.mp h hkey]
    · rw [if_neg fun h => hkey h.2, if_pos (hother.mpr hkey)]

/-- A signature verifies under the public key that belongs to the signing key. -/
def SigningCrypto.Signs (crypto : SigningCrypto) : Prop :=
  ∀ key message, crypto.verifySignature (crypto.publicKey key) message (crypto.sign key message) =
    true

theorem MembershipToken.verify_of_issueAt {crypto : SigningCrypto} (hsigns : crypto.Signs)
    {authority : DeviceIdentity} {meshId : Vector UInt8 meshIdSize} {member : PublicKey}
    {name : String} {issuedAtMs expiresAtMs : UInt64} {token : MembershipToken}
    (hissue : issueAt crypto authority meshId member name issuedAtMs expiresAtMs = some token) :
    token.verify crypto.toIdentityCrypto (authority.publicKey crypto.toGenesisCrypto) = true := by
  unfold issueAt at hissue
  split at hissue
  · obtain rfl := Option.some.inj hissue
    exact hsigns _ _
  · cases hissue

/-- What an issued token says. -/
theorem MembershipToken.fields_of_issueAt {crypto : SigningCrypto} {authority : DeviceIdentity}
    {meshId : Vector UInt8 meshIdSize} {member : PublicKey} {name : String}
    {issuedAtMs expiresAtMs : UInt64} {token : MembershipToken}
    (hissue : issueAt crypto authority meshId member name issuedAtMs expiresAtMs = some token) :
    (utf8 name).length ≤ maxCallsignLen ∧ token.signedFields =
      (member, meshId, vectorAt maxCallsignLen (utf8 name) 0, issuedAtMs, expiresAtMs) := by
  unfold issueAt at hissue
  split at hissue
  · rename_i hshort
    obtain rfl := Option.some.inj hissue
    exact ⟨hshort, rfl⟩
  · cases hissue

/-- A term that is not zero ends at a time that is not zero. -/
theorem isExpired_of_validity {t : MembershipToken} {nowMs validityMs : UInt64}
    (hexpires : t.expiresAtMs = if validityMs = 0 then 0 else saturatingAdd nowMs validityMs)
    (later : UInt64) :
    t.isExpired later = false ↔ validityMs = 0 ∨ later ≤ saturatingAdd nowMs validityMs := by
  rw [MembershipToken.isExpired, hexpires]
  by_cases hzero : validityMs = 0
  · simp [hzero]
  · have hpos : 0 < validityMs.toNat := by
      rw [Nat.pos_iff_ne_zero]
      exact fun h => hzero (UInt64.toNat_inj.mp h)
    have hends : saturatingAdd nowMs validityMs ≠ 0 := by
      intro h
      have hnat := congrArg UInt64.toNat h
      rw [toNat_saturatingAdd] at hnat
      simp at hnat
      omega
    simp [hzero, hends]

/-- An issued token crosses the wire unchanged, names its mesh and its callsign, and enrols its
member with every registry that knows no other key for it, until its term runs out; after that,
and against another key, it changes nothing. -/
theorem issued_token_enrols {crypto : SigningCrypto} (hsigns : crypto.Signs)
    {authority : DeviceIdentity} {genesis : MeshGenesis} {member : PublicKey} {name : String}
    {validityMs nowMs : UInt64} {token : MembershipToken}
    (hissue : MembershipToken.issue crypto authority genesis member name validityMs nowMs =
      some token) :
    MembershipToken.decode token.encode = some token ∧
      token.meshIdHex = genesis.meshId crypto.toGenesisCrypto ∧
      (0 ∉ utf8 name → token.callsignStr = name) ∧
      ∀ (r : IdentityRegistry) (later : UInt64),
        let id := crypto.nodeIdFromPublicKey member
        let outcome := r.registerMember crypto.toIdentityCrypto token
          (authority.publicKey crypto.toGenesisCrypto) later
        if (validityMs = 0 ∨ later ≤ saturatingAdd nowMs validityMs) ∧
            ∀ key ∈ r.getPublicKey id, key = member then
          outcome.2 = .ok id ∧ outcome.1.getPublicKey id = some member ∧
            outcome.1.getCallsign id = some token.callsignStr
        else outcome.1 = r := by
  have hverify := MembershipToken.verify_of_issueAt hsigns hissue
  obtain ⟨hshort, hfields⟩ := MembershipToken.fields_of_issueAt hissue
  simp only [MembershipToken.signedFields, Prod.mk.injEq] at hfields
  obtain ⟨rfl, hmesh, hcallsign, -, hexpires⟩ := hfields
  refine ⟨MembershipToken.decode_eq_some_iff.mpr rfl, ?_, fun hnul => ?_, fun r later => ?_⟩
  · rw [MembershipToken.meshIdHex, hmesh]
    exact MembershipToken.meshIdBytes_meshId crypto.toGenesisCrypto genesis
  · exact MembershipToken.callsign_text hcallsign hshort hnul
  · have hregister := r.registerMember_of_verify hverify later
    have hterm := isExpired_of_validity hexpires later
    dsimp only
    split
    · rename_i htaken
      rw [if_pos ⟨hterm.mpr htaken.1, htaken.2⟩] at hregister
      rw [hregister]
      refine ⟨rfl, ?_, ?_⟩
      · rw [IdentityRegistry.getPublicKey, ExtTreeMap.getElem?_insert_self]
        rfl
      · rw [IdentityRegistry.getCallsign, ExtTreeMap.getElem?_insert_self]
        rfl
    · rename_i hrefused
      rwa [if_neg fun h => hrefused ⟨hterm.mp h.1, h.2⟩] at hregister

/-- Every signature verifies. -/
def SigningCrypto.transparent : SigningCrypto where
  toGenesisCrypto := .transparent
  sign := fun _ _ => Vector.replicate 64 0

def alphaGenesis : MeshGenesis :=
  ⟨"ALPHA", Vector.replicate 32 9, ⟨Vector.replicate 32 7⟩, 5, .openMesh⟩

/-- A token without a term, issued by the founder of a mesh. -/
theorem alpha_enrols :
    ∃ token : MembershipToken, MembershipToken.issue .transparent alphaGenesis.creatorIdentity
        alphaGenesis (Vector.replicate 32 3) "ALPHA-1" 0 1000 = some token ∧
      MembershipToken.decode token.encode = some token ∧ token.callsignStr = "ALPHA-1" :=
  have henrols := @issued_token_enrols .transparent (fun _ _ => rfl) alphaGenesis.creatorIdentity
    alphaGenesis (Vector.replicate 32 3) "ALPHA-1" 0 1000 _ rfl
  ⟨_, rfl, henrols.1, henrols.2.2.1 (by decide)⟩

/-! ## The system -/

/-- One authority for any number of nodes. -/
structure Enrollment where
  crypto : SigningCrypto
  authority : DeviceIdentity

namespace Enrollment

/-- What the authority signs. A signed payload is a marker followed by the payload, and the
application may have anything signed. -/
inductive Deed where
  | issued (token : MembershipToken)
  | attested (attestation : IdentityAttestation)
  | signed (message : Bytes)

def Deed.message : Deed → Bytes
  | .issued token => token.signableBytes
  | .attested attestation => attestation.signedMessage
  | .signed message => message

variable (E : Enrollment) {ι : Type}

def authorityKey : PublicKey := E.authority.publicKey E.crypto.toGenesisCrypto

structure State (ι : Type) where
  registry : ι → IdentityRegistry
  deeds : List Deed

inductive Action (ι : Type) where
  | issueAt (meshId : Vector UInt8 meshIdSize) (memberPublicKey : PublicKey) (callsign : String)
      (issuedAtMs expiresAtMs : UInt64)
  | createAttestation (timestampMs : UInt64)
  | sign (message : Bytes)
  | presentToken (node : ι) (data : Bytes) (nowMs : UInt64)
  | presentAttestation (node : ι) (data : Bytes)
  | preRegister (node : ι) (nodeId : NodeId) (publicKey : PublicKey) (nowMs : UInt64)
  | remove (node : ι) (nodeId : NodeId)
  | clear (node : ι)

def start (capacity : ι → Nat) : State ι := ⟨fun i => .withCapacity (capacity i), []⟩

/-- What the authority signs in a step. -/
def deed : Action ι → Option Deed
  | .issueAt meshId memberPublicKey callsign issuedAtMs expiresAtMs =>
      (MembershipToken.issueAt E.crypto E.authority meshId memberPublicKey callsign issuedAtMs
        expiresAtMs).map .issued
  | .createAttestation timestampMs => some (.attested (E.authority.createAttestation E.crypto
      timestampMs))
  | .sign message => some (.signed message)
  | _ => none

/-- What a node makes of what it is shown or told. -/
def handle (r : IdentityRegistry) : Action ι → IdentityRegistry
  | .presentToken _ data nowMs =>
      match MembershipToken.decode data with
      | none => r
      | some token => (r.registerMember E.crypto.toIdentityCrypto token E.authorityKey nowMs).1
  | .presentAttestation _ data =>
      match IdentityAttestation.decode data with
      | none => r
      | some attestation => (r.verifyOrRegister E.crypto.toIdentityCrypto attestation).1
  | .preRegister _ nodeId publicKey nowMs => r.preRegister nodeId publicKey nowMs
  | .remove _ nodeId => r.remove nodeId
  | .clear _ => r.clear
  | _ => r

def Action.node? : Action ι → Option ι
  | .presentToken node _ _ | .presentAttestation node _ | .preRegister node _ _ _
  | .remove node _ | .clear node => some node
  | _ => none

variable [DecidableEq ι]

def step (s : State ι) (action : Action ι) : State ι where
  registry i := if action.node? = some i then E.handle (s.registry i) action else s.registry i
  deeds := s.deeds ++ (E.deed action).toList

def run (s : State ι) (actions : List (Action ι)) : State ι := LoggedRun.run E.step s actions

/-! ## Registries -/

section Registries

variable {crypto : IdentityCrypto} {r : IdentityRegistry} {id : NodeId} {record : IdentityRecord}

/-- A record was there before, or a token that verifies and has not expired put it there. -/
theorem known_registerMember {t : MembershipToken} {authority : PublicKey} {nowMs : UInt64}
    (h : (r.registerMember crypto t authority nowMs).1.known[id]? = some record) :
    r.known[id]? = some record ∨ t.verify crypto authority = true ∧ t.isExpired nowMs = false ∧
      id = crypto.nodeIdFromPublicKey t.publicKey ∧
      record = ⟨t.publicKey, nowMs, nowMs, 1, some t.callsign, some t.expiresAtMs⟩ := by
  unfold IdentityRegistry.registerMember at h
  split at h
  · rename_i hverify
    split at h
    · exact Or.inl h
    · rename_i hterm
      dsimp only at h
      split at h
      · exact Or.inl h
      · dsimp only at h
        rw [getElem?_insert_eq] at h
        split at h
        · rename_i heq
          exact Or.inr ⟨hverify, by simpa using hterm, heq.symm, (Option.some.inj h).symm⟩
        · exact Or.inl h
  · exact Or.inl h

/-- What an attestation leaves under an identifier: a record without a callsign, or the old one as
far as its key, its first sight and its token go. -/
theorem known_verifyOrRegister {a : IdentityAttestation} {callsign : CallsignBytes}
    (h : (r.verifyOrRegister crypto a).1.known[id]? = some record)
    (hcallsign : record.callsign = some callsign) :
    ∃ old, r.known[id]? = some old ∧ old.publicKey = record.publicKey ∧
      old.firstSeenMs = record.firstSeenMs ∧ old.callsign = record.callsign ∧
      old.tokenExpiresMs = record.tokenExpiresMs := by
  have hkept : r.known[id]? = some record → ∃ old, r.known[id]? = some old ∧
      old.publicKey = record.publicKey ∧ old.firstSeenMs = record.firstSeenMs ∧
      old.callsign = record.callsign ∧ old.tokenExpiresMs = record.tokenExpiresMs :=
    fun h => ⟨record, h, rfl, rfl, rfl, rfl⟩
  unfold IdentityRegistry.verifyOrRegister IdentityRegistry.verifyOrRegisterAt at h
  split at h
  · dsimp only at h
    split at h
    · rename_i old hold
      split at h
      · dsimp only at h
        rw [getElem?_insert_eq] at h
        split at h
        · rename_i heq
          obtain rfl := Option.some.inj h
          exact ⟨old, heq ▸ hold, rfl, rfl, rfl, rfl⟩
        · exact hkept h
      · exact hkept h
    · dsimp only at h
      rw [getElem?_insert_eq] at h
      split at h
      · obtain rfl := Option.some.inj h
        cases hcallsign
      · exact hkept h
  · exact hkept h

end Registries

/-! ## Runs -/

variable {E} {s : State ι}

/-- The authority signed what the token says. -/
def Backs (deeds : List Deed) (t : MembershipToken) : Prop :=
  ∃ deed ∈ deeds, deed.message = t.signableBytes

/-- A token that verifies though the authority did not sign it. -/
def Forges (E : Enrollment) (s : State ι) : Action ι → Prop
  | .presentToken _ data _ => ∃ t, MembershipToken.decode data = some t ∧
      t.verify E.crypto.toIdentityCrypto E.authorityKey = true ∧ ¬ Backs s.deeds t
  | _ => False

/-- A callsign was on a token that the authority backs and that was valid when it was shown. -/
structure Authorised (E : Enrollment) (deeds : List Deed) (id : NodeId) (record : IdentityRecord)
    (callsign : CallsignBytes) : Prop where
  derived : id = E.crypto.nodeIdFromPublicKey record.publicKey
  backed : ∃ t, Backs deeds t ∧ t.publicKey = record.publicKey ∧ t.callsign = callsign ∧
    record.tokenExpiresMs = some t.expiresAtMs ∧ t.isExpired record.firstSeenMs = false

def Sound (E : Enrollment) (s : State ι) : Prop :=
  ∀ i id record callsign, (s.registry i).known[id]? = some record →
    record.callsign = some callsign → Authorised E s.deeds id record callsign

omit [DecidableEq ι] in
theorem Authorised.append {deeds : List Deed} {id : NodeId} {record : IdentityRecord}
    {callsign : CallsignBytes} (h : Authorised E deeds id record callsign) (more : List Deed) :
    Authorised E (deeds ++ more) id record callsign where
  derived := h.derived
  backed := by
    obtain ⟨t, ⟨deed, hdeed, hmessage⟩, hrest⟩ := h.backed
    exact ⟨t, ⟨deed, List.mem_append_left _ hdeed, hmessage⟩, hrest⟩

omit [DecidableEq ι] in
theorem Sound.handle (h : Sound E s) {action : Action ι} (hgood : ¬ Forges E s action) (i : ι)
    {id : NodeId} {record : IdentityRecord} {callsign : CallsignBytes}
    (hrecord : (E.handle (s.registry i) action).known[id]? = some record)
    (hcallsign : record.callsign = some callsign) : Authorised E s.deeds id record callsign := by
  cases action with
  | presentToken node data nowMs =>
      unfold Enrollment.handle at hrecord
      dsimp only at hrecord
      cases hdecode : MembershipToken.decode data with
      | none =>
          rw [hdecode] at hrecord
          exact h i id record callsign hrecord hcallsign
      | some t =>
          rw [hdecode] at hrecord
          rcases known_registerMember hrecord with hold | ⟨hverify, hterm, hid, rfl⟩
          · exact h i id record callsign hold hcallsign
          · have hbacked : Backs s.deeds t := by
              by_contra hunsigned
              exact hgood ⟨t, hdecode, hverify, hunsigned⟩
            exact ⟨hid, t, hbacked, rfl, Option.some.inj hcallsign, rfl, hterm⟩
  | presentAttestation node data =>
      unfold Enrollment.handle at hrecord
      dsimp only at hrecord
      cases hdecode : IdentityAttestation.decode data with
      | none =>
          rw [hdecode] at hrecord
          exact h i id record callsign hrecord hcallsign
      | some a =>
          rw [hdecode] at hrecord
          obtain ⟨old, hold, hkey, hseen, hsame, hexpires⟩ :=
            known_verifyOrRegister hrecord hcallsign
          have hauthorised := h i id old callsign hold (hsame.trans hcallsign)
          refine ⟨hkey ▸ hauthorised.derived, ?_⟩
          rw [← hkey, ← hseen, ← hexpires]
          exact hauthorised.backed
  | preRegister node nodeId publicKey nowMs =>
      have hinsert : ((s.registry i).known.insert nodeId _)[id]? = some record := hrecord
      rw [getElem?_insert_eq] at hinsert
      split at hinsert
      · obtain rfl := Option.some.inj hinsert
        cases hcallsign
      · exact h i id record callsign hinsert hcallsign
  | remove node nodeId =>
      have herase : ((s.registry i).known.erase nodeId)[id]? = some record := hrecord
      rw [getElem?_erase_eq] at herase
      split at herase
      · cases herase
      · exact h i id record callsign herase hcallsign
  | clear node => exact absurd hrecord getElem?_empty_ne_some
  | issueAt | createAttestation | sign => exact h i id record callsign hrecord hcallsign

theorem Sound.step (h : Sound E s) {action : Action ι} (hgood : ¬ Forges E s action) :
    Sound E (E.step s action) := by
  intro i id record callsign hrecord hcallsign
  refine Authorised.append ?_ _
  unfold Enrollment.step at hrecord
  dsimp only at hrecord
  split at hrecord
  · exact h.handle hgood i hrecord hcallsign
  · exact h i id record callsign hrecord hcallsign

theorem sound_run (capacity : ι → Nat) {actions : List (Action ι)}
    (hgood : LoggedRun.Along E.step (fun s action => ¬ Forges E s action) (start capacity)
      actions) : Sound E (E.run (start capacity) actions) := by
  refine @LoggedRun.run_keeps_of_good _ _ E.step (Sound E) _ _ _ ?_ hgood
    fun s action hgood h => h.step hgood
  intro i id record callsign hrecord
  exact absurd hrecord getElem?_empty_ne_some

theorem exists_of_deed {s : State ι} {actions : List (Action ι)} {deed : Deed}
    (h : deed ∈ (E.run s actions).deeds) :
    deed ∈ s.deeds ∨ ∃ action ∈ actions, E.deed action = some deed := by
  induction actions generalizing s with
  | nil => exact Or.inl h
  | cons action actions ih =>
      rcases ih h with hstep | ⟨later, hlater, hdeed⟩
      · rcases List.mem_append.mp hstep with hold | hnew
        · exact Or.inl hold
        · exact Or.inr ⟨action, List.mem_cons_self .., Option.mem_toList.mp hnew⟩
      · exact Or.inr ⟨later, List.mem_cons_of_mem _ hlater, hdeed⟩

/-- In the run the authority signed this callsign for this key, until then: in a token that it
issued, or as data that reads like one. -/
def Grants (actions : List (Action ι)) (publicKey : PublicKey) (callsign : CallsignBytes)
    (expiresAtMs : UInt64) : Prop :=
  (∃ meshId name issuedAtMs, .issueAt meshId publicKey name issuedAtMs expiresAtMs ∈ actions ∧
      (utf8 name).length ≤ maxCallsignLen ∧
      callsign = vectorAt maxCallsignLen (utf8 name) 0) ∨
    ∃ t : MembershipToken, .sign t.signableBytes ∈ actions ∧ t.publicKey = publicKey ∧
      t.callsign = callsign ∧ t.expiresAtMs = expiresAtMs

omit [DecidableEq ι] in
/-- What backs a token was issued as one, or it is data that reads like a token. -/
theorem grants_of_deed {actions : List (Action ι)} {action : Action ι} {deed : Deed}
    {t : MembershipToken} (haction : action ∈ actions) (hdeed : E.deed action = some deed)
    (hmessage : deed.message = t.signableBytes) :
    Grants actions t.publicKey t.callsign t.expiresAtMs := by
  cases action with
  | issueAt meshId memberPublicKey name issuedAtMs expiresAtMs =>
      obtain ⟨token, htoken, rfl⟩ := Option.map_eq_some_iff.mp hdeed
      unfold MembershipToken.issueAt at htoken
      split at htoken
      · rename_i hshort
        obtain rfl := Option.some.inj htoken
        have hsame : (MembershipToken.signedBy E.crypto E.authority _).signableBytes =
            t.signableBytes := hmessage
        have hfields := MembershipToken.signedFields_inj hsame
        simp only [MembershipToken.signedFields, MembershipToken.signedBy, Prod.mk.injEq] at hfields
        obtain ⟨hkey, -, hname, -, hexpires⟩ := hfields
        subst hkey hexpires
        exact Or.inl ⟨meshId, name, issuedAtMs, haction, hshort, hname.symm⟩
      · cases htoken
  | createAttestation timestampMs =>
      obtain rfl := Option.some.inj hdeed
      have hlength := congrArg List.length hmessage
      rw [t.signableBytes_length, Deed.message, IdentityAttestation.signedMessage_length]
        at hlength
      cases hlength
  | sign message =>
      obtain rfl := Option.some.inj hdeed
      have hsame : message = t.signableBytes := hmessage
      exact Or.inr ⟨t, hsame ▸ haction, rfl, rfl, rfl⟩
  | presentToken | presentAttestation | preRegister | remove | clear => cases hdeed

/-- Whatever the nodes are shown, by whom and in which order: unless a signature of the authority
was forged, each callsign in a registry was signed by the authority, in a token or as data that
reads like one, for the key that it stands with. The identifier derives from that key, and the term
that was signed had not run out when it was taken. -/
theorem callsigns_are_granted (E : Enrollment) (capacity : ι → Nat) (actions : List (Action ι)) :
    (∃ front action, front ++ [action] <+: actions ∧
        Forges E (E.run (start capacity) front) action) ∨
      ∀ i id record callsign,
        ((E.run (start capacity) actions).registry i).known[id]? = some record →
        record.callsign = some callsign →
        id = E.crypto.nodeIdFromPublicKey record.publicKey ∧ ∃ expiresAtMs,
          record.tokenExpiresMs = some expiresAtMs ∧
          (expiresAtMs = 0 ∨ record.firstSeenMs ≤ expiresAtMs) ∧
          Grants actions record.publicKey callsign expiresAtMs := by
  by_cases hgood : LoggedRun.Along E.step (fun s action => ¬ Forges E s action) (start capacity)
      actions
  · refine Or.inr fun i id record callsign hrecord hcallsign => ?_
    have hauthorised := sound_run capacity hgood i id record callsign hrecord hcallsign
    obtain ⟨t, ⟨deed, hdeed, hmessage⟩, hkey, rfl, hexpires, hterm⟩ := hauthorised.backed
    refine ⟨hauthorised.derived, t.expiresAtMs, hexpires, ?_, ?_⟩
    · rw [MembershipToken.isExpired, Bool.and_eq_false_iff] at hterm
      rcases hterm with hnever | hearly
      · exact Or.inl (by simpa using hnever)
      · exact Or.inr (UInt64.not_lt.mp (of_decide_eq_false hearly))
    · rcases exists_of_deed hdeed with hnone | ⟨action, haction, hsigned⟩
      · exact absurd hnone List.not_mem_nil
      · rw [← hkey]
        exact grants_of_deed haction hsigned hmessage
  · rw [LoggedRun.along_iff] at hgood
    push Not at hgood
    obtain ⟨front, action, hprefix, hforges⟩ := hgood
    exact Or.inl ⟨front, action, hprefix, hforges⟩

end Enrollment

end PeatBtle
