import PeatBtle.Security.Identity
import PeatBtle.Data.LoggedRun

/-!
# The identity registry

Trust on first use: the registry remembers the public key under which a node
identifier was first seen and refuses any other. Two paths write into it, self
attestations and membership tokens.
-/

namespace PeatBtle

open Std Wire MapMerge

inductive RegistryResult where
  | registered
  | verified
  | invalidSignature
  | keyMismatch (nodeId : NodeId)
deriving DecidableEq

structure IdentityRecord where
  publicKey : PublicKey
  firstSeenMs : UInt64
  lastSeenMs : UInt64
  verificationCount : UInt32
  callsign : Option CallsignBytes
  tokenExpiresMs : Option UInt64
deriving DecidableEq

/-- A callsign and an expiry come together, with a membership token. -/
def IdentityRecord.Paired (record : IdentityRecord) : Prop :=
  record.callsign.isSome = record.tokenExpiresMs.isSome

structure IdentityRegistry where
  known : Map NodeId IdentityRecord
  maxIdentities : Nat
deriving DecidableEq

namespace IdentityRegistry

def defaultMaxIdentities : Nat := 256

def withCapacity (maxIdentities : Nat) : IdentityRegistry := ⟨∅, maxIdentities⟩

def new : IdentityRegistry := withCapacity defaultMaxIdentities

section Operations

variable (crypto : IdentityCrypto) (r : IdentityRegistry)

/-- The source tests the capacity of a full registry and registers all the same. -/
def verifyOrRegisterAt (attestation : IdentityAttestation) (nowMs : UInt64) :
    IdentityRegistry × RegistryResult :=
  if attestation.verify crypto then
    let nodeId := attestation.nodeId
    match r.known[nodeId]? with
    | some record =>
        if record.publicKey = attestation.publicKey then
          let count := record.verificationCount
          let seen := { record with
            lastSeenMs := nowMs
            verificationCount := if count = 0xFFFFFFFF then count else count + 1 }
          ({ r with known := r.known.insert nodeId seen }, .verified)
        else (r, .keyMismatch nodeId)
    | none =>
        let fresh := ⟨attestation.publicKey, nowMs, nowMs, 1, none, none⟩
        ({ r with known := r.known.insert nodeId fresh }, .registered)
  else (r, .invalidSignature)

def verifyOrRegister (attestation : IdentityAttestation) : IdentityRegistry × RegistryResult :=
  r.verifyOrRegisterAt crypto attestation attestation.timestampMs

/-- An expired token is answered like a forged one. -/
def registerMember (token : MembershipToken) (authorityPublicKey : PublicKey) (nowMs : UInt64) :
    IdentityRegistry × Except RegistryResult NodeId :=
  if token.verify crypto authorityPublicKey then
    if token.isExpired nowMs then (r, .error .invalidSignature)
    else
      let nodeId := crypto.nodeIdFromPublicKey token.publicKey
      if r.known[nodeId]?.any fun existing => decide (existing.publicKey ≠ token.publicKey) then
        (r, .error (.keyMismatch nodeId))
      else
        let member := ⟨token.publicKey, nowMs, nowMs, 1, some token.callsign,
          some token.expiresAtMs⟩
        ({ r with known := r.known.insert nodeId member }, .ok nodeId)
  else (r, .error .invalidSignature)

def getPublicKey (nodeId : NodeId) : Option PublicKey := r.known[nodeId]?.map IdentityRecord.publicKey

def remove (nodeId : NodeId) : IdentityRegistry := { r with known := r.known.erase nodeId }

def clear : IdentityRegistry := { r with known := ∅ }

/-- For keys exchanged out of band: nothing is checked. -/
def preRegister (nodeId : NodeId) (publicKey : PublicKey) (nowMs : UInt64) : IdentityRegistry :=
  { r with known := r.known.insert nodeId ⟨publicKey, nowMs, nowMs, 0, none, none⟩ }

end Operations

/-! ## Trust on first use -/

/-- The operations that never forget a key and take none unchecked. -/
inductive TrustAction where
  | verifyOrRegister (attestation : IdentityAttestation)
  | verifyOrRegisterAt (attestation : IdentityAttestation) (nowMs : UInt64)
  | registerMember (token : MembershipToken) (authorityPublicKey : PublicKey) (nowMs : UInt64)
deriving DecidableEq

section Trust

variable (crypto : IdentityCrypto)

def apply (r : IdentityRegistry) : TrustAction → IdentityRegistry
  | .verifyOrRegister attestation => (r.verifyOrRegister crypto attestation).1
  | .verifyOrRegisterAt attestation nowMs => (r.verifyOrRegisterAt crypto attestation nowMs).1
  | .registerMember token authority nowMs => (r.registerMember crypto token authority nowMs).1

/-- The `RegistryResult` of a call. A registered member is answered by its identifier instead. -/
def verdict (r : IdentityRegistry) : TrustAction → Option RegistryResult
  | .verifyOrRegister attestation => some (r.verifyOrRegister crypto attestation).2
  | .verifyOrRegisterAt attestation nowMs => some (r.verifyOrRegisterAt crypto attestation nowMs).2
  | .registerMember token authority nowMs =>
      match (r.registerMember crypto token authority nowMs).2 with
      | .ok _ => none
      | .error result => some result

/-- The identifier and the key that a call presents. -/
def presented : TrustAction → NodeId × PublicKey
  | .verifyOrRegister attestation => (attestation.nodeId, attestation.publicKey)
  | .verifyOrRegisterAt attestation _ => (attestation.nodeId, attestation.publicKey)
  | .registerMember token _ _ => (crypto.nodeIdFromPublicKey token.publicKey, token.publicKey)

def IsRefusal (result : RegistryResult) : Prop :=
  result = .invalidSignature ∨ ∃ nodeId, result = .keyMismatch nodeId

/-- A key enters a registry under its own identifier, which is free or holds that key already. -/
structure Admits (r : IdentityRegistry) (nodeId : NodeId) (publicKey : PublicKey)
    (r' : IdentityRegistry) : Prop where
  free : ∀ key, r.getPublicKey nodeId = some key → key = publicKey
  derived : nodeId = crypto.nodeIdFromPublicKey publicKey
  inserted : ∃ record : IdentityRecord, record.publicKey = publicKey ∧
    r'.known = r.known.insert nodeId record ∧
    ((∀ old, r.known[nodeId]? = some old → old.Paired) → record.Paired)

variable {crypto}

theorem getPublicKey_of_admits {r r' : IdentityRegistry} {nodeId : NodeId} {publicKey : PublicKey}
    (h : Admits crypto r nodeId publicKey r') (node : NodeId) :
    r'.getPublicKey node = if nodeId = node then some publicKey else r.getPublicKey node := by
  obtain ⟨record, rfl, hknown, -⟩ := h.inserted
  rw [getPublicKey, hknown, getElem?_insert_eq]
  split
  · rfl
  · rfl

/-- An attestation is refused, or verified against its own key, or registered. -/
theorem verifyOrRegisterAt_cases (crypto : IdentityCrypto) (r : IdentityRegistry) (a : IdentityAttestation) (nowMs : UInt64) :
    (IsRefusal (r.verifyOrRegisterAt crypto a nowMs).2 ∧
        (r.verifyOrRegisterAt crypto a nowMs).1 = r) ∨
      (((r.verifyOrRegisterAt crypto a nowMs).2 = .verified ∧
          r.getPublicKey a.nodeId = some a.publicKey ∨
        (r.verifyOrRegisterAt crypto a nowMs).2 = .registered) ∧
        Admits crypto r a.nodeId a.publicKey (r.verifyOrRegisterAt crypto a nowMs).1) := by
  by_cases hverify : a.verify crypto = true
  · have hderived := IdentityAttestation.nodeId_of_verify hverify
    cases hrecord : r.known[a.nodeId]? with
    | none =>
        simp only [verifyOrRegisterAt, if_pos hverify, hrecord]
        refine Or.inr ⟨Or.inr trivial, ⟨fun key hkey => ?_, hderived, _, rfl, rfl, fun _ => rfl⟩⟩
        rw [getPublicKey, hrecord] at hkey
        cases hkey
    | some record =>
        have hbound : r.getPublicKey a.nodeId = some record.publicKey := by
          rw [getPublicKey, hrecord]
          rfl
        by_cases hkey : record.publicKey = a.publicKey
        · simp only [verifyOrRegisterAt, if_pos hverify, hrecord, if_pos hkey]
          refine Or.inr ⟨Or.inl ⟨trivial, hbound.trans (congrArg some hkey)⟩,
            ⟨fun key hold => ?_, hderived, ⟨_, ?_, rfl, ?_⟩⟩⟩
          · rw [hbound] at hold
            exact (Option.some.inj hold).symm.trans hkey
          · exact hkey
          · exact fun hpaired => hpaired record hrecord
        · simp only [verifyOrRegisterAt, if_pos hverify, hrecord, if_neg hkey]
          exact Or.inl ⟨Or.inr ⟨_, rfl⟩, trivial⟩
  · rw [verifyOrRegisterAt, if_neg hverify]
    exact Or.inl ⟨Or.inl rfl, rfl⟩

/-- A token is refused, or its key is registered under the identifier derived from it. -/
theorem registerMember_cases (crypto : IdentityCrypto) (r : IdentityRegistry) (t : MembershipToken) (authority : PublicKey)
    (nowMs : UInt64) :
    ((∃ result, (r.registerMember crypto t authority nowMs).2 = .error result ∧ IsRefusal result) ∧
        (r.registerMember crypto t authority nowMs).1 = r) ∨
      ((r.registerMember crypto t authority nowMs).2 =
          .ok (crypto.nodeIdFromPublicKey t.publicKey) ∧
        Admits crypto r (crypto.nodeIdFromPublicKey t.publicKey) t.publicKey
          (r.registerMember crypto t authority nowMs).1) := by
  unfold registerMember
  by_cases hverify : t.verify crypto authority = true
  · rw [if_pos hverify]
    by_cases hexpired : t.isExpired nowMs = true
    · rw [if_pos hexpired]
      exact Or.inl ⟨⟨_, rfl, Or.inl rfl⟩, rfl⟩
    · rw [if_neg hexpired]
      dsimp only
      split
      · exact Or.inl ⟨⟨_, rfl, Or.inr ⟨_, rfl⟩⟩, rfl⟩
      · rename_i hany
        refine Or.inr ⟨rfl, ⟨fun key hkey => ?_, rfl, _, rfl, rfl, fun _ => rfl⟩⟩
        cases hrecord : r.known[crypto.nodeIdFromPublicKey t.publicKey]? with
        | none =>
            rw [getPublicKey, hrecord] at hkey
            cases hkey
        | some record =>
            rw [getPublicKey, hrecord] at hkey
            rw [hrecord, Option.any_some, decide_eq_true_eq, not_not] at hany
            exact (Option.some.inj hkey).symm.trans hany
  · rw [if_neg hverify]
    exact Or.inl ⟨⟨_, rfl, Or.inl rfl⟩, rfl⟩

theorem not_isRefusal_of_admitted {result : RegistryResult}
    (h : result = .verified ∨ result = .registered) : ¬ IsRefusal result := by
  rintro (hrefused | ⟨nodeId, hrefused⟩) <;> rcases h with h | h <;> rw [h] at hrefused <;>
    cases hrefused

/-- A call refuses and leaves the registry alone, or it admits the key presented. -/
theorem apply_cases (crypto : IdentityCrypto) (r : IdentityRegistry) (action : TrustAction) :
    r.apply crypto action = r ∧ r.verdict crypto action ≠ some .verified ∨
      (∀ result, r.verdict crypto action = some result → ¬ IsRefusal result) ∧
        (r.verdict crypto action = some .verified →
          r.getPublicKey (presented crypto action).1 = some (presented crypto action).2) ∧
        Admits crypto r (presented crypto action).1 (presented crypto action).2
          (r.apply crypto action) := by
  have hattested : ∀ (a : IdentityAttestation) (nowMs : UInt64),
      (r.verifyOrRegisterAt crypto a nowMs).1 = r ∧
          some (r.verifyOrRegisterAt crypto a nowMs).2 ≠ some .verified ∨
        (∀ result, some (r.verifyOrRegisterAt crypto a nowMs).2 = some result →
            ¬ IsRefusal result) ∧
          (some (r.verifyOrRegisterAt crypto a nowMs).2 = some .verified →
            r.getPublicKey a.nodeId = some a.publicKey) ∧
          Admits crypto r a.nodeId a.publicKey (r.verifyOrRegisterAt crypto a nowMs).1 := by
    intro a nowMs
    rcases r.verifyOrRegisterAt_cases crypto a nowMs with
      ⟨hrefusal, hsame⟩ | ⟨hresult, hadmits⟩
    · refine Or.inl ⟨hsame, fun hverified => ?_⟩
      exact not_isRefusal_of_admitted (Or.inl (Option.some.inj hverified)) hrefusal
    · refine Or.inr ⟨fun result h => ?_, fun hverified => ?_, hadmits⟩
      · rw [← Option.some.inj h]
        exact not_isRefusal_of_admitted (hresult.imp And.left id)
      · rcases hresult with ⟨-, hbound⟩ | hregistered
        · exact hbound
        · rw [hregistered] at hverified
          cases hverified
  cases action with
  | verifyOrRegister a => exact hattested a a.timestampMs
  | verifyOrRegisterAt a nowMs => exact hattested a nowMs
  | registerMember t authority nowMs =>
      simp only [apply, verdict, presented]
      rcases r.registerMember_cases crypto t authority nowMs with
        ⟨⟨result, hresult, hrefusal⟩, hsame⟩ | ⟨hok, hadmits⟩
      · refine Or.inl ⟨hsame, fun hverified => ?_⟩
        rw [hresult] at hverified
        exact not_isRefusal_of_admitted (Or.inl (Option.some.inj hverified)) hrefusal
      · rw [hok]
        exact Or.inr ⟨fun result h => (nomatch h), fun h => (nomatch h), hadmits⟩

/-- A binding survives every call. -/
theorem getPublicKey_apply {r : IdentityRegistry} {node : NodeId} {key : PublicKey}
    (hbound : r.getPublicKey node = some key) (action : TrustAction) :
    (r.apply crypto action).getPublicKey node = some key := by
  rcases r.apply_cases crypto action with ⟨hsame, -⟩ | ⟨-, -, hadmits⟩
  · rw [hsame, hbound]
  · rw [getPublicKey_of_admits hadmits]
    split
    · rename_i heq
      rw [hadmits.free key (by rw [heq, hbound])]
    · exact hbound

/-- Every bound identifier is the one derived from its key. -/
def Derived (crypto : IdentityCrypto) (r : IdentityRegistry) : Prop :=
  ∀ node key, r.getPublicKey node = some key → node = crypto.nodeIdFromPublicKey key

theorem derived_apply {r : IdentityRegistry} (h : Derived crypto r) (action : TrustAction) :
    Derived crypto (r.apply crypto action) := by
  intro node key hbound
  rcases r.apply_cases crypto action with ⟨hsame, -⟩ | ⟨-, -, hadmits⟩
  · rw [hsame] at hbound
    exact h node key hbound
  · rw [getPublicKey_of_admits hadmits] at hbound
    split at hbound
    · rename_i heq
      rw [← heq, ← Option.some.inj hbound]
      exact hadmits.derived
    · exact h node key hbound

theorem getPublicKey_run {r : IdentityRegistry} {node : NodeId} {key : PublicKey}
    (hbound : r.getPublicKey node = some key) (actions : List TrustAction) :
    (LoggedRun.run (apply crypto) r actions).getPublicKey node = some key :=
  @LoggedRun.run_keeps _ _ (apply crypto) (fun r => r.getPublicKey node = some key) r actions hbound
    fun _ action _ hkept => getPublicKey_apply hkept action

theorem derived_run {r : IdentityRegistry} (h : Derived crypto r) (actions : List TrustAction) :
    Derived crypto (LoggedRun.run (apply crypto) r actions) :=
  LoggedRun.run_keeps h fun _ action _ hkept => derived_apply hkept action

theorem derived_withCapacity (maxIdentities : Nat) : Derived crypto (withCapacity maxIdentities) := by
  intro node key hbound
  rw [getPublicKey, withCapacity, ExtTreeMap.getElem?_empty] at hbound
  cases hbound

variable (crypto) in
/-- Trust on first use, after any run and for any next call: a binding stays for good and its
identifier derives from its key; a refusal changes nothing; only the bound key is verified. -/
theorem trust_on_first_use (maxIdentities : Nat) (actions later : List TrustAction)
    (action : TrustAction) :
    let r := LoggedRun.run (apply crypto) (withCapacity maxIdentities) actions
    (∀ node key, r.getPublicKey node = some key →
        node = crypto.nodeIdFromPublicKey key ∧
        (LoggedRun.run (apply crypto) r later).getPublicKey node = some key) ∧
      (∀ result, r.verdict crypto action = some result → IsRefusal result →
        r.apply crypto action = r) ∧
      (r.verdict crypto action = some .verified →
        r.getPublicKey (presented crypto action).1 = some (presented crypto action).2) := by
  extract_lets r
  have hderived : Derived crypto r := derived_run (derived_withCapacity maxIdentities) actions
  refine ⟨fun node key hbound => ⟨hderived node key hbound, getPublicKey_run hbound later⟩, ?_⟩
  rcases r.apply_cases crypto action with
    ⟨hsame, hnot⟩ | ⟨hadmitted, hverified, -⟩
  · exact ⟨fun _ _ _ => hsame, fun h => absurd h hnot⟩
  · exact ⟨fun result h hrefusal => absurd hrefusal (hadmitted result h), hverified⟩

end Trust

end IdentityRegistry

end PeatBtle
