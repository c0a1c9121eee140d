import PeatBtle.Security.IdentityRegistry

/-!
# The capacity of the identity registry

The capacity is there to keep an attacker who mints identities from filling the
memory. No path into the registry enforces it.
-/

namespace PeatBtle

open Std Wire MapMerge

namespace IdentityRegistry

variable (crypto : IdentityCrypto)

/-- Whether a call is accepted and brings an identifier that is not known yet. -/
def enrols (r : IdentityRegistry) : TrustAction → Bool
  | .verifyOrRegister attestation =>
      attestation.verify crypto && !r.known.contains attestation.nodeId
  | .verifyOrRegisterAt attestation _ =>
      attestation.verify crypto && !r.known.contains attestation.nodeId
  | .registerMember token authority nowMs =>
      token.verify crypto authority && !token.isExpired nowMs &&
        !r.known.contains (crypto.nodeIdFromPublicKey token.publicKey)

theorem size_insert_bool {m : Map NodeId IdentityRecord} {node : NodeId} {record : IdentityRecord} :
    (m.insert node record).size = m.size + (!m.contains node).toNat := by
  rw [ExtTreeMap.size_insert]
  cases m.contains node <;> rfl

section Growth

variable (r : IdentityRegistry)

theorem size_verifyOrRegisterAt (a : IdentityAttestation) (nowMs : UInt64) :
    (r.verifyOrRegisterAt crypto a nowMs).1.known.size =
      r.known.size + (a.verify crypto && !r.known.contains a.nodeId).toNat := by
  unfold verifyOrRegisterAt
  by_cases hverify : a.verify crypto = true
  · rw [if_pos hverify, hverify, Bool.true_and]
    dsimp only
    cases hrecord : r.known[a.nodeId]? with
    | none => exact size_insert_bool
    | some record =>
        have hknown := ExtTreeMap.contains_iff_mem.mpr (mem_of_getElem? hrecord)
        dsimp only
        split
        · exact size_insert_bool
        · rw [hknown]
          rfl
  · rw [if_neg hverify, Bool.eq_false_iff.mpr hverify]
    rfl

theorem size_registerMember (t : MembershipToken) (authority : PublicKey) (nowMs : UInt64) :
    (r.registerMember crypto t authority nowMs).1.known.size =
      r.known.size + (t.verify crypto authority && !t.isExpired nowMs &&
        !r.known.contains (crypto.nodeIdFromPublicKey t.publicKey)).toNat := by
  unfold registerMember
  by_cases hverify : t.verify crypto authority = true
  · rw [if_pos hverify, hverify, Bool.true_and]
    by_cases hexpired : t.isExpired nowMs = true
    · rw [if_pos hexpired, hexpired]
      rfl
    · rw [if_neg hexpired, Bool.eq_false_iff.mpr hexpired]
      dsimp only
      cases hrecord : r.known[crypto.nodeIdFromPublicKey t.publicKey]? with
      | none => exact size_insert_bool
      | some record =>
          have hknown := ExtTreeMap.contains_iff_mem.mpr (mem_of_getElem? hrecord)
          split
          · rw [hknown]
            rfl
          · exact size_insert_bool
  · rw [if_neg hverify, Bool.eq_false_iff.mpr hverify]
    rfl

/-- The registry grows by the identities that enrol. -/
theorem size_apply (action : TrustAction) : (r.apply crypto action).known.size =
    r.known.size + (r.enrols crypto action).toNat := by
  cases action with
  | verifyOrRegister a => exact size_verifyOrRegisterAt crypto r a a.timestampMs
  | verifyOrRegisterAt a nowMs => exact size_verifyOrRegisterAt crypto r a nowMs
  | registerMember t authority nowMs => exact size_registerMember crypto r t authority nowMs

theorem maxIdentities_verifyOrRegisterAt (a : IdentityAttestation) (nowMs : UInt64) :
    (r.verifyOrRegisterAt crypto a nowMs).1.maxIdentities = r.maxIdentities := by
  unfold verifyOrRegisterAt
  split
  · dsimp only
    split
    · split
      · rfl
      · rfl
    · rfl
  · rfl

theorem maxIdentities_registerMember (t : MembershipToken) (authority : PublicKey)
    (nowMs : UInt64) :
    (r.registerMember crypto t authority nowMs).1.maxIdentities = r.maxIdentities := by
  unfold registerMember
  split
  · split
    · rfl
    · dsimp only
      split
      · rfl
      · rfl
  · rfl

theorem maxIdentities_apply (action : TrustAction) :
    (r.apply crypto action).maxIdentities = r.maxIdentities := by
  cases action with
  | verifyOrRegister a => exact maxIdentities_verifyOrRegisterAt crypto r a a.timestampMs
  | verifyOrRegisterAt a nowMs => exact maxIdentities_verifyOrRegisterAt crypto r a nowMs
  | registerMember t authority nowMs =>
      exact maxIdentities_registerMember crypto r t authority nowMs

end Growth

/-- A new identity is accepted only while there is room for it. -/
def WithinCapacity (r : IdentityRegistry) (action : TrustAction) : Prop :=
  r.enrols crypto action = true → r.known.size < r.maxIdentities

instance (r : IdentityRegistry) (action : TrustAction) :
    Decidable (r.WithinCapacity crypto action) := inferInstanceAs (Decidable (_ → _))

/-- The registry stays within its capacity all along a run exactly if no new identity is presented
to a full one. -/
theorem bounded_iff_withinCapacity (maxIdentities : Nat) (actions : List TrustAction) :
    (∀ front, front <+: actions →
        (LoggedRun.run (apply crypto) (withCapacity maxIdentities) front).known.size ≤
          maxIdentities) ↔
      LoggedRun.Along (apply crypto) (WithinCapacity crypto) (withCapacity maxIdentities)
        actions := by
  refine @LoggedRun.forall_prefix_iff_along _ _ (apply crypto)
    (fun r => r.maxIdentities = maxIdentities) (fun r => r.known.size ≤ maxIdentities)
    (WithinCapacity crypto) (withCapacity maxIdentities) actions rfl (Nat.zero_le _) ?_ ?_
  · intro r action hmax
    rw [maxIdentities_apply, hmax]
  · intro r action hmax hsize
    rw [size_apply, WithinCapacity, hmax]
    cases r.enrols crypto action with
    | false => simpa using hsize
    | true =>
        rw [forall_prop_of_true rfl, Bool.toNat_true]
        exact Nat.succ_le_iff

/-! ## A registry that overflows -/

/-- A crypto under which every key is its own hash and every signature is taken for valid. -/
def trusting : IdentityCrypto where
  hash := fun bytes => Vector.ofFn fun i => byteAt bytes i
  isVerifyingKey := fun _ => true
  verify := fun _ _ _ => true

/-- The attestation of a freshly minted identity. -/
def minted (seed : UInt8) : IdentityAttestation :=
  let key := Vector.replicate 32 seed
  ⟨trusting.nodeIdFromPublicKey key, key, 0, Vector.replicate 64 0⟩

/-- There is room for one identity, and two attest themselves. -/
theorem minted_exceed_capacity :
    ¬ ∀ front, front <+: [.verifyOrRegister (minted 1), .verifyOrRegister (minted 2)] →
      (LoggedRun.run (apply trusting) (withCapacity 1) front).known.size ≤ 1 := by
  intro h
  exact absurd (h _ (List.prefix_refl _)) (by decide +kernel)

end IdentityRegistry

end PeatBtle
