import PeatBtle.Security.Replay

/-!
# Rejected messages

Decryption has four ways to fail. Three of them come before the session is
touched; the last, a ciphertext that does not authenticate, comes after the
counter was taken. What a forged message leaves behind is the subject here.
-/

namespace PeatBtle

open Std Wire MapMerge

/-- The session after a counter has been accepted. -/
def PeerSession.movedOn (s : PeerSession) (counter nowMs : UInt64) : PeerSession :=
  ({ s with inboundCounter := saturatingAdd counter 1 }).touch nowMs

namespace PeerSessionManager

variable {crypto : Crypto} {m : PeerSessionManager} {msg : PeerEncryptedMessage} {nowMs : UInt64}
  {s : PeerSession}

/-- The message gets past the checks that come before its ciphertext is looked at. -/
structure Takes (m : PeerSessionManager) (msg : PeerEncryptedMessage) (s : PeerSession) : Prop where
  ours : msg.recipientNodeId = m.ourNodeId
  session : m.sessions[msg.senderNodeId]? = some s
  ready : s.isEstablished = true
  fresh : s.inboundCounter ≤ msg.counter

/-- The plaintext, if the ciphertext authenticates under the session's key. -/
def opened (crypto : Crypto) (msg : PeerEncryptedMessage) (s : PeerSession) : Option Bytes :=
  s.sessionKey.bind fun key => crypto.decrypt key msg.nonce msg.ciphertext

variable (crypto nowMs) in
theorem decryptFromPeer_of_takes (h : m.Takes msg s) :
    m.decryptFromPeer crypto msg nowMs =
      ({ m with sessions := m.sessions.insert msg.senderNodeId (s.movedOn msg.counter nowMs) },
        opened crypto msg s) := by
  have hcounter : s.validateInboundCounter msg.counter =
      ({ s with inboundCounter := saturatingAdd msg.counter 1 }, true) := if_pos h.fresh
  simp only [decryptFromPeer, h.ours, ne_eq, not_true_eq_false, if_false, h.session, h.ready,
    if_true, hcounter]
  rfl

theorem decryptFromPeer_of_not_takes (h : ∀ s, ¬ m.Takes msg s) :
    m.decryptFromPeer crypto msg nowMs = (m, none) := by
  unfold decryptFromPeer
  by_cases hours : msg.recipientNodeId = m.ourNodeId
  · rw [if_neg (not_not_intro hours)]
    cases hsession : m.sessions[msg.senderNodeId]? with
    | none => rfl
    | some s =>
        dsimp only
        by_cases hready : s.isEstablished = true
        · rw [if_pos hready]
          have hstale : ¬ msg.counter ≥ s.inboundCounter := fun hfresh =>
            h s ⟨hours, hsession, hready, hfresh⟩
          rw [PeerSession.validateInboundCounter, if_neg hstale]
          exact if_neg Bool.false_ne_true
        · rw [if_neg hready]
  · rw [if_pos hours]

/-- Taking a counter changes nothing only at the limit, within the same millisecond. -/
theorem movedOn_eq_self_iff (hfresh : s.inboundCounter ≤ msg.counter) :
    s.movedOn msg.counter nowMs = s ↔ s.inboundCounter = u64Max ∧ s.lastActivityMs = nowMs := by
  constructor
  · intro h
    have hcounter : saturatingAdd msg.counter 1 = s.inboundCounter :=
      congrArg PeerSession.inboundCounter h
    refine ⟨UInt64.toNat_inj.mp ?_, (congrArg PeerSession.lastActivityMs h).symm⟩
    have hsum := congrArg UInt64.toNat hcounter
    have hle := UInt64.le_iff_toNat_le.mp hfresh
    have hlt := s.inboundCounter.toNat_lt
    rw [toNat_saturatingAdd, UInt64.toNat_one] at hsum
    change s.inboundCounter.toNat = 18446744073709551615
    omega
  · rintro ⟨hmax, hnow⟩
    have hcounter : saturatingAdd msg.counter 1 = s.inboundCounter := by
      apply UInt64.toNat_inj.mp
      have hle := UInt64.le_iff_toNat_le.mp hfresh
      rw [hmax] at hle ⊢
      rw [toNat_saturatingAdd, UInt64.toNat_one]
      change 18446744073709551615 ≤ msg.counter.toNat at hle
      change _ = 18446744073709551615
      have hlt := msg.counter.toNat_lt
      omega
    rw [PeerSession.movedOn, PeerSession.touch, hcounter, ← hnow]

/-- A refusal leaves everything alone, and every message that was acceptable still is. -/
def RefusalHarmless (crypto : Crypto) (m : PeerSessionManager) (msg : PeerEncryptedMessage)
    (nowMs : UInt64) : Prop :=
  let after := m.decryptFromPeer crypto msg nowMs
  after.2 = none → after.1 = m ∧
    ∀ (genuine : PeerEncryptedMessage) (laterMs : UInt64) (plaintext : Bytes),
      (m.decryptFromPeer crypto genuine laterMs).2 = some plaintext →
        (after.1.decryptFromPeer crypto genuine laterMs).2 = some plaintext

/-- The message is stopped before its ciphertext matters, or it is authentic, or there is nothing
left to move: the counter stands at its limit and the session was active this very millisecond. -/
def StoppedInTime (crypto : Crypto) (m : PeerSessionManager) (msg : PeerEncryptedMessage)
    (nowMs : UInt64) : Prop :=
  ∀ s, m.Takes msg s →
    (opened crypto msg s).isSome = true ∨ s.inboundCounter = u64Max ∧ s.lastActivityMs = nowMs

theorem refusalHarmless_iff (crypto : Crypto) (m : PeerSessionManager) (msg : PeerEncryptedMessage)
    (nowMs : UInt64) : RefusalHarmless crypto m msg nowMs ↔ StoppedInTime crypto m msg nowMs := by
  have hsame : (m.decryptFromPeer crypto msg nowMs).1 = m → RefusalHarmless crypto m msg nowMs := by
    intro heq _
    rw [heq]
    exact ⟨rfl, fun _ _ _ h => h⟩
  constructor
  · intro h s htakes
    cases hopened : opened crypto msg s with
    | some plaintext => exact Or.inl rfl
    | none =>
        have hdecrypt := decryptFromPeer_of_takes crypto nowMs htakes
        have hkept := (h (by rw [hdecrypt]; exact hopened)).1
        rw [hdecrypt] at hkept
        have hsession := insert_eq_self_iff.mp (congrArg sessions hkept)
        rw [htakes.session] at hsession
        exact Or.inr ((movedOn_eq_self_iff htakes.fresh).mp (Option.some.inj hsession).symm)
  · intro h
    by_cases htakes : ∃ s, m.Takes msg s
    · obtain ⟨s, htakes⟩ := htakes
      have hdecrypt := decryptFromPeer_of_takes crypto nowMs htakes
      rcases h s htakes with hauthentic | hlimit
      · intro hrefused
        have hnone : opened crypto msg s = none := by
          rw [hdecrypt] at hrefused
          exact hrefused
        rw [hnone] at hauthentic
        cases hauthentic
      · refine hsame ?_
        rw [hdecrypt, (movedOn_eq_self_iff htakes.fresh).mpr hlimit,
          insert_eq_self_iff.mpr htakes.session]
    · refine hsame ?_
      rw [decryptFromPeer_of_not_takes fun s hs => htakes ⟨s, hs⟩]

/-! ## A forged message -/

def bobReady : PeerSessionManager :=
  (bob.handleKeyExchange glass (alice.ourKeyExchange glass) 1000).1

/-- It claims to be from Alice and carries the largest counter there is. -/
def forged : PeerEncryptedMessage := ⟨2, 1, u64Max, Vector.replicate 12 0, [0xFF]⟩

/-- Bob refuses it, and from then on Alice's own first message. -/
theorem forged_not_harmless :
    (bobReady.decryptFromPeer glass forged 1500).2 = none ∧
      (bobReady.decryptFromPeer glass forged 1500).1 ≠ bobReady ∧
      (bobReady.decryptFromPeer glass greeting 2000).2 = some [104, 105] ∧
      ((bobReady.decryptFromPeer glass forged 1500).1.decryptFromPeer glass greeting 2000).2 =
        none := by
  decide +kernel

end PeerSessionManager

end PeatBtle
