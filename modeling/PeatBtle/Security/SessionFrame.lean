import PeatBtle.Security.PeerSession

/-!
# What the session table keeps

Most operations write one entry. Cleanup and the session limit write none, they
only let sessions go.
-/

namespace PeatBtle

open Wire MapMerge

namespace PeerSessionManager

/-- The same manager with some sessions gone. -/
structure Sheds (m after : PeerSessionManager) : Prop where
  ourNodeId_eq : after.ourNodeId = m.ourNodeId
  identitySecret_eq : after.identitySecret = m.identitySecret
  session_of_some : ∀ (peer : NodeId) (s : PeerSession),
    after.sessions[peer]? = some s → m.sessions[peer]? = some s

section Shedding

variable {m n k : PeerSessionManager}

theorem Sheds.refl (m : PeerSessionManager) : m.Sheds m := ⟨rfl, rfl, fun _ _ h => h⟩

theorem Sheds.trans (hmn : m.Sheds n) (hnk : n.Sheds k) : m.Sheds k :=
  ⟨hnk.ourNodeId_eq.trans hmn.ourNodeId_eq, hnk.identitySecret_eq.trans hmn.identitySecret_eq,
    fun peer s h => hmn.session_of_some peer s (hnk.session_of_some peer s h)⟩

theorem sheds_erase (m : PeerSessionManager) (peer : NodeId) :
    m.Sheds { m with sessions := m.sessions.erase peer } := by
  refine ⟨rfl, rfl, fun other s h => ?_⟩
  dsimp only at h
  rw [getElem?_erase_eq] at h
  split at h
  · cases h
  · exact h

theorem sheds_cleanupExpired (m : PeerSessionManager) (nowMs : UInt64) :
    m.Sheds (m.cleanupExpired nowMs) := by
  refine ⟨rfl, rfl, fun peer s h => ?_⟩
  unfold cleanupExpired at h
  dsimp only at h
  rw [Std.ExtTreeMap.getElem?_filter'] at h
  exact Option.eq_some_of_filter_eq_some h

theorem sheds_evict (listing : SessionListing) (m : PeerSessionManager) (fuel : Nat) :
    m.Sheds (m.evict listing fuel) := by
  induction fuel generalizing m with
  | zero => exact Sheds.refl m
  | succ fuel ih =>
      unfold evict
      split
      · dsimp only
        split
        · exact Sheds.refl m
        · exact (m.sheds_erase _).trans (ih _)
      · exact Sheds.refl m

theorem sheds_enforceSessionLimit (listing : SessionListing) (m : PeerSessionManager)
    (nowMs : UInt64) : m.Sheds (m.enforceSessionLimit listing nowMs) :=
  (m.sheds_cleanupExpired nowMs).trans (sheds_evict listing _ _)

/-- The manager that has made room for a responder if it was full. -/
def roomy (m : PeerSessionManager) (nowMs : UInt64) : PeerSessionManager :=
  if m.sessions.size ≥ m.maxSessions then m.cleanupExpired nowMs else m

theorem sheds_roomy (m : PeerSessionManager) (nowMs : UInt64) : m.Sheds (m.roomy nowMs) := by
  unfold roomy
  split
  · exact m.sheds_cleanupExpired nowMs
  · exact Sheds.refl m

end Shedding

/-! ## What a key exchange does -/

/-- Whether there is room for a responder. -/
def hasRoom (m : PeerSessionManager) (nowMs : UInt64) : Bool :=
  let roomy := if m.sessions.size ≥ m.maxSessions then m.cleanupExpired nowMs else m
  !decide (roomy.sessions.size ≥ roomy.maxSessions)

section KeyExchange

variable (crypto : Crypto) (m : PeerSessionManager) (msg : KeyExchangeMessage) (nowMs : UInt64)

theorem handleKeyExchange_known {session : PeerSession}
    (hsender : m.sessions[msg.senderNodeId]? = some session) :
    m.handleKeyExchange crypto msg nowMs =
      if session.state = .awaitingPeerKey then
        ({ m with sessions := m.sessions.insert msg.senderNodeId (session.completeHandshake
            (m.deriveSessionKey crypto msg.senderNodeId msg.publicKey) msg.publicKey nowMs) },
          some (m.ourKeyExchange crypto))
      else (m, none) := by
  unfold handleKeyExchange
  dsimp only
  rw [hsender]

theorem handleKeyExchange_unknown (hsender : m.sessions[msg.senderNodeId]? = none) :
    m.handleKeyExchange crypto msg nowMs =
      if m.hasRoom nowMs then
        ({ m.roomy nowMs with
            sessions := (m.roomy nowMs).sessions.insert msg.senderNodeId
              (PeerSession.newResponder msg.senderNodeId
                (m.deriveSessionKey crypto msg.senderNodeId msg.publicKey) msg.publicKey
                nowMs) },
          some ((m.roomy nowMs).ourKeyExchange crypto))
      else (m.roomy nowMs, none) := by
  have hroom : m.hasRoom nowMs =
      !decide ((m.roomy nowMs).sessions.size ≥ (m.roomy nowMs).maxSessions) := rfl
  unfold handleKeyExchange
  dsimp only
  rw [hsender, hroom]
  change (if (m.roomy nowMs).sessions.size ≥ (m.roomy nowMs).maxSessions then _ else _) = _
  by_cases hfull : (m.roomy nowMs).sessions.size ≥ (m.roomy nowMs).maxSessions
  · rw [if_pos hfull, decide_eq_true hfull]
    rfl
  · rw [if_neg hfull, decide_eq_false hfull]
    rfl

end KeyExchange

/-! ## Who the manager is -/

/-- The node identifier and its secret never change. -/
def SameIdentity (m after : PeerSessionManager) : Prop :=
  after.ourNodeId = m.ourNodeId ∧ after.identitySecret = m.identitySecret

theorem Sheds.sameIdentity {m after : PeerSessionManager} (h : m.Sheds after) :
    m.SameIdentity after := ⟨h.ourNodeId_eq, h.identitySecret_eq⟩

section Identity

variable (crypto : Crypto) (m : PeerSessionManager)

theorem sameIdentity_initiateSession (listing : SessionListing) (peer : NodeId) (nowMs : UInt64) :
    m.SameIdentity (m.initiateSession crypto listing peer nowMs).1 :=
  (sheds_enforceSessionLimit listing { m with sessions := m.sessions.insert peer _ }
    nowMs).sameIdentity

theorem sameIdentity_handleKeyExchange (msg : KeyExchangeMessage) (nowMs : UInt64) :
    m.SameIdentity (m.handleKeyExchange crypto msg nowMs).1 := by
  have hroomy := (m.sheds_roomy nowMs).sameIdentity
  cases hsender : m.sessions[msg.senderNodeId]? with
  | some session =>
      rw [m.handleKeyExchange_known crypto msg nowMs hsender]
      split
      · exact ⟨rfl, rfl⟩
      · exact ⟨rfl, rfl⟩
  | none =>
      rw [m.handleKeyExchange_unknown crypto msg nowMs hsender]
      split
      · exact hroomy
      · exact hroomy

theorem sameIdentity_encryptForPeer (peer : NodeId) (nonce : Nonce) (plaintext : Bytes)
    (nowMs : UInt64) : m.SameIdentity (m.encryptForPeer crypto peer nonce plaintext nowMs).1 := by
  unfold encryptForPeer
  split
  · exact ⟨rfl, rfl⟩
  · split
    · exact ⟨rfl, rfl⟩
    · exact ⟨rfl, rfl⟩

theorem sameIdentity_decryptFromPeer (msg : PeerEncryptedMessage) (nowMs : UInt64) :
    m.SameIdentity (m.decryptFromPeer crypto msg nowMs).1 := by
  unfold decryptFromPeer
  split
  · exact ⟨rfl, rfl⟩
  · split
    · exact ⟨rfl, rfl⟩
    · split
      · dsimp only
        split
        · exact ⟨rfl, rfl⟩
        · exact ⟨rfl, rfl⟩
      · exact ⟨rfl, rfl⟩

theorem SameIdentity.ourKeyExchange_eq {m after : PeerSessionManager} (h : m.SameIdentity after) :
    after.ourKeyExchange crypto = m.ourKeyExchange crypto := by
  rw [ourKeyExchange, ourKeyExchange, h.1, h.2]

theorem initiateSession_message (listing : SessionListing) (peer : NodeId) (nowMs : UInt64) :
    (m.initiateSession crypto listing peer nowMs).2 = m.ourKeyExchange crypto :=
  (m.sameIdentity_initiateSession crypto listing peer nowMs).ourKeyExchange_eq crypto

theorem handleKeyExchange_response (msg : KeyExchangeMessage) (nowMs : UInt64) :
    ∀ response ∈ (m.handleKeyExchange crypto msg nowMs).2, response = m.ourKeyExchange crypto := by
  have hours := (m.sheds_roomy nowMs).sameIdentity.ourKeyExchange_eq crypto
  intro response hresponse
  cases hsender : m.sessions[msg.senderNodeId]? with
  | some session =>
      rw [m.handleKeyExchange_known crypto msg nowMs hsender] at hresponse
      split at hresponse
      · exact (Option.some.inj hresponse).symm
      · cases hresponse
  | none =>
      rw [m.handleKeyExchange_unknown crypto msg nowMs hsender] at hresponse
      split at hresponse
      · exact (Option.some.inj hresponse).symm.trans hours
      · cases hresponse

/-- A message names its two ends. -/
theorem encryptForPeer_header {peer : NodeId} {nonce : Nonce} {plaintext : Bytes}
    {nowMs : UInt64} {msg : PeerEncryptedMessage}
    (h : (m.encryptForPeer crypto peer nonce plaintext nowMs).2 = some msg) :
    msg.recipientNodeId = peer ∧ msg.senderNodeId = m.ourNodeId ∧
      ∃ s, m.sessions[peer]? = some s ∧ s.isEstablished = true ∧
        msg.counter = s.outboundCounter ∧ msg.nonce = nonce ∧
        (s.sessionKey.bind fun key => crypto.encrypt key nonce plaintext) = some msg.ciphertext := by
  unfold encryptForPeer at h
  split at h
  · cases h
  · rename_i s hs
    split at h
    · rename_i hready
      obtain ⟨ciphertext, hciphertext, rfl⟩ := Option.map_eq_some_iff.mp h
      exact ⟨rfl, rfl, s, hs, hready, rfl, rfl, hciphertext⟩
    · cases h

end Identity

/-! ## One entry at a time -/

section Lookups

variable (crypto : Crypto) {m : PeerSessionManager} {peer : NodeId} {s : PeerSession}

/-- After an initiation the peer's session is new, if the limit has left it. -/
theorem lookup_initiateSession {listing : SessionListing} {target : NodeId} {nowMs : UInt64}
    (h : (m.initiateSession crypto listing target nowMs).1.sessions[peer]? = some s) :
    (peer = target ∧ s = PeerSession.newInitiator target nowMs) ∨
      (peer ≠ target ∧ m.sessions[peer]? = some s) := by
  have hopened := (sheds_enforceSessionLimit listing
    { m with sessions := m.sessions.insert target (PeerSession.newInitiator target nowMs) }
    nowMs).session_of_some peer s h
  dsimp only at hopened
  rw [getElem?_insert_eq] at hopened
  by_cases hpeer : target = peer
  · rw [if_pos hpeer] at hopened
    exact Or.inl ⟨hpeer.symm, (Option.some.inj hopened).symm⟩
  · rw [if_neg hpeer] at hopened
    exact Or.inr ⟨Ne.symm hpeer, hopened⟩

/-- A key exchange completes the handshake of a waiting session and leaves the others. -/
theorem lookup_handleKeyExchange {msg : KeyExchangeMessage} {nowMs : UInt64}
    (hold : m.sessions[peer]? = some s) {after : PeerSession}
    (h : (m.handleKeyExchange crypto msg nowMs).1.sessions[peer]? = some after) :
    after = s ∨ (peer = msg.senderNodeId ∧ s.state = .awaitingPeerKey ∧
      after = s.completeHandshake (m.deriveSessionKey crypto peer msg.publicKey) msg.publicKey
        nowMs) := by
  have hkept : (m.roomy nowMs).sessions[peer]? = some after → after = s := by
    intro hroomy
    have hbefore := (m.sheds_roomy nowMs).session_of_some peer after hroomy
    rw [hold] at hbefore
    exact (Option.some.inj hbefore).symm
  by_cases hpeer : msg.senderNodeId = peer
  · subst hpeer
    rw [m.handleKeyExchange_known crypto msg nowMs hold] at h
    split at h
    · rename_i hwait
      dsimp only at h
      rw [getElem?_insert_eq, if_pos rfl] at h
      exact Or.inr ⟨rfl, hwait, (Option.some.inj h).symm⟩
    · rw [hold] at h
      exact Or.inl (Option.some.inj h).symm
  · left
    cases hsender : m.sessions[msg.senderNodeId]? with
    | some session =>
        rw [m.handleKeyExchange_known crypto msg nowMs hsender] at h
        split at h
        · dsimp only at h
          rw [getElem?_insert_eq, if_neg hpeer, hold] at h
          exact (Option.some.inj h).symm
        · rw [hold] at h
          exact (Option.some.inj h).symm
    | none =>
        rw [m.handleKeyExchange_unknown crypto msg nowMs hsender] at h
        split at h
        · dsimp only at h
          rw [getElem?_insert_eq, if_neg hpeer] at h
          exact hkept h
        · exact hkept h

/-- What a key exchange does to the sender's own session. -/
theorem lookup_handleKeyExchange_sender (msg : KeyExchangeMessage) (nowMs : UInt64) :
    (m.handleKeyExchange crypto msg nowMs).1.sessions[msg.senderNodeId]? =
      match m.sessions[msg.senderNodeId]? with
      | some session =>
          some (if session.state = .awaitingPeerKey then
            session.completeHandshake (m.deriveSessionKey crypto msg.senderNodeId msg.publicKey)
              msg.publicKey nowMs
          else session)
      | none =>
          if m.hasRoom nowMs then
            some (PeerSession.newResponder msg.senderNodeId
              (m.deriveSessionKey crypto msg.senderNodeId msg.publicKey) msg.publicKey nowMs)
          else none := by
  cases hsender : m.sessions[msg.senderNodeId]? with
  | some session =>
      rw [m.handleKeyExchange_known crypto msg nowMs hsender]
      dsimp only
      split
      · dsimp only
        rw [getElem?_insert_eq, if_pos rfl]
      · exact hsender
  | none =>
      rw [m.handleKeyExchange_unknown crypto msg nowMs hsender]
      dsimp only
      split
      · dsimp only
        rw [getElem?_insert_eq, if_pos rfl]
      · cases hgone : (m.roomy nowMs).sessions[msg.senderNodeId]? with
        | none => rfl
        | some session =>
            rw [(m.sheds_roomy nowMs).session_of_some _ _ hgone] at hsender
            cases hsender

/-- Encryption spends a counter of one session. -/
theorem lookup_encryptForPeer {target : NodeId} {nonce : Nonce} {plaintext : Bytes}
    {nowMs : UInt64} (hold : m.sessions[peer]? = some s) :
    (m.encryptForPeer crypto target nonce plaintext nowMs).1.sessions[peer]? =
      some (if target = peer ∧ s.isEstablished = true then
        ({ s with outboundCounter := s.outboundCounter + 1 }).touch nowMs else s) := by
  unfold encryptForPeer
  by_cases htarget : target = peer
  · subst htarget
    rw [hold]
    dsimp only
    by_cases hready : s.isEstablished = true
    · rw [if_pos hready, if_pos ⟨rfl, hready⟩]
      dsimp only
      rw [getElem?_insert_eq, if_pos rfl]
    · rw [if_neg hready, if_neg (fun hboth => hready hboth.2)]
      exact hold
  · rw [if_neg (fun hboth => htarget hboth.1)]
    split
    · exact hold
    · split
      · dsimp only
        rw [getElem?_insert_eq, if_neg htarget]
        exact hold
      · exact hold

/-- Decryption moves one session on if the counter is accepted, whatever the ciphertext. -/
theorem lookup_decryptFromPeer {msg : PeerEncryptedMessage} {nowMs : UInt64}
    (hold : m.sessions[peer]? = some s) :
    (m.decryptFromPeer crypto msg nowMs).1.sessions[peer]? =
      some (if (msg.recipientNodeId = m.ourNodeId ∧ msg.senderNodeId = peer) ∧
          s.isEstablished = true ∧ msg.counter ≥ s.inboundCounter then
        ({ s with inboundCounter := saturatingAdd msg.counter 1 }).touch nowMs else s) := by
  unfold decryptFromPeer
  by_cases hours : msg.recipientNodeId = m.ourNodeId
  · rw [if_neg (not_not_intro hours)]
    by_cases hsender : msg.senderNodeId = peer
    · subst hsender
      rw [hold]
      dsimp only
      by_cases hready : s.isEstablished = true
      · rw [if_pos hready]
        unfold PeerSession.validateInboundCounter
        by_cases hcounter : msg.counter ≥ s.inboundCounter
        · rw [if_pos hcounter]
          dsimp only
          rw [if_pos rfl, if_pos ⟨⟨hours, rfl⟩, hready, hcounter⟩]
          dsimp only
          rw [getElem?_insert_eq, if_pos rfl]
        · rw [if_neg hcounter]
          dsimp only
          rw [if_neg Bool.false_ne_true, if_neg (fun hall => hcounter hall.2.2)]
          exact hold
      · rw [if_neg hready, if_neg (fun hall => hready hall.2.1)]
        exact hold
    · rw [if_neg (fun hall => hsender hall.1.2)]
      split
      · exact hold
      · split
        · dsimp only
          split
          · dsimp only
            rw [getElem?_insert_eq, if_neg hsender]
            exact hold
          · exact hold
        · exact hold
  · rw [if_pos hours, if_neg (fun hall => hours hall.1.1)]
    exact hold

/-- What an accepted message went through. -/
theorem accepted_spec {msg : PeerEncryptedMessage} {nowMs : UInt64} {plaintext : Bytes}
    (h : (m.decryptFromPeer crypto msg nowMs).2 = some plaintext) :
    msg.recipientNodeId = m.ourNodeId ∧ ∃ s, m.sessions[msg.senderNodeId]? = some s ∧
      s.isEstablished = true ∧ s.inboundCounter ≤ msg.counter ∧
        (s.sessionKey.bind fun key => crypto.decrypt key msg.nonce msg.ciphertext) =
          some plaintext := by
  unfold decryptFromPeer at h
  split at h
  · cases h
  · rename_i hours
    refine ⟨not_not.mp hours, ?_⟩
    split at h
    · cases h
    · rename_i s hs
      split at h
      · rename_i hready
        unfold PeerSession.validateInboundCounter at h
        by_cases hcounter : msg.counter ≥ s.inboundCounter
        · rw [if_pos hcounter] at h
          dsimp only at h
          rw [if_pos rfl] at h
          exact ⟨s, hs, hready, hcounter, h⟩
        · rw [if_neg hcounter] at h
          dsimp only at h
          rw [if_neg Bool.false_ne_true] at h
          cases h
      · cases h

theorem lookup_closeSession {target : NodeId} (hold : m.sessions[peer]? = some s) :
    (m.closeSession target).sessions[peer]? =
      some (if target = peer then s.close else s) := by
  unfold closeSession
  dsimp only
  rw [getElem?_modify_eq]
  by_cases htarget : target = peer
  · subst htarget
    rw [if_pos rfl, if_pos rfl, hold]
    rfl
  · rw [if_neg htarget, if_neg htarget, hold]

end Lookups

/-! ## Runs -/

inductive Action where
  | initiate (listing : SessionListing) (peer : NodeId) (nowMs : UInt64)
  | handleKeyExchange (msg : KeyExchangeMessage) (nowMs : UInt64)
  | encrypt (peer : NodeId) (nonce : Nonce) (plaintext : Bytes) (nowMs : UInt64)
  | decrypt (msg : PeerEncryptedMessage) (nowMs : UInt64)
  | close (peer : NodeId)
  | remove (peer : NodeId)
  | cleanup (nowMs : UInt64)

def act (crypto : Crypto) (m : PeerSessionManager) : Action → PeerSessionManager
  | .initiate listing peer nowMs => (m.initiateSession crypto listing peer nowMs).1
  | .handleKeyExchange msg nowMs => (m.handleKeyExchange crypto msg nowMs).1
  | .encrypt peer nonce plaintext nowMs => (m.encryptForPeer crypto peer nonce plaintext nowMs).1
  | .decrypt msg nowMs => (m.decryptFromPeer crypto msg nowMs).1
  | .close peer => m.closeSession peer
  | .remove peer => m.removeSession peer
  | .cleanup nowMs => m.cleanupExpired nowMs

/-- Whether the action replaces the session with a peer by a new one. -/
def Action.initiates (peer : NodeId) : Action → Bool
  | .initiate _ target _ => target == peer
  | _ => false

/-- As long as a session is neither replaced nor gone, the next counter it accepts only grows. -/
theorem inboundCounter_le_act (crypto : Crypto) {m : PeerSessionManager} {action : Action}
    {peer : NodeId} {s after : PeerSession} (hold : m.sessions[peer]? = some s)
    (hnew : (m.act crypto action).sessions[peer]? = some after)
    (hsame : action.initiates peer = false) : s.inboundCounter ≤ after.inboundCounter := by
  have hshed : m.Sheds (m.act crypto action) → s.inboundCounter ≤ after.inboundCounter := by
    intro hsheds
    have hkept := hsheds.session_of_some peer after hnew
    rw [hold] at hkept
    obtain rfl := Option.some.inj hkept
    exact UInt64.le_refl _
  cases action with
  | initiate listing target nowMs =>
      rcases lookup_initiateSession crypto hnew with ⟨rfl, -⟩ | ⟨-, hkept⟩
      · simp [Action.initiates] at hsame
      · rw [hold] at hkept
        obtain rfl := Option.some.inj hkept
        exact UInt64.le_refl _
  | handleKeyExchange msg nowMs =>
      rcases lookup_handleKeyExchange crypto hold hnew with rfl | ⟨-, -, rfl⟩
      · exact UInt64.le_refl _
      · exact UInt64.le_refl _
  | encrypt target nonce plaintext nowMs =>
      rw [act, lookup_encryptForPeer crypto hold] at hnew
      obtain rfl := Option.some.inj hnew
      split
      · exact UInt64.le_refl _
      · exact UInt64.le_refl _
  | decrypt msg nowMs =>
      rw [act, lookup_decryptFromPeer crypto hold] at hnew
      obtain rfl := Option.some.inj hnew
      split
      · rename_i hall
        exact UInt64.le_trans hall.2.2 (le_saturatingAdd msg.counter 1)
      · exact UInt64.le_refl _
  | close target =>
      rw [act, lookup_closeSession hold] at hnew
      obtain rfl := Option.some.inj hnew
      split
      · exact UInt64.le_refl _
      · exact UInt64.le_refl _
  | remove target => exact hshed (m.sheds_erase target)
  | cleanup nowMs => exact hshed (m.sheds_cleanupExpired nowMs)

end PeerSessionManager

end PeatBtle
