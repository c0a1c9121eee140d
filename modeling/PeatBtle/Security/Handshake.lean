import Mathlib.Logic.Function.Basic
import PeatBtle.Data.LoggedRun
import PeatBtle.Security.Replay

/-!
# Two ends of a session

Two managers exchange keys and messages over a link that may delay, duplicate,
reorder or lose whatever is sent. Both derive the same key, whichever exchange
completes the handshake. The counters agree as long as no end starts its session
again behind the other's back.
-/

namespace PeatBtle

open Wire

/-- The two secrets of an exchange may trade places, what is sealed can be opened, and there is
no length at which the empty plaintext cannot be sealed. -/
structure Crypto.Lawful (crypto : Crypto) : Prop where
  diffieHellman_comm : ∀ a b, crypto.diffieHellman a (crypto.publicKey b) =
    crypto.diffieHellman b (crypto.publicKey a)
  decrypt_encrypt : ∀ key nonce plaintext ciphertext,
    crypto.encrypt key nonce plaintext = some ciphertext →
      crypto.decrypt key nonce ciphertext = some plaintext
  encrypt_nil : ∀ key nonce, (crypto.encrypt key nonce []).isSome = true

namespace PeerSessionManager

/-! ## The link -/

inductive Side where
  | left
  | right
deriving DecidableEq

namespace Side

def other : Side → Side
  | left => right
  | right => left

@[simp] theorem other_other (s : Side) : s.other.other = s := by cases s <;> rfl

theorem other_ne (s : Side) : s.other ≠ s := by cases s <;> decide

theorem eq_or_eq_other (s t : Side) : t = s ∨ t = s.other := by
  cases s <;> cases t <;> decide

end Side

/-- Everything sent so far can still arrive, any number of times. -/
structure Link where
  manager : Side → PeerSessionManager
  keys : Side → List KeyExchangeMessage
  messages : Side → List PeerEncryptedMessage

inductive Move where
  | initiate (listing : SessionListing) (side : Side) (nowMs : UInt64)
  | deliverKey (sender : Side) (index : Nat) (nowMs : UInt64)
  | send (side : Side) (nonce : Nonce) (plaintext : Bytes) (nowMs : UInt64)
  | deliver (sender : Side) (index : Nat) (nowMs : UInt64)

namespace Link

variable (crypto : Crypto)

def start (base : Side → PeerSessionManager) : Link := ⟨base, fun _ => [], fun _ => []⟩

def peerId (link : Link) (s : Side) : NodeId := (link.manager s.other).ourNodeId

/-- What an end holds for the other. -/
def session (link : Link) (s : Side) : Option PeerSession :=
  (link.manager s).sessions[link.peerId s]?

/-- One end moves on and sends something. -/
def advance (link : Link) (s : Side) (manager : PeerSessionManager)
    (keys : List KeyExchangeMessage) (messages : List PeerEncryptedMessage) : Link where
  manager := Function.update link.manager s manager
  keys := Function.update link.keys s (link.keys s ++ keys)
  messages := Function.update link.messages s (link.messages s ++ messages)

def step (link : Link) : Move → Link
  | .initiate listing s nowMs =>
      let started := (link.manager s).initiateSession crypto listing (link.peerId s) nowMs
      link.advance s started.1 [started.2] []
  | .deliverKey sender index nowMs =>
      match (link.keys sender)[index]? with
      | none => link
      | some key =>
          let handled := (link.manager sender.other).handleKeyExchange crypto key nowMs
          link.advance sender.other handled.1 handled.2.toList []
  | .send s nonce plaintext nowMs =>
      let sent := (link.manager s).encryptForPeer crypto (link.peerId s) nonce plaintext nowMs
      link.advance s sent.1 [] sent.2.toList
  | .deliver sender index nowMs =>
      match (link.messages sender)[index]? with
      | none => link
      | some msg =>
          let received := (link.manager sender.other).decryptFromPeer crypto msg nowMs
          link.advance sender.other received.1 [] []

section Advance

variable {link : Link} {s : Side} {manager : PeerSessionManager} {keys : List KeyExchangeMessage}
  {messages : List PeerEncryptedMessage}

@[simp] theorem manager_advance_self :
    (link.advance s manager keys messages).manager s = manager := Function.update_self ..

@[simp] theorem manager_advance_other :
    (link.advance s manager keys messages).manager s.other = link.manager s.other :=
  Function.update_of_ne s.other_ne ..

theorem sameIdentity_advance (hsame : (link.manager s).SameIdentity manager) (t : Side) :
    (link.manager t).SameIdentity ((link.advance s manager keys messages).manager t) := by
  rcases s.eq_or_eq_other t with rfl | rfl
  · rwa [manager_advance_self]
  · rw [manager_advance_other]
    exact ⟨rfl, rfl⟩

theorem peerId_advance (hsame : (link.manager s).SameIdentity manager) (t : Side) :
    (link.advance s manager keys messages).peerId t = link.peerId t :=
  (sameIdentity_advance hsame t.other).1

theorem session_advance_self (hsame : (link.manager s).SameIdentity manager) :
    (link.advance s manager keys messages).session s = manager.sessions[link.peerId s]? := by
  unfold session
  rw [peerId_advance hsame, manager_advance_self]

theorem session_advance_other (hsame : (link.manager s).SameIdentity manager) :
    (link.advance s manager keys messages).session s.other = link.session s.other := by
  unfold session
  rw [peerId_advance hsame, manager_advance_other]

end Advance

/-! ## What the ends say to each other -/

/-- The key that an end derives from the other's identity. -/
def sharedKey (link : Link) (s : Side) : Key :=
  (link.manager s).deriveSessionKey crypto (link.peerId s)
    (crypto.publicKey (link.manager s.other).identitySecret)

/-- A session is established with the shared key, or waits and has counted nothing. -/
def GenuineSession (key : Key) (session : PeerSession) : Prop :=
  (session.state = .established ∧ session.sessionKey = some key) ∨
    (session.state = .awaitingPeerKey ∧ session.outboundCounter = 0 ∧ session.inboundCounter = 0)

structure Genuine (link : Link) : Prop where
  keys : ∀ s, ∀ key ∈ link.keys s, key = (link.manager s).ourKeyExchange crypto
  messages : ∀ s, ∀ msg ∈ link.messages s, msg.recipientNodeId = link.peerId s ∧
    msg.senderNodeId = (link.manager s).ourNodeId
  sessions : ∀ s, ∀ session ∈ link.session s, GenuineSession (link.sharedKey crypto s) session

/-- Whichever end derives it, the key is the same. -/
theorem sharedKey_other (hlawful : crypto.Lawful) (link : Link) (s : Side) :
    link.sharedKey crypto s.other = link.sharedKey crypto s := by
  unfold sharedKey deriveSessionKey peerId
  rw [Side.other_other, hlawful.diffieHellman_comm]
  -- the salt lists the smaller identifier first
  by_cases hlt : (link.manager s).ourNodeId < (link.manager s.other).ourNodeId
  · rw [if_pos hlt, if_neg (UInt32.not_lt.mpr (UInt32.le_of_lt hlt))]
  · by_cases hgt : (link.manager s.other).ourNodeId < (link.manager s).ourNodeId
    · rw [if_pos hgt, if_neg hlt]
    · rw [UInt32.le_antisymm (UInt32.not_lt.mp hlt) (UInt32.not_lt.mp hgt)]

theorem sharedKey_advance {link : Link} {s : Side} {manager : PeerSessionManager}
    {keys : List KeyExchangeMessage} {messages : List PeerEncryptedMessage}
    (hsame : (link.manager s).SameIdentity manager) (t : Side) :
    (link.advance s manager keys messages).sharedKey crypto t = link.sharedKey crypto t := by
  unfold sharedKey deriveSessionKey
  rw [peerId_advance hsame, (sameIdentity_advance hsame t).1, (sameIdentity_advance hsame t).2,
    (sameIdentity_advance hsame t.other).2]

/-- What holds of everything sent so far holds when one end sends more of the kind. -/
theorem forall_mem_update {α : Type} {sent : Side → List α} {P : Side → α → Prop}
    (h : ∀ t, ∀ x ∈ sent t, P t x) {s : Side} {more : List α} (hmore : ∀ x ∈ more, P s x)
    (t : Side) : ∀ x ∈ Function.update sent s (sent s ++ more) t, P t x := by
  intro x hx
  rcases s.eq_or_eq_other t with rfl | rfl
  · rw [Function.update_self] at hx
    rcases List.mem_append.mp hx with hbefore | hnew
    · exact h t x hbefore
    · exact hmore x hnew
  · rw [Function.update_of_ne s.other_ne] at hx
    exact h _ x hx

variable {crypto}

/-- A key exchange names its sender. -/
theorem Genuine.key_sender {link : Link} (h : link.Genuine crypto) {sender : Side} {index : Nat}
    {key : KeyExchangeMessage} (hsent : (link.keys sender)[index]? = some key) :
    link.peerId sender.other = key.senderNodeId := by
  rw [h.keys sender key (List.mem_of_getElem? hsent)]
  exact congrArg (fun s => (link.manager s).ourNodeId) sender.other_other

/-- A message names its sender and its recipient. -/
theorem Genuine.message_ends {link : Link} (h : link.Genuine crypto) {sender : Side} {index : Nat}
    {msg : PeerEncryptedMessage} (hsent : (link.messages sender)[index]? = some msg) :
    msg.recipientNodeId = link.peerId sender ∧ link.peerId sender.other = msg.senderNodeId := by
  obtain ⟨hrecipient, hsender⟩ := h.messages sender msg (List.mem_of_getElem? hsent)
  refine ⟨hrecipient, ?_⟩
  rw [hsender]
  exact congrArg (fun s => (link.manager s).ourNodeId) sender.other_other

/-- An end keeps the link genuine if its new session and what it sends are. -/
theorem Genuine.advance {link : Link} (h : link.Genuine crypto) {s : Side}
    {manager : PeerSessionManager} {keys : List KeyExchangeMessage}
    {messages : List PeerEncryptedMessage} (hsame : (link.manager s).SameIdentity manager)
    (hkeys : ∀ key ∈ keys, key = (link.manager s).ourKeyExchange crypto)
    (hmessages : ∀ msg ∈ messages, msg.recipientNodeId = link.peerId s ∧
      msg.senderNodeId = (link.manager s).ourNodeId)
    (hsession : ∀ session ∈ manager.sessions[link.peerId s]?,
      GenuineSession (link.sharedKey crypto s) session) :
    (link.advance s manager keys messages).Genuine crypto := by
  constructor
  · intro t key hkey
    rw [(sameIdentity_advance hsame t).ourKeyExchange_eq]
    exact forall_mem_update h.keys hkeys t key hkey
  · intro t msg hmsg
    rw [peerId_advance hsame, (sameIdentity_advance hsame t).1]
    exact forall_mem_update h.messages hmessages t msg hmsg
  · intro t session hheld
    rw [sharedKey_advance crypto hsame]
    rcases s.eq_or_eq_other t with rfl | rfl
    · rw [session_advance_self hsame] at hheld
      exact hsession session hheld
    · rw [session_advance_other hsame] at hheld
      exact h.sessions _ session hheld

/-! ## One end's session, move by move -/

theorem mem_session_initiate {link : Link} {listing : SessionListing} {s : Side} {nowMs : UInt64}
    {session : PeerSession} (h : session ∈ ((link.manager s).initiateSession crypto listing
      (link.peerId s) nowMs).1.sessions[link.peerId s]?) :
    session = PeerSession.newInitiator (link.peerId s) nowMs := by
  rcases lookup_initiateSession crypto h with ⟨-, heq⟩ | ⟨hne, -⟩
  · exact heq
  · exact absurd rfl hne

/-- Whether a key exchange from a peer establishes a session. -/
def completes (m : PeerSessionManager) (peer : NodeId) (nowMs : UInt64) : Bool :=
  match m.sessions[peer]? with
  | some session => decide (session.state = .awaitingPeerKey)
  | none => m.hasRoom nowMs

theorem lookup_of_not_completes {m : PeerSessionManager} {key : KeyExchangeMessage}
    {nowMs : UInt64} (h : completes m key.senderNodeId nowMs = false) :
    (m.handleKeyExchange crypto key nowMs).1.sessions[key.senderNodeId]? =
      m.sessions[key.senderNodeId]? := by
  rw [lookup_handleKeyExchange_sender]
  unfold completes at h
  cases hheld : m.sessions[key.senderNodeId]? with
  | some session =>
      rw [hheld] at h
      dsimp only at h ⊢
      rw [if_neg (of_decide_eq_false h)]
  | none =>
      rw [hheld] at h
      dsimp only at h ⊢
      rw [h, if_neg Bool.false_ne_true]

theorem lookup_of_completes {m : PeerSessionManager} {key : KeyExchangeMessage} {nowMs : UInt64}
    {shared : Key} (hheld : ∀ session ∈ m.sessions[key.senderNodeId]?,
      GenuineSession shared session)
    (h : completes m key.senderNodeId nowMs = true) :
    ∃ session, (m.handleKeyExchange crypto key nowMs).1.sessions[key.senderNodeId]? =
        some session ∧ session.state = .established ∧
      session.sessionKey = some (m.deriveSessionKey crypto key.senderNodeId key.publicKey) ∧
      session.outboundCounter = 0 ∧ session.inboundCounter = 0 := by
  rw [lookup_handleKeyExchange_sender]
  unfold completes at h
  cases hsender : m.sessions[key.senderNodeId]? with
  | some session =>
      rw [hsender] at h
      have hwait := of_decide_eq_true h
      rcases hheld session hsender with ⟨hready, -⟩ | ⟨-, hcounters⟩
      · rw [hwait] at hready
        cases hready
      · dsimp only
        rw [if_pos hwait]
        exact ⟨_, rfl, rfl, rfl, hcounters⟩
  | none =>
      rw [hsender] at h
      dsimp only at h ⊢
      rw [if_pos h]
      exact ⟨_, rfl, rfl, rfl, rfl, rfl⟩

/-- A session after a message to the peer. -/
def spend (session : PeerSession) (nowMs : UInt64) : PeerSession :=
  if session.isEstablished then
    ({ session with outboundCounter := session.outboundCounter + 1 }).touch nowMs
  else session

/-- A session after a message from the peer. -/
def take (session : PeerSession) (counter nowMs : UInt64) : PeerSession :=
  if session.isEstablished ∧ counter ≥ session.inboundCounter then
    ({ session with inboundCounter := saturatingAdd counter 1 }).touch nowMs
  else session

theorem lookup_spend {m : PeerSessionManager} {peer : NodeId} {nonce : Nonce} {plaintext : Bytes}
    {nowMs : UInt64} :
    (m.encryptForPeer crypto peer nonce plaintext nowMs).1.sessions[peer]? =
      m.sessions[peer]?.map fun session => spend session nowMs := by
  cases hheld : m.sessions[peer]? with
  | some session =>
      rw [lookup_encryptForPeer crypto hheld]
      simp only [true_and]
      rfl
  | none =>
      unfold encryptForPeer
      rw [hheld]
      exact hheld

theorem lookup_take {m : PeerSessionManager} {msg : PeerEncryptedMessage} {nowMs : UInt64}
    (hours : msg.recipientNodeId = m.ourNodeId) :
    (m.decryptFromPeer crypto msg nowMs).1.sessions[msg.senderNodeId]? =
      m.sessions[msg.senderNodeId]?.map fun session => take session msg.counter nowMs := by
  cases hheld : m.sessions[msg.senderNodeId]? with
  | some session =>
      rw [lookup_decryptFromPeer crypto hheld]
      simp only [hours, true_and]
      rfl
  | none =>
      unfold decryptFromPeer
      rw [if_neg (not_not_intro hours), hheld]
      exact hheld

theorem GenuineSession.established {key : Key} {session : PeerSession}
    (h : GenuineSession key session) (hready : session.isEstablished = true) :
    session.state = .established ∧ session.sessionKey = some key := by
  rcases h with hestablished | ⟨hwait, -⟩
  · exact hestablished
  · simp [PeerSession.isEstablished, hwait] at hready

theorem GenuineSession.spend {key : Key} {session : PeerSession} (h : GenuineSession key session)
    (nowMs : UInt64) : GenuineSession key (spend session nowMs) := by
  unfold Link.spend
  split
  · rename_i hready
    exact Or.inl (h.established hready)
  · exact h

theorem GenuineSession.take {key : Key} {session : PeerSession} (h : GenuineSession key session)
    (counter nowMs : UInt64) : GenuineSession key (take session counter nowMs) := by
  unfold Link.take
  split
  · rename_i hready
    exact Or.inl (h.established hready.1)
  · exact h

/-! ## Every run is genuine -/

theorem genuine_start {base : Side → PeerSessionManager}
    (hfresh : ∀ s : Side, (base s).sessions[(base s.other).ourNodeId]? = none) :
    (start base).Genuine crypto := by
  refine ⟨fun _ _ hnone => absurd hnone List.not_mem_nil,
    fun _ _ hnone => absurd hnone List.not_mem_nil, fun s session hheld => ?_⟩
  change (base s).sessions[(base s.other).ourNodeId]? = some session at hheld
  rw [hfresh s] at hheld
  cases hheld

/-- What the receiver of a genuine key derives from it is the shared key. -/
theorem Genuine.derives {link : Link} (h : link.Genuine crypto) {sender : Side} {index : Nat}
    {key : KeyExchangeMessage} (hsent : (link.keys sender)[index]? = some key) :
    (link.manager sender.other).deriveSessionKey crypto key.senderNodeId key.publicKey =
      link.sharedKey crypto sender.other := by
  have hpeer := h.key_sender hsent
  have hkey := h.keys sender key (List.mem_of_getElem? hsent)
  unfold sharedKey
  rw [hpeer, Side.other_other, hkey]
  rfl

theorem Genuine.step_deliverKey {link : Link} (h : link.Genuine crypto) {sender : Side}
    {index : Nat} {key : KeyExchangeMessage} (hsent : (link.keys sender)[index]? = some key)
    (nowMs : UInt64) :
    (link.advance sender.other
      ((link.manager sender.other).handleKeyExchange crypto key nowMs).1
      ((link.manager sender.other).handleKeyExchange crypto key nowMs).2.toList []).Genuine
        crypto := by
  have hpeer := h.key_sender hsent
  have hheld := h.sessions sender.other
  rw [session, hpeer] at hheld
  refine h.advance (sameIdentity_handleKeyExchange crypto _ key nowMs) ?_
    (fun _ hnone => absurd hnone List.not_mem_nil) ?_
  · intro response hresponse
    exact handleKeyExchange_response crypto _ key nowMs response (Option.mem_toList.mp hresponse)
  · rw [hpeer]
    intro session hnew
    cases hcompletes : completes (link.manager sender.other) key.senderNodeId nowMs with
    | true =>
        obtain ⟨completed, hlookup, hready, hsession, -⟩ := lookup_of_completes hheld hcompletes
        rw [hlookup] at hnew
        obtain rfl := Option.some.inj hnew
        exact Or.inl ⟨hready, hsession.trans (congrArg some (h.derives hsent))⟩
    | false =>
        rw [lookup_of_not_completes hcompletes] at hnew
        exact hheld session hnew

theorem Genuine.step_deliver {link : Link} (h : link.Genuine crypto) {sender : Side} {index : Nat}
    {msg : PeerEncryptedMessage} (hsent : (link.messages sender)[index]? = some msg)
    (nowMs : UInt64) :
    (link.advance sender.other
      ((link.manager sender.other).decryptFromPeer crypto msg nowMs).1 [] []).Genuine crypto := by
  obtain ⟨hrecipient, hpeer⟩ := h.message_ends hsent
  refine h.advance (sameIdentity_decryptFromPeer crypto _ msg nowMs)
    (fun _ hnone => absurd hnone List.not_mem_nil)
    (fun _ hnone => absurd hnone List.not_mem_nil) ?_
  intro session hnew
  rw [hpeer, lookup_take hrecipient] at hnew
  obtain ⟨before, hbefore, rfl⟩ := Option.map_eq_some_iff.mp hnew
  rw [← hpeer] at hbefore
  exact (h.sessions sender.other before hbefore).take msg.counter nowMs

theorem Genuine.step {link : Link} (h : link.Genuine crypto) (move : Move) :
    (link.step crypto move).Genuine crypto := by
  cases move with
  | initiate listing s nowMs =>
      refine h.advance (sameIdentity_initiateSession crypto _ listing (link.peerId s) nowMs) ?_
        (fun _ hnone => absurd hnone List.not_mem_nil) ?_
      · intro key hkey
        rw [List.mem_singleton.mp hkey]
        exact initiateSession_message ..
      · intro session hheld
        rw [mem_session_initiate hheld]
        exact Or.inr ⟨rfl, rfl, rfl⟩
  | deliverKey sender index nowMs =>
      unfold Link.step
      dsimp only
      split
      · exact h
      · rename_i key hsent
        exact h.step_deliverKey hsent nowMs
  | send s nonce plaintext nowMs =>
      refine h.advance
        (sameIdentity_encryptForPeer crypto _ (link.peerId s) nonce plaintext nowMs)
        (fun _ hnone => absurd hnone List.not_mem_nil) ?_ ?_
      · intro msg hmsg
        have hheader := encryptForPeer_header crypto _ (Option.mem_toList.mp hmsg)
        exact ⟨hheader.1, hheader.2.1⟩
      · intro session hnew
        rw [lookup_spend] at hnew
        obtain ⟨before, hbefore, rfl⟩ := Option.map_eq_some_iff.mp hnew
        exact (h.sessions s before hbefore).spend nowMs
  | deliver sender index nowMs =>
      unfold Link.step
      dsimp only
      split
      · exact h
      · rename_i msg hsent
        exact h.step_deliver hsent nowMs

/-! ## Counters that keep up -/

/-- What the other end expects next does not lie beyond what this end sends next. -/
def Follows (ours theirs : PeerSession) : Prop :=
  ours.isEstablished = true → theirs.isEstablished = true →
    theirs.inboundCounter ≤ ours.outboundCounter

def Paced (link : Link) : Prop :=
  ∀ s, ∀ ours ∈ link.session s, ∀ theirs ∈ link.session s.other, Follows ours theirs

theorem paced_iff (link : Link) (s : Side) :
    link.Paced ↔ ∀ ours ∈ link.session s, ∀ theirs ∈ link.session s.other,
      Follows ours theirs ∧ Follows theirs ours := by
  constructor
  · intro h ours hours theirs htheirs
    refine ⟨h s ours hours theirs htheirs, h s.other theirs htheirs ours ?_⟩
    rwa [Side.other_other]
  · intro h t ours hours theirs htheirs
    rcases s.eq_or_eq_other t with rfl | rfl
    · exact (h ours hours theirs htheirs).1
    · rw [Side.other_other] at htheirs
      exact (h theirs htheirs ours hours).2

theorem paced_advance {link : Link} {s : Side} {manager : PeerSessionManager}
    {keys : List KeyExchangeMessage} {messages : List PeerEncryptedMessage}
    (hsame : (link.manager s).SameIdentity manager) :
    (link.advance s manager keys messages).Paced ↔
      ∀ ours ∈ manager.sessions[link.peerId s]?, ∀ theirs ∈ link.session s.other,
        Follows ours theirs ∧ Follows theirs ours := by
  rw [paced_iff _ s, session_advance_self hsame, session_advance_other hsame]

/-- The move leaves the counters in step: an end that starts again does so before the other has
taken a message, no counter wraps, and what arrives was sent by the sender's present session. -/
def InStep (link : Link) : Move → Prop
  | .initiate .. => True
  | .deliverKey sender index nowMs => ∀ key ∈ (link.keys sender)[index]?,
      completes (link.manager sender.other) key.senderNodeId nowMs = true →
        ∀ theirs ∈ link.session sender, theirs.isEstablished = true → theirs.inboundCounter = 0
  | .send s _ _ _ => ∀ ours ∈ link.session s, ours.isEstablished = true →
      ours.outboundCounter = u64Max →
        ∀ theirs ∈ link.session s.other, theirs.isEstablished = true → theirs.inboundCounter = 0
  | .deliver sender index _ => ∀ msg ∈ (link.messages sender)[index]?,
      ∀ ours ∈ link.session sender, ours.isEstablished = true →
        ∀ theirs ∈ link.session sender.other, theirs.isEstablished = true →
          saturatingAdd msg.counter 1 ≤ ours.outboundCounter

instance (link : Link) (move : Move) : Decidable (link.InStep move) := by
  cases move with
  | initiate listing s nowMs => exact inferInstanceAs (Decidable True)
  | deliverKey sender index nowMs => exact inferInstanceAs (Decidable (∀ _ ∈ _, _))
  | send s nonce plaintext nowMs => exact inferInstanceAs (Decidable (∀ _ ∈ _, _))
  | deliver sender index nowMs => exact inferInstanceAs (Decidable (∀ _ ∈ _, _))

theorem le_add_one_iff {expected next : UInt64} (h : expected ≤ next) :
    expected ≤ next + 1 ↔ (next = u64Max → expected = 0) := by
  have hmax : next = u64Max ↔ next.toNat = 2 ^ 64 - 1 := UInt64.toNat_inj.symm
  have hzero : expected = 0 ↔ expected.toNat = 0 := UInt64.toNat_inj.symm
  have hlt := next.toNat_lt
  rw [hmax, hzero]
  rw [UInt64.le_iff_toNat_le] at h ⊢
  rw [UInt64.toNat_add]
  change expected.toNat ≤ (next.toNat + 1) % 2 ^ 64 ↔ _
  omega

theorem saturatingAdd_one_le {counter bound : UInt64} (h : counter < bound) :
    saturatingAdd counter 1 ≤ bound := by
  rw [UInt64.lt_iff_toNat_lt] at h
  rw [UInt64.le_iff_toNat_le, toNat_saturatingAdd]
  change min (counter.toNat + 1) (2 ^ 64 - 1) ≤ bound.toNat
  omega

@[simp] theorem isEstablished_spend (session : PeerSession) (nowMs : UInt64) :
    (spend session nowMs).isEstablished = session.isEstablished := by
  unfold spend
  split <;> rfl

@[simp] theorem isEstablished_take (session : PeerSession) (counter nowMs : UInt64) :
    (take session counter nowMs).isEstablished = session.isEstablished := by
  unfold take
  split <;> rfl

theorem GenuineSession.isEstablished_iff {key : Key} {session : PeerSession}
    (h : GenuineSession key session) :
    session.isEstablished = true ↔ session.sessionKey = some key ∧ session.state = .established := by
  rcases h with ⟨hstate, hkey⟩ | ⟨hwait, -⟩
  · simp [PeerSession.isEstablished, hstate, hkey]
  · simp [PeerSession.isEstablished, hwait]

theorem follows_spend {ours theirs : PeerSession} {nowMs : UInt64} (h : Follows ours theirs) :
    Follows (spend ours nowMs) theirs ↔ (ours.isEstablished = true →
      ours.outboundCounter = u64Max → theirs.isEstablished = true → theirs.inboundCounter = 0) := by
  unfold Follows
  rw [isEstablished_spend]
  constructor
  · intro hafter hours hmax htheirs
    have hle := hafter hours htheirs
    rw [spend, if_pos hours] at hle
    exact (le_add_one_iff (h hours htheirs)).mp hle hmax
  · intro hwrap hours htheirs
    rw [spend, if_pos hours]
    exact (le_add_one_iff (h hours htheirs)).mpr fun hmax => hwrap hours hmax htheirs

theorem follows_of_spend {ours theirs : PeerSession} {nowMs : UInt64} (h : Follows theirs ours) :
    Follows theirs (spend ours nowMs) := by
  intro htheirs hours
  rw [isEstablished_spend] at hours
  rw [spend, if_pos hours]
  exact h htheirs hours

theorem follows_take {ours theirs : PeerSession} {counter nowMs : UInt64}
    (h : Follows ours theirs) :
    Follows ours (take theirs counter nowMs) ↔ (ours.isEstablished = true →
      theirs.isEstablished = true → saturatingAdd counter 1 ≤ ours.outboundCounter) := by
  unfold Follows
  rw [isEstablished_take]
  refine forall_congr' fun hours => forall_congr' fun htheirs => ?_
  unfold take
  by_cases hcounter : counter ≥ theirs.inboundCounter
  · rw [if_pos ⟨htheirs, hcounter⟩]
    exact Iff.rfl
  · -- a counter already passed is refused and changes nothing
    rw [if_neg (fun hboth => hcounter hboth.2)]
    have hle := h hours htheirs
    refine iff_of_true hle (UInt64.le_trans (saturatingAdd_one_le ?_) hle)
    exact UInt64.not_le.mp hcounter

theorem follows_of_take {ours theirs : PeerSession} {counter nowMs : UInt64}
    (h : Follows theirs ours) : Follows (take theirs counter nowMs) ours := by
  intro htheirs hours
  rw [isEstablished_take] at htheirs
  have hle := h htheirs hours
  unfold take
  split
  · exact hle
  · exact hle

theorem follows_of_inbound_zero {ours theirs : PeerSession} (h : theirs.inboundCounter = 0) :
    Follows ours theirs := by
  intro _ _
  rw [h]
  exact UInt64.zero_le

theorem paced_step_deliverKey {link : Link} (h : link.Genuine crypto) (hpaced : link.Paced)
    {sender : Side} {index : Nat} {key : KeyExchangeMessage}
    (hsent : (link.keys sender)[index]? = some key) (nowMs : UInt64) :
    (link.advance sender.other
      ((link.manager sender.other).handleKeyExchange crypto key nowMs).1
      ((link.manager sender.other).handleKeyExchange crypto key nowMs).2.toList []).Paced ↔
        (completes (link.manager sender.other) key.senderNodeId nowMs = true →
          ∀ theirs ∈ link.session sender, theirs.isEstablished = true →
            theirs.inboundCounter = 0) := by
  have hpeer := h.key_sender hsent
  have hheld := h.sessions sender.other
  rw [session, hpeer] at hheld
  rw [paced_advance (sameIdentity_handleKeyExchange crypto _ key nowMs), hpeer, Side.other_other]
  cases hcompletes : completes (link.manager sender.other) key.senderNodeId nowMs with
  | true =>
      -- the new session has counted nothing, so the other end must not have either
      obtain ⟨ours, hlookup, hstate, hsession, hout, hin⟩ :=
        @lookup_of_completes crypto _ _ _ _ hheld hcompletes
      have hready : ours.isEstablished = true := by
        simp [PeerSession.isEstablished, hstate, hsession]
      rw [hlookup]
      constructor
      · intro hafter _ theirs htheirs htheirsReady
        have hle := (hafter ours rfl theirs htheirs).1 hready htheirsReady
        rw [hout] at hle
        exact UInt64.le_antisymm hle UInt64.zero_le
      · rintro hzero _ ⟨rfl⟩ theirs htheirs
        refine ⟨fun _ htheirsReady => ?_, follows_of_inbound_zero hin⟩
        rw [hzero rfl theirs htheirs htheirsReady]
        exact UInt64.zero_le
  | false =>
      rw [lookup_of_not_completes hcompletes, ← hpeer]
      have hbefore := (paced_iff link sender.other).mp hpaced
      rw [Side.other_other] at hbefore
      exact iff_of_true hbefore (fun hcontra => nomatch hcontra)

theorem paced_step_send {link : Link} (hpaced : link.Paced) (s : Side) (nonce : Nonce)
    (plaintext : Bytes) (nowMs : UInt64) :
    (link.step crypto (.send s nonce plaintext nowMs)).Paced ↔
      link.InStep (.send s nonce plaintext nowMs) := by
  have hbefore := (paced_iff link s).mp hpaced
  refine (paced_advance
    (sameIdentity_encryptForPeer crypto _ (link.peerId s) nonce plaintext nowMs)).trans ?_
  rw [lookup_spend]
  constructor
  · intro hafter ours hours hready hmax theirs htheirs htheirsReady
    have hspent := Option.mem_map_of_mem (fun session => spend session nowMs) hours
    have hfollows := (hafter (spend ours nowMs) hspent theirs htheirs).1
    exact (follows_spend (hbefore ours hours theirs htheirs).1).mp hfollows hready hmax
      htheirsReady
  · rintro hwrap _ hafter theirs htheirs
    obtain ⟨ours, hours, rfl⟩ := Option.map_eq_some_iff.mp hafter
    obtain ⟨hfollows, hback⟩ := hbefore ours hours theirs htheirs
    refine ⟨(follows_spend hfollows).mpr fun hready hmax htheirsReady => ?_,
      follows_of_spend hback⟩
    exact hwrap ours hours hready hmax theirs htheirs htheirsReady

theorem paced_step_deliver {link : Link} (h : link.Genuine crypto) (hpaced : link.Paced)
    {sender : Side} {index : Nat} {msg : PeerEncryptedMessage}
    (hsent : (link.messages sender)[index]? = some msg) (nowMs : UInt64) :
    (link.advance sender.other
      ((link.manager sender.other).decryptFromPeer crypto msg nowMs).1 [] []).Paced ↔
        ∀ ours ∈ link.session sender, ours.isEstablished = true →
          ∀ theirs ∈ link.session sender.other, theirs.isEstablished = true →
            saturatingAdd msg.counter 1 ≤ ours.outboundCounter := by
  obtain ⟨hrecipient, hpeer⟩ := h.message_ends hsent
  have hbefore := (paced_iff link sender).mp hpaced
  rw [paced_advance (sameIdentity_decryptFromPeer crypto _ msg nowMs), hpeer,
    lookup_take hrecipient, ← hpeer, Side.other_other]
  constructor
  · intro hafter ours hours hready theirs htheirs htheirsReady
    have htaken := Option.mem_map_of_mem (fun session => take session msg.counter nowMs) htheirs
    have hfollows := (hafter (take theirs msg.counter nowMs) htaken ours hours).2
    exact (follows_take (hbefore ours hours theirs htheirs).1).mp hfollows hready htheirsReady
  · intro hstep _ hafter ours hours
    obtain ⟨theirs, htheirs, rfl⟩ := Option.map_eq_some_iff.mp hafter
    obtain ⟨hfollows, hback⟩ := hbefore ours hours theirs htheirs
    refine ⟨follows_of_take hback, (follows_take hfollows).mpr fun hready htheirsReady => ?_⟩
    exact hstep ours hours hready theirs htheirs htheirsReady

/-- A move keeps the counters in step exactly if it says so. -/
theorem paced_step {link : Link} (h : link.Genuine crypto) (hpaced : link.Paced) (move : Move) :
    (link.step crypto move).Paced ↔ link.InStep move := by
  cases move with
  | initiate listing s nowMs =>
      have hsame := sameIdentity_initiateSession crypto (link.manager s) listing (link.peerId s) nowMs
      refine iff_of_true ((paced_advance hsame).mpr ?_) trivial
      intro ours hours theirs htheirs
      rw [mem_session_initiate hours]
      refine ⟨fun hready => ?_, follows_of_inbound_zero rfl⟩
      simp [PeerSession.isEstablished, PeerSession.newInitiator] at hready
  | deliverKey sender index nowMs =>
      unfold Link.step InStep
      dsimp only
      cases hsent : (link.keys sender)[index]? with
      | none => exact iff_of_true hpaced (fun _ hnone => nomatch hnone)
      | some key =>
          refine (paced_step_deliverKey h hpaced hsent nowMs).trans ?_
          exact ⟨fun hstep _ hkey => Option.some.inj hkey ▸ hstep, fun hstep => hstep key rfl⟩
  | send s nonce plaintext nowMs => exact paced_step_send hpaced s nonce plaintext nowMs
  | deliver sender index nowMs =>
      unfold Link.step InStep
      dsimp only
      cases hsent : (link.messages sender)[index]? with
      | none => exact iff_of_true hpaced (fun _ hnone => nomatch hnone)
      | some msg =>
          refine (paced_step_deliver h hpaced hsent nowMs).trans ?_
          exact ⟨fun hstep _ hmsg => Option.some.inj hmsg ▸ hstep, fun hstep => hstep msg rfl⟩

/-! ## Talking -/

/-- If both ends are established, they hold one key and the other end reads whatever this one
encrypts next. -/
def CanTalk (crypto : Crypto) (link : Link) (s : Side) : Prop :=
  ∀ ours ∈ link.session s, ∀ theirs ∈ link.session s.other,
    ours.isEstablished = true → theirs.isEstablished = true →
      ours.sessionKey = theirs.sessionKey ∧
        ∀ nonce plaintext sentMs receivedMs,
          ∀ msg ∈ ((link.manager s).encryptForPeer crypto (link.peerId s) nonce plaintext sentMs).2,
            ((link.manager s.other).decryptFromPeer crypto msg receivedMs).2 = some plaintext

section Talking

variable {link : Link} {s : Side} {ours theirs : PeerSession}

/-- A genuine message is read if its counter is. -/
theorem decrypt_sent (hlawful : crypto.Lawful) (hours : link.session s = some ours)
    (htheirs : link.session s.other = some theirs) (hready : theirs.isEstablished = true)
    (hkeys : ours.sessionKey = theirs.sessionKey) {nonce : Nonce} {plaintext : Bytes}
    {sentMs receivedMs : UInt64} {msg : PeerEncryptedMessage}
    (hsent : ((link.manager s).encryptForPeer crypto (link.peerId s) nonce plaintext sentMs).2 =
      some msg) :
    ((link.manager s.other).decryptFromPeer crypto msg receivedMs).2 =
      if ours.outboundCounter ≥ theirs.inboundCounter then some plaintext else none := by
  obtain ⟨hrecipient, hsender, held, hheld, -, hcounter, hnonce, hseal⟩ :=
    encryptForPeer_header crypto _ hsent
  rw [session] at hours
  rw [hours] at hheld
  obtain rfl := Option.some.inj hheld
  change msg.recipientNodeId = (link.manager s.other).ourNodeId at hrecipient
  have hlookup : (link.manager s.other).sessions[msg.senderNodeId]? = some theirs := by
    rw [hsender, ← htheirs, session, peerId, Side.other_other]
  obtain ⟨key, hkey, hciphertext⟩ := Option.bind_eq_some_iff.mp hseal
  unfold decryptFromPeer
  rw [if_neg (not_not_intro hrecipient), hlookup]
  dsimp only
  rw [if_pos hready]
  unfold PeerSession.validateInboundCounter
  rw [hcounter]
  by_cases hnext : ours.outboundCounter ≥ theirs.inboundCounter
  · rw [if_pos hnext, if_pos hnext]
    dsimp only
    rw [if_pos rfl]
    change theirs.sessionKey.bind _ = _
    rw [← hkeys, hkey, hnonce]
    exact hlawful.decrypt_encrypt _ _ _ _ hciphertext
  · rw [if_neg hnext, if_neg hnext]
    rfl

theorem canTalk_iff_paced (hlawful : crypto.Lawful) (h : link.Genuine crypto) :
    (∀ s, link.CanTalk crypto s) ↔ link.Paced := by
  refine forall_congr' fun s => forall₂_congr fun ours hours => forall₂_congr fun theirs htheirs =>
    forall₂_congr fun hready htheirsReady => ?_
  have hkey := ((h.sessions s ours hours).isEstablished_iff.mp hready).1
  have hsame : ours.sessionKey = theirs.sessionKey := by
    have htheirKey := ((h.sessions s.other theirs htheirs).isEstablished_iff.mp htheirsReady).1
    rw [sharedKey_other crypto hlawful] at htheirKey
    rw [hkey, htheirKey]
  constructor
  · rintro ⟨-, hread⟩
    -- the empty message can always be sealed
    obtain ⟨msg, hsent⟩ : ∃ msg, ((link.manager s).encryptForPeer crypto (link.peerId s)
        (Vector.replicate 12 0) [] 0).2 = some msg := by
      obtain ⟨sealed, hsealed⟩ := Option.isSome_iff_exists.mp
        (hlawful.encrypt_nil (link.sharedKey crypto s) (Vector.replicate 12 0))
      unfold encryptForPeer
      rw [session] at hours
      rw [hours]
      dsimp only
      rw [if_pos hready, hkey]
      dsimp only
      rw [Option.bind_some, hsealed]
      exact ⟨_, rfl⟩
    have hplain := hread (Vector.replicate 12 0) [] 0 0 msg hsent
    rw [decrypt_sent hlawful hours htheirs htheirsReady hsame hsent] at hplain
    split at hplain
    · assumption
    · cases hplain
  · intro hnext
    refine ⟨hsame, fun nonce plaintext sentMs receivedMs msg hsent => ?_⟩
    rw [decrypt_sent hlawful hours htheirs htheirsReady hsame hsent]
    exact if_pos hnext

end Talking

/-- All along a run the two ends can talk whenever both are established, exactly if every move
leaves their counters in step. -/
theorem canTalk_iff_inStep (crypto : Crypto) (hlawful : crypto.Lawful)
    (base : Side → PeerSessionManager)
    (hfresh : ∀ s : Side, (base s).sessions[(base s.other).ourNodeId]? = none)
    (moves : List Move) :
    (∀ front, front <+: moves →
      ∀ s, (LoggedRun.run (step crypto) (start base) front).CanTalk crypto s) ↔
      LoggedRun.Along (step crypto) InStep (start base) moves := by
  have hstart : (start base).Paced := by
    intro s ours hours
    change (base s).sessions[(base s.other).ourNodeId]? = some ours at hours
    rw [hfresh s] at hours
    cases hours
  have hgenuine : ∀ front, (LoggedRun.run (step crypto) (start base) front).Genuine crypto :=
    fun front => List.foldlRecOn front (step crypto) (genuine_start hfresh)
      fun link h move _ => h.step move
  have hiff := @LoggedRun.forall_prefix_iff_along _ _ (step crypto) (Genuine crypto) Paced InStep
    (start base) moves (genuine_start hfresh) hstart (fun _ move h => h.step move)
    (fun _ move h hpaced => paced_step h hpaced move)
  rw [← hiff]
  exact forall₂_congr fun front _ => canTalk_iff_paced hlawful (hgenuine front)

theorem glass_lawful : glass.Lawful where
  diffieHellman_comm a b := by
    change Vector.zipWith (· + ·) a b = Vector.zipWith (· + ·) b a
    ext i hi : 1
    rw [Vector.getElem_zipWith, Vector.getElem_zipWith]
    exact UInt8.add_comm _ _
  decrypt_encrypt key nonce plaintext ciphertext h := by
    obtain rfl := Option.some.inj h
    have hlength : (key.toList ++ nonce.toList).length = 44 := by simp
    change (if List.take 44 _ = _ then some (List.drop 44 _) else none) = _
    rw [List.take_left' hlength, List.drop_left' hlength, if_pos rfl]
  encrypt_nil _ _ := rfl

/-- Alice on the left, Bob on the right. -/
def couple : Side → PeerSessionManager
  | .left => alice
  | .right => bob

/-- Both handshakes cross, and each has something to say. -/
def crossing : List Move :=
  [.initiate .ascending .left 1000, .initiate .ascending .right 1000,
    .deliverKey .left 0 1100, .deliverKey .right 0 1100, .send .left (Vector.replicate 12 0) [104, 105] 2000,
    .send .right (Vector.replicate 12 1) [104, 111] 2000, .deliver .left 0 2100,
    .deliver .right 0 2100]

theorem couple_canTalk :
    (LoggedRun.run (step glass) (start couple) crossing).CanTalk glass .left ∧
      (LoggedRun.run (step glass) (start couple) crossing).CanTalk glass .right := by
  have hall := (canTalk_iff_inStep glass glass_lawful couple (fun s => by cases s <;> rfl)
    crossing).mpr (by decide +kernel)
  exact ⟨hall crossing (List.prefix_refl _) .left, hall crossing (List.prefix_refl _) .right⟩

/-- Bob reads a message of Alice, she starts her session again, and a late copy of his first
answer completes it. -/
def reopened : Link :=
  LoggedRun.run (step glass) (start couple)
    [.initiate .ascending .left 1000, .deliverKey .left 0 1100, .deliverKey .right 0 1200,
      .send .left (Vector.replicate 12 0) [104, 105] 2000, .deliver .left 0 2100,
      .initiate .ascending .left 3000, .deliverKey .right 0 3100]

/-- Both ends are established with one key, and Bob refuses what she says next. -/
theorem reopened_not_canTalk :
    (reopened.session .left).map PeerSession.isEstablished = some true ∧
      (reopened.session .right).map PeerSession.isEstablished = some true ∧
      (reopened.session .left).map PeerSession.sessionKey =
        (reopened.session .right).map PeerSession.sessionKey ∧
      ((reopened.manager .left).encryptForPeer glass 2 (Vector.replicate 12 1) [104, 105]
        4000).2.map (fun msg => ((reopened.manager .right).decryptFromPeer glass msg 4100).2) =
          some none ∧
      ¬ reopened.CanTalk glass .left := by
  have hleft : (reopened.session .left).map PeerSession.isEstablished = some true := by
    decide +kernel
  have hright : (reopened.session .right).map PeerSession.isEstablished = some true := by
    decide +kernel
  have hrefused : ((reopened.manager .left).encryptForPeer glass 2 (Vector.replicate 12 1)
      [104, 105] 4000).2.map
        (fun msg => ((reopened.manager .right).decryptFromPeer glass msg 4100).2) = some none := by
    decide +kernel
  refine ⟨hleft, hright, by decide +kernel, hrefused, fun htalk => ?_⟩
  obtain ⟨ours, hours, hready⟩ := Option.map_eq_some_iff.mp hleft
  obtain ⟨theirs, htheirs, htheirsReady⟩ := Option.map_eq_some_iff.mp hright
  obtain ⟨msg, hsent, hnone⟩ := Option.map_eq_some_iff.mp hrefused
  have hbob : reopened.peerId .left = 2 := by decide +kernel
  rw [← hbob] at hsent
  have hread := (htalk ours hours theirs htheirs hready htheirsReady).2 (Vector.replicate 12 1)
    [104, 105] 4000 4100 msg hsent
  change ((reopened.manager .right).decryptFromPeer glass msg 4100).2 = _ at hread
  rw [hnone] at hread
  cases hread

end Link

end PeerSessionManager

end PeatBtle
