import PeatBtle.Data.Eldest
import PeatBtle.Security.MeshKey

/-!
# End-to-end sessions

One session per peer, established by exchanging public keys. Messages carry a
counter that only ever grows. The order in which the session table is listed decides
between sessions of one age; it is the table's own, and may be another at every call.
-/

namespace PeatBtle

open Wire

def defaultSessionTimeoutMs : UInt64 := 1800000
def defaultMaxSessions : Nat := 16

/-! ## Messages -/

structure KeyExchangeMessage where
  senderNodeId : NodeId
  publicKey : Key
  isEphemeral : Bool
deriving DecidableEq

namespace KeyExchangeMessage

def encode (m : KeyExchangeMessage) : Bytes :=
  u32ToLe m.senderNodeId ++ ((if m.isEphemeral then 0x01 else 0x00) :: m.publicKey.toList)

def decode (data : Bytes) : Option KeyExchangeMessage :=
  if data.length < 37 then none
  else some
    { senderNodeId := u32At data 0
      publicKey := Vector.ofFn fun i => byteAt (slice data 5 37) i
      isEphemeral := byteAt data 4 &&& 0x01 != 0 }

end KeyExchangeMessage

structure PeerEncryptedMessage where
  recipientNodeId : NodeId
  senderNodeId : NodeId
  counter : UInt64
  nonce : Nonce
  ciphertext : Bytes
deriving DecidableEq

namespace PeerEncryptedMessage

def encode (m : PeerEncryptedMessage) : Bytes :=
  u32ToLe m.recipientNodeId ++ (u32ToLe m.senderNodeId ++ (u64ToLe m.counter ++
    (m.nonce.toList ++ m.ciphertext)))

def decode (data : Bytes) : Option PeerEncryptedMessage :=
  if data.length < 44 then none
  else some
    { recipientNodeId := u32At data 0
      senderNodeId := u32At data 4
      counter := u64At data 8
      nonce := Vector.ofFn fun i => byteAt (slice data 16 28) i
      ciphertext := data.drop 28 }

end PeerEncryptedMessage

/-! ## Sessions -/

inductive SessionState where
  | awaitingPeerKey
  | established
  | closed
deriving DecidableEq

structure PeerSession where
  peerNodeId : NodeId
  state : SessionState
  sessionKey : Option Key
  peerPublicKey : Option Key
  createdAtMs : UInt64
  lastActivityMs : UInt64
  outboundCounter : UInt64
  inboundCounter : UInt64
deriving DecidableEq

namespace PeerSession

def newInitiator (peerNodeId : NodeId) (nowMs : UInt64) : PeerSession :=
  ⟨peerNodeId, .awaitingPeerKey, none, none, nowMs, nowMs, 0, 0⟩

def newResponder (peerNodeId : NodeId) (sessionKey peerPublicKey : Key) (nowMs : UInt64) :
    PeerSession :=
  ⟨peerNodeId, .established, some sessionKey, some peerPublicKey, nowMs, nowMs, 0, 0⟩

def completeHandshake (s : PeerSession) (sessionKey peerPublicKey : Key) (nowMs : UInt64) :
    PeerSession :=
  { s with
    state := .established
    sessionKey := some sessionKey
    peerPublicKey := some peerPublicKey
    lastActivityMs := nowMs }

def isEstablished (s : PeerSession) : Bool := decide (s.state = .established) && s.sessionKey.isSome

def isExpired (s : PeerSession) (nowMs timeoutMs : UInt64) : Bool :=
  saturatingSub nowMs s.lastActivityMs > timeoutMs

/-- The counter must not lie below the next one expected. -/
def validateInboundCounter (s : PeerSession) (counter : UInt64) : PeerSession × Bool :=
  if counter ≥ s.inboundCounter then
    ({ s with inboundCounter := saturatingAdd counter 1 }, true)
  else (s, false)

def touch (s : PeerSession) (nowMs : UInt64) : PeerSession := { s with lastActivityMs := nowMs }

def close (s : PeerSession) : PeerSession := { s with state := .closed }

end PeerSession

/-! ## The manager -/

abbrev SessionListing := Eldest.Listing NodeId PeerSession compare

structure PeerSessionManager where
  ourNodeId : NodeId
  identitySecret : Key
  sessions : Map NodeId PeerSession
  maxSessions : Nat
  sessionTimeoutMs : UInt64
deriving DecidableEq

namespace PeerSessionManager

variable (crypto : Crypto)

/-- The identity key is drawn at random by the source. -/
def new (ourNodeId : NodeId) (identitySecret : Key) : PeerSessionManager :=
  ⟨ourNodeId, identitySecret, ∅, defaultMaxSessions, defaultSessionTimeoutMs⟩

def withMaxSessions (m : PeerSessionManager) (max : Nat) : PeerSessionManager :=
  { m with maxSessions := max }

def withSessionTimeout (m : PeerSessionManager) (timeoutMs : UInt64) : PeerSessionManager :=
  { m with sessionTimeoutMs := timeoutMs }

/-- Both ends sort the node identifiers, so they derive the same key. -/
def deriveSessionKey (m : PeerSessionManager) (peerNodeId : NodeId) (peerPublic : Key) : Key :=
  let shared := crypto.diffieHellman m.identitySecret peerPublic
  let salt := if m.ourNodeId < peerNodeId then u32ToLe m.ourNodeId ++ u32ToLe peerNodeId
    else u32ToLe peerNodeId ++ u32ToLe m.ourNodeId
  crypto.deriveKey salt shared.toList (utf8 "PEAT-peer-e2ee-v1")

def ourKeyExchange (m : PeerSessionManager) : KeyExchangeMessage :=
  ⟨m.ourNodeId, crypto.publicKey m.identitySecret, false⟩

def cleanupExpired (m : PeerSessionManager) (nowMs : UInt64) : PeerSessionManager :=
  { m with sessions := m.sessions.filter fun _ s => !s.isExpired nowMs m.sessionTimeoutMs }

/-- The least recently active session among those that satisfy a test, the first that is listed if
there are several. -/
def oldestSession (listing : SessionListing) (m : PeerSessionManager) (test : PeerSession → Bool) :
    Option NodeId :=
  let candidates := (listing.entries m.sessions).filter fun entry => test entry.2
  let oldest := candidates.foldl (fun best entry =>
    match best with
    | none => some entry
    | some b => if entry.2.lastActivityMs < b.2.lastActivityMs then some entry else best) none
  oldest.map Prod.fst

/-- Closed sessions go first, then those not established. Each round removes one session, so
fuel equal to their number is enough. -/
def evict (listing : SessionListing) (m : PeerSessionManager) : Nat → PeerSessionManager
  | 0 => m
  | fuel + 1 =>
      if m.sessions.size > m.maxSessions then
        let victim := (m.oldestSession listing fun s => decide (s.state = .closed)).or
          (m.oldestSession listing fun s => !s.isEstablished)
        match victim with
        | none => m
        | some node => evict listing { m with sessions := m.sessions.erase node } fuel
      else m

def enforceSessionLimit (listing : SessionListing) (m : PeerSessionManager) (nowMs : UInt64) :
    PeerSessionManager :=
  let live := m.cleanupExpired nowMs
  live.evict listing live.sessions.size

def initiateSession (listing : SessionListing) (m : PeerSessionManager) (peerNodeId : NodeId)
    (nowMs : UInt64) : PeerSessionManager × KeyExchangeMessage :=
  let session := PeerSession.newInitiator peerNodeId nowMs
  let opened := { m with sessions := m.sessions.insert peerNodeId session }
  let limited := opened.enforceSessionLimit listing nowMs
  (limited, limited.ourKeyExchange crypto)

/-- The response to send, if any. An established or closed session ignores the message. -/
def handleKeyExchange (m : PeerSessionManager) (msg : KeyExchangeMessage) (nowMs : UInt64) :
    PeerSessionManager × Option KeyExchangeMessage :=
  let peer := msg.senderNodeId
  let sessionKey := m.deriveSessionKey crypto peer msg.publicKey
  match m.sessions[peer]? with
  | some session =>
      if session.state = .awaitingPeerKey then
        let completed := session.completeHandshake sessionKey msg.publicKey nowMs
        ({ m with sessions := m.sessions.insert peer completed }, some (m.ourKeyExchange crypto))
      else (m, none)
  | none =>
      let roomy := if m.sessions.size ≥ m.maxSessions then m.cleanupExpired nowMs else m
      if roomy.sessions.size ≥ roomy.maxSessions then (roomy, none)
      else
        let session := PeerSession.newResponder peer sessionKey msg.publicKey nowMs
        ({ roomy with sessions := roomy.sessions.insert peer session },
          some (roomy.ourKeyExchange crypto))

/-- The counter is spent even when encryption fails. -/
def encryptForPeer (m : PeerSessionManager) (peerNodeId : NodeId) (nonce : Nonce)
    (plaintext : Bytes) (nowMs : UInt64) : PeerSessionManager × Option PeerEncryptedMessage :=
  match m.sessions[peerNodeId]? with
  | none => (m, none)
  | some session =>
      if session.isEstablished then
        let counter := session.outboundCounter
        let spent := ({ session with outboundCounter := counter + 1 }).touch nowMs
        let ciphertext := session.sessionKey.bind fun key => crypto.encrypt key nonce plaintext
        ({ m with sessions := m.sessions.insert peerNodeId spent },
          ciphertext.map fun c => ⟨peerNodeId, m.ourNodeId, counter, nonce, c⟩)
      else (m, none)

def closeSession (m : PeerSessionManager) (peerNodeId : NodeId) : PeerSessionManager :=
  { m with sessions := m.sessions.modify peerNodeId PeerSession.close }

def removeSession (m : PeerSessionManager) (peerNodeId : NodeId) : PeerSessionManager :=
  { m with sessions := m.sessions.erase peerNodeId }

/-- The counter is taken and the session touched before the ciphertext is checked. -/
def decryptFromPeer (m : PeerSessionManager) (msg : PeerEncryptedMessage) (nowMs : UInt64) :
    PeerSessionManager × Option Bytes :=
  if msg.recipientNodeId ≠ m.ourNodeId then (m, none)
  else
    match m.sessions[msg.senderNodeId]? with
    | none => (m, none)
    | some session =>
        if session.isEstablished then
          let checked := session.validateInboundCounter msg.counter
          if checked.2 then
            let touched := checked.1.touch nowMs
            ({ m with sessions := m.sessions.insert msg.senderNodeId touched },
              touched.sessionKey.bind fun key => crypto.decrypt key msg.nonce msg.ciphertext)
          else (m, none)
        else (m, none)

end PeerSessionManager

end PeatBtle
