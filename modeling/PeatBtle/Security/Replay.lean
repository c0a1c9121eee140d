import PeatBtle.Data.LoggedRun
import PeatBtle.Security.SessionFrame

/-!
# Replayed messages

The counter of a message stands outside its ciphertext, and a session that is
opened again starts counting from zero under the same key. What keeps a message
from being taken twice is therefore only the session that took it, for a copy
with the counter it had.
-/

namespace PeatBtle

open Wire

namespace PeerEncryptedMessage

/-- What the cipher sees of a message. -/
def sealed (msg : PeerEncryptedMessage) : Nonce × Bytes := (msg.nonce, msg.ciphertext)

end PeerEncryptedMessage

namespace PeerSessionManager

/-- A manager with a record of the messages it has accepted; those in `remembered` were accepted
by a session that is still the one in the table. -/
structure Watch where
  manager : PeerSessionManager
  accepted : List PeerEncryptedMessage
  remembered : List PeerEncryptedMessage

namespace Watch

variable (crypto : Crypto)

def start (manager : PeerSessionManager) : Watch := ⟨manager, [], []⟩

def acceptedBy (w : Watch) : Action → Option PeerEncryptedMessage
  | .decrypt msg nowMs => if (w.manager.decryptFromPeer crypto msg nowMs).2.isSome then some msg
      else none
  | _ => none

/-- Whether the action leaves the session with a peer in the table and in place. -/
def keeps (w : Watch) (action : Action) (peer : NodeId) : Bool :=
  (w.manager.act crypto action).sessions.contains peer && !action.initiates peer

def step (w : Watch) (action : Action) : Watch where
  manager := w.manager.act crypto action
  accepted := w.accepted ++ (w.acceptedBy crypto action).toList
  remembered := (w.remembered.filter fun old => w.keeps crypto action old.senderNodeId) ++
    (w.acceptedBy crypto action).toList

/-- Whether a message is for the manager, and from a peer that it has an established session
with. -/
def listensTo (w : Watch) (msg : PeerEncryptedMessage) : Bool :=
  decide (msg.recipientNodeId = w.manager.ourNodeId) &&
    w.manager.sessions[msg.senderNodeId]?.any PeerSession.isEstablished

/-- A message accepted before that meets an established session again comes back as it was: from
the same sender, with no higher counter and not the last one, while the session that accepted it is
still there. -/
def PlainReplay (w : Watch) : Action → Prop
  | .decrypt msg _ => msg.sealed ∈ w.accepted.map PeerEncryptedMessage.sealed →
      w.listensTo msg = true →
        ∃ old ∈ w.remembered, old.sealed = msg.sealed ∧ old.senderNodeId = msg.senderNodeId ∧
          msg.counter ≤ old.counter ∧ msg.counter ≠ u64Max
  | _ => True

instance (w : Watch) (action : Action) : Decidable (w.PlainReplay action) := by
  cases action with
  | decrypt msg nowMs => exact inferInstanceAs (Decidable (_ → _))
  | _ => exact inferInstanceAs (Decidable True)

/-- The session behind each remembered message has moved past its counter. -/
structure Sound (w : Watch) : Prop where
  nodup : (w.accepted.map PeerEncryptedMessage.sealed).Nodup
  passed : ∀ old ∈ w.remembered, ∃ s, w.manager.sessions[old.senderNodeId]? = some s ∧
    saturatingAdd old.counter 1 ≤ s.inboundCounter

theorem lt_saturatingAdd_one {counter bound : UInt64} (hle : counter ≤ bound)
    (hmax : counter ≠ u64Max) : counter < saturatingAdd bound 1 := by
  have hne : counter.toNat ≠ 2 ^ 64 - 1 := fun heq => hmax (UInt64.toNat_inj.mp heq)
  have hlt := counter.toNat_lt
  rw [UInt64.le_iff_toNat_le] at hle
  rw [UInt64.lt_iff_toNat_lt, toNat_saturatingAdd]
  change counter.toNat < min (bound.toNat + 1) (2 ^ 64 - 1)
  omega

variable {crypto} {w : Watch}

theorem Sound.passed_step (h : w.Sound) {action : Action} {old : PeerEncryptedMessage}
    (hold : old ∈ w.remembered) (hkept : w.keeps crypto action old.senderNodeId = true) :
    ∃ s, (w.manager.act crypto action).sessions[old.senderNodeId]? = some s ∧
      saturatingAdd old.counter 1 ≤ s.inboundCounter := by
  obtain ⟨s, hs, hle⟩ := h.passed old hold
  obtain ⟨hmem, hplace⟩ := Bool.and_eq_true_iff.mp hkept
  obtain ⟨after, hafter⟩ := Option.isSome_iff_exists.mp
    (Std.ExtTreeMap.isSome_getElem?_iff_mem.mpr (Std.ExtTreeMap.contains_iff_mem.mp hmem))
  refine ⟨after, hafter, UInt64.le_trans hle ?_⟩
  exact inboundCounter_le_act crypto hs hafter (by simpa using hplace)

/-- A plain replay is refused. -/
theorem Sound.not_mem_accepted (h : w.Sound) {msg : PeerEncryptedMessage} {nowMs : UInt64}
    (hgood : w.PlainReplay (.decrypt msg nowMs))
    (haccepted : (w.manager.decryptFromPeer crypto msg nowMs).2.isSome = true) :
    msg.sealed ∉ w.accepted.map PeerEncryptedMessage.sealed := by
  intro hbefore
  obtain ⟨plaintext, hplain⟩ := Option.isSome_iff_exists.mp haccepted
  obtain ⟨hours, s, hs, hready, hinbound, -⟩ := accepted_spec crypto hplain
  have hlistens : w.listensTo msg = true := by
    rw [listensTo, hs, Option.any_some, hready, decide_eq_true hours]
    rfl
  obtain ⟨old, hold, -, hsender, hcounter, hmax⟩ := hgood hbefore hlistens
  obtain ⟨s', hs', hpassed⟩ := h.passed old hold
  rw [hsender, hs] at hs'
  obtain rfl := Option.some.inj hs'
  have hlt := UInt64.lt_of_lt_of_le (lt_saturatingAdd_one hcounter hmax) hpassed
  exact UInt64.not_le.mpr hlt hinbound

/-- The session that has just accepted a message is past it. -/
theorem passed_accepted {msg : PeerEncryptedMessage} {nowMs : UInt64}
    (haccepted : (w.manager.decryptFromPeer crypto msg nowMs).2.isSome = true) :
    ∃ s, (w.manager.act crypto (.decrypt msg nowMs)).sessions[msg.senderNodeId]? = some s ∧
      saturatingAdd msg.counter 1 ≤ s.inboundCounter := by
  obtain ⟨plaintext, hplain⟩ := Option.isSome_iff_exists.mp haccepted
  obtain ⟨hours, s, hs, hready, hinbound, -⟩ := accepted_spec crypto hplain
  refine ⟨_, lookup_decryptFromPeer crypto hs, ?_⟩
  rw [if_pos ⟨⟨hours, rfl⟩, hready, hinbound⟩]
  exact UInt64.le_refl _

theorem Sound.step (h : w.Sound) {action : Action} (hgood : w.PlainReplay action) :
    (w.step crypto action).Sound := by
  cases hacc : w.acceptedBy crypto action with
  | none =>
      unfold Watch.step
      rw [hacc, Option.toList_none, List.append_nil, List.append_nil]
      refine ⟨h.nodup, fun old hold => ?_⟩
      obtain ⟨hmem, hkept⟩ := List.mem_filter.mp hold
      exact h.passed_step hmem hkept
  | some msg =>
      -- only a decryption accepts anything
      have hdecrypt : ∃ nowMs, action = .decrypt msg nowMs ∧
          (w.manager.decryptFromPeer crypto msg nowMs).2.isSome = true := by
        cases action with
        | decrypt other nowMs =>
            unfold acceptedBy at hacc
            dsimp only at hacc
            split at hacc
            · rename_i hsome
              obtain rfl := Option.some.inj hacc
              exact ⟨nowMs, rfl, hsome⟩
            · cases hacc
        | _ => cases hacc
      obtain ⟨nowMs, rfl, haccepted⟩ := hdecrypt
      unfold Watch.step
      rw [hacc, Option.toList_some]
      constructor
      · rw [List.map_append, List.map_singleton]
        refine List.nodup_append.mpr ⟨h.nodup, List.nodup_singleton _, ?_⟩
        rintro pair hpair other hother rfl
        rw [List.mem_singleton.mp hother] at hpair
        exact h.not_mem_accepted hgood haccepted hpair
      · intro old hold
        rcases List.mem_append.mp hold with hearlier | hself
        · obtain ⟨hmem, hkept⟩ := List.mem_filter.mp hearlier
          exact h.passed_step hmem hkept
        · rw [List.mem_singleton.mp hself]
          exact passed_accepted haccepted

/-- Whatever a session manager starts from, if accepted messages only come back as plain replays
then no ciphertext is accepted twice. -/
theorem accepted_once (crypto : Crypto) (manager : PeerSessionManager) (actions : List Action)
    (hplain : LoggedRun.Along (step crypto) PlainReplay (start manager) actions) :
    ((LoggedRun.run (step crypto) (start manager) actions).accepted.map
      PeerEncryptedMessage.sealed).Nodup := by
  have hstart : (start manager).Sound :=
    ⟨List.nodup_nil, fun _ hnone => absurd hnone List.not_mem_nil⟩
  have hrun : (LoggedRun.run (step crypto) (start manager) actions).Sound :=
    LoggedRun.run_keeps_of_good hstart hplain fun _ _ hgood hsound => hsound.step hgood
  exact hrun.nodup

end Watch

/-! ## Two ends -/

/-- Transparent primitives: a ciphertext names its key and nonce, and both ends of an exchange
compute the sum of their keys. -/
def glass : Crypto where
  encrypt key nonce plaintext := some (key.toList ++ nonce.toList ++ plaintext)
  decrypt key nonce ciphertext :=
    if ciphertext.take 44 = key.toList ++ nonce.toList then some (ciphertext.drop 44) else none
  deriveKey _ secret _ := Vector.ofFn fun i => byteAt secret i
  publicKey key := key
  diffieHellman ours theirs := Vector.zipWith (· + ·) ours theirs

def alice : PeerSessionManager := new 1 (Vector.replicate 32 3)

def bob : PeerSessionManager := new 2 (Vector.replicate 32 5)

/-- Alice's side once Bob has answered. -/
def aliceReady : PeerSessionManager :=
  ((alice.initiateSession glass .ascending 2 1000).1.handleKeyExchange glass
    (bob.ourKeyExchange glass) 1000).1

/-- Her first message to him. -/
def greeting : PeerEncryptedMessage :=
  (aliceReady.encryptForPeer glass 2 (Vector.replicate 12 0) [104, 105] 2000).2.get
    (by decide +kernel)

namespace Watch

theorem greeting_accepted_once :
    ((LoggedRun.run (step glass) (start bob)
      [.handleKeyExchange (alice.ourKeyExchange glass) 1000, .decrypt greeting 2000,
        .decrypt greeting 3000]).accepted.map PeerEncryptedMessage.sealed).Nodup :=
  accepted_once glass bob _ (by decide +kernel)

/-- Bob takes the same ciphertext again with another counter, and as it was in a session that he
has opened again. -/
theorem greeting_accepted_twice :
    (aliceReady.encryptForPeer glass 2 (Vector.replicate 12 0) [104, 105] 2000).2 = some greeting ∧
      (LoggedRun.run (step glass) (start bob)
        [.handleKeyExchange (alice.ourKeyExchange glass) 1000, .decrypt greeting 2000,
          .decrypt { greeting with counter := 1 } 3000]).accepted.map PeerEncryptedMessage.sealed =
        [greeting.sealed, greeting.sealed] ∧
      (LoggedRun.run (step glass) (start bob)
        [.handleKeyExchange (alice.ourKeyExchange glass) 1000, .decrypt greeting 2000,
          .initiate .ascending 1 2500, .handleKeyExchange (alice.ourKeyExchange glass) 2600,
          .decrypt greeting 3000]).accepted.map PeerEncryptedMessage.sealed =
        [greeting.sealed, greeting.sealed] := by
  decide +kernel

end Watch

end PeerSessionManager

end PeatBtle
