import PeatBtle.Data.Eldest
import PeatBtle.Data.LoggedRun
import PeatBtle.Security.SessionFrame

/-!
# The session limit

A session that is opened enters the table before the limit is enforced, and it is
not established yet. If nothing else may go, the limit takes it away again.
-/

namespace PeatBtle

open Std Wire MapMerge Eldest

namespace PeerSessionManager

theorem oldestSession_eq (listing : SessionListing) (m : PeerSessionManager)
    (test : PeerSession → Bool) : m.oldestSession listing test =
      eldest listing (fun s => s.lastActivityMs.toNat) test m.sessions := by
  unfold oldestSession eldest List.argmin
  dsimp only
  congr 2
  funext best entry
  cases best with
  | none => rfl
  | some b => exact if_congr UInt64.lt_iff_toNat_lt rfl rfl

/-! ## Eviction -/

/-- The session to go next: a closed one if there is any, else one not established. -/
def victim (listing : SessionListing) (m : PeerSessionManager) : Option NodeId :=
  (m.oldestSession listing fun s => decide (s.state = .closed)).or
    (m.oldestSession listing fun s => !s.isEstablished)

theorem evict_succ (listing : SessionListing) (m : PeerSessionManager) (fuel : Nat) :
    m.evict listing (fuel + 1) =
      if m.sessions.size > m.maxSessions then
        match m.victim listing with
        | none => m
        | some node => evict listing { m with sessions := m.sessions.erase node } fuel
      else m := rfl

section Victims

variable {listing : SessionListing} {m : PeerSessionManager} {node : NodeId}

theorem of_victim (h : m.victim listing = some node) :
    ∃ s, m.sessions[node]? = some s ∧ (s.state = .closed ∨ s.isEstablished = false) := by
  rw [victim, oldestSession_eq, oldestSession_eq] at h
  rcases Option.or_eq_some_iff.mp h with hclosed | ⟨-, hwaiting⟩
  · obtain ⟨s, hs, htest, -⟩ := of_eldest hclosed
    exact ⟨s, hs, Or.inl (of_decide_eq_true htest)⟩
  · obtain ⟨s, hs, htest, -⟩ := of_eldest hwaiting
    exact ⟨s, hs, Or.inr (by simpa using htest)⟩

theorem victim_isSome {s : PeerSession} (hs : m.sessions[node]? = some s)
    (hready : s.isEstablished = false) : ∃ gone, m.victim listing = some gone := by
  cases hvictim : m.victim listing with
  | some gone => exact ⟨gone, rfl⟩
  | none =>
      rw [victim, oldestSession_eq, oldestSession_eq] at hvictim
      have hnone := eldest_eq_none.mp (Option.or_eq_none_iff.mp hvictim).2 node s hs
      rw [hready] at hnone
      cases hnone

/-- More rounds than there are sessions change nothing: the loop has come to its end. -/
theorem evict_of_le {fuel : Nat} (h : m.sessions.size ≤ fuel) :
    m.evict listing fuel = m.evict listing m.sessions.size := by
  have hany : ∀ fuel fuel' (m : PeerSessionManager), m.sessions.size ≤ fuel →
      m.sessions.size ≤ fuel' → m.evict listing fuel = m.evict listing fuel' := by
    intro fuel
    induction fuel with
    | zero =>
        intro fuel' m hzero _
        have hsize : ¬ m.sessions.size > m.maxSessions := by omega
        cases fuel' with
        | zero => rfl
        | succ fuel' => rw [evict_succ, if_neg hsize, evict]
    | succ fuel ih =>
        intro fuel' m hfuel hfuel'
        cases fuel' with
        | zero =>
            have hsize : ¬ m.sessions.size > m.maxSessions := by omega
            rw [evict_succ, if_neg hsize, evict]
        | succ fuel' =>
            rw [evict_succ, evict_succ]
            split
            · cases hvictim : m.victim listing with
              | none => rfl
              | some node =>
                  obtain ⟨s, hs, -⟩ := of_victim hvictim
                  have hsize := size_erase_of_getElem? hs
                  exact ih fuel' _ (by dsimp only; omega) (by dsimp only; omega)
            · rfl
  exact hany fuel m.sessions.size m h (Nat.le_refl _)

theorem evict_of_short {fuel : Nat} (h : m.sessions.size ≤ m.maxSessions) :
    m.evict listing fuel = m := by
  cases fuel with
  | zero => rfl
  | succ fuel => rw [evict_succ, if_neg (by omega)]

/-- One session too many costs one session. -/
theorem evict_of_one_over (h : m.sessions.size = m.maxSessions + 1)
    (hvictim : m.victim listing = some node) :
    m.evict listing m.sessions.size = { m with sessions := m.sessions.erase node } := by
  obtain ⟨s, hs, -⟩ := of_victim hvictim
  have hsize := size_erase_of_getElem? hs
  rw [h, evict_succ, if_pos (by omega), hvictim]
  exact evict_of_short (by dsimp only; omega)

/-- Every established session has its key. -/
def Keyed (m : PeerSessionManager) : Prop :=
  ∀ (peer : NodeId) (s : PeerSession), m.sessions[peer]? = some s →
    s.state = .established → s.sessionKey.isSome = true

theorem Keyed.isEstablished (h : m.Keyed) {s : PeerSession} (hs : m.sessions[node]? = some s)
    (hready : s.state = .established) : s.isEstablished = true := by
  rw [PeerSession.isEstablished, decide_eq_true hready, h node s hs hready]
  rfl

/-- An established session is never the one to go. -/
theorem Keyed.ne_victim (h : m.Keyed) {gone : NodeId} (hgone : m.victim listing = some gone)
    {s : PeerSession} (hs : m.sessions[node]? = some s) (hready : s.state = .established) :
    gone ≠ node := by
  rintro rfl
  obtain ⟨s', hs', hgoes⟩ := of_victim hgone
  rw [hs] at hs'
  obtain rfl := Option.some.inj hs'
  rcases hgoes with hclosed | hwaiting
  · rw [hready] at hclosed
    cases hclosed
  · rw [h.isEstablished hs hready] at hwaiting
    cases hwaiting

/-- A waiting session goes next if none is closed and the others that wait were used later, or at
the same time and are listed behind it. -/
theorem victim_eq_waiting_iff (hkeyed : m.Keyed) {s : PeerSession}
    (hs : m.sessions[node]? = some s) (hwaiting : s.state = .awaitingPeerKey) :
    m.victim listing = some node ↔ ∀ (other : NodeId) (s' : PeerSession),
      m.sessions[other]? = some s' → node ≠ other →
        s'.state ≠ .closed ∧ (s'.state = .awaitingPeerKey →
          s.lastActivityMs < s'.lastActivityMs ∨
            s.lastActivityMs = s'.lastActivityMs ∧
              listing.place m.sessions node < listing.place m.sessions other) := by
  have hunready : (!s.isEstablished) = true := by simp [PeerSession.isEstablished, hwaiting]
  rw [victim, oldestSession_eq, oldestSession_eq, Option.or_eq_some_iff, eldest_eq_none]
  constructor
  · rintro (hclosed | ⟨hnone, hfirst⟩) other s' hs' hother
    · obtain ⟨closed, hfound, htest, -⟩ := of_eldest hclosed
      rw [hs] at hfound
      obtain rfl := Option.some.inj hfound
      rw [hwaiting] at htest
      cases htest
    · refine ⟨by simpa using hnone other s' hs', fun hwait => ?_⟩
      obtain ⟨found, hfound, -, hbefore⟩ := of_eldest hfirst
      rw [hs] at hfound
      obtain rfl := Option.some.inj hfound
      rw [UInt64.lt_iff_toNat_lt, ← UInt64.toNat_inj]
      rcases hbefore other s' hs' (by simp [PeerSession.isEstablished, hwait]) with
        hlt | ⟨htie, hplace⟩
      · exact Or.inl hlt
      · refine Or.inr ⟨htie, Nat.lt_of_le_of_ne hplace fun heq => hother ?_⟩
        exact Listing.eq_of_place_eq hs heq
  · intro h
    have hopen : ∀ (other : NodeId) (s' : PeerSession), m.sessions[other]? = some s' →
        s'.state ≠ .closed := by
      intro other s' hs'
      by_cases hother : node = other
      · rw [← hother, hs] at hs'
        rw [← Option.some.inj hs', hwaiting]
        exact nofun
      · exact (h other s' hs' hother).1
    refine Or.inr ⟨fun other s' hs' => decide_eq_false (hopen other s' hs'), ?_⟩
    refine eldest_eq_some_iff.mpr ⟨s, hs, hunready, fun other s' hs' htest => ?_⟩
    by_cases hother : node = other
    · rw [← hother, hs] at hs'
      rw [← hother, Option.some.inj hs']
      exact Or.inr ⟨rfl, Nat.le_refl _⟩
    · have hwait : s'.state = .awaitingPeerKey := by
        cases hstate : s'.state with
        | awaitingPeerKey => rfl
        | closed => exact absurd hstate (hopen other s' hs')
        | established =>
            rw [hkeyed.isEstablished hs' hstate] at htest
            cases htest
      rcases (h other s' hs' hother).2 hwait with hlt | ⟨htie, hlt⟩
      · exact Or.inl (UInt64.lt_iff_toNat_lt.mp hlt)
      · exact Or.inr ⟨congrArg _ htie, Nat.le_of_lt hlt⟩

end Victims

/-! ## What an initiation leaves -/

/-- The table that the limit is enforced on: the new session and the others that have not
expired. -/
def live (m : PeerSessionManager) (peer : NodeId) (nowMs : UInt64) : PeerSessionManager :=
  cleanupExpired
    { m with sessions := m.sessions.insert peer (PeerSession.newInitiator peer nowMs) } nowMs

theorem initiateSession_eq (crypto : Crypto) (listing : SessionListing) (m : PeerSessionManager)
    (peer : NodeId) (nowMs : UInt64) : (m.initiateSession crypto listing peer nowMs).1 =
      (m.live peer nowMs).evict listing (m.live peer nowMs).sessions.size := rfl

section Live

variable {m : PeerSessionManager} {peer other : NodeId} {nowMs : UInt64} {s : PeerSession}

theorem newInitiator_not_expired (peer : NodeId) (nowMs timeoutMs : UInt64) :
    (PeerSession.newInitiator peer nowMs).isExpired nowMs timeoutMs = false := by
  have hsub : saturatingSub nowMs nowMs = 0 := by simp [saturatingSub]
  simp [PeerSession.isExpired, PeerSession.newInitiator, hsub]

theorem live_lookup_self :
    (m.live peer nowMs).sessions[peer]? = some (PeerSession.newInitiator peer nowMs) := by
  unfold live cleanupExpired
  dsimp only
  rw [ExtTreeMap.getElem?_filter', getElem?_insert_eq, if_pos rfl]
  exact Option.filter_eq_some_iff.mpr ⟨rfl, by rw [newInitiator_not_expired]; rfl⟩

theorem live_lookup_other (hother : peer ≠ other) : (m.live peer nowMs).sessions[other]? =
    m.sessions[other]?.filter fun s => !s.isExpired nowMs m.sessionTimeoutMs := by
  unfold live cleanupExpired
  dsimp only
  rw [ExtTreeMap.getElem?_filter', getElem?_insert_eq, if_neg hother]

/-- Another session that is not expired is still there. -/
theorem live_lookup_fresh (hother : peer ≠ other) (hs : m.sessions[other]? = some s)
    (hfresh : s.isExpired nowMs m.sessionTimeoutMs = false) :
    (m.live peer nowMs).sessions[other]? = some s := by
  rw [live_lookup_other hother, hs]
  exact Option.filter_eq_some_iff.mpr ⟨rfl, by rw [hfresh]; rfl⟩

/-- If no other session is expired, the new one just joins them. -/
theorem live_sessions (hfresh : ∀ (other : NodeId) (s : PeerSession), m.sessions[other]? = some s →
    s.isExpired nowMs m.sessionTimeoutMs = false) : (m.live peer nowMs).sessions =
      m.sessions.insert peer (PeerSession.newInitiator peer nowMs) := by
  refine filter_eq_self_iff.mpr fun other s hs => ?_
  rw [getElem?_insert_eq] at hs
  split at hs
  · rw [← Option.some.inj hs]
    simp [newInitiator_not_expired]
  · simp [hfresh other s hs]

theorem live_size_le (hbound : m.sessions.size ≤ m.maxSessions) (peer : NodeId) (nowMs : UInt64) :
    (m.live peer nowMs).sessions.size ≤ m.maxSessions + 1 := by
  have hfilter : (m.live peer nowMs).sessions.size ≤ _ := ExtTreeMap.size_filter_le_size
  have hinsert : _ ≤ m.sessions.size + 1 :=
    ExtTreeMap.size_insert_le (t := m.sessions) (k := peer)
      (v := PeerSession.newInitiator peer nowMs)
  dsimp only at hfilter
  omega

/-- The table overflows exactly if it was full of other sessions, none of them expired. -/
theorem live_size_gt_iff (hbound : m.sessions.size ≤ m.maxSessions) :
    m.maxSessions < (m.live peer nowMs).sessions.size ↔
      peer ∉ m.sessions ∧ m.sessions.size = m.maxSessions ∧
        ∀ (other : NodeId) (s : PeerSession), m.sessions[other]? = some s →
          s.isExpired nowMs m.sessionTimeoutMs = false := by
  let opened := m.sessions.insert peer (PeerSession.newInitiator peer nowMs)
  let keep := fun (_ : NodeId) (s : PeerSession) => !s.isExpired nowMs m.sessionTimeoutMs
  have hlive : (m.live peer nowMs).sessions = opened.filter keep := rfl
  have hfilter : (opened.filter keep).size ≤ opened.size := ExtTreeMap.size_filter_le_size
  have hsize : opened.size = if m.sessions.contains peer then m.sessions.size
      else m.sessions.size + 1 := ExtTreeMap.size_insert
  have hall : (opened.filter keep).size = opened.size ↔ ∀ (other : NodeId) (s : PeerSession),
      opened[other]? = some s → keep other s = true :=
    size_filter_eq_size_iff.trans filter_eq_self_iff
  rw [hlive]
  constructor
  · intro hover
    have hnew : ¬ m.sessions.contains peer = true := by
      intro hmem
      rw [if_pos hmem] at hsize
      omega
    rw [if_neg hnew] at hsize
    have hpeer : peer ∉ m.sessions := fun hmem => hnew (ExtTreeMap.contains_iff_mem.mpr hmem)
    refine ⟨hpeer, by omega, fun other s hs => ?_⟩
    have hother : peer ≠ other := fun heq => hpeer (heq ▸ mem_of_getElem? hs)
    have hkept := hall.mp (by omega) other s
      (by rw [getElem?_insert_eq, if_neg hother]; exact hs)
    simpa [keep] using hkept
  · rintro ⟨hpeer, hfull, hfresh⟩
    have hnew : ¬ m.sessions.contains peer = true := fun hmem =>
      hpeer (ExtTreeMap.contains_iff_mem.mp hmem)
    rw [if_neg hnew] at hsize
    have heq : opened.filter keep = opened := live_sessions hfresh
    rw [heq]
    omega

end Live

/-! ## Tables within the limit -/

/-- No more sessions than allowed, and no established one without a key. -/
structure Tidy (m : PeerSessionManager) : Prop where
  bounded : m.sessions.size ≤ m.maxSessions
  keyed : m.Keyed

section Tables

variable {m after : PeerSessionManager} {peer : NodeId} {s : PeerSession}

theorem Sheds.keyed (h : m.Sheds after) (hkeyed : m.Keyed) : after.Keyed :=
  fun peer s hs => hkeyed peer s (h.session_of_some peer s hs)

theorem keyed_insert (h : m.Keyed) (hs : s.state = .established → s.sessionKey.isSome = true) :
    Keyed { m with sessions := m.sessions.insert peer s } := by
  intro other s' hs'
  dsimp only at hs'
  rw [getElem?_insert_eq] at hs'
  split at hs'
  · rw [← Option.some.inj hs']
    exact hs
  · exact h other s' hs'

theorem keyed_live (h : m.Keyed) (peer : NodeId) (nowMs : UInt64) : (m.live peer nowMs).Keyed :=
  (sheds_cleanupExpired _ nowMs).keyed (keyed_insert h nofun)

/-- Writing to a session that is there makes the table no larger. -/
theorem Tidy.update (h : m.Tidy) {old : PeerSession} (hold : m.sessions[peer]? = some old)
    (hs : s.state = .established → s.sessionKey.isSome = true) :
    Tidy { m with sessions := m.sessions.insert peer s } := by
  refine ⟨?_, keyed_insert h.keyed hs⟩
  have hmem := ExtTreeMap.contains_iff_mem.mpr (mem_of_getElem? hold)
  dsimp only
  rw [ExtTreeMap.size_insert, if_pos hmem]
  exact h.bounded

/-- The limit lets one session go, or none. -/
theorem initiateSession_cases (crypto : Crypto) (h : m.Tidy) (listing : SessionListing)
    (peer : NodeId) (nowMs : UInt64) :
    ((m.initiateSession crypto listing peer nowMs).1 = m.live peer nowMs ∧
        (m.live peer nowMs).sessions.size ≤ m.maxSessions) ∨
      ∃ gone, (m.live peer nowMs).victim listing = some gone ∧
        (m.live peer nowMs).sessions.size = m.maxSessions + 1 ∧
        (m.initiateSession crypto listing peer nowMs).1 =
          { m.live peer nowMs with sessions := (m.live peer nowMs).sessions.erase gone } := by
  have hle := live_size_le h.bounded peer nowMs
  rw [initiateSession_eq]
  by_cases hover : m.maxSessions < (m.live peer nowMs).sessions.size
  · right
    have hsize : (m.live peer nowMs).sessions.size = (m.live peer nowMs).maxSessions + 1 := by
      change _ = m.maxSessions + 1
      omega
    obtain ⟨gone, hgone⟩ := victim_isSome live_lookup_self rfl
    exact ⟨gone, hgone, hsize, evict_of_one_over hsize hgone⟩
  · left
    have hshort : (m.live peer nowMs).sessions.size ≤ m.maxSessions := by omega
    exact ⟨evict_of_short hshort, hshort⟩

theorem tidy_initiateSession (crypto : Crypto) (h : m.Tidy) (listing : SessionListing)
    (peer : NodeId) (nowMs : UInt64) : (m.initiateSession crypto listing peer nowMs).1.Tidy := by
  have hlive := keyed_live h.keyed peer nowMs
  rcases initiateSession_cases crypto h listing peer nowMs with
    ⟨heq, hsize⟩ | ⟨gone, hgone, hsize, heq⟩
  · rw [heq]
    exact ⟨hsize, hlive⟩
  · rw [heq]
    obtain ⟨s, hs, -⟩ := of_victim hgone
    have herase := size_erase_of_getElem? hs
    refine ⟨?_, (sheds_erase _ gone).keyed hlive⟩
    change ((m.live peer nowMs).sessions.erase gone).size ≤ m.maxSessions
    omega

theorem tidy_cleanupExpired (h : m.Tidy) (nowMs : UInt64) : (m.cleanupExpired nowMs).Tidy :=
  ⟨Nat.le_trans ExtTreeMap.size_filter_le_size h.bounded,
    (m.sheds_cleanupExpired nowMs).keyed h.keyed⟩

theorem tidy_roomy (h : m.Tidy) (nowMs : UInt64) : (m.roomy nowMs).Tidy := by
  unfold roomy
  split
  · exact tidy_cleanupExpired h nowMs
  · exact h

theorem tidy_handleKeyExchange (crypto : Crypto) (h : m.Tidy) (msg : KeyExchangeMessage)
    (nowMs : UInt64) : (m.handleKeyExchange crypto msg nowMs).1.Tidy := by
  cases hsender : m.sessions[msg.senderNodeId]? with
  | some session =>
      rw [m.handleKeyExchange_known crypto msg nowMs hsender]
      split
      · exact h.update hsender fun _ => rfl
      · exact h
  | none =>
      have hroomy := tidy_roomy h nowMs
      rw [m.handleKeyExchange_unknown crypto msg nowMs hsender]
      split
      · rename_i hroom
        have hspare : ¬ (m.roomy nowMs).sessions.size ≥ (m.roomy nowMs).maxSessions := by
          simpa [hasRoom, roomy] using hroom
        refine ⟨Nat.le_trans ExtTreeMap.size_insert_le ?_, keyed_insert hroomy.keyed fun _ => rfl⟩
        change (m.roomy nowMs).sessions.size + 1 ≤ (m.roomy nowMs).maxSessions
        omega
      · exact hroomy

theorem tidy_encryptForPeer (crypto : Crypto) (h : m.Tidy) (peer : NodeId) (nonce : Nonce)
    (plaintext : Bytes) (nowMs : UInt64) :
    (m.encryptForPeer crypto peer nonce plaintext nowMs).1.Tidy := by
  unfold encryptForPeer
  cases hpeer : m.sessions[peer]? with
  | none => exact h
  | some session =>
      dsimp only
      split
      · exact h.update hpeer (h.keyed peer session hpeer)
      · exact h

theorem tidy_decryptFromPeer (crypto : Crypto) (h : m.Tidy) (msg : PeerEncryptedMessage)
    (nowMs : UInt64) : (m.decryptFromPeer crypto msg nowMs).1.Tidy := by
  unfold decryptFromPeer
  split
  · exact h
  · cases hsender : m.sessions[msg.senderNodeId]? with
    | none => exact h
    | some session =>
        have hkey := h.keyed msg.senderNodeId session hsender
        unfold PeerSession.validateInboundCounter
        dsimp only
        split
        · split
          · exact h.update hsender hkey
          · exact h
        · exact h

theorem tidy_act (crypto : Crypto) (h : m.Tidy) (action : Action) : (m.act crypto action).Tidy := by
  cases action with
  | initiate listing peer nowMs => exact tidy_initiateSession crypto h listing peer nowMs
  | handleKeyExchange msg nowMs => exact tidy_handleKeyExchange crypto h msg nowMs
  | encrypt peer nonce plaintext nowMs =>
      exact tidy_encryptForPeer crypto h peer nonce plaintext nowMs
  | decrypt msg nowMs => exact tidy_decryptFromPeer crypto h msg nowMs
  | close peer =>
      refine ⟨?_, fun other s hs hready => ?_⟩
      · change (m.sessions.modify peer PeerSession.close).size ≤ m.maxSessions
        rw [ExtTreeMap.size_modify]
        exact h.bounded
      · change (m.sessions.modify peer PeerSession.close)[other]? = some s at hs
        rw [getElem?_modify_eq] at hs
        split at hs
        · obtain ⟨old, -, rfl⟩ := Option.map_eq_some_iff.mp hs
          cases hready
        · exact h.keyed other s hs hready
  | remove peer =>
      exact ⟨Nat.le_trans ExtTreeMap.size_erase_le h.bounded, (m.sheds_erase peer).keyed h.keyed⟩
  | cleanup nowMs => exact tidy_cleanupExpired h nowMs

theorem tidy_run (crypto : Crypto) (h : m.Tidy) (actions : List Action) :
    (LoggedRun.run (act crypto) m actions).Tidy :=
  LoggedRun.run_keeps h fun _ action _ hkept => tidy_act crypto hkept action

end Tables

/-! ## Whether the new session stays -/

/-- Every place is taken by another session that is neither expired nor closed, and the waiting
ones among them were used later than now, or now and are listed behind the new one. -/
def Crowded (listing : SessionListing) (m : PeerSessionManager) (peer : NodeId) (nowMs : UInt64) :
    Prop :=
  let opened := m.sessions.insert peer (PeerSession.newInitiator peer nowMs)
  peer ∉ m.sessions ∧ m.sessions.size = m.maxSessions ∧
    ∀ (other : NodeId) (s : PeerSession), m.sessions[other]? = some s →
      s.isExpired nowMs m.sessionTimeoutMs = false ∧ s.state ≠ .closed ∧
        (s.state = .awaitingPeerKey → nowMs < s.lastActivityMs ∨
          nowMs = s.lastActivityMs ∧ listing.place opened peer < listing.place opened other)

/-- The limit holds after an initiation, the new session waits for its answer, no established
session has gone before its time, and the eviction has come to its end. -/
structure OpensWithin (crypto : Crypto) (listing : SessionListing) (m : PeerSessionManager)
    (peer : NodeId) (nowMs : UInt64) : Prop where
  bounded : (m.initiateSession crypto listing peer nowMs).1.sessions.size ≤ m.maxSessions
  waiting : ∃ s, (m.initiateSession crypto listing peer nowMs).1.sessions[peer]? = some s ∧
    s.state = .awaitingPeerKey
  established_kept : ∀ (other : NodeId) (s : PeerSession), peer ≠ other →
    m.sessions[other]? = some s → s.state = .established →
      s.isExpired nowMs m.sessionTimeoutMs = false →
        (m.initiateSession crypto listing peer nowMs).1.sessions[other]? = some s
  terminates : ∀ rounds, (m.live peer nowMs).sessions.size ≤ rounds →
    (m.live peer nowMs).evict listing rounds = (m.initiateSession crypto listing peer nowMs).1

section Initiation

variable {listing : SessionListing} {m : PeerSessionManager} {peer : NodeId} {nowMs : UInt64}

/-- The new session is the one to go exactly if the table is crowded. -/
theorem crowded_iff (h : m.Tidy) : m.Crowded listing peer nowMs ↔
    m.maxSessions < (m.live peer nowMs).sessions.size ∧
      (m.live peer nowMs).victim listing = some peer := by
  rw [live_size_gt_iff h.bounded,
    victim_eq_waiting_iff (keyed_live h.keyed _ nowMs) live_lookup_self rfl]
  constructor
  · rintro ⟨hpeer, hfull, hall⟩
    have hfresh := fun other s hs => (hall other s hs).1
    refine ⟨⟨hpeer, hfull, hfresh⟩, fun other s hs hother => ?_⟩
    rw [live_lookup_other hother] at hs
    rw [live_sessions hfresh]
    exact (hall other s (Option.eq_some_of_filter_eq_some hs)).2
  · rintro ⟨⟨hpeer, hfull, hfresh⟩, hall⟩
    rw [live_sessions hfresh] at hall
    refine ⟨hpeer, hfull, fun other s hs => ⟨hfresh other s hs, ?_⟩⟩
    have hother : peer ≠ other := fun heq => hpeer (heq ▸ mem_of_getElem? hs)
    exact hall other s (by rw [getElem?_insert_eq, if_neg hother]; exact hs) hother

theorem opensWithin_iff (crypto : Crypto) (h : m.Tidy) :
    OpensWithin crypto listing m peer nowMs ↔ ¬ m.Crowded listing peer nowMs := by
  rw [crowded_iff h]
  have hends : ∀ rounds, (m.live peer nowMs).sessions.size ≤ rounds →
      (m.live peer nowMs).evict listing rounds =
        (m.initiateSession crypto listing peer nowMs).1 :=
    fun rounds hrounds => evict_of_le hrounds
  have hbounded := (tidy_initiateSession crypto h listing peer nowMs).bounded
  rcases initiateSession_cases crypto h listing peer nowMs with
    ⟨heq, hsize⟩ | ⟨gone, hgone, hsize, heq⟩
  · refine iff_of_true ⟨?_, ?_, ?_, hends⟩ (fun hover => absurd hover.1 (by omega))
    · rw [heq]
      exact hsize
    · rw [heq]
      exact ⟨_, live_lookup_self, rfl⟩
    · intro other s hother hs _ hfresh
      rw [heq]
      exact live_lookup_fresh hother hs hfresh
  · have hover : m.maxSessions < (m.live peer nowMs).sessions.size := by omega
    rw [hgone, and_iff_right hover, Option.some.injEq]
    constructor
    · rintro ⟨-, ⟨s, hs, -⟩, -, -⟩ hself
      rw [heq] at hs
      dsimp only at hs
      rw [getElem?_erase_eq, if_pos hself] at hs
      cases hs
    · intro hother
      refine ⟨?_, ?_, ?_, hends⟩
      · rw [heq] at hbounded ⊢
        exact hbounded
      · rw [heq]
        refine ⟨PeerSession.newInitiator peer nowMs, ?_, rfl⟩
        dsimp only
        rw [getElem?_erase_eq, if_neg hother]
        exact live_lookup_self
      · intro other s hne hs hready hfresh
        have hlive := live_lookup_fresh hne hs hfresh
        rw [heq]
        dsimp only
        have hkeyed := keyed_live h.keyed peer nowMs
        rw [getElem?_erase_eq, if_neg (hkeyed.ne_victim hgone hlive hready)]
        exact hlive

end Initiation

/-- A manager as it is configured, before any session. -/
def configured (ourNodeId : NodeId) (identitySecret : Key) (maxSessions : Nat)
    (timeoutMs : UInt64) : PeerSessionManager :=
  ((new ourNodeId identitySecret).withMaxSessions maxSessions).withSessionTimeout timeoutMs

theorem tidy_configured (ourNodeId : NodeId) (identitySecret : Key) (maxSessions : Nat)
    (timeoutMs : UInt64) : (configured ourNodeId identitySecret maxSessions timeoutMs).Tidy := by
  exact ⟨Nat.zero_le _, fun peer s hs => absurd hs getElem?_empty_ne_some⟩

/-- After any run, and in whatever order the table is listed, an initiation keeps its promise
exactly if the table is not crowded. -/
theorem initiation_within_limit_iff (crypto : Crypto) (ourNodeId : NodeId) (identitySecret : Key)
    (maxSessions : Nat) (timeoutMs : UInt64) (actions : List Action) (listing : SessionListing)
    (peer : NodeId) (nowMs : UInt64) :
    let m := LoggedRun.run (act crypto)
      (configured ourNodeId identitySecret maxSessions timeoutMs) actions
    OpensWithin crypto listing m peer nowMs ↔ ¬ m.Crowded listing peer nowMs :=
  opensWithin_iff crypto (tidy_run crypto (tidy_configured ..) actions)

/-- One place, taken by the session that a peer has opened with us. -/
def onePlaceTaken : PeerSessionManager :=
  LoggedRun.run (act .unavailable)
    (configured 0x11111111 (Vector.replicate 32 1) 1 defaultSessionTimeoutMs)
    [.handleKeyExchange ⟨0x22222222, Vector.replicate 32 2, false⟩ 1000]

/-- The session that we open next is gone before its key exchange is sent. -/
theorem onePlaceTaken_loses_new :
    1 ≤ onePlaceTaken.maxSessions ∧
      ((onePlaceTaken.initiateSession .unavailable .ascending 0x33333333 2000).1.sessions[
        (0x33333333 : NodeId)]? = none) ∧
      ¬ OpensWithin .unavailable .ascending onePlaceTaken 0x33333333 2000 := by
  have hgone : (onePlaceTaken.initiateSession .unavailable .ascending 0x33333333 2000).1.sessions[
      (0x33333333 : NodeId)]? = none := by decide +kernel
  refine ⟨by decide +kernel, hgone, fun hopens => ?_⟩
  obtain ⟨s, hs, -⟩ := hopens.waiting
  rw [hgone] at hs
  cases hs

end PeerSessionManager

end PeatBtle
