import PeatBtle.Mesh.Presence

/-!
# The pace of broadcasts

Both ticks share one timer. It is read off a clock of 32 bits and restarts whenever a
broadcast is due, whether or not anyone is there to receive it.
-/

namespace PeatBtle

open Wire MapMerge LoggedRun

/-- Between two readings of a clock of 32 bits, the time that has passed is known up to the
wraps. -/
theorem toNat_sub_ofNat {earlier later : Nat} (h : earlier ≤ later) :
    (UInt32.ofNat later - UInt32.ofNat earlier).toNat = (later - earlier) % 2 ^ 32 := by
  rw [UInt32.toNat_sub, UInt32.toNat_ofNat', UInt32.toNat_ofNat']
  omega

namespace PeatMesh

variable {D : Type} (crypto : Crypto)

def tickTime : Action D → Option UInt64
  | .tick _ nowMs => some nowMs
  | .tickWithPeerDeltas _ nowMs => some nowMs
  | _ => none

/-- The time at which a call restarts the sync timer. -/
def resetAt (m : PeatMesh D) (action : Action D) : Option UInt64 :=
  (tickTime action).filter fun nowMs => ((m.maintain nowMs).syncDue nowMs).2

/-- Whether a call returns data to send. -/
def sends (m : PeatMesh D) : Action D → Bool
  | .tick nonce nowMs => (m.tick crypto nonce nowMs).2.isSome
  | .tickWithPeerDeltas nonce nowMs => !(m.tickWithPeerDeltas crypto nonce nowMs).2.isEmpty
  | _ => false

def hasConnectedPeer (m : PeatMesh D) : Bool := m.peerManager.getPeers.any PeatPeer.isConnected

/-! ## The timer -/

/-- The timer and its interval are as they were. -/
structure SameTimer (m after : PeatMesh D) : Prop where
  lastSync : after.lastSyncMs = m.lastSyncMs
  interval : after.config.syncIntervalMs = m.config.syncIntervalMs

theorem sameTimer_spans : Spans (SameTimer (D := D)) where
  refl _ := ⟨rfl, rfl⟩
  trans _ _ _ hfirst hsecond :=
    ⟨hsecond.lastSync.trans hfirst.lastSync, hsecond.interval.trans hfirst.interval⟩
  session _ _ := ⟨rfl, rfl⟩
  seen _ _ := ⟨rfl, rfl⟩
  path _ _ := ⟨rfl, rfl⟩
  identifier _ _ _ := ⟨rfl, rfl⟩
  synced _ _ _ := ⟨rfl, rfl⟩
  counted _ _ _ _ := ⟨rfl, rfl⟩
  peripherals _ _ := ⟨rfl, rfl⟩
  appDocuments _ _ := ⟨rfl, rfl⟩
  merged _ _ := ⟨rfl, rfl⟩

theorem sameTimer_maintain (m : PeatMesh D) (nowMs : UInt64) : SameTimer m (m.maintain nowMs) := by
  unfold maintain
  dsimp only
  split <;> exact ⟨rfl, rfl⟩

theorem sameTimer_onBleData (m : PeatMesh D) (identifier : String) (data : Bytes)
    (nowMs : UInt64) : SameTimer m (m.onBleData crypto identifier data nowMs).1 := by
  have hspan := sameTimer_spans.onBleData crypto m data nowMs identifier
  cases hauthor : m.directAuthor crypto data with
  | none =>
      rw [hauthor] at hspan
      exact hspan
  | some author =>
      rw [hauthor] at hspan
      obtain ⟨base, hbase, hregistered⟩ := hspan
      rw [hregistered]
      exact ⟨hbase.lastSync, hbase.interval⟩

/-- Only the ticks touch the timer. -/
theorem sameTimer_act {action : Action D} (h : tickTime action = none) (m : PeatMesh D) :
    SameTimer m (m.act crypto action) := by
  cases action with
  | tick | tickWithPeerDeltas => cases h
  | discovered identifier name rssi meshId nowMs =>
      unfold act onBleDiscovered
      dsimp only
      split <;> exact ⟨rfl, rfl⟩
  | connected identifier nowMs =>
      unfold act onBleConnected
      dsimp only
      split <;> exact ⟨rfl, rfl⟩
  | disconnected identifier reason nowMs =>
      unfold act onBleDisconnected
      dsimp only
      split <;> exact ⟨rfl, rfl⟩
  | peerDisconnected nodeId reason nowMs =>
      unfold act onPeerDisconnected
      dsimp only
      split <;> exact ⟨rfl, rfl⟩
  | data identifier data nowMs => exact sameTimer_onBleData crypto m identifier data nowMs
  | dataReceived => exact sameTimer_spans.onBleDataReceived ..
  | dataReceivedFromNode => exact sameTimer_spans.onBleDataReceivedFromNode ..
  | dataReceivedAnonymous => exact sameTimer_spans.onBleDataReceivedAnonymous ..
  | relayEnvelope => exact sameTimer_spans.processRelayEnvelope ..
  | buildDelta peer nonce nowMs =>
      unfold act buildDeltaDocumentForPeer
      dsimp only
      cases m.deltaForPeer peer nowMs <;> exact ⟨rfl, rfl⟩
  | _ => exact ⟨rfl, rfl⟩

theorem act_of_tickTime {m : PeatMesh D} {action : Action D} {nowMs : UInt64}
    (h : tickTime action = some nowMs) :
    m.act crypto action = ((m.maintain nowMs).syncDue nowMs).1 := by
  cases action with
  | tick nonce time =>
      obtain rfl := Option.some.inj h
      rfl
  | tickWithPeerDeltas nonce time =>
      obtain rfl := Option.some.inj h
      rfl
  | _ => cases h

/-- A broadcast is due and the timer restarts, or neither. -/
theorem syncDue_cases (m : PeatMesh D) (nowMs : UInt64) :
    (UInt32.ofNat nowMs.toNat - m.lastSyncMs ≥ UInt32.ofNat m.config.syncIntervalMs.toNat ∧
      m.syncDue nowMs = ({ m with lastSyncMs := UInt32.ofNat nowMs.toNat }, true)) ∨
    (¬ UInt32.ofNat nowMs.toNat - m.lastSyncMs ≥ UInt32.ofNat m.config.syncIntervalMs.toNat ∧
      m.syncDue nowMs = (m, false)) := by
  unfold syncDue
  dsimp only
  split
  · rename_i hdue
    exact Or.inl ⟨hdue, rfl⟩
  · rename_i hdue
    exact Or.inr ⟨hdue, rfl⟩

theorem resetAt_eq_some_iff {m : PeatMesh D} {action : Action D} {nowMs : UInt64} :
    m.resetAt action = some nowMs ↔ tickTime action = some nowMs ∧
      UInt32.ofNat nowMs.toNat - m.lastSyncMs ≥ UInt32.ofNat m.config.syncIntervalMs.toNat := by
  have hsame := sameTimer_maintain m nowMs
  rw [resetAt, Option.filter_eq_some_iff, ← hsame.lastSync, ← hsame.interval]
  rcases syncDue_cases (m.maintain nowMs) nowMs with ⟨hdue, heq⟩ | ⟨hdue, heq⟩
  · simp only [heq, hdue]
  · simp only [heq, hdue, Bool.false_eq_true]

/-- A call restarts the timer, or it leaves it alone. -/
theorem timer_act (m : PeatMesh D) (action : Action D) :
    (m.act crypto action).config.syncIntervalMs = m.config.syncIntervalMs ∧
    (m.act crypto action).lastSyncMs =
      ((m.resetAt action).map fun nowMs => UInt32.ofNat nowMs.toNat).getD m.lastSyncMs := by
  cases htick : tickTime action with
  | none =>
      have hsame := sameTimer_act crypto htick m
      have hnone : m.resetAt action = none := by rw [resetAt, htick]; rfl
      rw [hnone]
      exact ⟨hsame.interval, hsame.lastSync⟩
  | some nowMs =>
      have hsame := sameTimer_maintain m nowMs
      rw [act_of_tickTime crypto htick, resetAt, htick, Option.filter_some]
      rcases syncDue_cases (m.maintain nowMs) nowMs with ⟨-, heq⟩ | ⟨-, heq⟩
      · rw [heq]
        exact ⟨hsame.interval, rfl⟩
      · rw [heq]
        exact ⟨hsame.interval, hsame.lastSync⟩

theorem connectedCount_pos_iff {m : PeatMesh D} :
    m.peerManager.connectedCount > 0 ↔ m.hasConnectedPeer = true := by
  rw [PeerManager.connectedCount, gt_iff_lt, List.length_pos_iff, hasConnectedPeer,
    List.any_eq_true, ne_eq, List.filter_eq_nil_iff]
  simp

/-- Data goes out if a broadcast is due and someone is there. -/
theorem sends_iff {m : PeatMesh D} {action : Action D} {nowMs : UInt64}
    (h : tickTime action = some nowMs) :
    m.sends crypto action = true ↔
      m.resetAt action = some nowMs ∧ (m.act crypto action).hasConnectedPeer = true := by
  have hreset : m.resetAt action = some nowMs ↔
      ((m.maintain nowMs).syncDue nowMs).2 = true := by
    rw [resetAt, Option.filter_eq_some_iff]
    exact and_iff_right h
  rw [hreset, act_of_tickTime crypto h, ← connectedCount_pos_iff]
  cases action with
  | tick nonce time =>
      obtain rfl := Option.some.inj h
      show ((m.tick crypto nonce time).2).isSome = true ↔ _
      unfold tick
      dsimp only
      split <;> simp_all
  | tickWithPeerDeltas nonce time =>
      obtain rfl := Option.some.inj h
      show (!((m.tickWithPeerDeltas crypto nonce time).2).isEmpty) = true ↔ _
      unfold tickWithPeerDeltas PeerManager.connectedCount
      dsimp only
      split <;> simp_all [List.length_pos_iff]
  | _ => cases h

/-! ## Runs -/

/-- After a run, the timer shows the time of the last call that restarted it. -/
theorem timer_run (m : PeatMesh D) (actions : List (Action D)) :
    (LoggedRun.run (act crypto) m actions).config.syncIntervalMs = m.config.syncIntervalMs ∧
    ∀ nowMs, (log (act crypto) resetAt m actions).getLast? = some nowMs →
      (LoggedRun.run (act crypto) m actions).lastSyncMs = UInt32.ofNat nowMs.toNat := by
  refine @invariant _ _ _ (act crypto) resetAt
    (fun past after => after.config.syncIntervalMs = m.config.syncIntervalMs ∧
      ∀ nowMs, past.getLast? = some nowMs → after.lastSyncMs = UInt32.ofNat nowMs.toNat)
    m actions ⟨rfl, fun _ h => by cases h⟩ ?_
  intro past after action _ hkept
  obtain ⟨hinterval, hlast⟩ := timer_act crypto after action
  refine ⟨hinterval.trans hkept.1, ?_⟩
  rw [hlast]
  cases hreset : after.resetAt action with
  | none =>
      rw [Option.toList_none, List.append_nil]
      exact hkept.2
  | some time =>
      intro nowMs hnow
      rw [Option.toList_some, List.getLast?_concat] at hnow
      rw [← Option.some.inj hnow]
      rfl

/-- A tick that is not earlier than the last restart finds the timer due if the interval is over,
as far as a clock of 32 bits can tell. -/
theorem resetAt_iff_elapsed {m : PeatMesh D} {action : Action D} {last nowMs : UInt64}
    (hlast : m.lastSyncMs = UInt32.ofNat last.toNat) (hle : last ≤ nowMs)
    (hinterval : m.config.syncIntervalMs.toNat < 2 ^ 32) (htick : tickTime action = some nowMs) :
    m.resetAt action = some nowMs ↔
      m.config.syncIntervalMs.toNat ≤ (nowMs.toNat - last.toNat) % 2 ^ 32 := by
  have hfits : (UInt32.ofNat m.config.syncIntervalMs.toNat).toNat =
      m.config.syncIntervalMs.toNat := by
    rw [UInt32.toNat_ofNat', Nat.mod_eq_of_lt hinterval]
  rw [resetAt_eq_some_iff, and_iff_right htick, hlast, ge_iff_le, UInt32.le_iff_toNat_le,
    toNat_sub_ofNat (UInt64.le_iff_toNat_le.mp hle), hfits]

section Between

variable {m : PeatMesh D} {front middle back : List (Action D)} {a b : Action D}
  {t t' : UInt64}

/-- Ticks in between are in between in time. -/
theorem between_times
    (htimes : ((front ++ a :: (middle ++ b :: back)).filterMap tickTime).Pairwise (· ≤ ·))
    (ha : tickTime a = some t) (hb : tickTime b = some t') :
    t ≤ t' ∧ ∀ action ∈ middle, ∀ time, tickTime action = some time → t ≤ time ∧ time ≤ t' := by
  rw [List.filterMap_append, List.pairwise_append, List.filterMap_cons, ha] at htimes
  obtain ⟨hfirst, hrest⟩ := List.pairwise_cons.mp htimes.2.1
  rw [List.filterMap_append, List.filterMap_cons, hb] at hfirst hrest
  refine ⟨hfirst t' (by simp), fun action haction time htime => ⟨?_, ?_⟩⟩
  · exact hfirst time (List.mem_append_left _ (List.mem_filterMap.mpr ⟨action, haction, htime⟩))
  · exact (List.pairwise_append.mp hrest).2.2 time
      (List.mem_filterMap.mpr ⟨action, haction, htime⟩) t' List.mem_cons_self

/-- Where a call has restarted the timer, it or a later one was the last to do so. -/
theorem exists_last_reset
    (hreset : (LoggedRun.run (act crypto) m front).resetAt a = some t)
    (middle : List (Action D)) :
    ∃ last, (log (act crypto) resetAt m (front ++ a :: middle)).getLast? = some last ∧
      (last = t ∨ ∃ action ∈ middle, tickTime action = some last) := by
  have hlog : log (act crypto) resetAt m (front ++ a :: middle) =
      log (act crypto) resetAt m front ++ t :: log (act crypto) resetAt
        (LoggedRun.run (act crypto) m (front ++ [a])) middle := by
    rw [log_append, log, hreset, run_append]
    rfl
  rw [hlog, List.getLast?_append]
  cases hlater : (log (act crypto) resetAt
      (LoggedRun.run (act crypto) m (front ++ [a])) middle).getLast? with
  | none =>
      rw [List.getLast?_eq_none_iff] at hlater
      rw [hlater]
      exact ⟨t, rfl, Or.inl rfl⟩
  | some last =>
      refine ⟨last, ?_, Or.inr ?_⟩
      · rw [List.getLast?_cons, hlater]
        rfl
      · obtain ⟨_, action, _, rfl, hemit⟩ := mem_log (List.mem_of_getLast? hlater)
        exact ⟨action, by simp, (resetAt_eq_some_iff.mp hemit).1⟩

end Between

theorem hasConnectedPeer_iff {m : PeatMesh D} :
    m.hasConnectedPeer = true ↔
      ∃ (node : NodeId) (peer : PeatPeer),
        m.peerManager.peers[node]? = some peer ∧ peer.isConnected = true := by
  rw [hasConnectedPeer, List.any_eq_true]
  constructor
  · rintro ⟨peer, hpeer, hconnected⟩
    obtain ⟨⟨node, other⟩, hentry, rfl⟩ := List.mem_map.mp hpeer
    exact ⟨node, other, Std.ExtTreeMap.mem_toList_iff_getElem?_eq_some.mp hentry, hconnected⟩
  · rintro ⟨node, peer, hpeer, hconnected⟩
    have hentry := Std.ExtTreeMap.mem_toList_iff_getElem?_eq_some.mpr hpeer
    exact ⟨peer, List.mem_map.mpr ⟨(node, peer), hentry, rfl⟩, hconnected⟩

/-- Who is connected after a tick: whoever was before and was not swept. -/
theorem hasConnectedPeer_tick_iff {m : PeatMesh D} {action : Action D} {nowMs : UInt64}
    (h : tickTime action = some nowMs) :
    (m.act crypto action).hasConnectedPeer = true ↔
      ∃ (node : NodeId) (peer : PeatPeer), m.peerManager.peers[node]? = some peer ∧
        peer.isConnected = true ∧
        ¬ (m.cleanupDue nowMs = true ∧ m.peerManager.isStale nowMs node = true) := by
  have hmanager : (m.act crypto action).peerManager = (m.maintain nowMs).peerManager := by
    rw [act_of_tickTime crypto h]
    rcases syncDue_cases (m.maintain nowMs) nowMs with ⟨-, heq⟩ | ⟨-, heq⟩ <;> rw [heq]
  rw [hasConnectedPeer_iff, hmanager]
  cases hdue : m.cleanupDue nowMs with
  | false =>
      rw [m.maintain_of_not_due nowMs hdue]
      simp
  | true =>
      rw [m.maintain_of_due nowMs hdue]
      refine exists_congr fun node => exists_congr fun peer => ?_
      rw [PeerManager.cleanupStale_peers]
      by_cases hstale : m.peerManager.isStale nowMs node = true
      · simp [hstale]
      · simp [hstale]

/-- Broadcasts keep their distance in time however often the clock has wrapped around, and a call
that comes in time after the last restart of the timer sends unless nobody is connected. -/
theorem broadcasts_paced {m : PeatMesh D} (hinterval : m.config.syncIntervalMs.toNat < 2 ^ 32)
    {actions : List (Action D)} (htimes : (actions.filterMap tickTime).Pairwise (· ≤ ·))
    {front middle back : List (Action D)} {a b : Action D} {t t' : UInt64}
    (hsplit : actions = front ++ a :: (middle ++ b :: back))
    (ha : tickTime a = some t) (hb : tickTime b = some t') :
    let before := LoggedRun.run (act crypto) m front
    let later := LoggedRun.run (act crypto) m (front ++ a :: middle)
    (before.sends crypto a = true → later.sends crypto b = true →
      t.toNat + m.config.syncIntervalMs.toNat ≤ t'.toNat) ∧
    (before.resetAt a = some t →
      log (act crypto) resetAt (before.act crypto a) middle = [] →
      t.toNat + m.config.syncIntervalMs.toNat ≤ t'.toNat → t'.toNat < t.toNat + 2 ^ 32 →
      (later.sends crypto b = true ↔ (later.act crypto b).hasConnectedPeer = true)) ∧
    ((later.act crypto b).hasConnectedPeer = true ↔
      ∃ (node : NodeId) (peer : PeatPeer), later.peerManager.peers[node]? = some peer ∧
        peer.isConnected = true ∧
        ¬ (later.cleanupDue t' = true ∧ later.peerManager.isStale t' node = true)) := by
  intro before later
  subst hsplit
  obtain ⟨hle, hbetween⟩ := between_times htimes ha hb
  obtain ⟨hsame, hshown⟩ := timer_run crypto m (front ++ a :: middle)
  have hfits : later.config.syncIntervalMs.toNat < 2 ^ 32 := hsame ▸ hinterval
  refine ⟨?_, ?_, hasConnectedPeer_tick_iff crypto hb⟩
  · intro hfirst hsecond
    have hreset := ((sends_iff crypto ha).mp hfirst).1
    obtain ⟨last, hlast, hwhen⟩ := exists_last_reset crypto hreset middle
    have hrange : t ≤ last ∧ last ≤ t' := by
      rcases hwhen with rfl | ⟨action, haction, htime⟩
      · exact ⟨UInt64.le_refl _, hle⟩
      · exact hbetween action haction last htime
    have helapsed := (resetAt_iff_elapsed (hshown last hlast) hrange.2 hfits hb).mp
      ((sends_iff crypto hb).mp hsecond).1
    have hge := UInt64.le_iff_toNat_le.mp hrange.1
    have hupper := UInt64.le_iff_toNat_le.mp hrange.2
    have hmod := Nat.mod_le (t'.toNat - last.toNat) (2 ^ 32)
    rw [hsame] at helapsed
    omega
  · intro hreset hquiet hlong hshort
    have hlog : (log (act crypto) resetAt m (front ++ a :: middle)).getLast? = some t := by
      rw [log_append, log, hreset, hquiet, List.append_nil]
      exact List.getLast?_concat
    have helapsed : later.config.syncIntervalMs.toNat ≤ (t'.toNat - t.toNat) % 2 ^ 32 := by
      rw [hsame, Nat.mod_eq_of_lt (by omega)]
      omega
    rw [sends_iff crypto hb]
    exact and_iff_right ((resetAt_iff_elapsed (hshown t hlog) hle hfits hb).mpr helapsed)

/-- A peer connects shortly before the clock wraps around. -/
def connectedLate : PeatMesh Unit :=
  run .unavailable (PeatMeshConfig.new 0x22222222 "BRAVO-1" "TEST")
    [.incomingConnection "central" 0x11111111 4294966000]

/-- Two ticks with the wrap between them. -/
theorem broadcasts_paced_across_wrap :
    let first : Action Unit := .tick (Vector.replicate 12 0) 4294967000
    let second : Action Unit := .tickWithPeerDeltas (Vector.replicate 12 0) 4294973000
    (connectedLate.act .unavailable first).sends .unavailable second = true := by
  intro first second
  have htimes : ([first, second].filterMap tickTime).Pairwise (· ≤ ·) := by decide
  have hpaced := @broadcasts_paced Unit .unavailable connectedLate (by decide) [first, second]
    htimes [] [] [] first second 4294967000 4294973000 rfl rfl rfl
  have hconnected : ((connectedLate.act .unavailable first).act .unavailable
      second).hasConnectedPeer = true := by decide
  exact (hpaced.2.1 (by decide) rfl (by decide) (by decide)).mpr hconnected

end PeatMesh

end PeatBtle
