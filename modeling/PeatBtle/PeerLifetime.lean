import PeatBtle.Data.Eviction
import PeatBtle.Data.Presence
import PeatBtle.Reconnect

/-!
# Lifetimes of peers

A device that was discovered is remembered until it has been silent for too long. The
limit is longer for a peer that is taken to be connected, since its disconnection may have
been missed. Every peer is aged by a reading of the clock of its own.
-/

namespace PeatBtle

open Std Wire MapMerge

/-- `Duration::from_secs`. -/
def Duration.fromSecs (secs : UInt64) : Nat := secs.toNat * 1000000000

structure PeerLifetimeConfig where
  disconnectedTimeout : Nat
  connectedTimeout : Nat
  cleanupInterval : Nat
deriving DecidableEq

namespace PeerLifetimeConfig

def default : PeerLifetimeConfig :=
  ⟨Duration.fromSecs 30, Duration.fromSecs 60, Duration.fromSecs 10⟩

def fast : PeerLifetimeConfig := ⟨Duration.fromSecs 5, Duration.fromSecs 10, Duration.fromSecs 2⟩

def relaxed : PeerLifetimeConfig :=
  ⟨Duration.fromSecs 60, Duration.fromSecs 120, Duration.fromSecs 30⟩

/-- How long a peer may be silent. -/
def timeout (config : PeerLifetimeConfig) (connected : Bool) : Nat :=
  if connected then config.connectedTimeout else config.disconnectedTimeout

end PeerLifetimeConfig

structure PeerState where
  connected : Bool
  lastSeen : Nat
  firstSeen : Nat
  disconnectedAt : Option Nat
deriving DecidableEq

namespace PeerState

def new (connected : Bool) (now : Nat) : PeerState :=
  ⟨connected, now, now, if connected then none else some now⟩

/-- What a report does to a known peer. -/
def report (state : PeerState) (connected : Bool) (now : Nat) : PeerState :=
  let seen := { state with lastSeen := now }
  if connected && !state.connected then { seen with connected := true, disconnectedAt := none }
  else if !connected && state.connected then
    { seen with connected := false, disconnectedAt := some now }
  else seen

/-- A disconnection is not a sighting. -/
def disconnect (state : PeerState) (now : Nat) : PeerState :=
  if state.connected then { state with connected := false, disconnectedAt := some now } else state

/-- The peer was not seen for longer than it may be silent. -/
def Silent (config : PeerLifetimeConfig) (now : Nat) (state : PeerState) : Prop :=
  config.timeout state.connected < now - state.lastSeen

instance (config : PeerLifetimeConfig) (now : Nat) (state : PeerState) :
    Decidable (state.Silent config now) :=
  inferInstanceAs (Decidable (_ < _))

end PeerState

inductive StaleReason where
  | disconnectedTimeout
  | connectedTimeout
deriving DecidableEq

structure StalePeerInfo where
  address : String
  reason : StaleReason
  timeSinceLastSeen : Nat
  wasConnected : Bool
deriving DecidableEq

structure PeerLifetimeStats where
  totalTracked : Nat
  connected : Nat
  disconnected : Nat
deriving DecidableEq

structure PeerLifetimeManager where
  config : PeerLifetimeConfig
  peers : Map String PeerState

namespace PeerLifetimeManager

def new (config : PeerLifetimeConfig) : PeerLifetimeManager := ⟨config, ∅⟩

def onPeerActivity (m : PeerLifetimeManager) (address : String) (connected : Bool) (now : Nat) :
    PeerLifetimeManager :=
  { m with peers := m.peers.alter address fun
      | some state => some (state.report connected now)
      | none => some (.new connected now) }

def onPeerDisconnected (m : PeerLifetimeManager) (address : String) (now : Nat) :
    PeerLifetimeManager :=
  { m with peers := m.peers.modify address fun state => state.disconnect now }

def isTracked (m : PeerLifetimeManager) (address : String) : Bool := m.peers.contains address

def isConnected (m : PeerLifetimeManager) (address : String) : Bool :=
  (m.peers[address]?.map PeerState.connected).getD false

/-- The body of the loop over the peers. -/
def staleInfo (m : PeerLifetimeManager) (readings : String → Nat) (entry : String × PeerState) :
    Option StalePeerInfo :=
  let timeSinceLastSeen := readings entry.1 - entry.2.lastSeen
  let (isStale, reason) :=
    if entry.2.connected then
      (decide (timeSinceLastSeen > m.config.connectedTimeout), StaleReason.connectedTimeout)
    else (decide (timeSinceLastSeen > m.config.disconnectedTimeout), .disconnectedTimeout)
  if isStale then some ⟨entry.1, reason, timeSinceLastSeen, entry.2.connected⟩ else none

def getStalePeers (m : PeerLifetimeManager) (readings : String → Nat) : List StalePeerInfo :=
  m.peers.toList.filterMap (m.staleInfo readings)

def removePeer (m : PeerLifetimeManager) (address : String) : PeerLifetimeManager × Bool :=
  ({ m with peers := m.peers.erase address }, m.peers.contains address)

def cleanupStalePeers (m : PeerLifetimeManager) (readings : String → Nat) :
    PeerLifetimeManager × List StalePeerInfo :=
  let stale := m.getStalePeers readings
  ({ m with peers := stale.foldl (fun peers info => peers.erase info.address) m.peers }, stale)

def stats (m : PeerLifetimeManager) : PeerLifetimeStats :=
  let counts := m.peers.toList.foldl (fun (counts : Nat × Nat) entry =>
    if entry.2.connected then (counts.1 + 1, counts.2) else (counts.1, counts.2 + 1)) (0, 0)
  ⟨m.peers.size, counts.1, counts.2⟩

/-- Detailed information about a peer, with a reading of the clock for each of its times. -/
structure PeerInfo where
  connected : Bool
  timeSinceLastSeen : Nat
  timeSinceFirstSeen : Nat
  timeSinceDisconnect : Option Nat
deriving DecidableEq

def getPeerInfo (m : PeerLifetimeManager) (address : String) (now now' now'' : Nat) :
    Option PeerLifetimeManager.PeerInfo :=
  m.peers[address]?.map fun state =>
    ⟨state.connected, now - state.lastSeen, now' - state.firstSeen,
      state.disconnectedAt.map fun t => now'' - t⟩

def clear (m : PeerLifetimeManager) : PeerLifetimeManager := { m with peers := ∅ }

def trackedCount (m : PeerLifetimeManager) : Nat := m.peers.size

/-- Every peer is counted once. -/
theorem stats_total (m : PeerLifetimeManager) :
    m.stats.connected + m.stats.disconnected = m.stats.totalTracked := by
  have hloop : ∀ (entries : List (String × PeerState)) (counts : Nat × Nat),
      let total := entries.foldl (fun (counts : Nat × Nat) entry =>
        if entry.2.connected then (counts.1 + 1, counts.2) else (counts.1, counts.2 + 1)) counts
      total.1 + total.2 = counts.1 + counts.2 + entries.length := by
    intro entries
    induction entries with
    | nil => exact fun counts => rfl
    | cons entry entries ih =>
        intro counts
        have hrest := ih (if entry.2.connected then (counts.1 + 1, counts.2)
          else (counts.1, counts.2 + 1))
        rw [List.foldl_cons, List.length_cons]
        cases entry.2.connected <;> simp_all <;> omega
  calc m.stats.connected + m.stats.disconnected
      = 0 + 0 + m.peers.toList.length := hloop m.peers.toList (0, 0)
    _ = m.stats.totalTracked := by rw [ExtTreeMap.length_toList, Nat.add_zero, Nat.zero_add, stats]

/-! ## What is stale -/

/-- What is reported of a stale peer. -/
def describe (readings : String → Nat) (address : String) (state : PeerState) : StalePeerInfo where
  address := address
  reason := if state.connected then .connectedTimeout else .disconnectedTimeout
  timeSinceLastSeen := readings address - state.lastSeen
  wasConnected := state.connected

section Stale

variable (m : PeerLifetimeManager) (readings : String → Nat)

theorem staleInfo_eq (address : String) (state : PeerState) :
    m.staleInfo readings (address, state) =
      if state.Silent m.config (readings address) then some (describe readings address state)
      else none := by
  cases hconnected : state.connected <;>
    simp [staleInfo, PeerState.Silent, describe, PeerLifetimeConfig.timeout, hconnected]

theorem mem_getStalePeers {info : StalePeerInfo} : info ∈ m.getStalePeers readings ↔
    ∃ state, m.peers[info.address]? = some state ∧ state.Silent m.config (readings info.address) ∧
      info = describe readings info.address state := by
  rw [getStalePeers, List.mem_filterMap]
  constructor
  · rintro ⟨⟨address, state⟩, hmem, hinfo⟩
    rw [staleInfo_eq, Option.ite_none_right_eq_some, Option.some_inj] at hinfo
    obtain ⟨hsilent, rfl⟩ := hinfo
    exact ⟨state, ExtTreeMap.mem_toList_iff_getElem?_eq_some.mp hmem, hsilent, rfl⟩
  · rintro ⟨state, hstate, hsilent, hinfo⟩
    refine ⟨(info.address, state), ExtTreeMap.mem_toList_iff_getElem?_eq_some.mpr hstate, ?_⟩
    rw [staleInfo_eq, if_pos hsilent, ← hinfo]

theorem peers_cleanupStalePeers : (m.cleanupStalePeers readings).1.peers =
    Eviction.eraseAll ((m.getStalePeers readings).map StalePeerInfo.address) m.peers := by
  rw [Eviction.eraseAll, List.foldl_map]
  rfl

/-- A cleanup keeps exactly the peers that are not stale. -/
theorem getElem?_cleanupStalePeers (address : String) :
    (m.cleanupStalePeers readings).1.peers[address]? =
      m.peers[address]?.filter fun state => ! decide (state.Silent m.config (readings address)) := by
  have hstale : address ∈ (m.getStalePeers readings).map StalePeerInfo.address ↔
      ∃ state, m.peers[address]? = some state ∧ state.Silent m.config (readings address) := by
    rw [List.mem_map]
    constructor
    · rintro ⟨info, hinfo, rfl⟩
      obtain ⟨state, hstate, hsilent, -⟩ := (m.mem_getStalePeers readings).mp hinfo
      exact ⟨state, hstate, hsilent⟩
    · rintro ⟨state, hstate, hsilent⟩
      exact ⟨describe readings address state,
        (m.mem_getStalePeers readings).mpr ⟨state, hstate, hsilent, rfl⟩, rfl⟩
  rw [peers_cleanupStalePeers, Eviction.getElem?_eraseAll]
  cases hpeer : m.peers[address]? with
  | none => simp
  | some state =>
      simp only [hstale, hpeer, Option.some_inj, exists_eq_left', Option.filter_some]
      by_cases hsilent : state.Silent m.config (readings address) <;> simp [hsilent]

end Stale

end PeerLifetimeManager

end PeatBtle
