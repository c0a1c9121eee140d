import PeatBtle.Basic
import Mathlib.Order.Nat

/-!
# The radio scheduler

One radio scans, advertises and syncs in turn, at the pace of a power profile. Syncs wait
in a bounded queue, each for a time that its priority sets. Times are 64-bit milliseconds,
and their sums wrap around.
-/

namespace PeatBtle

structure RadioTiming where
  scanIntervalMs : UInt32
  scanWindowMs : UInt32
  advIntervalMs : UInt32
  connIntervalMs : UInt32
  supervisionTimeoutMs : UInt32
  slaveLatency : UInt16
deriving DecidableEq

inductive PowerProfile where
  | aggressive
  | balanced
  | lowPower
  | custom (timing : RadioTiming)
deriving DecidableEq

def PowerProfile.timing : PowerProfile → RadioTiming
  | aggressive => ⟨100, 50, 100, 15, 4000, 0⟩
  | balanced => ⟨500, 50, 500, 30, 4000, 2⟩
  | lowPower => ⟨5000, 100, 2000, 100, 6000, 4⟩
  | custom timing => timing

structure BatteryState where
  levelPercent : UInt8
  isCharging : Bool
  lowThreshold : UInt8
  criticalThreshold : UInt8
deriving DecidableEq

namespace BatteryState

def default : BatteryState := ⟨100, false, 20, 10⟩

def isLow (b : BatteryState) : Bool := !b.isCharging && decide (b.levelPercent ≤ b.lowThreshold)

def isCritical (b : BatteryState) : Bool :=
  !b.isCharging && decide (b.levelPercent ≤ b.criticalThreshold)

def suggestedProfile (b : BatteryState) (current : PowerProfile) : PowerProfile :=
  if b.isCharging then current
  else if b.isCritical then .lowPower
  else if b.isLow then
    match current with
    | .aggressive => .balanced
    | _ => .lowPower
  else current

end BatteryState

/-! ## Pending syncs -/

inductive SyncPriority where
  | low
  | normal
  | high
  | critical
deriving DecidableEq

namespace SyncPriority

def toNat : SyncPriority → Nat
  | low => 0
  | normal => 1
  | high => 2
  | critical => 3

theorem toNat_injective : Function.Injective toNat := by
  intro a b h
  cases a <;> cases b <;> first | rfl | cases h

instance : LinearOrder SyncPriority := LinearOrder.lift' toNat toNat_injective

end SyncPriority

structure PendingSync where
  peerId : NodeId
  priority : SyncPriority
  dataSize : Nat
  queuedAt : UInt64
  maxAgeMs : UInt64
deriving DecidableEq

namespace PendingSync

def new (peerId : NodeId) (priority : SyncPriority) (dataSize : Nat) (queuedAt : UInt64) :
    PendingSync where
  peerId := peerId
  priority := priority
  dataSize := dataSize
  queuedAt := queuedAt
  maxAgeMs :=
    match priority with
    | .low => 60000
    | .normal => 30000
    | .high => 10000
    | .critical => 5000

def isExpired (p : PendingSync) (currentTime : UInt64) : Bool :=
  decide (currentTime > p.queuedAt + p.maxAgeMs)

end PendingSync

/-! ## The scheduler -/

inductive RadioState where
  | idle
  | scanning
  | advertising
  | syncing
  | transitioning
deriving DecidableEq

inductive SchedulerEvent where
  | startScan
  | stopScan
  | startAdvertising
  | stopAdvertising
  | syncNow
  | profileChanged
  | enterSleep
deriving DecidableEq

structure SchedulerConfig where
  maxPendingSyncs : Nat
  syncCoalesceMs : UInt64
  profileChangeCooldownMs : UInt64
deriving DecidableEq

def SchedulerConfig.default : SchedulerConfig := ⟨16, 500, 10000⟩

structure SchedulerStats where
  scanWindows : Nat
  advEvents : Nat
  syncsPerformed : Nat
  syncsDropped : Nat
  criticalSyncs : Nat
  profileChanges : Nat
deriving DecidableEq

structure RadioScheduler where
  profile : PowerProfile
  timing : RadioTiming
  state : RadioState
  pendingSyncs : List PendingSync
  config : SchedulerConfig
  nextScanTime : UInt64
  nextAdvTime : UInt64
  lastStateChange : UInt64
  lastProfileChange : UInt64
  battery : BatteryState
  autoAdjustEnabled : Bool
  stats : SchedulerStats
deriving DecidableEq

namespace RadioScheduler

def new (profile : PowerProfile) (config : SchedulerConfig) : RadioScheduler where
  profile := profile
  timing := profile.timing
  state := .idle
  pendingSyncs := []
  config := config
  nextScanTime := 0
  nextAdvTime := 0
  lastStateChange := 0
  lastProfileChange := 0
  battery := BatteryState.default
  autoAdjustEnabled := true
  stats := ⟨0, 0, 0, 0, 0, 0⟩

def withProfile (profile : PowerProfile) : RadioScheduler := new profile SchedulerConfig.default

def pendingSyncCount (s : RadioScheduler) : Nat := s.pendingSyncs.length

def setProfile (s : RadioScheduler) (profile : PowerProfile) (currentTime : UInt64) :
    RadioScheduler × Bool :=
  if s.stats.profileChanges = 0 ∨
      currentTime ≥ s.lastProfileChange + s.config.profileChangeCooldownMs then
    ({ s with
        profile := profile
        timing := profile.timing
        lastProfileChange := currentTime
        stats := { s.stats with profileChanges := s.stats.profileChanges + 1 } }, true)
  else (s, false)

def updateBattery (s : RadioScheduler) (battery : BatteryState) (currentTime : UInt64) :
    RadioScheduler :=
  let s := { s with battery := battery }
  if s.autoAdjustEnabled then
    let suggested := battery.suggestedProfile s.profile
    if suggested ≠ s.profile then (s.setProfile suggested currentTime).1 else s
  else s

def setAutoAdjust (s : RadioScheduler) (enabled : Bool) : RadioScheduler :=
  { s with autoAdjustEnabled := enabled }

/-- The lowest priority in the queue; of an empty one the highest there is. -/
def lowestPriority (s : RadioScheduler) : SyncPriority :=
  (s.pendingSyncs.map PendingSync.priority).min?.getD .critical

/-- Make room: the first of the syncs with the lowest priority goes. -/
def evict (s : RadioScheduler) : RadioScheduler :=
  match s.pendingSyncs.findIdx? fun p => p.priority = s.lowestPriority with
  | some idx =>
      { s with
        pendingSyncs := s.pendingSyncs.eraseIdx idx
        stats := { s.stats with syncsDropped := s.stats.syncsDropped + 1 } }
  | none => s

def pushBack (s : RadioScheduler) (sync : PendingSync) : RadioScheduler :=
  { s with pendingSyncs := s.pendingSyncs ++ [sync] }

/-- Whether the sync was accepted. A full queue only accepts what is above the lowest it holds. -/
def queueSync (s : RadioScheduler) (peerId : NodeId) (priority : SyncPriority) (dataSize : Nat)
    (currentTime : UInt64) : RadioScheduler × Bool :=
  let sync := PendingSync.new peerId priority dataSize currentTime
  if s.pendingSyncs.length ≥ s.config.maxPendingSyncs then
    if priority ≤ s.lowestPriority then (s, false)
    else (s.evict.pushBack sync, true)
  else (s.pushBack sync, true)

def hasCriticalSync (s : RadioScheduler) : Bool :=
  s.pendingSyncs.any fun p => decide (p.priority = .critical)

def nextEvent (s : RadioScheduler) (currentTime : UInt64) : Option (SchedulerEvent × UInt64) :=
  if s.hasCriticalSync then some (.syncNow, currentTime)
  else
    match s.state with
    | .idle =>
        if currentTime ≥ s.nextScanTime then some (.startScan, currentTime)
        else if currentTime ≥ s.nextAdvTime then some (.startAdvertising, currentTime)
        else if !s.pendingSyncs.isEmpty then some (.syncNow, currentTime)
        else some (.enterSleep, min s.nextScanTime s.nextAdvTime)
    | .scanning =>
        let scanEnd := s.lastStateChange + s.timing.scanWindowMs.toUInt64
        if currentTime ≥ scanEnd then some (.stopScan, currentTime) else none
    | .advertising => some (.stopAdvertising, currentTime)
    | .syncing => none
    | .transitioning => none

def processEvent (s : RadioScheduler) (event : SchedulerEvent) (currentTime : UInt64) :
    RadioScheduler :=
  match event with
  | .startScan =>
      { s with
        state := .scanning
        lastStateChange := currentTime
        stats := { s.stats with scanWindows := s.stats.scanWindows + 1 } }
  | .stopScan =>
      { s with
        state := .idle
        nextScanTime := currentTime + s.timing.scanIntervalMs.toUInt64
        lastStateChange := currentTime }
  | .startAdvertising =>
      { s with
        state := .advertising
        lastStateChange := currentTime
        stats := { s.stats with advEvents := s.stats.advEvents + 1 } }
  | .stopAdvertising =>
      { s with
        state := .idle
        nextAdvTime := currentTime + s.timing.advIntervalMs.toUInt64
        lastStateChange := currentTime }
  | .syncNow => { s with state := .syncing, lastStateChange := currentTime }
  | .profileChanged => s
  | .enterSleep => { s with state := .idle }

/-- The syncs that have not expired; the others are dropped. -/
def dropExpired (s : RadioScheduler) (currentTime : UInt64) : RadioScheduler :=
  let live := s.pendingSyncs.filter fun p => !p.isExpired currentTime
  { s with
    pendingSyncs := live
    stats :=
      { s.stats with syncsDropped := s.stats.syncsDropped + (s.pendingSyncs.length - live.length) } }

/-- The sync in a given place is taken out and performed. -/
def perform (s : RadioScheduler) (idx : Nat) (sync : PendingSync) : RadioScheduler :=
  { s with
    pendingSyncs := s.pendingSyncs.eraseIdx idx
    stats :=
      { s.stats with
        criticalSyncs := s.stats.criticalSyncs + if sync.priority = .critical then 1 else 0
        syncsPerformed := s.stats.syncsPerformed + 1 } }

/-- The place of the first of the syncs with the highest priority. -/
def highestIdx (s : RadioScheduler) : Option Nat := do
  let maxPriority ← (s.pendingSyncs.map PendingSync.priority).max?
  s.pendingSyncs.findIdx? fun p => p.priority = maxPriority

def nextPendingSync (s : RadioScheduler) (currentTime : UInt64) :
    RadioScheduler × Option PendingSync :=
  let s := s.dropExpired currentTime
  match s.highestIdx with
  | none => (s, none)
  | some idx =>
      match s.pendingSyncs[idx]? with
      | none => (s, none)
      | some sync => (s.perform idx sync, some sync)

def completeSync (s : RadioScheduler) (currentTime : UInt64) : RadioScheduler :=
  { s with state := .idle, lastStateChange := currentTime }

def reset (s : RadioScheduler) (currentTime : UInt64) : RadioScheduler :=
  { s with
    state := .idle
    pendingSyncs := []
    nextScanTime := currentTime
    nextAdvTime := currentTime
    lastStateChange := currentTime }

def timeUntilNextActivity (s : RadioScheduler) (currentTime : UInt64) : UInt64 :=
  if s.hasCriticalSync then 0
  else if !s.pendingSyncs.isEmpty then 0
  else min (saturatingSub s.nextScanTime currentTime) (saturatingSub s.nextAdvTime currentTime)

end RadioScheduler

end PeatBtle
