import PeatBtle.Data.Line
import PeatBtle.Data.LoggedRun
import PeatBtle.Power.Scheduler

/-!
# The queue of pending syncs

The queue is a line: accepted syncs join at the back, and they leave by being evicted, by
expiring or by being performed. The counters of the scheduler account for all three.
-/

namespace PeatBtle

open LoggedRun

namespace RadioScheduler

variable {s : RadioScheduler}

theorem lowestPriority_le {p : PendingSync} (h : p ∈ s.pendingSyncs) :
    s.lowestPriority ≤ p.priority := by
  have hmem : p.priority ∈ s.pendingSyncs.map PendingSync.priority := List.mem_map_of_mem h
  obtain ⟨least, hleast⟩ := Option.isSome_iff_exists.mp (List.isSome_min?_of_mem hmem)
  rw [lowestPriority, hleast]
  exact (List.min?_eq_some_iff.mp hleast).2 _ hmem

/-- Above the lowest priority there is only room if something has it. -/
theorem exists_lowestPriority {priority : SyncPriority} (h : ¬ priority ≤ s.lowestPriority) :
    ∃ p ∈ s.pendingSyncs, p.priority = s.lowestPriority := by
  cases hleast : (s.pendingSyncs.map PendingSync.priority).min? with
  | none =>
      rw [lowestPriority, hleast] at h
      exact absurd (by cases priority <;> decide) h
  | some least =>
      have heq : s.lowestPriority = least := by rw [lowestPriority, hleast]; rfl
      obtain ⟨p, hp, hpriority⟩ := List.mem_map.mp (List.min?_eq_some_iff.mp hleast).1
      exact ⟨p, hp, hpriority.trans heq.symm⟩

/-- The place of the sync that is evicted for another of a higher priority. -/
theorem exists_lowestIdx {priority : SyncPriority} (h : ¬ priority ≤ s.lowestPriority) :
    ∃ idx, s.pendingSyncs.findIdx? (fun p => p.priority = s.lowestPriority) = some idx := by
  obtain ⟨p, hp, hpriority⟩ := exists_lowestPriority h
  exact ⟨_, List.findIdx?_eq_some_of_exists ⟨p, hp, decide_eq_true hpriority⟩⟩

/-- The place that is served holds the first sync of the highest priority. -/
theorem of_highestIdx {idx : Nat} (h : s.highestIdx = some idx) :
    ∃ best, s.pendingSyncs.findIdx? (fun p => p.priority = best) = some idx ∧
      ∀ p ∈ s.pendingSyncs, p.priority ≤ best := by
  obtain ⟨best, hbest, hidx⟩ := Option.bind_eq_some_iff.mp h
  exact ⟨best, hidx, fun p hp =>
    (List.max?_eq_some_iff.mp hbest).2 _ (List.mem_map_of_mem hp)⟩

theorem config_evict (s : RadioScheduler) : s.evict.config = s.config := by
  unfold evict
  split <;> rfl

theorem highestIdx_eq_none : s.highestIdx = none ↔ s.pendingSyncs = [] := by
  constructor
  · intro hnone
    by_contra hne
    have hmap : s.pendingSyncs.map PendingSync.priority ≠ [] := by simpa using hne
    obtain ⟨best, hbest⟩ := Option.isSome_iff_exists.mp (List.isSome_max?_of_ne_nil hmap)
    obtain ⟨p, hp, hpriority⟩ := List.mem_map.mp (List.max?_eq_some_iff.mp hbest).1
    have hsome := List.findIdx?_eq_some_of_exists
      (p := fun p : PendingSync => decide (p.priority = best)) ⟨p, hp, decide_eq_true hpriority⟩
    rw [highestIdx, hbest] at hnone
    exact absurd (hsome.symm.trans hnone) (Option.some_ne_none _)
  · intro hnil
    rw [highestIdx, hnil]
    rfl

/-- After the expired syncs are gone, there is nothing left or one place is served. -/
theorem nextPendingSync_cases (s : RadioScheduler) (currentTime : UInt64) :
    let live := s.dropExpired currentTime
    live.highestIdx = none ∧ s.nextPendingSync currentTime = (live, none) ∨
    ∃ idx sync, live.highestIdx = some idx ∧ live.pendingSyncs[idx]? = some sync ∧
      s.nextPendingSync currentTime = (live.perform idx sync, some sync) := by
  unfold nextPendingSync
  dsimp only
  cases hidx : (s.dropExpired currentTime).highestIdx with
  | none => exact Or.inl ⟨rfl, rfl⟩
  | some idx =>
      obtain ⟨best, hfound, -⟩ := of_highestIdx hidx
      obtain ⟨hlt, -⟩ := List.findIdx?_eq_some_iff_getElem.mp hfound
      have hsync := List.getElem?_eq_getElem hlt
      refine Or.inr ⟨idx, _, rfl, hsync, ?_⟩
      dsimp only
      rw [hsync]

end RadioScheduler

/-! ## The scheduler and its line -/

/-- A scheduler along with the tickets of its pending syncs. -/
structure SyncQueue where
  scheduler : RadioScheduler
  line : Line PendingSync
  agree : line.entries = scheduler.pendingSyncs

namespace SyncQueue

def start (profile : PowerProfile) (config : SchedulerConfig) : SyncQueue :=
  ⟨RadioScheduler.new profile config, Line.empty, rfl⟩

def evict (q : SyncQueue) : SyncQueue where
  scheduler := q.scheduler.evict
  line :=
    match q.scheduler.pendingSyncs.findIdx? fun p => p.priority = q.scheduler.lowestPriority with
    | some idx => q.line.leaveAt idx
    | none => q.line
  agree := by
    unfold RadioScheduler.evict
    cases q.scheduler.pendingSyncs.findIdx? fun p => p.priority = q.scheduler.lowestPriority with
    | none => exact q.agree
    | some idx => rw [Line.entries_leaveAt, q.agree]

def pushBack (q : SyncQueue) (sync : PendingSync) : SyncQueue where
  scheduler := q.scheduler.pushBack sync
  line := q.line.join sync
  agree := by rw [Line.entries_join, q.agree]; rfl

def queueSync (q : SyncQueue) (peerId : NodeId) (priority : SyncPriority) (dataSize : Nat)
    (currentTime : UInt64) : SyncQueue :=
  let sync := PendingSync.new peerId priority dataSize currentTime
  if q.scheduler.pendingSyncs.length ≥ q.scheduler.config.maxPendingSyncs then
    if priority ≤ q.scheduler.lowestPriority then q else q.evict.pushBack sync
  else q.pushBack sync

def dropExpired (q : SyncQueue) (currentTime : UInt64) : SyncQueue where
  scheduler := q.scheduler.dropExpired currentTime
  line := q.line.keep fun entry => !entry.2.isExpired currentTime
  agree := by
    rw [Line.entries_keep q.line fun p => !p.isExpired currentTime, q.agree]
    rfl

def perform (q : SyncQueue) (idx : Nat) (sync : PendingSync) : SyncQueue where
  scheduler := q.scheduler.perform idx sync
  line := q.line.leaveAt idx
  agree := by rw [Line.entries_leaveAt, q.agree]; rfl

def nextPendingSync (q : SyncQueue) (currentTime : UInt64) : SyncQueue :=
  let q := q.dropExpired currentTime
  match q.scheduler.highestIdx with
  | none => q
  | some idx =>
      match q.scheduler.pendingSyncs[idx]? with
      | none => q
      | some sync => q.perform idx sync

end SyncQueue

/-! ## Runs -/

inductive QueueCall where
  | queueSync (peerId : NodeId) (priority : SyncPriority) (dataSize : Nat) (currentTime : UInt64)
  | nextPendingSync (currentTime : UInt64)
deriving DecidableEq

def QueueCall.time : QueueCall → UInt64
  | queueSync _ _ _ currentTime => currentTime
  | nextPendingSync currentTime => currentTime

def RadioScheduler.call (s : RadioScheduler) : QueueCall → RadioScheduler
  | .queueSync peerId priority dataSize currentTime =>
      (s.queueSync peerId priority dataSize currentTime).1
  | .nextPendingSync currentTime => (s.nextPendingSync currentTime).1

/-- The sync that a call puts into the queue. -/
def RadioScheduler.accepted (s : RadioScheduler) : QueueCall → Option PendingSync
  | .queueSync peerId priority dataSize currentTime =>
      if (s.queueSync peerId priority dataSize currentTime).2 then
        some (PendingSync.new peerId priority dataSize currentTime)
      else none
  | .nextPendingSync _ => none

namespace SyncQueue

variable {q : SyncQueue}

def call (q : SyncQueue) : QueueCall → SyncQueue
  | .queueSync peerId priority dataSize currentTime =>
      q.queueSync peerId priority dataSize currentTime
  | .nextPendingSync currentTime => q.nextPendingSync currentTime

theorem scheduler_queueSync (q : SyncQueue) (peerId : NodeId) (priority : SyncPriority)
    (dataSize : Nat) (currentTime : UInt64) :
    (q.queueSync peerId priority dataSize currentTime).scheduler =
      (q.scheduler.queueSync peerId priority dataSize currentTime).1 := by
  unfold queueSync RadioScheduler.queueSync
  dsimp only
  split
  · split <;> rfl
  · rfl

theorem scheduler_nextPendingSync (q : SyncQueue) (currentTime : UInt64) :
    (q.nextPendingSync currentTime).scheduler =
      (q.scheduler.nextPendingSync currentTime).1 := by
  unfold nextPendingSync RadioScheduler.nextPendingSync
  dsimp only [dropExpired]
  cases (q.scheduler.dropExpired currentTime).highestIdx with
  | none => rfl
  | some idx =>
      dsimp only
      cases (q.scheduler.dropExpired currentTime).pendingSyncs[idx]? with
      | none => rfl
      | some sync => rfl

theorem scheduler_call (q : SyncQueue) (c : QueueCall) :
    (q.call c).scheduler = q.scheduler.call c := by
  cases c with
  | queueSync peerId priority dataSize currentTime => exact scheduler_queueSync q _ _ _ _
  | nextPendingSync currentTime => exact scheduler_nextPendingSync q currentTime

theorem length_waiting (q : SyncQueue) :
    q.line.waiting.length = q.scheduler.pendingSyncs.length := by
  rw [← q.agree, Line.entries, List.length_map]

theorem mem_waiting {entry : Nat × PendingSync} (h : entry ∈ q.line.waiting) :
    entry.2 ∈ q.scheduler.pendingSyncs :=
  q.agree ▸ List.mem_map_of_mem h

/-! ## What a call does -/

/-- The evicted sync is the first of those of the lowest priority. -/
theorem evict_line {priority : SyncPriority} (h : ¬ priority ≤ q.scheduler.lowestPriority) :
    ∃ evicted, q.line.GoesFirst (· < ·) PendingSync.priority evicted ∧
      evicted.2.priority < priority ∧ q.evict.line = q.line.leave evicted.1 := by
  obtain ⟨idx, hidx⟩ := RadioScheduler.exists_lowestIdx h
  have hlowest : ∀ p ∈ q.line.entries, q.scheduler.lowestPriority < p.priority ∨
      q.scheduler.lowestPriority = p.priority := fun p hp =>
    lt_or_eq_of_le (RadioScheduler.lowestPriority_le (q.agree ▸ hp))
  obtain ⟨hlt, hpriority, hfirst⟩ := Line.goesFirst_of_findIdx?
    (show q.line.entries.findIdx? _ = some idx by rw [q.agree]; exact hidx) hlowest
  refine ⟨q.line.waiting[idx], hfirst, ?_, ?_⟩
  · rw [hpriority]
    exact not_le.mp h
  · dsimp only [evict]
    rw [hidx]
    exact Line.leaveAt_eq hlt

/-- A sync is refused, takes the place of another or finds room. -/
theorem queueSync_cases (q : SyncQueue) (peerId : NodeId) (priority : SyncPriority)
    (dataSize : Nat) (currentTime : UInt64) :
    let sync := PendingSync.new peerId priority dataSize currentTime
    let accepted := (q.scheduler.queueSync peerId priority dataSize currentTime).2
    let next := q.queueSync peerId priority dataSize currentTime
    let full := q.scheduler.config.maxPendingSyncs ≤ q.scheduler.pendingSyncs.length
    full ∧ priority ≤ q.scheduler.lowestPriority ∧ accepted = false ∧ next = q ∨
    full ∧ ¬ priority ≤ q.scheduler.lowestPriority ∧ accepted = true ∧
      next = q.evict.pushBack sync ∨
    ¬ full ∧ accepted = true ∧ next = q.pushBack sync := by
  unfold queueSync RadioScheduler.queueSync
  dsimp only
  by_cases hfull : q.scheduler.config.maxPendingSyncs ≤ q.scheduler.pendingSyncs.length
  · by_cases hlow : priority ≤ q.scheduler.lowestPriority
    · simp [hfull, hlow]
    · simp [hfull, hlow]
  · simp [hfull]

theorem nextPendingSync_of_served {currentTime : UInt64} {idx : Nat} {sync : PendingSync}
    (hidx : (q.scheduler.dropExpired currentTime).highestIdx = some idx)
    (hsync : (q.scheduler.dropExpired currentTime).pendingSyncs[idx]? = some sync) :
    q.nextPendingSync currentTime = (q.dropExpired currentTime).perform idx sync := by
  unfold nextPendingSync
  simp only [dropExpired, hidx, hsync]

theorem nextPendingSync_of_none {currentTime : UInt64}
    (hidx : (q.scheduler.dropExpired currentTime).highestIdx = none) :
    q.nextPendingSync currentTime = q.dropExpired currentTime := by
  unfold nextPendingSync
  simp only [dropExpired, hidx]

/-! ## What a line should do -/

/-- A full line takes a sync in only for the first of those of the lowest priority, and only
if that is lower than its own. -/
structure Admits (max : Nat) (line : Line PendingSync) (sync : PendingSync) (accepted : Bool)
    (next : Line PendingSync) : Prop where
  room : line.waiting.length < max → accepted = true ∧ next = line.join sync
  full : max ≤ line.waiting.length → accepted = true →
    ∃ evicted, line.GoesFirst (· < ·) PendingSync.priority evicted ∧
      evicted.2.priority < sync.priority ∧ next = (line.leave evicted.1).join sync
  refused : accepted = false →
    (∀ entry ∈ line.waiting, sync.priority ≤ entry.2.priority) ∧ next = line

/-- The syncs that are not older than their time. -/
def unexpired (line : Line PendingSync) (currentTime : UInt64) : Line PendingSync :=
  line.keep fun entry =>
    decide (currentTime.toNat ≤ entry.2.queuedAt.toNat + entry.2.maxAgeMs.toNat)

/-- Of the syncs that have not expired, the first of those of the highest priority is served. -/
structure Serves (line : Line PendingSync) (currentTime : UInt64) (answer : Option PendingSync)
    (next : Line PendingSync) : Prop where
  none_iff : answer = none ↔ (unexpired line currentTime).waiting = []
  nothing : answer = none → next = unexpired line currentTime
  served : ∀ sync, answer = some sync →
    ∃ first, (unexpired line currentTime).GoesFirst (· > ·) PendingSync.priority first ∧
      first.2 = sync ∧ next = (unexpired line currentTime).leave first.1

theorem admits_queueSync (q : SyncQueue) (peerId : NodeId) (priority : SyncPriority)
    (dataSize : Nat) (currentTime : UInt64) :
    Admits q.scheduler.config.maxPendingSyncs q.line
      (PendingSync.new peerId priority dataSize currentTime)
      (q.scheduler.queueSync peerId priority dataSize currentTime).2
      (q.queueSync peerId priority dataSize currentTime).line := by
  rcases queueSync_cases q peerId priority dataSize currentTime with
    ⟨hfull, hlow, hanswer, hnext⟩ | ⟨hfull, hlow, hanswer, hnext⟩ | ⟨hroom, hanswer, hnext⟩
  · rw [hanswer, hnext]
    refine ⟨fun h => ?_, fun _ h => absurd h Bool.false_ne_true, fun _ => ⟨fun entry h => ?_, rfl⟩⟩
    · rw [length_waiting] at h
      omega
    · exact le_trans hlow (RadioScheduler.lowestPriority_le (mem_waiting h))
  · rw [hanswer, hnext]
    refine ⟨fun h => ?_, fun _ _ => ?_, fun h => absurd h.symm Bool.false_ne_true⟩
    · rw [length_waiting] at h
      omega
    · obtain ⟨evicted, hfirst, hless, hline⟩ := evict_line hlow
      exact ⟨evicted, hfirst, hless, congrArg (Line.join · _) hline⟩
  · rw [hanswer, hnext]
    refine ⟨fun _ => ⟨rfl, rfl⟩, fun h => ?_, fun h => absurd h.symm Bool.false_ne_true⟩
    rw [length_waiting] at h
    omega

/-- Nothing in the queue was put there so late that its time wraps around. -/
def Timely (pending : List PendingSync) : Prop :=
  ∀ p ∈ pending, p.queuedAt.toNat < 2 ^ 64 - 60000 ∧ p.maxAgeMs.toNat ≤ 60000

theorem isExpired_iff {p : PendingSync} (hqueued : p.queuedAt.toNat < 2 ^ 64 - 60000)
    (hage : p.maxAgeMs.toNat ≤ 60000) (currentTime : UInt64) :
    p.isExpired currentTime = true ↔
      p.queuedAt.toNat + p.maxAgeMs.toNat < currentTime.toNat := by
  have hsum : (p.queuedAt + p.maxAgeMs).toNat = p.queuedAt.toNat + p.maxAgeMs.toNat := by
    rw [UInt64.toNat_add, Nat.mod_eq_of_lt (by omega)]
  rw [PendingSync.isExpired, decide_eq_true_iff, gt_iff_lt, UInt64.lt_iff_toNat_lt, hsum]

theorem dropExpired_line (htimely : Timely q.scheduler.pendingSyncs) (currentTime : UInt64) :
    (q.dropExpired currentTime).line = unexpired q.line currentTime := by
  refine Line.keep_congr fun entry hentry => ?_
  obtain ⟨hqueued, hage⟩ := htimely _ (mem_waiting hentry)
  have hiff := isExpired_iff hqueued hage currentTime
  by_cases hold : entry.2.queuedAt.toNat + entry.2.maxAgeMs.toNat < currentTime.toNat
  · simp [hiff.mpr hold, hold]
  · have hlive : entry.2.isExpired currentTime = false := by
      rw [← Bool.not_eq_true, hiff]
      exact hold
    simp [hlive, Nat.not_lt.mp hold]

theorem entries_getElem? (q : SyncQueue) (idx : Nat) :
    q.line.waiting[idx]?.map Prod.snd = q.scheduler.pendingSyncs[idx]? := by
  rw [← q.agree, Line.entries, List.getElem?_map]

theorem serves_nextPendingSync (htimely : Timely q.scheduler.pendingSyncs)
    (currentTime : UInt64) :
    Serves q.line currentTime (q.scheduler.nextPendingSync currentTime).2
      (q.nextPendingSync currentTime).line := by
  have hline := dropExpired_line htimely currentTime
  have hlength := length_waiting (q.dropExpired currentTime)
  have hagree := (q.dropExpired currentTime).agree
  rcases RadioScheduler.nextPendingSync_cases q.scheduler currentTime with
    ⟨hidx, hanswer⟩ | ⟨idx, sync, hidx, hsync, hanswer⟩
  · have hempty : (q.dropExpired currentTime).scheduler.pendingSyncs = [] :=
      RadioScheduler.highestIdx_eq_none.mp hidx
    have hnil : (unexpired q.line currentTime).waiting = [] := by
      rw [← hline, ← List.length_eq_zero_iff, hlength, hempty, List.length_nil]
    rw [hanswer, nextPendingSync_of_none hidx, hline]
    exact ⟨iff_of_true rfl hnil, fun _ => rfl, fun sync h => absurd h.symm (Option.some_ne_none _)⟩
  · obtain ⟨best, hfound, hbest⟩ := RadioScheduler.of_highestIdx hidx
    obtain ⟨hlt, hpriority, hfirst⟩ := @Line.goesFirst_of_findIdx? _ _ _ (· > ·)
      PendingSync.priority (q.dropExpired currentTime).line best idx
      (by rw [hagree]; exact hfound)
      (fun p hp => (lt_or_eq_of_le (hbest p (hagree ▸ hp))).imp id Eq.symm)
    have hentry : (q.dropExpired currentTime).line.waiting[idx].2 = sync := by
      have hat := entries_getElem? (q.dropExpired currentTime) idx
      rw [List.getElem?_eq_getElem hlt] at hat
      exact Option.some.inj (hat.trans hsync)
    have hleft : (q.nextPendingSync currentTime).line =
        (q.dropExpired currentTime).line.leave
          ((q.dropExpired currentTime).line.waiting[idx]).1 := by
      rw [nextPendingSync_of_served hidx hsync]
      exact Line.leaveAt_eq hlt
    have hne := List.ne_nil_of_mem (List.getElem_mem hlt)
    rw [hanswer, hleft]
    refine ⟨iff_of_false (Option.some_ne_none _) (hline ▸ hne),
      fun h => absurd h (Option.some_ne_none _), ?_⟩
    intro other hother
    obtain rfl := Option.some.inj hother
    rw [← hline]
    exact ⟨_, hfirst, hentry, rfl⟩

/-! ## Accounting -/

/-- Where the accepted syncs are: each is pending under its ticket, performed or dropped. -/
structure Accounted (past : List PendingSync) (q : SyncQueue) : Prop where
  issued : q.line.issued = past.length
  tickets : ∀ entry ∈ q.line.waiting, past[entry.1]? = some entry.2
  counted : past.length = q.scheduler.stats.syncsPerformed + q.scheduler.stats.syncsDropped +
    q.scheduler.pendingSyncs.length
  timely : Timely q.scheduler.pendingSyncs

theorem accounted_start (profile : PowerProfile) (config : SchedulerConfig) :
    Accounted [] (start profile config) :=
  ⟨rfl, fun _ h => absurd h List.not_mem_nil, rfl, fun _ h => absurd h List.not_mem_nil⟩

namespace Accounted

variable {past : List PendingSync}

theorem evict (h : Accounted past q) {priority : SyncPriority}
    (hlow : ¬ priority ≤ q.scheduler.lowestPriority) :
    Accounted past q.evict ∧
      q.evict.scheduler.pendingSyncs.length + 1 = q.scheduler.pendingSyncs.length := by
  obtain ⟨idx, hidx⟩ := RadioScheduler.exists_lowestIdx hlow
  obtain ⟨hlt, -⟩ := List.findIdx?_eq_some_iff_getElem.mp hidx
  have hline : q.evict.line = q.line.leaveAt idx := by
    dsimp only [SyncQueue.evict]
    rw [hidx]
  have hpending : q.evict.scheduler.pendingSyncs = q.scheduler.pendingSyncs.eraseIdx idx := by
    dsimp only [SyncQueue.evict, RadioScheduler.evict]
    rw [hidx]
  have hstats : q.evict.scheduler.stats =
      { q.scheduler.stats with syncsDropped := q.scheduler.stats.syncsDropped + 1 } := by
    dsimp only [SyncQueue.evict, RadioScheduler.evict]
    rw [hidx]
  have hlength := List.length_eraseIdx_add_one hlt
  refine ⟨⟨?_, ?_, ?_, ?_⟩, by rw [hpending]; exact hlength⟩
  · rw [hline, Line.issued_leaveAt, h.issued]
  · rw [hline]
    exact fun entry hentry => h.tickets entry (Line.mem_of_mem_leaveAt hentry)
  · have hcounted := h.counted
    rw [hstats, hpending]
    dsimp only
    omega
  · rw [hpending]
    exact fun p hp => h.timely p (List.mem_of_mem_eraseIdx hp)

theorem pushBack (h : Accounted past q) {sync : PendingSync}
    (hsync : sync.queuedAt.toNat < 2 ^ 64 - 60000 ∧ sync.maxAgeMs.toNat ≤ 60000) :
    Accounted (past ++ [sync]) (q.pushBack sync) where
  issued := by
    show q.line.issued + 1 = _
    rw [h.issued, List.length_append, List.length_singleton]
  tickets := by
    intro entry hentry
    rcases List.mem_append.mp hentry with hold | hnew
    · rw [List.getElem?_append_left (h.issued ▸ q.line.fresh entry hold)]
      exact h.tickets entry hold
    · rw [List.mem_singleton.mp hnew, h.issued]
      exact List.getElem?_concat_length
  counted := by
    have hcounted := h.counted
    show _ = q.scheduler.stats.syncsPerformed + q.scheduler.stats.syncsDropped +
      (q.scheduler.pendingSyncs ++ [sync]).length
    simp only [List.length_append, List.length_singleton]
    omega
  timely := by
    intro p hp
    rcases List.mem_append.mp hp with hold | hnew
    · exact h.timely p hold
    · exact List.mem_singleton.mp hnew ▸ hsync

theorem dropExpired (h : Accounted past q) (currentTime : UInt64) :
    Accounted past (q.dropExpired currentTime) where
  issued := h.issued
  tickets := fun entry hentry => h.tickets entry (Line.mem_keep.mp hentry).1
  counted := by
    have hcounted := h.counted
    have hle := List.length_filter_le (fun p : PendingSync => !p.isExpired currentTime)
      q.scheduler.pendingSyncs
    dsimp only [SyncQueue.dropExpired, RadioScheduler.dropExpired]
    omega
  timely := fun p hp => h.timely p (List.mem_filter.mp hp).1

theorem perform (h : Accounted past q) {idx : Nat} {sync : PendingSync}
    (hsync : q.scheduler.pendingSyncs[idx]? = some sync) : Accounted past (q.perform idx sync) where
  issued := (Line.issued_leaveAt q.line idx).trans h.issued
  tickets := fun entry hentry => h.tickets entry (Line.mem_of_mem_leaveAt hentry)
  counted := by
    obtain ⟨hlt, -⟩ := List.getElem?_eq_some_iff.mp hsync
    have hcounted := h.counted
    have hlength := List.length_eraseIdx_add_one hlt
    dsimp only [SyncQueue.perform, RadioScheduler.perform]
    omega
  timely := fun p hp => h.timely p (List.mem_of_mem_eraseIdx hp)

end Accounted

theorem maxAgeMs_new_le (peerId : NodeId) (priority : SyncPriority) (dataSize : Nat)
    (currentTime : UInt64) :
    (PendingSync.new peerId priority dataSize currentTime).maxAgeMs.toNat ≤ 60000 := by
  cases priority <;> simp [PendingSync.new]

/-- No more syncs are pending than there is room for, and all are accounted for. -/
structure Kept (past : List PendingSync) (q : SyncQueue) : Prop extends Accounted past q where
  bounded : q.scheduler.pendingSyncs.length ≤ q.scheduler.config.maxPendingSyncs

theorem Kept.call {past : List PendingSync} (h : Kept past q) {c : QueueCall}
    (htime : c.time.toNat < 2 ^ 64 - 60000) :
    Kept (past ++ (q.scheduler.accepted c).toList) (q.call c) := by
  cases c with
  | queueSync peerId priority dataSize currentTime =>
      have hsync : (PendingSync.new peerId priority dataSize currentTime).queuedAt.toNat <
          2 ^ 64 - 60000 ∧ _ := ⟨htime, maxAgeMs_new_le peerId priority dataSize currentTime⟩
      unfold SyncQueue.call RadioScheduler.accepted
      dsimp only
      rcases queueSync_cases q peerId priority dataSize currentTime with
        ⟨-, -, hanswer, hnext⟩ | ⟨-, hlow, hanswer, hnext⟩ | ⟨hroom, hanswer, hnext⟩
      · rw [hanswer, hnext]
        exact (List.append_nil past).symm ▸ h
      · obtain ⟨hevicted, hlength⟩ := h.toAccounted.evict hlow
        rw [hanswer, hnext]
        refine ⟨hevicted.pushBack hsync, ?_⟩
        show (q.evict.scheduler.pendingSyncs ++ [_]).length ≤
          q.scheduler.evict.config.maxPendingSyncs
        rw [RadioScheduler.config_evict, List.length_append, List.length_singleton, hlength]
        exact h.bounded
      · rw [hanswer, hnext]
        refine ⟨h.toAccounted.pushBack hsync, ?_⟩
        show (q.scheduler.pendingSyncs ++ [_]).length ≤ q.scheduler.config.maxPendingSyncs
        rw [List.length_append, List.length_singleton]
        omega
  | nextPendingSync currentTime =>
      have hlive := h.toAccounted.dropExpired currentTime
      have hfewer : (q.dropExpired currentTime).scheduler.pendingSyncs.length ≤
          q.scheduler.config.maxPendingSyncs :=
        le_trans (List.length_filter_le _ _) h.bounded
      show Kept (past ++ []) (q.nextPendingSync currentTime)
      rw [List.append_nil]
      rcases RadioScheduler.nextPendingSync_cases q.scheduler currentTime with
        ⟨hidx, -⟩ | ⟨idx, sync, hidx, hsync, -⟩
      · rw [nextPendingSync_of_none hidx]
        exact ⟨hlive, hfewer⟩
      · rw [nextPendingSync_of_served hidx hsync]
        exact ⟨hlive.perform hsync, le_trans (List.length_eraseIdx_le _ _) hfewer⟩

theorem kept_run (profile : PowerProfile) (config : SchedulerConfig) {calls : List QueueCall}
    (htimes : ∀ c ∈ calls, c.time.toNat < 2 ^ 64 - 60000) :
    Kept (log call (fun q c => q.scheduler.accepted c) (start profile config) calls)
      (run call (start profile config) calls) :=
  invariant ⟨accounted_start profile config, Nat.zero_le _⟩
    fun _ _ c hc h => h.call (htimes c hc)

theorem config_call (s : RadioScheduler) (c : QueueCall) : (s.call c).config = s.config := by
  cases c with
  | queueSync peerId priority dataSize currentTime =>
      unfold RadioScheduler.call RadioScheduler.queueSync
      dsimp only
      split
      · split
        · rfl
        · exact RadioScheduler.config_evict s
      · rfl
  | nextPendingSync currentTime =>
      unfold RadioScheduler.call
      rcases RadioScheduler.nextPendingSync_cases s currentTime with
        ⟨-, hnext⟩ | ⟨idx, sync, -, -, hnext⟩
      · dsimp only
        rw [hnext]
        rfl
      · dsimp only
        rw [hnext]
        rfl

theorem config_run (s : RadioScheduler) (calls : List QueueCall) :
    (run RadioScheduler.call s calls).config = s.config :=
  run_unchanged config_call s calls

/-- After every run, no more syncs are pending than there is room for, the accepted ones are all
accounted for, and the next call takes in or serves what its turn and its priority say. -/
theorem sync_queue_by_priority (profile : PowerProfile) (config : SchedulerConfig)
    {calls : List QueueCall} (htimes : ∀ c ∈ calls, c.time.toNat < 2 ^ 64 - 60000) :
    let s := run RadioScheduler.call (RadioScheduler.new profile config) calls
    let past := log RadioScheduler.call RadioScheduler.accepted
      (RadioScheduler.new profile config) calls
    let q := run call (start profile config) calls
    s.pendingSyncCount ≤ config.maxPendingSyncs ∧
    past.length = s.stats.syncsPerformed + s.stats.syncsDropped + s.pendingSyncCount ∧
    q.scheduler = s ∧ (∀ entry ∈ q.line.waiting, past[entry.1]? = some entry.2) ∧
    (∀ peerId priority dataSize currentTime,
      Admits config.maxPendingSyncs q.line
        (PendingSync.new peerId priority dataSize currentTime)
        (s.queueSync peerId priority dataSize currentTime).2
        (q.queueSync peerId priority dataSize currentTime).line) ∧
    ∀ currentTime, Serves q.line currentTime (s.nextPendingSync currentTime).2
      (q.nextPendingSync currentTime).line := by
  intro s past q
  have hs : q.scheduler = s := run_view scheduler_call (start profile config) calls
  have hpast : log call (fun q c => q.scheduler.accepted c) (start profile config) calls = past :=
    log_view scheduler_call RadioScheduler.accepted (start profile config) calls
  have hconfig : s.config = config := config_run (RadioScheduler.new profile config) calls
  have hkept : Kept past q := hpast ▸ kept_run profile config htimes
  have hadmits := admits_queueSync q
  have hserves := serves_nextPendingSync hkept.timely
  rw [hs] at hserves
  rw [hs, hconfig] at hadmits
  refine ⟨?_, ?_, hs, hkept.tickets, hadmits, hserves⟩
  · have hbounded := hkept.bounded
    rw [hs, hconfig] at hbounded
    exact hbounded
  · have hcounted := hkept.counted
    rw [hs] at hcounted
    exact hcounted

/-- A full queue that takes in a high sync for the first of two low ones. -/
theorem sync_queue_by_priority_full :
    let calls : List QueueCall := [.queueSync 0x1111 .low 100 1000, .queueSync 0x2222 .low 100 1001,
      .queueSync 0x3333 .high 100 1002, .nextPendingSync 70000]
    (∀ c ∈ calls, c.time.toNat < 2 ^ 64 - 60000) ∧
    (run RadioScheduler.call (RadioScheduler.new .balanced ⟨2, 500, 10000⟩) calls).pendingSyncCount
      ≤ 2 := by
  intro calls
  have htimes : ∀ c ∈ calls, c.time.toNat < 2 ^ 64 - 60000 := by decide
  exact ⟨htimes, (sync_queue_by_priority .balanced ⟨2, 500, 10000⟩ htimes).1⟩

end SyncQueue

end PeatBtle
