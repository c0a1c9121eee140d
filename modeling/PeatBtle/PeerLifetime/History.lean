import PeatBtle.PeerLifetime

/-!
# What the history says of a peer

The table of peers is a summary of the history: who was reported and not forgotten since,
when the last report came, and what was last said of the connection. So its size is
bounded by the number of devices that were heard of lately.
-/

namespace PeatBtle.PeerLifetimeManager

open Std Wire MapMerge Presence

inductive Action where
  | activity (address : String) (connected : Bool) (now : Nat)
  | disconnected (address : String) (now : Nat)
  | cleanup (readings : String → Nat)
  | remove (address : String)
  | clear

def act (m : PeerLifetimeManager) : Action → PeerLifetimeManager
  | .activity address connected now => m.onPeerActivity address connected now
  | .disconnected address now => m.onPeerDisconnected address now
  | .cleanup readings => (m.cleanupStalePeers readings).1
  | .remove address => (m.removePeer address).1
  | .clear => m.clear

/-- What an action does to one peer. -/
def Action.effect (config : PeerLifetimeConfig) (address : String) (old : Option PeerState) :
    Action → Option PeerState
  | .activity other connected now =>
      if other = address then
        some ((old.map fun state => state.report connected now).getD (.new connected now))
      else old
  | .disconnected other now =>
      if other = address then old.map fun state => state.disconnect now else old
  | .cleanup readings => old.filter fun state => ! decide (state.Silent config (readings address))
  | .remove other => if other = address then none else old
  | .clear => none

/-- The manager after the actions so far. -/
def after (config : PeerLifetimeConfig) (past : List Action) : PeerLifetimeManager :=
  LoggedRun.run act (new config) past

theorem after_append (config : PeerLifetimeConfig) (past : List Action) (next : Action) :
    after config (past ++ [next]) = (after config past).act next :=
  LoggedRun.run_append ..

theorem config_after (config : PeerLifetimeConfig) (past : List Action) :
    (after config past).config = config :=
  @LoggedRun.run_unchanged _ _ act _ PeerLifetimeManager.config
    (fun m action => by cases action <;> rfl) (new config) past

/-! ## Histories -/

def Action.report? (address : String) : Action → Option Nat
  | .activity other _ now => if other = address then some now else none
  | _ => none

def Action.word? (address : String) : Action → Option Bool
  | .activity other connected _ => if other = address then some connected else none
  | .disconnected other _ => if other = address then some false else none
  | _ => none

/-- When the peer was last reported. -/
def lastReport (past : List Action) (address : String) : Option Nat :=
  (past.filterMap (Action.report? address)).getLast?

/-- What was last said of the connection to the peer. -/
def lastWord (past : List Action) (address : String) : Option Bool :=
  (past.filterMap (Action.word? address)).getLast?

def Reports (address : String) (_past : List Action) : Action → Prop
  | .activity other _ _ => other = address
  | _ => False

/-- The peer is dropped: by name, with all others, or because its last report is further back
than the limit that the last word about its connection sets. -/
def Forgets (config : PeerLifetimeConfig) (address : String) (past : List Action) :
    Action → Prop
  | .cleanup readings => ∀ t ∈ lastReport past address, ∀ word ∈ lastWord past address,
      config.timeout word < readings address - t
  | .remove other => other = address
  | .clear => True
  | _ => False

/-- The report with which the peer was taken up. -/
def TakenUp (config : PeerLifetimeConfig) (address : String) (actions front : List Action)
    (action : Action) : Prop :=
  ArrivedAt (fun past => (after config past).isTracked address = true) (Reports address)
    (Forgets config address) actions front action

/-- What the history says of a peer that was taken up. -/
structure Recorded (config : PeerLifetimeConfig) (past : List Action) (address : String)
    (state : PeerState) : Prop where
  lastSeen : lastReport past address = some state.lastSeen
  connected : lastWord past address = some state.connected
  disconnectedAt : state.disconnectedAt.isSome = !state.connected
  firstSeen : ∃ front connected,
    TakenUp config address past front (.activity address connected state.firstSeen)

section Steps

variable {past : List Action} {next : Action} {address : String}

theorem lastReport_append : lastReport (past ++ [next]) address =
    (next.report? address).or (lastReport past address) := by
  rw [lastReport, List.filterMap_append, List.getLast?_append, lastReport]
  cases h : next.report? address <;> simp [h]

theorem lastWord_append : lastWord (past ++ [next]) address =
    (next.word? address).or (lastWord past address) := by
  rw [lastWord, List.filterMap_append, List.getLast?_append, lastWord]
  cases h : next.word? address <;> simp [h]

theorem peers_act (m : PeerLifetimeManager) (next : Action) (address : String) :
    (m.act next).peers[address]? = next.effect m.config address m.peers[address]? := by
  cases next with
  | activity other connected now =>
      refine (getElem?_alter_eq ..).trans ?_
      by_cases h : other = address
      · subst h
        rw [if_pos rfl]
        cases hold : m.peers[other]? <;> simp [Action.effect]
      · simp [Action.effect, h]
  | disconnected other now =>
      refine (getElem?_modify_eq ..).trans ?_
      by_cases h : other = address
      · subst h
        simp [Action.effect]
      · simp [Action.effect, h]
  | cleanup readings => exact m.getElem?_cleanupStalePeers readings address
  | remove other => exact getElem?_erase_eq ..
  | clear => exact ExtTreeMap.getElem?_empty

theorem isTracked_iff (m : PeerLifetimeManager) (address : String) :
    m.isTracked address = true ↔ ∃ state, m.peers[address]? = some state := by
  rw [isTracked, ExtTreeMap.contains_eq_isSome_getElem?, Option.isSome_iff_exists]

/-- A report lets a missing peer in, and a known peer stays unless the action forgets it. -/
theorem isTracked_append (config : PeerLifetimeConfig) (past : List Action) (next : Action)
    (address : String)
    (hrecorded : ∀ state, (after config past).peers[address]? = some state →
      Recorded config past address state) :
    (after config (past ++ [next])).isTracked address = true ↔
      (¬ (after config past).isTracked address = true ∧ Reports address past next) ∨
        ((after config past).isTracked address = true ∧ ¬ Forgets config address past next) := by
  rw [isTracked_iff, isTracked_iff, after_append, peers_act]
  cases hold : (after config past).peers[address]? with
  | none =>
      cases next <;> simp [Action.effect, Reports]
  | some state =>
      obtain ⟨hseen, hword, -, -⟩ := hrecorded state hold
      cases next with
      | cleanup readings =>
          simp [Action.effect, Forgets, hseen, hword, PeerState.Silent, config_after, Option.filter_some]
      | activity other connected now => by_cases h : other = address <;> simp [Action.effect, Forgets, h]
      | disconnected other now => by_cases h : other = address <;> simp [Action.effect, Forgets, h]
      | remove other => simp [Action.effect, Forgets]
      | clear => simp [Action.effect, Forgets]

section Recorded

variable {config : PeerLifetimeConfig} {state later : PeerState}

/-- A peer that is not forgotten keeps its first sighting, and what is said of it is noted. -/
theorem Recorded.append (h : Recorded config past address state)
    (hstays : ¬ Forgets config address past next) (hfirst : later.firstSeen = state.firstSeen)
    (hseen : (next.report? address).getD state.lastSeen = later.lastSeen)
    (hword : (next.word? address).getD state.connected = later.connected)
    (hgone : later.disconnectedAt.isSome = !later.connected) :
    Recorded config (past ++ [next]) address later where
  lastSeen := by
    rw [lastReport_append, h.lastSeen, ← hseen]
    cases next.report? address <;> rfl
  connected := by
    rw [lastWord_append, h.connected, ← hword]
    cases next.word? address <;> rfl
  disconnectedAt := hgone
  firstSeen := by
    obtain ⟨front, connected, harrived⟩ := h.firstSeen
    refine ⟨front, connected, ?_⟩
    rw [hfirst]
    exact arrivedAt_append.mpr (Or.inr ⟨harrived, hstays⟩)

theorem recorded_new {connected : Bool} {now : Nat}
    (habsent : ¬ (after config past).isTracked address = true) :
    Recorded config (past ++ [.activity address connected now]) address
      (.new connected now) where
  lastSeen := by simp [lastReport_append, Action.report?, PeerState.new]
  connected := by simp [lastWord_append, Action.word?, PeerState.new]
  disconnectedAt := by cases connected <;> rfl
  firstSeen := ⟨past, connected, arrivedAt_append.mpr (Or.inl ⟨rfl, rfl, habsent, rfl⟩)⟩

theorem Recorded.report (h : Recorded config past address state) (connected : Bool) (now : Nat) :
    Recorded config (past ++ [.activity address connected now]) address
      (state.report connected now) := by
  have hgone := h.disconnectedAt
  refine h.append (fun hforgets => hforgets) ?_ ?_ ?_ ?_ <;>
    cases connected <;> cases hold : state.connected <;>
      simp_all [PeerState.report, Action.report?, Action.word?]

theorem Recorded.disconnect (h : Recorded config past address state) (now : Nat) :
    Recorded config (past ++ [.disconnected address now]) address (state.disconnect now) := by
  have hgone := h.disconnectedAt
  refine h.append (fun hforgets => hforgets) ?_ ?_ ?_ ?_ <;>
    cases hold : state.connected <;>
      simp_all [PeerState.disconnect, Action.report?, Action.word?]

/-- An action that says nothing of the peer and does not forget it. -/
theorem Recorded.keep (h : Recorded config past address state)
    (hstays : ¬ Forgets config address past next) (hreport : next.report? address = none)
    (hword : next.word? address = none) : Recorded config (past ++ [next]) address state :=
  h.append hstays rfl (by rw [hreport]; rfl) (by rw [hword]; rfl) h.disconnectedAt

theorem recorded_append
    (hrecorded : ∀ state, (after config past).peers[address]? = some state →
      Recorded config past address state)
    (h : (after config (past ++ [next])).peers[address]? = some later) :
    Recorded config (past ++ [next]) address later := by
  rw [after_append, peers_act, config_after] at h
  cases next with
  | activity other connected now =>
      by_cases hother : other = address
      · subst hother
        rw [Action.effect, if_pos rfl] at h
        cases hold : (after config past).peers[other]? with
        | none =>
            rw [hold] at h
            obtain rfl := Option.some.inj h
            refine recorded_new fun htracked => ?_
            obtain ⟨state, hstate⟩ := (isTracked_iff _ _).mp htracked
            exact absurd (hold.symm.trans hstate) (Option.some_ne_none state).symm
        | some state =>
            rw [hold] at h
            obtain rfl := Option.some.inj h
            exact (hrecorded state hold).report connected now
      · rw [Action.effect, if_neg hother] at h
        exact (hrecorded later h).keep (fun hforgets => hforgets) (if_neg hother) (if_neg hother)
  | disconnected other now =>
      by_cases hother : other = address
      · subst hother
        rw [Action.effect, if_pos rfl] at h
        obtain ⟨state, hold, rfl⟩ := Option.map_eq_some_iff.mp h
        exact (hrecorded state hold).disconnect now
      · rw [Action.effect, if_neg hother] at h
        exact (hrecorded later h).keep (fun hforgets => hforgets) rfl (if_neg hother)
  | cleanup readings =>
      obtain ⟨hold, hfresh⟩ := Option.filter_eq_some_iff.mp h
      have hpast := hrecorded later hold
      refine hpast.keep (fun hforgets => ?_) rfl rfl
      have hsilent := hforgets _ hpast.lastSeen _ hpast.connected
      simp [PeerState.Silent, hsilent] at hfresh
  | remove other =>
      rw [Action.effect, Option.ite_none_left_eq_some] at h
      exact (hrecorded later h.2).keep h.1 rfl rfl
  | clear => cases h

theorem recorded_after (config : PeerLifetimeConfig) (past : List Action) :
    ∀ address state, (after config past).peers[address]? = some state →
      Recorded config past address state := by
  induction past using List.reverseRecOn with
  | nil =>
      intro address state h
      exact absurd h getElem?_empty_ne_some
  | append_singleton past next ih =>
      intro address state h
      exact recorded_append (ih address) h

end Recorded

end Steps

/-- The table is a summary of the history: a peer is tracked if a report took it up and nothing
has forgotten it since, and what is stored of it is what the history says. -/
theorem table_summarises_history (config : PeerLifetimeConfig) (actions : List Action)
    (address : String) :
    ((after config actions).isTracked address = true ↔
      ∃ front action, TakenUp config address actions front action) ∧
    ∀ state, (after config actions).peers[address]? = some state →
      Recorded config actions address state := by
  have hnil : ¬ (after config []).isTracked address = true := by
    rw [isTracked_iff]
    rintro ⟨state, hstate⟩
    exact getElem?_empty_ne_some hstate
  have hstep := fun past next =>
    isTracked_append config past next address (recorded_after config past address)
  exact ⟨@here_iff_arrived _ (fun past => (after config past).isTracked address = true) _ _ actions
    hnil hstep, recorded_after config actions address⟩

/-! ## How many peers are remembered -/

def Action.reported? : Action → Option String
  | .activity address _ _ => some address
  | _ => none

/-- The addresses that were reported. -/
def reported (actions : List Action) : List String := actions.filterMap Action.reported?

/-- The last report of the peer is within the longer of the two limits. -/
def HeardLately (config : PeerLifetimeConfig) (past : List Action) (readings : String → Nat)
    (address : String) : Prop :=
  ∃ t ∈ lastReport past address,
    readings address - t ≤ max config.connectedTimeout config.disconnectedTimeout

/-- The peers that may be left after a cleanup and what came behind it. -/
noncomputable def remembered (config : PeerLifetimeConfig) (past : List Action)
    (readings : String → Nat) (more : List Action) : Finset String :=
  open Classical in
  (reported past).toFinset.filter (HeardLately config past readings) ∪ (reported more).toFinset

section Remembered

variable {config : PeerLifetimeConfig} {past : List Action} {readings : String → Nat}
  {address : String}

theorem timeout_le (config : PeerLifetimeConfig) (connected : Bool) :
    config.timeout connected ≤ max config.connectedTimeout config.disconnectedTimeout := by
  cases connected
  · exact le_max_right _ _
  · exact le_max_left _ _

theorem le_timeout (config : PeerLifetimeConfig) (connected : Bool) :
    min config.connectedTimeout config.disconnectedTimeout ≤ config.timeout connected := by
  cases connected
  · exact min_le_right _ _
  · exact min_le_left _ _

theorem mem_reported_of_lastReport {t : Nat} (h : lastReport past address = some t) :
    address ∈ reported past := by
  obtain ⟨action, hmem, hreport⟩ := List.mem_filterMap.mp (List.mem_of_getLast? h)
  refine List.mem_filterMap.mpr ⟨action, hmem, ?_⟩
  cases action with
  | activity other connected now =>
      obtain ⟨rfl, -⟩ := Option.ite_none_right_eq_some.mp hreport
      rfl
  | disconnected other now => cases hreport
  | cleanup readings => cases hreport
  | remove other => cases hreport
  | clear => cases hreport

/-- What a cleanup leaves was heard lately, and what it takes was not heard for a while. -/
theorem tracked_cleanup (h : (after config past).isTracked address = true) :
    ((after config (past ++ [.cleanup readings])).isTracked address = true →
      HeardLately config past readings address) ∧
    (¬ (after config (past ++ [.cleanup readings])).isTracked address = true →
      ∀ t ∈ lastReport past address,
        min config.connectedTimeout config.disconnectedTimeout < readings address - t) := by
  obtain ⟨state, hstate⟩ := (isTracked_iff _ _).mp h
  obtain ⟨hseen, hword, -, -⟩ := recorded_after config past address state hstate
  have hlong := timeout_le config state.connected
  have hshort := le_timeout config state.connected
  have hstep := isTracked_append config past (.cleanup readings) address
    (recorded_after config past address)
  have hforgets : Forgets config address past (.cleanup readings) ↔
      config.timeout state.connected < readings address - state.lastSeen := by
    simp [Forgets, hseen, hword]
  rw [hforgets] at hstep
  constructor
  · intro hleft
    rcases hstep.mp hleft with ⟨habsent, -⟩ | ⟨-, hstays⟩
    · exact absurd h habsent
    · exact ⟨state.lastSeen, hseen, by omega⟩
  · intro hgone t ht
    obtain rfl := Option.some.inj (hseen.symm.trans ht)
    by_contra hfresh
    exact hgone (hstep.mpr (Or.inr ⟨h, by omega⟩))

/-- Only a report adds a peer. -/
theorem tracked_act {m : PeerLifetimeManager} {next : Action}
    (h : (m.act next).isTracked address = true) :
    m.isTracked address = true ∨ next.reported? = some address := by
  obtain ⟨state, hstate⟩ := (isTracked_iff _ _).mp h
  rw [isTracked_iff]
  rw [peers_act] at hstate
  cases hold : m.peers[address]? with
  | some old => exact Or.inl ⟨old, rfl⟩
  | none =>
      rw [hold] at hstate
      cases next with
      | activity other connected now =>
          obtain ⟨rfl, -⟩ := Option.ite_none_right_eq_some.mp hstate
          exact Or.inr rfl
      | disconnected other now => simp [Action.effect] at hstate
      | cleanup readings => cases hstate
      | remove other => simp [Action.effect] at hstate
      | clear => cases hstate

theorem tracked_mem_remembered (more : List Action)
    (h : (after config (past ++ .cleanup readings :: more)).isTracked address = true) :
    address ∈ remembered config past readings more := by
  classical
  have hcleaned : ∀ address, (after config (past ++ [.cleanup readings])).isTracked address = true →
      address ∈ remembered config past readings more := by
    intro address hleft
    have hbefore : (after config past).isTracked address = true := by
      rw [after_append] at hleft
      exact (tracked_act hleft).resolve_right fun hreported => by cases hreported
    have hlately := (tracked_cleanup hbefore).1 hleft
    obtain ⟨t, ht, -⟩ := id hlately
    exact Finset.mem_union_left _ (Finset.mem_filter.mpr
      ⟨List.mem_toFinset.mpr (mem_reported_of_lastReport ht), hlately⟩)
  have hsplit : after config (past ++ .cleanup readings :: more) =
      LoggedRun.run act (after config (past ++ [.cleanup readings])) more := by
    rw [after, after, ← LoggedRun.run_append, List.append_assoc, List.singleton_append]
  rw [hsplit] at h
  refine @LoggedRun.run_keeps _ _ act (fun m => ∀ address, m.isTracked address = true →
    address ∈ remembered config past readings more) _ more hcleaned ?_ address h
  intro m next hnext hold address htracked
  rcases tracked_act htracked with hbefore | hreported
  · exact hold address hbefore
  · exact Finset.mem_union_right _
      (List.mem_toFinset.mpr (List.mem_filterMap.mpr ⟨next, hnext, hreported⟩))

end Remembered

/-- A cleanup takes no peer that was heard within the shorter limit, and after it no more peers
are tracked than were heard within the longer limit or reported since. -/
theorem memory_bounded (config : PeerLifetimeConfig) (past more : List Action)
    (readings : String → Nat) :
    (∀ address, (after config past).isTracked address = true →
      ¬ (after config (past ++ [.cleanup readings])).isTracked address = true →
        ∀ t ∈ lastReport past address,
          min config.connectedTimeout config.disconnectedTimeout < readings address - t) ∧
    (after config (past ++ .cleanup readings :: more)).trackedCount ≤
      (remembered config past readings more).card := by
  refine ⟨fun address htracked => (tracked_cleanup htracked).2, size_le_card fun address h => ?_⟩
  exact tracked_mem_remembered more h

end PeatBtle.PeerLifetimeManager
