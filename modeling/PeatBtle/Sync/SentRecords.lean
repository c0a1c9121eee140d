import PeatBtle.Data.LoggedRun
import PeatBtle.Sync.Delta

/-!
# Records of what was sent

An encoder records one timestamp for each key that it has sent to a peer. A later mark
overwrites the record, also with an older timestamp, so that a list of operations is
remembered by the last one under each key.
-/

namespace PeatBtle

open MapMerge

namespace PeerSyncState

/-- Mark some keys at some timestamps, one after the other. -/
def markEntries (s : PeerSyncState) (entries : List (String × Timestamp)) : PeerSyncState :=
  entries.foldl (fun s entry => s.markSent entry.1 entry.2) s

/-- The timestamp of the last entry under a key. -/
def lastStamp (entries : List (String × Timestamp)) (key : String) : Option Timestamp :=
  (entries.filter fun entry => entry.1 = key).getLast?.map Prod.snd

variable {s : PeerSyncState} {entries sent : List (String × Timestamp)} {key : String}

theorem lastSent_markEntries (s : PeerSyncState) (entries : List (String × Timestamp))
    (key : String) :
    (s.markEntries entries).lastSent[key]? = (lastStamp entries key).or s.lastSent[key]? := by
  induction entries using List.reverseRecOn with
  | nil => rfl
  | append_singleton entries entry ih =>
      have hmark : s.markEntries (entries ++ [entry]) =
          (s.markEntries entries).markSent entry.1 entry.2 := List.foldl_concat ..
      rw [hmark, lastSent_markSent, ih, lastStamp, lastStamp, List.filter_append]
      by_cases hkey : entry.1 = key
      · simp [hkey]
      · simp [hkey]

theorem exists_lastStamp {entry : String × Timestamp} (h : entry ∈ entries) :
    ∃ stamp, lastStamp entries entry.1 = some stamp := by
  have hmem : entry ∈ entries.filter fun other => other.1 = entry.1 :=
    List.mem_filter.mpr ⟨h, decide_eq_true rfl⟩
  cases hlast : (entries.filter fun other => other.1 = entry.1).getLast? with
  | none =>
      rw [List.getLast?_eq_none_iff.mp hlast] at hmem
      cases hmem
  | some last => exact ⟨last.2, by rw [lastStamp, hlast]; rfl⟩

theorem needsSend_eq_false_iff {timestamp : Timestamp} :
    s.needsSend key timestamp = false ↔
      ∃ last, s.lastSent[key]? = some last ∧ timestamp ≤ last := by
  unfold needsSend
  cases s.lastSent[key]? with
  | none => simp
  | some last => simp

/-- None of the entries would be sent again. -/
def Covers (s : PeerSyncState) (sent : List (String × Timestamp)) : Prop :=
  ∀ entry ∈ sent, s.needsSend entry.1 entry.2 = false

/-- The records of one state are not behind those of the other. -/
def KeepsUp (s s' : PeerSyncState) : Prop :=
  ∀ (key : String) (old : Timestamp), s.lastSent[key]? = some old →
    ∃ new, s'.lastSent[key]? = some new ∧ old ≤ new

/-- The last entry under each key has the latest timestamp of them and is not before the record. -/
def Orderly (s : PeerSyncState) (entries : List (String × Timestamp)) : Prop :=
  ∀ (key : String) (stamp : Timestamp), lastStamp entries key = some stamp →
    (∀ entry ∈ entries, entry.1 = key → entry.2 ≤ stamp) ∧
      ∀ old, s.lastSent[key]? = some old → old ≤ stamp

theorem covers_nil (s : PeerSyncState) : s.Covers [] :=
  fun _ hentry => absurd hentry List.not_mem_nil

theorem keepsUp_of_orderly (h : s.Orderly entries) : s.KeepsUp (s.markEntries entries) := by
  intro key old hold
  rw [lastSent_markEntries]
  cases hlast : lastStamp entries key with
  | none => exact ⟨old, hold, UInt64.le_refl old⟩
  | some stamp => exact ⟨stamp, rfl, (h key stamp hlast).2 old hold⟩

/-- Marking keeps what was sent from being sent again, and the records from going back, exactly if
the entries are in order. -/
theorem markEntries_iff_orderly (hsent : s.Covers sent) :
    (s.markEntries entries).Covers (sent ++ entries) ∧ s.KeepsUp (s.markEntries entries) ↔
      s.Orderly entries := by
  constructor
  · rintro ⟨hcovers, hkeeps⟩ key stamp hlast
    have hrecord : (s.markEntries entries).lastSent[key]? = some stamp := by
      rw [lastSent_markEntries, hlast]
      rfl
    constructor
    · rintro entry hentry rfl
      obtain ⟨last, hrecorded, hle⟩ := needsSend_eq_false_iff.mp
        (hcovers entry (List.mem_append_right sent hentry))
      rw [hrecord] at hrecorded
      rwa [Option.some.inj hrecorded]
    · intro old hold
      obtain ⟨new, hrecorded, hle⟩ := hkeeps key old hold
      rw [hrecord] at hrecorded
      rwa [Option.some.inj hrecorded]
  · intro horderly
    have hkeeps := keepsUp_of_orderly horderly
    refine ⟨fun entry hentry => needsSend_eq_false_iff.mpr ?_, hkeeps⟩
    rcases List.mem_append.mp hentry with hbefore | hnow
    · obtain ⟨last, hrecorded, hle⟩ := needsSend_eq_false_iff.mp (hsent entry hbefore)
      obtain ⟨new, hnew, hlater⟩ := hkeeps entry.1 last hrecorded
      exact ⟨new, hnew, UInt64.le_trans hle hlater⟩
    · obtain ⟨stamp, hlast⟩ := exists_lastStamp hnow
      refine ⟨stamp, ?_, (horderly entry.1 stamp hlast).1 entry hnow rfl⟩
      rw [lastSent_markEntries, hlast]
      rfl

theorem Covers.of_eq {s' : PeerSyncState} (h : s.Covers sent) (heq : s'.lastSent = s.lastSent) :
    s'.Covers sent := by
  intro entry hentry
  rw [needsSend, heq]
  exact h entry hentry

end PeerSyncState

/-! ## Runs -/

/-- An encoder and what has been marked for each peer since it was registered or reset. -/
structure SentLedger where
  encoder : DeltaEncoder
  sent : NodeId → List (String × Timestamp)

namespace SentLedger

def new (nodeId : NodeId) : SentLedger := ⟨DeltaEncoder.new nodeId, fun _ => []⟩

inductive Call where
  | addPeer (peer : NodeId)
  | removePeer (peer : NodeId)
  | resetPeer (peer : NodeId)
  | updateState (key : String) (valueHash : UInt64) (timestamp : Timestamp)
  | markSent (peer : NodeId) (operations : List CrdtOperation)
  /-- Through the mutable reference to the state of the peer. -/
  | markKey (peer : NodeId) (key : String) (timestamp : Timestamp)
  | recordSent (peer : NodeId) (bytes : Nat)
  | recordReceived (peer : NodeId) (bytes : Nat) (timestamp : Timestamp)

/-- Only what is marked for a registered peer is recorded. -/
def note (s : SentLedger) (peer : NodeId) (entries : List (String × Timestamp)) :
    NodeId → List (String × Timestamp) :=
  if s.encoder.peers.contains peer then Function.update s.sent peer (s.sent peer ++ entries)
  else s.sent

def call (s : SentLedger) : Call → SentLedger
  | .addPeer peer => { s with encoder := s.encoder.addPeer peer }
  | .removePeer peer => ⟨s.encoder.removePeer peer, Function.update s.sent peer []⟩
  | .resetPeer peer => ⟨s.encoder.resetPeer peer, Function.update s.sent peer []⟩
  | .updateState key valueHash timestamp =>
      { s with encoder := s.encoder.updateState key valueHash timestamp }
  | .markSent peer operations =>
      ⟨s.encoder.markSent peer operations,
        s.note peer (operations.map DeltaEncoder.operationKeyTimestamp)⟩
  | .markKey peer key timestamp =>
      ⟨s.encoder.modifyPeer peer fun state => state.markSent key timestamp,
        s.note peer [(key, timestamp)]⟩
  | .recordSent peer bytes => { s with encoder := s.encoder.recordSent peer bytes }
  | .recordReceived peer bytes timestamp =>
      { s with encoder := s.encoder.recordReceived peer bytes timestamp }

/-- Nothing that was sent to a registered peer would be sent again. -/
def NotAgain (s : SentLedger) : Prop :=
  ∀ (peer : NodeId) (state : PeerSyncState), s.encoder.peers[peer]? = some state →
    state.Covers (s.sent peer)

/-- No record goes back, except that a peer is reset or removed. -/
def NeverBack (s : SentLedger) (c : Call) : Prop :=
  ∀ peer, c ≠ .resetPeer peer → c ≠ .removePeer peer →
    ∀ (key : String) (old : Timestamp), s.encoder.sentStamp peer key = some old →
      ∃ new, (s.call c).encoder.sentStamp peer key = some new ∧ old ≤ new

/-- Of what has just been marked for a registered peer, nothing passes the filter. -/
def Drops (s : SentLedger) : Call → Prop
  | .markSent peer operations => s.encoder.peers.contains peer = true →
      (s.call (.markSent peer operations)).encoder.filterForPeer peer operations = []
  | _ => True

/-- What is marked for a registered peer is in order. -/
def InOrder (s : SentLedger) : Call → Prop
  | .markSent peer operations => ∀ state, s.encoder.peers[peer]? = some state →
      state.Orderly (operations.map DeltaEncoder.operationKeyTimestamp)
  | .markKey peer key timestamp => ∀ state, s.encoder.peers[peer]? = some state →
      state.Orderly [(key, timestamp)]
  | _ => True

/-- Nothing is held against a peer that is not registered. -/
def Blank (s : SentLedger) : Prop :=
  ∀ peer : NodeId, s.encoder.peers[peer]? = none → s.sent peer = []

variable {s : SentLedger} {peer : NodeId} {entries : List (String × Timestamp)}

theorem note_of_registered {state : PeerSyncState} (h : s.encoder.peers[peer]? = some state)
    (entries : List (String × Timestamp)) :
    s.note peer entries = Function.update s.sent peer (s.sent peer ++ entries) := by
  rw [note, if_pos]
  rw [Std.ExtTreeMap.contains_eq_isSome_getElem?, h]
  rfl

theorem note_of_unknown (h : s.encoder.peers[peer]? = none) (entries : List (String × Timestamp)) :
    s.note peer entries = s.sent := by
  rw [note, if_neg]
  rw [Std.ExtTreeMap.contains_eq_isSome_getElem?, h]
  exact Bool.false_ne_true

theorem note_of_ne {other : NodeId} (h : other ≠ peer) (entries : List (String × Timestamp)) :
    s.note peer entries other = s.sent other := by
  unfold note
  split
  · exact Function.update_of_ne h ..
  · rfl

/-- A change of one peer's state, seen from every peer. -/
theorem sentStamp_keeps_iff (enc : DeltaEncoder) (peer : NodeId)
    (f : PeerSyncState → PeerSyncState) :
    (∀ (other : NodeId) (key : String) (old : Timestamp), enc.sentStamp other key = some old →
      ∃ new, (enc.modifyPeer peer f).sentStamp other key = some new ∧ old ≤ new) ↔
      ∀ state, enc.peers[peer]? = some state → state.KeepsUp (f state) := by
  constructor
  · intro h state hstate key old hold
    have hbefore : enc.sentStamp peer key = some old := by
      rw [DeltaEncoder.sentStamp, hstate]
      exact hold
    have hafter := h peer key old hbefore
    rwa [DeltaEncoder.sentStamp_modifyPeer, if_pos rfl, hstate] at hafter
  · intro h other key old hold
    rw [DeltaEncoder.sentStamp_modifyPeer]
    split
    · rename_i heq
      subst heq
      obtain ⟨state, hstate, hrecord⟩ := Option.bind_eq_some_iff.mp hold
      rw [hstate]
      exact h state hstate key old hrecord
    · exact ⟨old, hold, UInt64.le_refl old⟩

theorem notAgain_mark_iff (h : s.NotAgain) (peer : NodeId) (entries : List (String × Timestamp)) :
    NotAgain ⟨s.encoder.modifyPeer peer fun state => state.markEntries entries,
        s.note peer entries⟩ ↔
      ∀ state, s.encoder.peers[peer]? = some state →
        (state.markEntries entries).Covers (s.sent peer ++ entries) := by
  constructor
  · intro hafter state hstate
    have hmarked := hafter peer (state.markEntries entries) (by
      rw [DeltaEncoder.peers_modifyPeer, if_pos rfl, hstate]
      rfl)
    rw [note_of_registered hstate] at hmarked
    dsimp only at hmarked
    rwa [Function.update_self] at hmarked
  · intro hmarked other state hstate
    rw [DeltaEncoder.peers_modifyPeer] at hstate
    split at hstate
    · rename_i heq
      subst heq
      obtain ⟨old, hold, rfl⟩ := Option.map_eq_some_iff.mp hstate
      dsimp only
      rw [note_of_registered hold, Function.update_self]
      exact hmarked old hold
    · rename_i hne
      dsimp only
      rw [note_of_ne (Ne.symm hne)]
      exact h other state hstate

/-- Marking entries for a peer. -/
theorem mark_iff_orderly (h : s.NotAgain) (peer : NodeId) (entries : List (String × Timestamp)) :
    NotAgain ⟨s.encoder.modifyPeer peer fun state => state.markEntries entries,
        s.note peer entries⟩ ∧
      (∀ (other : NodeId) (key : String) (old : Timestamp),
        s.encoder.sentStamp other key = some old → ∃ new,
          (s.encoder.modifyPeer peer fun state => state.markEntries entries).sentStamp other key =
            some new ∧ old ≤ new) ↔
      ∀ state, s.encoder.peers[peer]? = some state → state.Orderly entries := by
  rw [notAgain_mark_iff h, sentStamp_keeps_iff, ← forall_and]
  refine forall_congr' fun state => ?_
  rw [← imp_and]
  exact imp_congr_right fun hstate => PeerSyncState.markEntries_iff_orderly (h peer state hstate)

/-- What has been marked does not pass the filter. -/
theorem filterForPeer_eq_nil {operations : List CrdtOperation} {state : PeerSyncState}
    (hstate : s.encoder.peers[peer]? = some state)
    (hcovers : state.Covers (operations.map DeltaEncoder.operationKeyTimestamp)) :
    s.encoder.filterForPeer peer operations = [] := by
  rw [DeltaEncoder.filterForPeer, hstate]
  refine List.filter_eq_nil_iff.mpr fun op hop => ?_
  rw [hcovers _ (List.mem_map_of_mem hop)]
  exact Bool.false_ne_true

theorem markOperations_eq (state : PeerSyncState) (operations : List CrdtOperation) :
    DeltaEncoder.markOperations state operations =
      state.markEntries (operations.map DeltaEncoder.operationKeyTimestamp) := by
  rw [PeerSyncState.markEntries, List.foldl_map]
  rfl

theorem markSent_eq (enc : DeltaEncoder) (peer : NodeId) (operations : List CrdtOperation) :
    enc.markSent peer operations = enc.modifyPeer peer fun state =>
      state.markEntries (operations.map DeltaEncoder.operationKeyTimestamp) := by
  rw [DeltaEncoder.markSent]
  congr 1
  funext state
  exact markOperations_eq state operations

/-- What has just been marked is part of what was sent. -/
theorem drops_of_notAgain {operations : List CrdtOperation}
    (h : (s.call (.markSent peer operations)).NotAgain) : s.Drops (.markSent peer operations) := by
  intro hregistered
  rw [Std.ExtTreeMap.contains_eq_isSome_getElem?] at hregistered
  obtain ⟨state, hstate⟩ := Option.isSome_iff_exists.mp hregistered
  have hafter : (s.call (.markSent peer operations)).encoder.peers[peer]? =
      some (state.markEntries (operations.map DeltaEncoder.operationKeyTimestamp)) := by
    show (s.encoder.markSent peer operations).peers[peer]? = _
    rw [markSent_eq, DeltaEncoder.peers_modifyPeer, if_pos rfl, hstate]
    rfl
  have hsent : (s.call (.markSent peer operations)).sent peer =
      s.sent peer ++ operations.map DeltaEncoder.operationKeyTimestamp := by
    show s.note peer _ peer = _
    rw [note_of_registered hstate, Function.update_self]
  refine filterForPeer_eq_nil hafter fun entry hentry => h peer _ hafter entry ?_
  rw [hsent]
  exact List.mem_append_right _ hentry

/-! ## One call -/

/-- A call that changes no record and no mark. -/
theorem notAgain_of_keeps (h : s.NotAgain) {encoder : DeltaEncoder}
    (hkeeps : ∀ (peer : NodeId) (state : PeerSyncState), encoder.peers[peer]? = some state →
      ∃ old, s.encoder.peers[peer]? = some old ∧ state.lastSent = old.lastSent) :
    NotAgain ⟨encoder, s.sent⟩ := by
  intro peer state hstate
  obtain ⟨old, hold, heq⟩ := hkeeps peer state hstate
  exact (h peer old hold).of_eq heq

theorem notAgain_modifyPeer (h : s.NotAgain) (peer : NodeId) {f : PeerSyncState → PeerSyncState}
    (hf : ∀ state, (f state).lastSent = state.lastSent) :
    NotAgain ⟨s.encoder.modifyPeer peer f, s.sent⟩ := by
  refine notAgain_of_keeps h fun other state hstate => ?_
  rw [DeltaEncoder.peers_modifyPeer] at hstate
  split at hstate
  · rename_i heq
    subst heq
    obtain ⟨old, hold, rfl⟩ := Option.map_eq_some_iff.mp hstate
    exact ⟨old, hold, hf old⟩
  · exact ⟨state, hstate, rfl⟩

theorem notAgain_addPeer (hblank : s.Blank) (h : s.NotAgain) (peer : NodeId) :
    (s.call (.addPeer peer)).NotAgain := by
  intro other state hstate
  replace hstate : (s.encoder.addPeer peer).peers[other]? = some state := hstate
  show state.Covers (s.sent other)
  rw [DeltaEncoder.peers_addPeer] at hstate
  split at hstate
  · rename_i heq
    subst heq
    cases hold : s.encoder.peers[peer]? with
    | none =>
        rw [hblank peer hold]
        exact state.covers_nil
    | some old =>
        rw [hold] at hstate
        exact h peer state (hold.trans hstate)
  · exact h other state hstate

/-- A call that forgets a peer and leaves the others alone. -/
theorem notAgain_forget (h : s.NotAgain) (peer : NodeId) {encoder : DeltaEncoder}
    (hothers : ∀ other, other ≠ peer → encoder.peers[other]? = s.encoder.peers[other]?) :
    NotAgain ⟨encoder, Function.update s.sent peer []⟩ := by
  intro other state hstate
  dsimp only at hstate ⊢
  by_cases heq : other = peer
  · rw [heq, Function.update_self]
    exact state.covers_nil
  · rw [Function.update_of_ne heq]
    exact h other state ((hothers other heq).symm.trans hstate)

/-- A call that leaves the records of the other peers alone. -/
theorem neverBack_of_eq {c : Call}
    (h : ∀ (peer : NodeId) (key : String), c ≠ .resetPeer peer → c ≠ .removePeer peer →
      (s.call c).encoder.sentStamp peer key = s.encoder.sentStamp peer key) : s.NeverBack c := by
  intro peer hreset hremove key old hold
  exact ⟨old, by rw [h peer key hreset hremove, hold], UInt64.le_refl old⟩

/-- Any other call than to reset or remove a peer has to keep the records of all peers. -/
theorem neverBack_iff (c : Call) (hreset : ∀ peer, c ≠ .resetPeer peer)
    (hremove : ∀ peer, c ≠ .removePeer peer) :
    s.NeverBack c ↔ ∀ (peer : NodeId) (key : String) (old : Timestamp),
      s.encoder.sentStamp peer key = some old →
        ∃ new, (s.call c).encoder.sentStamp peer key = some new ∧ old ≤ new :=
  ⟨fun h peer => h peer (hreset peer) (hremove peer), fun h peer _ _ => h peer⟩

/-- What a call does to the records of the peers, against the order of what it marks. -/
theorem call_iff_inOrder (hblank : s.Blank) (h : s.NotAgain) (c : Call) :
    (s.call c).NotAgain ∧ s.NeverBack c ∧ s.Drops c ↔ s.InOrder c := by
  cases c with
  | addPeer peer =>
      refine iff_of_true ⟨notAgain_addPeer hblank h peer, neverBack_of_eq ?_, trivial⟩ trivial
      exact fun other key _ _ => DeltaEncoder.sentStamp_addPeer ..
  | removePeer peer =>
      have hothers (other : NodeId) (hne : other ≠ peer) :
          (s.encoder.removePeer peer).peers[other]? = s.encoder.peers[other]? :=
        (DeltaEncoder.peers_removePeer ..).trans (if_neg (Ne.symm hne))
      refine iff_of_true ⟨notAgain_forget h peer hothers, neverBack_of_eq ?_, trivial⟩ trivial
      intro other key _ hremove
      have hne : peer ≠ other := fun heq => hremove (by rw [heq])
      exact (DeltaEncoder.sentStamp_removePeer ..).trans (if_neg hne)
  | resetPeer peer =>
      have hothers (other : NodeId) (hne : other ≠ peer) :
          (s.encoder.resetPeer peer).peers[other]? = s.encoder.peers[other]? :=
        (DeltaEncoder.peers_modifyPeer ..).trans (if_neg (Ne.symm hne))
      refine iff_of_true ⟨notAgain_forget h peer hothers, neverBack_of_eq ?_, trivial⟩ trivial
      intro other key hreset _
      have hne : peer ≠ other := fun heq => hreset (by rw [heq])
      exact (DeltaEncoder.sentStamp_resetPeer ..).trans (if_neg hne)
  | updateState key valueHash timestamp =>
      exact iff_of_true ⟨h, neverBack_of_eq fun _ _ _ _ => rfl, trivial⟩ trivial
  | markSent peer operations =>
      have hiff := mark_iff_orderly h peer (operations.map DeltaEncoder.operationKeyTimestamp)
      rw [← markSent_eq] at hiff
      rw [neverBack_iff (.markSent peer operations) (fun _ => nofun) fun _ => nofun, ← and_assoc]
      constructor
      · rintro ⟨hkept, -⟩
        exact hiff.mp hkept
      · intro horderly
        have hkept := hiff.mpr horderly
        exact ⟨hkept, drops_of_notAgain hkept.1⟩
  | markKey peer key timestamp =>
      rw [neverBack_iff (.markKey peer key timestamp) (fun _ => nofun) fun _ => nofun, ← and_assoc]
      exact (and_iff_left trivial).trans (mark_iff_orderly h peer [(key, timestamp)])
  | recordSent peer bytes =>
      refine iff_of_true ⟨notAgain_modifyPeer h peer fun _ => rfl, neverBack_of_eq ?_, trivial⟩
        trivial
      exact fun other key _ _ => DeltaEncoder.sentStamp_modifyPeer_of_keeps _ _ _ _ fun _ => rfl
  | recordReceived peer bytes timestamp =>
      refine iff_of_true ⟨notAgain_modifyPeer h peer fun _ => rfl, neverBack_of_eq ?_, trivial⟩
        trivial
      exact fun other key _ _ => DeltaEncoder.sentStamp_modifyPeer_of_keeps _ _ _ _ fun _ => rfl

theorem blank_new (nodeId : NodeId) : (new nodeId).Blank := fun _ _ => rfl

theorem notAgain_new (nodeId : NodeId) : (new nodeId).NotAgain :=
  fun _ state _ => state.covers_nil

theorem unknown_of_modifyPeer {enc : DeltaEncoder} {other : NodeId}
    {f : PeerSyncState → PeerSyncState} (h : (enc.modifyPeer peer f).peers[other]? = none) :
    enc.peers[other]? = none := by
  rw [DeltaEncoder.peers_modifyPeer] at h
  split at h
  · rename_i heq
    rw [← heq]
    exact Option.map_eq_none_iff.mp h
  · exact h

theorem Blank.note (h : s.Blank) {other : NodeId} (hother : s.encoder.peers[other]? = none)
    (peer : NodeId) (entries : List (String × Timestamp)) : s.note peer entries other = [] := by
  by_cases heq : other = peer
  · subst heq
    rw [note_of_unknown hother]
    exact h other hother
  · rw [note_of_ne heq]
    exact h other hother

theorem Blank.clear (h : s.Blank) {other : NodeId}
    (hother : other ≠ peer → s.encoder.peers[other]? = none) :
    Function.update s.sent peer [] other = [] := by
  by_cases heq : other = peer
  · rw [heq, Function.update_self]
  · rw [Function.update_of_ne heq]
    exact h other (hother heq)

/-- Marks are noted for registered peers only, and are dropped along with the peer. -/
theorem Blank.call (h : s.Blank) (c : Call) : (s.call c).Blank := by
  intro other hother
  cases c with
  | addPeer peer =>
      replace hother : (s.encoder.addPeer peer).peers[other]? = none := hother
      rw [DeltaEncoder.peers_addPeer] at hother
      split at hother
      · cases hother
      · exact h other hother
  | removePeer peer =>
      refine h.clear fun hne => ?_
      replace hother : (s.encoder.removePeer peer).peers[other]? = none := hother
      rwa [DeltaEncoder.peers_removePeer, if_neg (Ne.symm hne)] at hother
  | resetPeer peer => exact h.clear fun _ => unknown_of_modifyPeer hother
  | updateState key valueHash timestamp => exact h other hother
  | markSent peer operations => exact h.note (unknown_of_modifyPeer hother) peer _
  | markKey peer key timestamp => exact h.note (unknown_of_modifyPeer hother) peer _
  | recordSent peer bytes => exact h other (unknown_of_modifyPeer hother)
  | recordReceived peer bytes timestamp => exact h other (unknown_of_modifyPeer hother)

/-- In a run, no record goes back, no operation just marked for a registered peer passes the filter
and nothing that was marked for it would be sent again exactly if all marks are in order. -/
theorem sent_records_iff (nodeId : NodeId) (calls : List Call) :
    (∀ front, front <+: calls → (LoggedRun.run call (new nodeId) front).NotAgain) ∧
      LoggedRun.Along call (fun s c => s.NeverBack c ∧ s.Drops c) (new nodeId) calls ↔
      LoggedRun.Along call InOrder (new nodeId) calls :=
  LoggedRun.forall_step_iff_along (blank_new nodeId) (notAgain_new nodeId)
    (fun _ c hblank => hblank.call c) fun _ c hblank hagain => call_iff_inOrder hblank hagain c

/-- The update of one register at some time. -/
def registerAt (timestamp : Timestamp) : CrdtOperation := .updateRegister "k" [] timestamp 1

/-- Two updates marked with the older one last: the record goes back from `200` to `100`, and of the
same two updates marked at once the newer one is sent again. -/
theorem older_last_sent_again :
    (LoggedRun.run call (new 1) [.addPeer 2, .markSent 2 [registerAt 200]]).encoder.sentStamp 2
        "reg:k:00000001" = some 200 ∧
      (LoggedRun.run call (new 1) [.addPeer 2, .markSent 2 [registerAt 200],
        .markSent 2 [registerAt 100]]).encoder.sentStamp 2 "reg:k:00000001" = some 100 ∧
      (LoggedRun.run call (new 1)
        [.addPeer 2, .markSent 2 [registerAt 200, registerAt 100]]).encoder.filterForPeer 2
          [registerAt 200, registerAt 100] = [registerAt 200] := by
  decide

end SentLedger

end PeatBtle
