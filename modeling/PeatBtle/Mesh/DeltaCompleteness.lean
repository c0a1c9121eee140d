import PeatBtle.Mesh.Step

/-!
# Completeness of deltas

A peer is sent an operation again only when its timestamp has passed the one sent
last under the same key. Counts are their own timestamps and only grow, so no
count is ever missed. Everything else is delivered as long as every change of it
comes with a timestamp that the peer has not been sent yet.
-/

namespace PeatBtle

open Wire

namespace Operation

/-- The content, without the timestamp that only tracking looks at. -/
def unstamped : Operation → Operation
  | .incrementCounter counterId nodeId amount _ => .incrementCounter counterId nodeId amount 0
  | .updatePeripheral peripheral _ => .updatePeripheral peripheral 0
  | op => op

def isCounter : Operation → Bool
  | .incrementCounter .. => true
  | _ => false

theorem key_unstamped (op : Operation) : op.unstamped.key = op.key := by
  cases op <;> rfl

/-- The key of a node's entry in the default counter. -/
def countKey (node : NodeId) : String := key (.incrementCounter 0 node 0 0)

theorem countKey_inj {c : UInt8} {n node : NodeId} {a t : UInt64}
    (h : key (.incrementCounter c n a t) = countKey node) : c = 0 ∧ n = node := by
  obtain ⟨hcounter, hnode⟩ := numbered_key_inj h
  exact ⟨UInt8.toNat_inj.mp hcounter, UInt32.toNat_inj.mp (decimal_injective hnode)⟩

/-- Only counter operations are filed under a counter's key. -/
theorem eq_incrementCounter_of_key {op : Operation} {node : NodeId} (h : op.key = countKey node) :
    ∃ amount timestamp, op = .incrementCounter 0 node amount timestamp := by
  have hhead : ∀ (i : Nat), op.key.toList[i]? = (countKey node).toList[i]? := by
    intro i
    rw [h]
  cases op with
  | incrementCounter c n a t =>
      obtain ⟨rfl, rfl⟩ := countKey_inj h
      exact ⟨a, t, rfl⟩
  | clearEmergency timestamp =>
      have hsecond := hhead 1
      simp [countKey, key] at hsecond
  | _ =>
      have hfirst := hhead 0
      simp [countKey, key] at hfirst

end Operation

namespace PeatMesh

variable {D : Type} (crypto : Crypto)

/-! ## The operations of a state -/

theorem mem_allOperations_counter {m : PeatMesh D} {c : UInt8} {node : NodeId} {a t : UInt64} :
    .incrementCounter c node a t ∈ m.allOperations ↔
      c = 0 ∧ t = a ∧ m.documentSync.counter.counts[node]? = some a := by
  have hemergency : ∀ e : Option EmergencyEvent,
      Operation.incrementCounter c node a t ∉ emergencyOperations e := by
    intro e
    cases e with
    | none => simp [emergencyOperations]
    | some event => simp [emergencyOperations]
  simp only [allOperations, syncOperations, peripheralOperation, List.mem_append, List.mem_cons,
    List.mem_map, hemergency, DocumentSync.counterEntries, GCounter.entries, id]
  constructor
  · intro h
    simp only [reduceCtorEq, and_false, exists_false, or_false] at h
    obtain ⟨⟨entryNode, count⟩, hentry, hop⟩ := h
    cases hop
    exact ⟨rfl, rfl, Std.ExtTreeMap.mem_toList_iff_getElem?_eq_some.mp hentry⟩
  · rintro ⟨rfl, rfl, hcount⟩
    refine Or.inl (Or.inl ⟨(node, t), ?_, rfl⟩)
    exact Std.ExtTreeMap.mem_toList_iff_getElem?_eq_some.mpr hcount

/-- A full delta says the same as a tracked one that leaves nothing out. -/
theorem unstamped_fullDelta (m : PeatMesh D) (nowMs : UInt64) :
    (m.fullDeltaDocument nowMs).operations.map Operation.unstamped =
      m.allOperations.map Operation.unstamped := by
  simp only [fullDeltaDocument, DeltaDocument.foldl_addOperation, DeltaDocument.new, List.nil_append,
    allOperations, syncOperations, peripheralOperation, List.map_append, List.map_cons, List.map_map,
    Operation.unstamped]
  rfl

/-! ## What a peer is due -/

/-- Whether an operation would be part of a delta for the peer. -/
def needsSend (m : PeatMesh D) (peer : NodeId) (op : Operation) : Bool :=
  match m.deltaEncoder.getPeerState peer with
  | some state => state.needsSend op.key op.timestamp
  | none => true

theorem needsSend_iff {m : PeatMesh D} {peer : NodeId} {op : Operation} :
    m.needsSend peer op = true ↔
      ∀ stamp, m.sentStamp peer op.key = some stamp → stamp < op.timestamp := by
  unfold needsSend sentStamp DeltaEncoder.sentStamp DeltaEncoder.getPeerState
  cases m.deltaEncoder.peers[peer]? with
  | none => simp
  | some state =>
      simp only [PeerSyncState.needsSend, Option.bind_some]
      cases state.lastSent[op.key]? with
      | none => simp
      | some last => simp

theorem mem_operationsForPeer {m : PeatMesh D} {peer : NodeId} {op : Operation} :
    op ∈ m.operationsForPeer peer ↔ op ∈ m.allOperations ∧ m.needsSend peer op = true := by
  unfold operationsForPeer needsSend
  cases m.deltaEncoder.getPeerState peer with
  | none => simp
  | some state => simp [List.mem_filter]

theorem deltaForPeer_operations {m : PeatMesh D} {peer : NodeId} {nowMs : UInt64}
    {delta : DeltaDocument} (h : m.deltaForPeer peer nowMs = some delta) :
    delta.operations = m.operationsForPeer peer := by
  unfold deltaForPeer at h
  dsimp only at h
  split_ifs at h
  rw [← Option.some.inj h, DeltaDocument.foldl_addOperation]
  rfl

theorem operationsForPeer_of_none {m : PeatMesh D} {peer : NodeId} {nowMs : UInt64}
    (h : m.deltaForPeer peer nowMs = none) : m.operationsForPeer peer = [] := by
  unfold deltaForPeer at h
  dsimp only at h
  split_ifs at h with hempty
  exact List.isEmpty_iff.mp hempty

/-- A delta marks what it sends and nothing else. -/
theorem sentStamp_buildDelta {m : PeatMesh D} {peer : NodeId} {nonce : Nonce} {nowMs : UInt64}
    {key : String} {stamp : UInt64}
    (h : (m.buildDeltaDocumentForPeer crypto peer nonce nowMs).1.sentStamp peer key = some stamp) :
    m.sentStamp peer key = some stamp ∨
      ∃ op ∈ m.operationsForPeer peer, op.key = key ∧ op.timestamp = stamp := by
  unfold buildDeltaDocumentForPeer at h
  cases hdelta : m.deltaForPeer peer nowMs with
  | none =>
      rw [hdelta] at h
      exact Or.inl h
  | some delta =>
      rw [hdelta] at h
      replace h := (evolves_recordDeltaSent _ peer peer _).sentStamp key stamp h
      rw [← deltaForPeer_operations hdelta]
      simp only [sentStamp, DeltaEncoder.sentStamp_modifyPeer, if_true] at h
      obtain ⟨state, hstate, hlast⟩ := Option.bind_eq_some_iff.mp h
      rcases PeerSyncState.lastSent_foldl_markSent hlast with hbefore | hmarked
      · refine Or.inl ?_
        rw [sentStamp, DeltaEncoder.sentStamp, hstate]
        exact hbefore
      · exact Or.inr hmarked

theorem allOperations_buildDelta (m : PeatMesh D) (peer : NodeId) (nonce : Nonce) (nowMs : UInt64) :
    (m.buildDeltaDocumentForPeer crypto peer nonce nowMs).1.allOperations = m.allOperations := by
  unfold buildDeltaDocumentForPeer
  cases m.deltaForPeer peer nowMs <;> rfl

/-! ## The invariant -/

/-- What a step changes under a key carries a timestamp that the peer has not been sent yet. Counts
are exempt. -/
def Restamps (peer : NodeId) (key : String) (m : PeatMesh D) (action : Action D) : Prop :=
  ∀ op ∈ (m.act crypto action).allOperations, op.key = key → op.isCounter = false →
    op ∉ m.allOperations → m.needsSend peer op = true

instance (peer : NodeId) (key : String) (m : PeatMesh D) (action : Action D) :
    Decidable (Restamps crypto peer key m action) :=
  inferInstanceAs (Decidable (∀ op ∈ _, _ → _ → _ → _))

/-- No stamp sent for a count exceeds it, and what is withheld from the peer has been sent to it. -/
structure Delivered (peer : NodeId) (key : String) (past : List DeltaDocument) (m : PeatMesh D) :
    Prop where
  counts : ∀ (node : NodeId) (stamp : UInt64),
    m.sentStamp peer (Operation.countKey node) = some stamp →
      ∃ count, m.documentSync.counter.counts[node]? = some count ∧ stamp ≤ count
  withheld : ∀ op ∈ m.allOperations, op.key = key → m.needsSend peer op = false →
    ∃ delta ∈ past, op ∈ delta.operations

variable {peer : NodeId} {key : String} {past : List DeltaDocument} {m after : PeatMesh D}

/-- A count that is withheld after a step was there before: it has not passed the stamp sent. -/
theorem mem_of_withheld_count (hcounts : ∀ (node : NodeId) (stamp : UInt64),
      m.sentStamp peer (Operation.countKey node) = some stamp →
        ∃ count, m.documentSync.counter.counts[node]? = some count ∧ stamp ≤ count)
    (hgrown : after.documentSync.counter.Covers m.documentSync.counter) {op : Operation}
    (hop : op ∈ after.allOperations) (hcounter : op.isCounter = true)
    (hwithheld : m.needsSend peer op = false) : op ∈ m.allOperations := by
  cases op with
  | incrementCounter c node a t =>
      obtain ⟨rfl, rfl, hcount⟩ := mem_allOperations_counter.mp hop
      have hsent : ¬ ∀ stamp, m.sentStamp peer (Operation.countKey node) = some stamp → stamp < t := by
        intro h
        rw [needsSend_iff.mpr h] at hwithheld
        cases hwithheld
      push Not at hsent
      obtain ⟨stamp, hstamp, hle⟩ := hsent
      obtain ⟨before, hbefore, hbound⟩ := hcounts node stamp hstamp
      obtain ⟨own, hown, hgrow⟩ := hgrown node before hbefore
      rw [hcount] at hown
      obtain rfl := Option.some.inj hown
      have hsame : before = t :=
        UInt64.le_antisymm hgrow (UInt64.le_trans (UInt64.not_lt.mp hle) hbound)
      exact mem_allOperations_counter.mpr ⟨rfl, rfl, by rw [hbefore, hsame]⟩
  | _ => cases hcounter

theorem Delivered.of_evolves (h : Delivered peer key past m) (hstep : Evolves peer m after)
    (hstamped : ∀ op ∈ after.allOperations, op.key = key → op.isCounter = false →
      op ∉ m.allOperations → m.needsSend peer op = true) : Delivered peer key past after := by
  have hgrown : after.documentSync.counter.Covers m.documentSync.counter := by
    obtain ⟨changes, hchanges⟩ := hstep.documentSync
    rw [hchanges]
    exact (m.documentSync.run_frame changes).2
  constructor
  · intro node stamp hstamp
    obtain ⟨count, hcount, hle⟩ := h.counts node stamp (hstep.sentStamp _ _ hstamp)
    obtain ⟨own, hown, hgrow⟩ := hgrown node count hcount
    exact ⟨own, hown, UInt64.le_trans hle hgrow⟩
  · intro op hop hkey hwithheld
    -- The peer's table only loses entries, so the operation was already withheld before.
    have hbefore : m.needsSend peer op = false := by
      by_contra hneeds
      rw [Bool.not_eq_false, needsSend_iff] at hneeds
      have hafter : after.needsSend peer op = true :=
        needsSend_iff.mpr fun stamp hstamp => hneeds stamp (hstep.sentStamp _ _ hstamp)
      rw [hafter] at hwithheld
      cases hwithheld
    have hmem : op ∈ m.allOperations := by
      cases hcounter : op.isCounter with
      | true => exact mem_of_withheld_count h.counts hgrown hop hcounter hbefore
      | false =>
          by_contra hnew
          rw [hstamped op hop hkey hcounter hnew] at hbefore
          cases hbefore
    exact h.withheld op hmem hkey hbefore

/-- The next delta for the peer has whatever the earlier ones do not. -/
theorem Delivered.included (h : Delivered peer key past m) (nowMs : UInt64) {op : Operation}
    (hop : op ∈ m.allOperations) (hkey : op.key = key) :
    ∃ delta ∈ past ++ (m.deltaForPeer peer nowMs).toList, op ∈ delta.operations := by
  by_cases hneeds : m.needsSend peer op = true
  · have hsent := mem_operationsForPeer.mpr ⟨hop, hneeds⟩
    cases hdelta : m.deltaForPeer peer nowMs with
    | none =>
        rw [operationsForPeer_of_none hdelta] at hsent
        cases hsent
    | some delta =>
        rw [← deltaForPeer_operations hdelta] at hsent
        exact ⟨delta, by simp, hsent⟩
  · rw [Bool.not_eq_true] at hneeds
    obtain ⟨delta, hdelta, hmem⟩ := h.withheld op hop hkey hneeds
    exact ⟨delta, List.mem_append_left _ hdelta, hmem⟩

theorem Delivered.of_build (h : Delivered peer key past m) (nonce : Nonce) (nowMs : UInt64) :
    Delivered peer key (past ++ (m.deltaForPeer peer nowMs).toList)
      (m.buildDeltaDocumentForPeer crypto peer nonce nowMs).1 := by
  constructor
  · intro node stamp hstamp
    rw [documentSync_buildDelta]
    rcases sentStamp_buildDelta crypto hstamp with hbefore | ⟨op, hop, hkey, htimestamp⟩
    · exact h.counts node stamp hbefore
    · obtain ⟨amount, timestamp, rfl⟩ := Operation.eq_incrementCounter_of_key hkey
      obtain ⟨-, rfl, hcount⟩ := mem_allOperations_counter.mp (mem_operationsForPeer.mp hop).1
      obtain rfl := htimestamp
      exact ⟨_, hcount, UInt64.le_refl _⟩
  · intro op hop hkey _
    rw [allOperations_buildDelta] at hop
    exact h.included nowMs hop hkey

theorem Delivered.of_act (h : Delivered peer key past m) {action : Action D}
    (hstamped : Restamps crypto peer key m action) :
    Delivered peer key (past ++ (builtFor peer m action).toList) (m.act crypto action) := by
  by_cases hbuilds : BuildsFor peer action
  · cases action with
    | buildDelta other nonce nowMs =>
        obtain rfl := hbuilds
        have hbuilt : builtFor other m (.buildDelta other nonce nowMs) = m.deltaForPeer other nowMs :=
          if_pos rfl
        rw [hbuilt]
        exact h.of_build crypto nonce nowMs
    | _ => exact hbuilds.elim
  · have hquiet : builtFor peer m action = none := by
      cases action with
      | buildDelta other nonce nowMs => exact if_neg hbuilds
      | _ => rfl
    rw [hquiet, Option.toList_none, List.append_nil]
    exact h.of_evolves (evolves_act crypto hbuilds m) hstamped

/-! ## Runs -/

/-- All deltas built for a peer in a run. -/
def deltasFor (peer : NodeId) (config : PeatMeshConfig) (actions : List (Action D)) :
    List DeltaDocument :=
  LoggedRun.log (act crypto) (builtFor peer) (new crypto config) actions

theorem deltasFor_build (peer : NodeId) (config : PeatMeshConfig) (actions : List (Action D))
    (nonce : Nonce) (nowMs : UInt64) :
    deltasFor crypto peer config (actions ++ [.buildDelta peer nonce nowMs]) =
      deltasFor crypto peer config actions ++
        ((run crypto config actions).deltaForPeer peer nowMs).toList := by
  unfold deltasFor run
  rw [LoggedRun.log_append]
  simp [LoggedRun.log, builtFor]

theorem delivered_new (config : PeatMeshConfig) (peer : NodeId) (key : String) :
    Delivered peer key [] (new crypto config : PeatMesh D) := by
  have hnothing : ∀ k, (new crypto config : PeatMesh D).sentStamp peer k = none := by
    intro k
    simp [sentStamp, new, DeltaEncoder.new, DeltaEncoder.sentStamp]
  constructor
  · intro node stamp hstamp
    rw [hnothing] at hstamp
    cases hstamp
  · intro op hop hkey hwithheld
    have hneeds : (new crypto config : PeatMesh D).needsSend peer op = true := by
      apply needsSend_iff.mpr
      intro stamp hstamp
      rw [hnothing] at hstamp
      cases hstamp
    rw [hneeds] at hwithheld
    cases hwithheld

/-- In every run that restamps what it changes under a key, each delta for a peer completes the
earlier ones: together they hold the content of all that a full delta has under that key. -/
theorem deltas_complete (config : PeatMeshConfig) (peer : NodeId) (key : String)
    (actions : List (Action D))
    (hstamped : LoggedRun.Along (act crypto) (Restamps crypto peer key) (new crypto config) actions)
    (nonce : Nonce) (nowMs : UInt64) (op : Operation)
    (hop : op ∈ ((run crypto config actions).fullDeltaDocument nowMs).operations)
    (hkey : op.key = key) :
    ∃ delta ∈ deltasFor crypto peer config (actions ++ [.buildDelta peer nonce nowMs]),
      ∃ sent ∈ delta.operations, sent.unstamped = op.unstamped := by
  have hrun : Delivered peer key (deltasFor crypto peer config actions) (run crypto config actions) :=
    LoggedRun.invariant_of_good (delivered_new crypto config peer key) hstamped
      fun past m action hgood hpast => hpast.of_act crypto hgood
  have hcontent := List.mem_map_of_mem (f := Operation.unstamped) hop
  rw [unstamped_fullDelta] at hcontent
  obtain ⟨tracked, htracked, hsame⟩ := List.mem_map.mp hcontent
  have hkeys : tracked.key = key := by
    rw [← Operation.key_unstamped, hsame, Operation.key_unstamped, hkey]
  obtain ⟨delta, hdelta, hmem⟩ := hrun.included nowMs htracked hkeys
  rw [deltasFor_build]
  exact ⟨delta, hdelta, tracked, hmem, hsame⟩

/-- A tracked peer gets a first delta, then the battery runs down and a third node is heard. -/
def batteryRun : List (Action Unit) :=
  [.registerPeerForDelta 0x22222222,
    .buildDelta 0x22222222 (Vector.replicate 12 0) 1000,
    .mutate (.updateHealth 40),
    .dataReceivedFromNode 0x33333333 (PeatDocument.new 0x33333333).incrementCounter.encode 2000]

/-- The second delta holds the new count, but neither delta holds the current peripheral. -/
theorem battery_level_never_sent :
    let config := PeatMeshConfig.new 0x11111111 "ALPHA-1" "TEST"
    let deltas := deltasFor .unavailable 0x22222222 config
      (batteryRun ++ [.buildDelta 0x22222222 (Vector.replicate 12 0) 3000])
    deltas.length = 2 ∧
      ∃ op ∈ ((run .unavailable config batteryRun).fullDeltaDocument 3000).operations,
        ∀ delta ∈ deltas, ∀ sent ∈ delta.operations, sent.unstamped ≠ op.unstamped := by
  decide +kernel

/-- A tracked peer gets a delta before and after an alarm, which brings its own timestamp. -/
def alarmRun : List (Action Unit) :=
  [.registerPeerForDelta 0x22222222,
    .buildDelta 0x22222222 (Vector.replicate 12 0) 1000,
    .mutate (.startEmergency 1700000000000 [0x22222222])]

theorem alarm_reaches_peer :
    let config := PeatMeshConfig.new 0x11111111 "ALPHA-1" "TEST"
    ∃ delta ∈ deltasFor .unavailable 0x22222222 config
        (alarmRun ++ [.buildDelta 0x22222222 (Vector.replicate 12 0) 1700000000500]),
      ∃ sent ∈ delta.operations, sent.unstamped =
        .setEmergency 0x11111111 1700000000000 [0x11111111, 0x22222222] := by
  refine deltas_complete .unavailable (PeatMeshConfig.new 0x11111111 "ALPHA-1" "TEST") 0x22222222
    "emergency:286331153" alarmRun ?_ (Vector.replicate 12 0) 1700000000500
    (.setEmergency 0x11111111 1700000000000 [0x11111111, 0x22222222]) (by decide +kernel)
    (by decide +kernel)
  decide +kernel

end PeatMesh

end PeatBtle
