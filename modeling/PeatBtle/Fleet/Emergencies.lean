import PeatBtle.Acknowledgements
import PeatBtle.Fleet
import PeatBtle.Heard

/-!
# Emergencies in a fleet

Acknowledgements travel inside documents that are copied, delayed and merged by nodes
that had no part in them. Whatever way they took, each was made by the node it names,
and an emergency that everybody seems to have acknowledged was acknowledged by every
peer that its declaration listed.
-/

namespace PeatBtle

open Wire MapMerge

namespace EmergencyEvent

variable {e other : EmergencyEvent}

theorem track_acked {acks : Map UInt32 Bool} {node peer : UInt32}
    (h : (track acks peer)[node]? = some true) : acks[node]? = some true := by
  rw [track, getElem?_alter_eq] at h
  by_cases hpeer : peer = node
  · rw [if_pos hpeer, Option.some_inj] at h
    rw [← hpeer]
    cases hold : acks[peer]? with
    | none => rw [hold] at h; cases h
    | some flag => rw [hold] at h; exact congrArg some h
  · rwa [if_neg hpeer] at h

/-- Only the source counts as acknowledged at first. -/
theorem eq_source_of_new {source node : UInt32} {timestamp : UInt64} {peers : List UInt32}
    (h : (new source timestamp peers).acks[node]? = some true) : node = source := by
  have hfold : ∀ (peers : List UInt32) (acks : Map UInt32 Bool),
      (peers.foldl (fun acks peer => if peer ≠ source then track acks peer else acks)
        acks)[node]? = some true → acks[node]? = some true := by
    intro peers
    induction peers with
    | nil => exact fun _ h => h
    | cons peer peers ih =>
        intro acks h
        have hrest := ih _ h
        dsimp only at hrest
        split at hrest
        · exact track_acked hrest
        · exact hrest
  have hstart := hfold peers _ h
  rw [getElem?_insert_eq] at hstart
  split at hstart
  · rename_i heq
    exact heq.symm
  · exact absurd hstart getElem?_empty_ne_some

theorem getElem?_new_source (source : UInt32) (timestamp : UInt64) (peers : List UInt32) :
    (new source timestamp peers).acks[source]? = some true := by
  have hfold : ∀ (peers : List UInt32) (acks : Map UInt32 Bool), acks[source]? = some true →
      (peers.foldl (fun acks peer => if peer ≠ source then track acks peer else acks)
        acks)[source]? = some true := by
    intro peers
    induction peers with
    | nil => exact fun _ h => h
    | cons peer peers ih =>
        intro acks h
        refine ih _ ?_
        dsimp only
        split
        · rename_i hpeer
          rw [track, getElem?_alter_eq, if_neg hpeer, h]
        · exact h
  exact hfold peers _ (by rw [getElem?_insert_eq, if_pos rfl])

theorem getElem?_ack (e : EmergencyEvent) (node other : UInt32) :
    (e.ack node).1.acks[other]? = if node = other then some true else e.acks[other]? :=
  getElem?_insert_eq ..

theorem getElem?_of_hasAcked {node : UInt32} (h : e.hasAcked node = true) :
    e.acks[node]? = some true := by
  unfold hasAcked at h
  cases hnode : e.acks[node]? with
  | none => rw [hnode] at h; cases h
  | some flag => rw [hnode] at h; exact congrArg some h

theorem getElem?_of_allAcked (h : e.allAcked = true) {node : UInt32} (hnode : node ∈ e.acks) :
    e.acks[node]? = some true := by
  rw [allAcked, Bool.and_eq_true, List.all_eq_true] at h
  obtain ⟨flag, hflag⟩ := Option.isSome_iff_exists.mp
    (Std.ExtTreeMap.mem_iff_isSome_getElem?.mp hnode)
  have htrue := h.2 (node, flag) (Std.ExtTreeMap.mem_toList_iff_getElem?_eq_some.mpr hflag)
  exact hflag.trans (congrArg some htrue)

/-- What another node reads of an event: nothing, or all but an entry for zero. -/
theorem decode_encode_cases (hsize : e.acks.size < 2 ^ 32)
    (h : decode e.encode = some other) : e.Identified ∧ other.sourceNode = e.sourceNode ∧
      other.timestamp = e.timestamp ∧ other.acks = e.acks.filter fun node _ => node != 0 := by
  by_cases hid : e.Identified
  · rcases Nat.lt_or_ge maxEmergencyAcks e.acks.size with hmany | hfew
    · have hnone := decode_eq_none_of_many hmany hsize []
      rw [List.append_nil, h] at hnone
      cases hnone
    · have hread := decode_encode hid hfew []
      rw [List.append_nil, h] at hread
      obtain rfl := Option.some.inj hread
      exact ⟨hid, rfl, rfl, rfl⟩
  · have hnone := decode_eq_none hid []
    rw [List.append_nil, h] at hnone
    cases hnone

theorem getElem?_filter_ne_zero (acks : Map UInt32 Bool) (node : UInt32) :
    (acks.filter fun node _ => node != 0)[node]? = if node = 0 then none else acks[node]? := by
  rw [Std.ExtTreeMap.getElem?_filter']
  cases hnode : acks[node]? with
  | none => simp
  | some flag => by_cases hzero : node = 0 <;> simp [Option.filter_some, hzero]

end EmergencyEvent

namespace DocumentSync

/-- Without an emergency nobody is left to acknowledge it. -/
def allPeersAcked (s : DocumentSync) : Bool :=
  (s.emergency.map EmergencyEvent.allAcked).getD true

def hasPeerAcked (s : DocumentSync) (peerId : UInt32) : Bool :=
  (s.emergency.map fun e => e.hasAcked peerId).getD false

/-- Three mutators change the emergency. -/
theorem emergency_mutate (s : DocumentSync) (mutation : Mutation) :
    (s.mutate mutation).emergency = match mutation with
      | .startEmergency timestamp knownPeers =>
          some (EmergencyEvent.new s.nodeId timestamp knownPeers)
      | .ackEmergency _ => s.emergency.map fun e => (e.ack s.nodeId).1
      | .clearEmergency => none
      | _ => s.emergency := by
  cases mutation with
  | ackEmergency timestamp => exact s.emergency_ackEmergency timestamp
  | clearEmergency =>
      simp only [mutate, clearEmergency]
      cases hemergency : s.emergency with
      | none => simpa using hemergency
      | some e => rfl
  | _ => rfl

end DocumentSync

namespace Fleet

variable {F : Fleet}

/-- What a node does about an emergency. -/
inductive Deed where
  | declared (source : NodeId) (timestamp : UInt64) (knownPeers : List UInt32)
  | acked (node : NodeId) (source : UInt32) (timestamp : UInt64)

def deed (s : F.State) : F.Action → Option Deed
  | .mutate i (.startEmergency timestamp knownPeers) => some (.declared i timestamp knownPeers)
  | .mutate i (.ackEmergency _) =>
      (s.node i).emergency.map fun e => .acked i e.sourceNode e.timestamp
  | _ => none

/-- The event was declared, it tracks everyone that the declaration listed, and the
acknowledgements in it were made, the source's with the declaration. It waits for nobody whom no
declaration of it listed, and names no more nodes than are known in the fleet. -/
structure Genuine (names : Finset NodeId) (past : List Deed) (e : EmergencyEvent) : Prop where
  declared : ∃ known, Deed.declared e.sourceNode e.timestamp known ∈ past ∧
    ∀ peer ∈ known, peer ≠ 0 → peer ∈ e.acks
  source : e.acks[e.sourceNode]? = some true
  acked : ∀ (node : UInt32), e.acks[node]? = some true →
    node = e.sourceNode ∨ Deed.acked node e.sourceNode e.timestamp ∈ past
  pending : ∀ (node : UInt32), e.acks[node]? = some false →
    ∃ known, Deed.declared e.sourceNode e.timestamp known ∈ past ∧ node ∈ known
  named : ∀ node ∈ e.acks, node ∈ names

section Genuine

variable {names : Finset NodeId} {past : List Deed} {e other : EmergencyEvent}

theorem Genuine.append (h : Genuine names past e) (more : List Deed) :
    Genuine names (past ++ more) e where
  declared := by
    obtain ⟨known, hdeclared, hlisted⟩ := h.declared
    exact ⟨known, List.mem_append_left _ hdeclared, hlisted⟩
  source := h.source
  acked node hnode := (h.acked node hnode).imp_right (List.mem_append_left _)
  pending node hnode := by
    obtain ⟨known, hdeclared, hlisted⟩ := h.pending node hnode
    exact ⟨known, List.mem_append_left _ hdeclared, hlisted⟩
  named := h.named

theorem genuine_new {source : NodeId} {timestamp : UInt64} {known : List UInt32}
    (hsource : source ∈ names) (hknown : ∀ peer ∈ known, peer ∈ names) :
    Genuine names (past ++ [.declared source timestamp known])
      (EmergencyEvent.new source timestamp known) where
  declared := ⟨known, List.mem_append_right _ (List.mem_singleton_self _), fun peer hpeer _ =>
    EmergencyEvent.mem_new.mpr (List.mem_cons_of_mem _ hpeer)⟩
  source := EmergencyEvent.getElem?_new_source ..
  acked node hnode := Or.inl (EmergencyEvent.eq_source_of_new hnode)
  pending node hnode := by
    refine ⟨known, List.mem_append_right _ (List.mem_singleton_self _), ?_⟩
    have hmem := EmergencyEvent.mem_new.mp (mem_of_getElem? hnode)
    refine (List.mem_cons.mp hmem).resolve_left ?_
    rintro rfl
    rw [EmergencyEvent.getElem?_new_source] at hnode
    cases hnode
  named node hnode := by
    rcases List.mem_cons.mp (EmergencyEvent.mem_new.mp hnode) with rfl | hpeer
    · exact hsource
    · exact hknown node hpeer

theorem Genuine.ack (h : Genuine names past e) {node : NodeId} (hnode : node ∈ names) :
    Genuine names (past ++ [.acked node e.sourceNode e.timestamp]) (e.ack node).1 where
  declared := by
    obtain ⟨known, hdeclared, hlisted⟩ := (h.append _).declared
    refine ⟨known, hdeclared, fun peer hpeer hzero => ?_⟩
    exact Std.ExtTreeMap.mem_insert.mpr (Or.inr (hlisted peer hpeer hzero))
  source := by
    rw [EmergencyEvent.getElem?_ack]
    split
    · rfl
    · exact h.source
  acked other hother := by
    rw [EmergencyEvent.getElem?_ack] at hother
    split at hother
    · rename_i heq
      exact Or.inr (List.mem_append_right _ (heq ▸ List.mem_singleton_self _))
    · exact (h.append _).acked other hother
  pending other hother := by
    rw [EmergencyEvent.getElem?_ack] at hother
    split at hother
    · cases hother
    · exact (h.append _).pending other hother
  named other hother := by
    rcases Std.ExtTreeMap.mem_insert.mp hother with heq | hold
    · exact Std.LawfulEqCmp.compare_eq_iff_eq.mp heq ▸ hnode
    · exact h.named other hold

/-- Where a merge of acknowledgements finds one, either side has it. -/
theorem acks_merge_cases {ours theirs : Map UInt32 Bool} {node : UInt32} {flag : Bool}
    (h : (mergeWith false or ours theirs)[node]? = some flag) :
    ours[node]? = some flag ∨ theirs[node]? = some flag := by
  rw [getElem?_mergeWith] at h
  cases htheirs : theirs[node]? with
  | none =>
      rw [htheirs] at h
      exact Or.inl h
  | some theirFlag =>
      rw [htheirs] at h
      obtain rfl := Option.some.inj h
      cases hours : ours[node]? with
      | none => exact Or.inr rfl
      | some ourFlag => cases ourFlag <;> simp

/-- A merge invents nothing. -/
theorem Genuine.merge (h : Genuine names past e) (hother : Genuine names past other) :
    Genuine names past (e.merge other).1 := by
  by_cases hsame : e.SameEvent other
  · rw [EmergencyEvent.merge_of_sameEvent hsame]
    obtain ⟨known, hdeclared, hlisted⟩ := h.declared
    refine ⟨⟨known, hdeclared, fun peer hpeer hzero => ?_⟩, ?_, fun node hnode => ?_,
      fun node hnode => ?_, fun node hnode => ?_⟩
    · exact (mem_mergeWith ..).mpr (Or.inl (hlisted peer hpeer hzero))
    · dsimp only
      rw [getElem?_mergeWith, h.source]
      cases other.acks[e.sourceNode]? with
      | none => rfl
      | some flag => rfl
    · rcases acks_merge_cases hnode with hours | htheirs
      · exact h.acked node hours
      · dsimp only
        rw [hsame.1, hsame.2]
        exact hother.acked node htheirs
    · rcases acks_merge_cases hnode with hours | htheirs
      · exact h.pending node hours
      · dsimp only
        rw [hsame.1, hsame.2]
        exact hother.pending node htheirs
    · rcases (mem_mergeWith ..).mp hnode with hours | htheirs
      · exact h.named node hours
      · exact hother.named node htheirs
  · by_cases hnewer : e.timestamp < other.timestamp
    · rw [EmergencyEvent.merge_of_newer hnewer]
      exact hother
    · rw [EmergencyEvent.merge_of_not_newer hsame (UInt64.not_lt.mp hnewer)]
      exact h

/-- Nor does sending it. -/
theorem Genuine.decode (h : Genuine names past e) (hsize : e.acks.size < 2 ^ 32)
    (hread : EmergencyEvent.decode e.encode = some other) : Genuine names past other := by
  obtain ⟨hid, hsource, htime, hacks⟩ := EmergencyEvent.decode_encode_cases hsize hread
  have hlookup : ∀ node : UInt32, other.acks[node]? = if node = 0 then none else e.acks[node]? :=
    fun node => hacks ▸ EmergencyEvent.getElem?_filter_ne_zero e.acks node
  have hkept : ∀ (node : UInt32) (flag : Bool), other.acks[node]? = some flag →
      e.acks[node]? = some flag := by
    intro node flag hnode
    rw [hlookup, Option.ite_none_left_eq_some] at hnode
    exact hnode.2
  refine ⟨?_, ?_, fun node hnode => ?_, fun node hnode => ?_, fun node hnode => ?_⟩
  · obtain ⟨known, hdeclared, hlisted⟩ := h.declared
    rw [hsource, htime]
    refine ⟨known, hdeclared, fun peer hpeer hzero => ?_⟩
    have hmem := hlisted peer hpeer hzero
    rw [Std.ExtTreeMap.mem_iff_isSome_getElem?] at hmem ⊢
    rwa [hlookup, if_neg hzero]
  · rw [hsource, hlookup, if_neg hid.source_ne_zero]
    exact h.source
  · rw [hsource, htime]
    exact h.acked node (hkept node true hnode)
  · rw [hsource, htime]
    exact h.pending node (hkept node false hnode)
  · rw [hacks] at hnode
    exact h.named node (Std.ExtTreeMap.mem_of_mem_filter hnode)

end Genuine

/-! ## One step -/

/-- Every emergency in the fleet is genuine, in the nodes and in what was built. -/
structure Honest (names : Finset NodeId) (past : List Deed) (s : F.State) : Prop where
  wellFormed : WellFormed s
  held : ∀ i, ∀ e, (s.node i).emergency = some e → Genuine names past e
  built : ∀ data ∈ s.documents, ∀ received, PeatDocument.decode data = some received →
    ∀ e, received.emergency = some e → Genuine names past e

/-- The nodes that can turn up in an event. Its section has a sixteen-bit length. -/
structure Names (F : Fleet) (names : Finset NodeId) : Prop where
  members : F.members ⊆ names
  fits : names.card * 5 + 16 < 65536

/-- Nobody declares an emergency for nodes that are not known in the fleet. -/
def Declarable (names : Finset NodeId) : F.Action → Prop
  | .mutate _ (.startEmergency _ knownPeers) => ∀ peer ∈ knownPeers, peer ∈ names
  | _ => True

section Step

variable {names : Finset NodeId} {past : List Deed} {s : F.State}

theorem honest_start (F : Fleet) (names : Finset NodeId) : Honest names [] F.start where
  wellFormed := wellFormed_start F
  held _ _ he := by cases he
  built _ hdata := absurd hdata List.not_mem_nil

theorem Honest.append (h : Honest names past s) (more : List Deed) :
    Honest names (past ++ more) s where
  wellFormed := h.wellFormed
  held i e he := (h.held i e he).append more
  built data hdata received hdecode e he := (h.built data hdata received hdecode e he).append more

theorem Honest.update (h : Honest names past s) (i : F.Member) {node : DocumentSync}
    (hwell : WellFormed (s.update i node))
    (hnode : ∀ e, node.emergency = some e → Genuine names past e) :
    Honest names past (s.update i node) where
  wellFormed := hwell
  held j e he := by
    by_cases hj : j = i
    · subst hj
      rw [node_update_self] at he
      exact hnode e he
    · rw [node_update_of_ne s hj] at he
      exact h.held j e he
  built := h.built

theorem Honest.mutate (hnames : F.Names names) (h : Honest names past s) (i : F.Member)
    {mutation : DocumentSync.Mutation} (hgood : Declarable names (.mutate i mutation)) :
    Honest names (past ++ (deed s (.mutate i mutation)).toList) (step s (.mutate i mutation)) := by
  refine (h.append _).update i (h.wellFormed.mutate i mutation) fun e he => ?_
  rw [DocumentSync.emergency_mutate, h.wellFormed.nodeId_eq] at he
  cases mutation with
  | startEmergency timestamp known =>
      obtain rfl := Option.some.inj he
      exact genuine_new (hnames.members i.2) hgood
  | ackEmergency timestamp =>
      obtain ⟨before, hbefore, rfl⟩ := Option.map_eq_some_iff.mp he
      rw [deed, hbefore]
      exact (h.held i before hbefore).ack (hnames.members i.2)
  | clearEmergency => cases he
  | _ => exact (h.held i e he).append _

/-- Others read of a node's emergency what is left of it after encoding. -/
theorem Honest.emergency_built (hnames : F.Names names) (h : Honest names past s) (i : F.Member)
    {received : PeatDocument}
    (hdecode : PeatDocument.decode (s.node i).buildDocument = some received) :
    received.emergency = (s.node i).emergency.bind fun e => EmergencyEvent.decode e.encode := by
  have hroom : (s.node i).counter.counts.size ≤ maxCounterEntries :=
    (size_le_card (h.wellFormed.member_of_mem i)).trans F.card_le
  have hsections := @PeatDocument.parseSections_sections (s.node i).toDocument fun e he => by
    rw [EmergencyEvent.encode_length, Nat.add_comm]
    have hle := size_le_card (h.held i e he).named
    have hfits := hnames.fits
    omega
  rw [DocumentSync.buildDocument, PeatDocument.decode_encode_sections hroom, hsections] at hdecode
  obtain rfl := Option.some.inj hdecode
  rfl

/-- What others read of it is as genuine as what the node holds. -/
theorem Honest.build (hnames : F.Names names) (h : Honest names past s) (i : F.Member)
    {received : PeatDocument}
    (hdecode : PeatDocument.decode (s.node i).buildDocument = some received) {e : EmergencyEvent}
    (he : received.emergency = some e) : Genuine names past e := by
  rw [h.emergency_built hnames i hdecode] at he
  obtain ⟨own, hown, hread⟩ := Option.bind_eq_some_iff.mp he
  have hle := size_le_card (h.held i own hown).named
  have hfits := hnames.fits
  exact (h.held i own hown).decode (by omega) hread

theorem Honest.deliver (h : Honest names past s) (i : F.Member) {data : Bytes}
    (hdata : data ∈ s.documents) :
    Honest names past (s.update i ((s.node i).mergeDocument data).1) := by
  refine h.update i (h.wellFormed.deliver i hdata) fun e he => ?_
  rw [DocumentSync.mergeDocument_eq] at he
  cases haccepts : (s.node i).accepts data with
  | none =>
      rw [haccepts] at he
      exact h.held i e he
  | some received =>
      obtain ⟨other, hdecode, hother⟩ := Option.bind_eq_some_iff.mp haccepts
      split at hother
      · cases hother
      obtain rfl := Option.some.inj hother
      rw [haccepts] at he
      dsimp only at he
      rw [DocumentSync.emergency_mergeReceived] at he
      unfold PeatDocument.mergeEmergency at he
      cases htheirs : other.emergency with
      | none =>
          rw [htheirs] at he
          exact h.held i e he
      | some theirs =>
          have hgenuine := h.built data hdata other hdecode theirs htheirs
          rw [htheirs] at he
          cases hours : (s.node i).emergency with
          | none =>
              rw [hours] at he
              obtain rfl := Option.some.inj he
              exact hgenuine
          | some ours =>
              rw [hours] at he
              obtain rfl := Option.some.inj he
              exact (h.held i ours hours).merge hgenuine

theorem Honest.step (hnames : F.Names names) (h : Honest names past s) {action : F.Action}
    (hgood : Declarable names action) :
    Honest names (past ++ (deed s action).toList) (step s action) := by
  cases action with
  | mutate i mutation => exact h.mutate hnames i hgood
  | build i =>
      show Honest names (past ++ []) (Fleet.step s (.build i))
      rw [List.append_nil]
      refine ⟨(h.wellFormed.step (.build i)).1, h.held, ?_⟩
      intro data hdata received hdecode e he
      rcases List.mem_append.mp hdata with hold | hnew
      · exact h.built data hold received hdecode e he
      · rw [List.mem_singleton.mp hnew] at hdecode
        exact h.build hnames i hdecode he
  | deliver i k =>
      show Honest names (past ++ []) (Fleet.step s (.deliver i k))
      rw [List.append_nil]
      unfold Fleet.step
      dsimp only
      cases hk : s.documents[k]? with
      | none => exact h
      | some data => exact h.deliver i (List.mem_of_getElem? hk)

end Step

/-! ## Runs -/

theorem honest_after {names : Finset NodeId} (hnames : F.Names names) {actions : List F.Action}
    (hgood : ∀ action ∈ actions, Declarable names action) :
    Honest names (LoggedRun.log Fleet.step deed F.start actions) (F.after actions) :=
  LoggedRun.invariant (honest_start F names) fun _ _ _ haction h => h.step hnames (hgood _ haction)

/-- At some point of the run the source declared the emergency for these peers. -/
def Declares (F : Fleet) (actions : List F.Action) (e : EmergencyEvent) (knownPeers : List UInt32) :
    Prop :=
  ∃ (front back : List F.Action) (i : F.Member), i.1 = e.sourceNode ∧
    actions = front ++ .mutate i (.startEmergency e.timestamp knownPeers) :: back

/-- At some point of the run the node acknowledged the emergency, which it held. -/
def Acknowledges (F : Fleet) (actions : List F.Action) (e : EmergencyEvent) (node : NodeId) :
    Prop :=
  ∃ (front back : List F.Action) (i : F.Member) (timestamp : UInt64) (held : EmergencyEvent),
    i.1 = node ∧ actions = front ++ .mutate i (.ackEmergency timestamp) :: back ∧
      ((F.after front).node i).emergency = some held ∧ held.SameEvent e

theorem declares_of_deed {actions : List F.Action} {e : EmergencyEvent} {known : List UInt32}
    (h : Deed.declared e.sourceNode e.timestamp known ∈
      LoggedRun.log Fleet.step deed F.start actions) : F.Declares actions e known := by
  obtain ⟨front, action, back, rfl, hdeed⟩ := LoggedRun.mem_log h
  unfold deed at hdeed
  split at hdeed
  · rename_i i timestamp knownPeers
    obtain ⟨hsource, rfl, rfl⟩ := Deed.declared.inj (Option.some.inj hdeed)
    exact ⟨front, back, i, hsource, rfl⟩
  · simp at hdeed
  · cases hdeed

theorem acknowledges_of_deed {actions : List F.Action} {e : EmergencyEvent} {node : NodeId}
    (h : Deed.acked node e.sourceNode e.timestamp ∈
      LoggedRun.log Fleet.step deed F.start actions) : F.Acknowledges actions e node := by
  obtain ⟨front, action, back, rfl, hdeed⟩ := LoggedRun.mem_log h
  unfold deed at hdeed
  split at hdeed
  · cases hdeed
  · rename_i i timestamp
    obtain ⟨held, hheld, heq⟩ := Option.map_eq_some_iff.mp hdeed
    obtain ⟨hnode, hsource, htime⟩ := Deed.acked.inj heq
    exact ⟨front, back, i, timestamp, held, hnode, rfl, hheld, hsource, htime⟩
  · cases hdeed

/-- A declares an emergency, B hears of it and acknowledges, and A hears that. -/
def rescue : List pair.Action :=
  [.mutate first (.startEmergency minValidTimestamp [2]), .build first,
    .deliver second 0, .mutate second (.ackEmergency minValidTimestamp), .build second,
    .deliver first 1]

end Fleet

end PeatBtle
