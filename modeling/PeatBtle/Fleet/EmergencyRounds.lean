import PeatBtle.Fleet.Emergencies
import PeatBtle.Fleet.Rounds

/-!
# Emergencies over rounds

An emergency that nobody clears reaches every node, unless a later one has taken its
place, and with it everybody learns who has acknowledged it. Of two emergencies with one
timestamp each node keeps the first that it hears of, so no two nodes may declare at the
same time.
-/

namespace PeatBtle

open Wire MapMerge

namespace EmergencyEvent

variable {e later other : EmergencyEvent}

/-- What others can read of an event. -/
def told (e : EmergencyEvent) : EmergencyEvent :=
  { e with acks := e.acks.filter fun node _ => node != 0 }

theorem getElem?_told (e : EmergencyEvent) (node : UInt32) :
    e.told.acks[node]? = if node = 0 then none else e.acks[node]? := getElem?_filter_ne_zero ..

theorem told_told (e : EmergencyEvent) : e.told.told = e.told := by
  refine EmergencyEvent.ext rfl rfl (Std.ExtTreeMap.ext_getElem? fun node => ?_)
  rw [getElem?_told]
  by_cases hzero : node = 0
  · rw [if_pos hzero, getElem?_told, if_pos hzero]
  · rw [if_neg hzero]

theorem told_succeeds (h : later.Succeeds e) : later.told.Succeeds e.told := by
  rcases h with hnewer | ⟨hsame, hextends⟩
  · exact Or.inl hnewer
  · refine Or.inr ⟨hsame, fun node flag hflag => ?_⟩
    rw [getElem?_told, Option.ite_none_left_eq_some] at hflag
    rw [getElem?_told, if_neg hflag.1]
    exact hextends node flag hflag.2

/-- Of incidents that are not mistaken for each other, a merge keeps what is heard. -/
theorem succeeds_merge_right (h : e.timestamp = other.timestamp → e.sourceNode = other.sourceNode) :
    (e.merge other).1.Succeeds other := by
  by_cases hsame : e.SameEvent other
  · rw [merge_of_sameEvent hsame]
    refine Or.inr ⟨⟨hsame.1.symm, hsame.2.symm⟩, fun node flag hflag => ?_⟩
    show ∃ now, (mergeWith false or e.acks other.acks)[node]? = some now ∧ _
    rw [getElem?_mergeWith, hflag]
    exact ⟨_, rfl, fun htrue => by rw [htrue, Bool.or_true]⟩
  · by_cases hnewer : e.timestamp < other.timestamp
    · rw [merge_of_newer hnewer]
      exact Succeeds.refl other
    · have hle := UInt64.not_lt.mp hnewer
      have hne : other.timestamp ≠ e.timestamp := fun heq => hsame ⟨h heq.symm, heq.symm⟩
      rw [merge_of_not_newer hsame hle]
      exact Or.inl (UInt64.lt_of_le_of_ne hle hne)

theorem Succeeds.of_told (h : later.told.Succeeds e.told) :
    e.timestamp < later.timestamp ∨ e.SameEvent later ∧ ∀ peer, peer ≠ 0 →
      (peer ∈ e.acks → peer ∈ later.acks) ∧
        (e.hasAcked peer = true → later.hasAcked peer = true) := by
  refine h.imp id fun ⟨hsame, hextends⟩ => ⟨hsame, fun peer hpeer => ?_⟩
  have hkept : ∀ flag, e.acks[peer]? = some flag →
      ∃ now, later.acks[peer]? = some now ∧ (flag = true → now = true) := by
    intro flag hflag
    obtain ⟨now, hnow, htrue⟩ := hextends peer flag (by rwa [getElem?_told, if_neg hpeer])
    rw [getElem?_told, if_neg hpeer] at hnow
    exact ⟨now, hnow, htrue⟩
  constructor
  · intro hmem
    obtain ⟨flag, hflag⟩ := Option.isSome_iff_exists.mp
      (Std.ExtTreeMap.mem_iff_isSome_getElem?.mp hmem)
    obtain ⟨now, hnow, -⟩ := hkept flag hflag
    exact Std.ExtTreeMap.mem_iff_isSome_getElem?.mpr (hnow ▸ rfl)
  · intro hacked
    obtain ⟨now, hnow, htrue⟩ := hkept true (getElem?_of_hasAcked hacked)
    rw [hasAcked, hnow]
    exact htrue rfl

theorem allAcked_of_hasAcked {node : UInt32} (hnode : node ∈ e.acks)
    (hall : ∀ peer ∈ e.acks, e.hasAcked peer = true) : e.allAcked = true := by
  rw [allAcked, Bool.and_eq_true, List.all_eq_true, Bool.not_eq_true']
  constructor
  · exact Std.ExtTreeMap.isEmpty_eq_false_iff.mpr fun hempty =>
      Std.ExtTreeMap.not_mem_empty (hempty ▸ hnode)
  · rintro ⟨peer, flag⟩ hentry
    have hflag := Std.ExtTreeMap.mem_toList_iff_getElem?_eq_some.mp hentry
    have hacked := hall peer (Std.ExtTreeMap.mem_iff_isSome_getElem?.mpr (hflag ▸ rfl))
    exact Option.some.inj (hflag.symm.trans (getElem?_of_hasAcked hacked))

end EmergencyEvent

namespace DocumentSync

/-- What can be told of the one's emergency the other knows, or there is a later one. -/
def Informed (s later : DocumentSync) : Prop :=
  ∀ e, s.emergency = some e → e.Identified →
    ∃ now, later.emergency = some now ∧ now.Identified ∧ now.told.Succeeds e.told

instance : IsPreorder DocumentSync Informed where
  refl _ e he hid := ⟨e, he, hid, EmergencyEvent.Succeeds.refl e.told⟩
  trans _ _ _ hab hbc e he hid := by
    obtain ⟨middle, hmiddle, hid', hsucceeds⟩ := hab e he hid
    obtain ⟨now, hnow, hid'', hsucceeds'⟩ := hbc middle hmiddle hid'
    exact ⟨now, hnow, hid'', hsucceeds'.trans hsucceeds⟩

end DocumentSync

namespace Fleet

variable {F : Fleet}

/-- Nobody gives up an emergency for none or for one that is not later. -/
def Steady (s : F.State) : F.Action → Prop
  | .mutate i .clearEmergency => (s.node i).emergency = none
  | .mutate i (.startEmergency timestamp _) =>
      ∀ e, (s.node i).emergency = some e → e.timestamp < timestamp
  | _ => True

/-- No two nodes declare an emergency at the same time. -/
def Distinct (actions : List F.Action) : Prop :=
  ∀ i j timestamp known known', .mutate i (.startEmergency timestamp known) ∈ actions →
    .mutate j (.startEmergency timestamp known') ∈ actions → i = j

theorem keepsEmergency_mutate {s : F.State} {i : F.Member} {mutation : DocumentSync.Mutation}
    (hsteady : Steady s (.mutate i mutation)) :
    DocumentSync.KeepsEmergency (s.node i) ((s.node i).mutate mutation) := by
  intro e he
  rw [DocumentSync.emergency_mutate]
  cases mutation with
  | startEmergency timestamp known => exact ⟨_, rfl, Or.inl (hsteady e he)⟩
  | ackEmergency timestamp =>
      rw [he]
      exact ⟨_, rfl, e.succeeds_ack _⟩
  | clearEmergency =>
      rw [show (s.node i).emergency = none from hsteady] at he
      cases he
  | _ => exact ⟨e, he, EmergencyEvent.Succeeds.refl e⟩

theorem keepsEmergency_step {s : F.State} {action : F.Action} (hsteady : Steady s action)
    (i : F.Member) : DocumentSync.KeepsEmergency (s.node i) ((step s action).node i) := by
  have hupdate : ∀ (j : F.Member) (node : DocumentSync),
      DocumentSync.KeepsEmergency (s.node j) node →
        DocumentSync.KeepsEmergency (s.node i) ((s.update j node).node i) := by
    intro j node hkeeps
    by_cases hij : i = j
    · rw [hij, node_update_self]
      exact hkeeps
    · rw [node_update_of_ne s hij]
      exact DocumentSync.KeepsEmergency.refl _
  cases action with
  | mutate j mutation => exact hupdate j _ (keepsEmergency_mutate hsteady)
  | build j => exact DocumentSync.KeepsEmergency.refl _
  | deliver j k =>
      unfold step
      dsimp only
      split
      · exact DocumentSync.KeepsEmergency.refl _
      · exact hupdate j _ ((s.node j).keepsEmergency_merge _)

theorem keepsEmergency_run {s : F.State} {actions : List F.Action}
    (hsteady : LoggedRun.Along step Steady s actions) (i : F.Member) :
    DocumentSync.KeepsEmergency (s.node i) ((LoggedRun.run step s actions).node i) := by
  induction actions generalizing s with
  | nil => exact DocumentSync.KeepsEmergency.refl _
  | cons action actions ih => exact (keepsEmergency_step hsteady.1 i).trans (ih hsteady.2)

section Reachable

variable {names : Finset NodeId} {past : List F.Action}

theorem exists_declaration (hnames : F.Names names)
    (hgood : ∀ action ∈ past, Declarable names action) {i : F.Member} {e : EmergencyEvent}
    (he : ((F.after past).node i).emergency = some e) :
    ∃ (source : F.Member) (known : List UInt32), source.1 = e.sourceNode ∧
      .mutate source (.startEmergency e.timestamp known) ∈ past := by
  obtain ⟨known, hdeclared, -⟩ := ((honest_after hnames hgood).held i e he).declared
  obtain ⟨front, back, source, hsource, rfl⟩ := declares_of_deed hdeclared
  exact ⟨source, known, hsource, List.mem_append_right _ (List.mem_cons_self ..)⟩

theorem source_ne_zero (hnames : F.Names names)
    (hgood : ∀ action ∈ past, Declarable names action) {i : F.Member} {e : EmergencyEvent}
    (he : ((F.after past).node i).emergency = some e) : e.sourceNode ≠ 0 := by
  obtain ⟨source, -, hsource, -⟩ := exists_declaration hnames hgood he
  rw [← hsource]
  exact fun hzero => F.zero_not_mem (hzero ▸ source.2)

/-- What a node could tell it still knows at the end of a steady run. -/
theorem informed_append (hnames : F.Names names) {more : List F.Action}
    (hgood : ∀ action ∈ past ++ more, Declarable names action)
    (hsteady : LoggedRun.Along step Steady (F.after past) more) (i : F.Member) :
    DocumentSync.Informed ((F.after past).node i) ((F.after (past ++ more)).node i) := by
  intro e he hid
  rw [after_append]
  obtain ⟨now, hnow, hsucceeds⟩ := keepsEmergency_run hsteady i e he
  refine ⟨now, hnow, ⟨?_, ?_⟩, EmergencyEvent.told_succeeds hsucceeds⟩
  · rw [← after_append] at hnow
    exact source_ne_zero hnames hgood hnow
  · exact UInt64.le_trans hid.timestamp_ge hsucceeds.timestamp_le

/-- Once a document has been heard, its author's emergency is known, or a later one. -/
theorem informed_after_deliver (hnames : F.Names names) (hcard : names.card ≤ maxEmergencyAcks)
    {between : List F.Action} {i j : F.Member} (hij : i ≠ j)
    (hgood : ∀ action ∈ past ++ .build i :: between ++
      [.deliver j (F.after past).documents.length], Declarable names action)
    (hdistinct : Distinct (past ++ .build i :: between ++
      [.deliver j (F.after past).documents.length])) :
    DocumentSync.Informed ((F.after past).node i) ((F.after (past ++ .build i :: between ++
      [.deliver j (F.after past).documents.length])).node j) := by
  intro e he hid
  obtain ⟨received, hdecode, -, hnode⟩ := F.node_after_deliver past between hij
  have hmiddle : past ++ .build i :: between <+: past ++ .build i :: between ++
      [.deliver j (F.after past).documents.length] := List.prefix_append _ _
  have hpast : past <+: past ++ .build i :: between ++
      [.deliver j (F.after past).documents.length] := (List.prefix_append _ _).trans hmiddle
  have hhonest := honest_after hnames fun action haction => hgood action (hpast.mem haction)
  have hsent : received.emergency = some e.told := by
    have hread := EmergencyEvent.decode_encode hid
      ((size_le_card (hhonest.held i e he).named).trans hcard) []
    rw [List.append_nil] at hread
    rw [hhonest.emergency_built hnames i hdecode, he]
    exact hread
  -- two incidents of one time are the same incident
  have hsource : ∀ own, ((F.after (past ++ .build i :: between)).node j).emergency = some own →
      own.timestamp = e.timestamp → own.sourceNode = e.sourceNode := by
    intro own hown htime
    obtain ⟨source, known, hs, hdeclared⟩ := exists_declaration hnames
      (fun action haction => hgood action (hmiddle.mem haction)) hown
    obtain ⟨source', known', hs', hdeclared'⟩ := exists_declaration hnames
      (fun action haction => hgood action (hpast.mem haction)) he
    rw [htime] at hdeclared
    rw [← hs, ← hs']
    exact congrArg Subtype.val (hdistinct source source' e.timestamp known known'
      (hmiddle.mem hdeclared) (hpast.mem hdeclared'))
  obtain ⟨now, hnow, hsucceeds⟩ : ∃ now, ((F.after (past ++ .build i :: between ++
      [.deliver j (F.after past).documents.length])).node j).emergency = some now ∧
        now.Succeeds e.told := by
    rw [hnode, DocumentSync.emergency_mergeReceived, hsent]
    cases hown : ((F.after (past ++ .build i :: between)).node j).emergency with
    | none => exact ⟨e.told, rfl, EmergencyEvent.Succeeds.refl _⟩
    | some own => exact ⟨_, rfl, EmergencyEvent.succeeds_merge_right (hsource own hown)⟩
  have htold := EmergencyEvent.told_succeeds hsucceeds
  rw [EmergencyEvent.told_told] at htold
  exact ⟨now, hnow, ⟨source_ne_zero hnames hgood hnow,
    UInt64.le_trans hid.timestamp_ge hsucceeds.timestamp_le⟩, htold⟩

end Reachable

theorem zero_not_acked {names : Finset NodeId} (hnames : F.Names names) {actions : List F.Action}
    (hgood : ∀ action ∈ actions, Declarable names action) {i : F.Member} {e : EmergencyEvent}
    (he : ((F.after actions).node i).emergency = some e) : ¬ e.hasAcked 0 = true := by
  intro hacked
  rcases ((honest_after hnames hgood).held i e he).acked 0
    (EmergencyEvent.getElem?_of_hasAcked hacked) with hsource | hdeed
  · exact source_ne_zero hnames hgood he hsource.symm
  · obtain ⟨front, back, node, timestamp, held, hnode, -⟩ := acknowledges_of_deed hdeed
    exact F.zero_not_mem (hnode ▸ node.2)

/-- Every peer that was listed for the emergency has acknowledged it as far as somebody knows. The
source needs no list. -/
def AckedByAll (F : Fleet) (front actions : List F.Action) (e : EmergencyEvent) : Prop :=
  ∀ known, F.Declares actions e known → ∀ peer ∈ known, peer ≠ e.sourceNode →
    ∃ i own, ((F.after front).node i).emergency = some own ∧ e.SameEvent own ∧
      own.hasAcked peer = true

/-- Who has heard of the acknowledgements of all peers that were listed finds that all have
acknowledged. -/
theorem finds_all_acked {names : Finset NodeId} (hnames : F.Names names)
    {actions : List F.Action} (hgood : ∀ action ∈ actions, Declarable names action)
    {j : F.Member} {now : EmergencyEvent} (hnow : ((F.after actions).node j).emergency = some now)
    (hpeers : ∀ known, F.Declares actions now known → ∀ peer ∈ known, peer ≠ now.sourceNode →
      now.hasAcked peer = true) :
    ((F.after actions).node j).allPeersAcked = true := by
  have hgenuine := (honest_after hnames hgood).held j now hnow
  rw [DocumentSync.allPeersAcked, hnow]
  refine EmergencyEvent.allAcked_of_hasAcked (mem_of_getElem? hgenuine.source) fun peer hmem => ?_
  obtain ⟨flag, hflag⟩ := Option.isSome_iff_exists.mp
    (Std.ExtTreeMap.mem_iff_isSome_getElem?.mp hmem)
  cases flag with
  | true => rw [EmergencyEvent.hasAcked, hflag, Option.getD_some]
  | false =>
      obtain ⟨known, hdeclared, hlisted⟩ := hgenuine.pending peer hflag
      refine hpeers known (declares_of_deed hdeclared) peer hlisted ?_
      rintro rfl
      rw [hgenuine.source] at hflag
      cases hflag

/-- After the rounds everybody knows the emergency that anybody could tell, or a later one, and has
heard of every acknowledgement that could be told. -/
theorem told_emergencies {G : SimpleGraph F.Member} (hconnected : G.Connected)
    {names : Finset NodeId} (hmembers : F.members ⊆ names) (hcard : names.card ≤ maxEmergencyAcks)
    {front : List F.Action} {rounds : List (List F.Action)}
    (hrounds : ∀ (m : Nat) (hm : m < rounds.length), ∀ i j, G.Adj i j →
      Exchanges (front ++ (rounds.take m).flatten) rounds[m] i j)
    (hwide : ∀ i j, G.dist i j ≤ rounds.length)
    (hgood : ∀ action ∈ front ++ rounds.flatten, Declarable names action)
    (hdistinct : Distinct (front ++ rounds.flatten))
    (hsteady : LoggedRun.Along step Steady (F.after front) rounds.flatten) {i j : F.Member}
    {e : EmergencyEvent} (he : ((F.after front).node i).emergency = some e)
    (htime : minValidTimestamp ≤ e.timestamp) :
    ∃ now, ((F.after (front ++ rounds.flatten)).node j).emergency = some now ∧
      now.told.Succeeds e.told := by
  have hnames : F.Names names := ⟨hmembers, by unfold maxEmergencyAcks at hcard; omega⟩
  have hinformed : DocumentSync.Informed ((F.after front).node i)
      ((F.after (front ++ rounds.flatten)).node j) := by
    refine @told_after_rounds F DocumentSync DocumentSync.Informed _ (fun s => s.node) G hconnected
      front rounds hrounds hwide ?_ ?_ i j
    · rintro past more ⟨back, rfl⟩ hwhole i
      have hgood' : ∀ action ∈ front ++ back ++ more, Declarable names action :=
        fun action haction => hgood action (hwhole.mem haction)
      refine informed_append hnames hgood' ?_ i
      rw [List.append_assoc] at hwhole
      rw [after_append]
      exact (LoggedRun.along_append.mp
        (LoggedRun.along_of_prefix hsteady ((List.prefix_append_right_inj front).mp hwhole))).2
    · intro before between i j hij _ hwhole
      refine informed_after_deliver hnames hcard hij ?_ ?_
      · exact fun action haction => hgood action (hwhole.mem haction)
      · exact fun i j timestamp known known' hi hj =>
          hdistinct i j timestamp known known' (hwhole.mem hi) (hwhole.mem hj)
  have hsource : e.sourceNode ≠ 0 :=
    source_ne_zero hnames (fun action haction => hgood action (List.mem_append_left _ haction)) he
  obtain ⟨now, hnow, -, htold⟩ := hinformed e he ⟨hsource, htime⟩
  exact ⟨now, hnow, htold⟩

/-- A declares an emergency, and B hears of it and acknowledges. -/
def alarm : List pair.Action :=
  [.mutate first (.startEmergency minValidTimestamp [2]), .build first, .deliver second 0,
    .mutate second (.ackEmergency minValidTimestamp)]

end Fleet

end PeatBtle
