import Mathlib.Order.Lattice.Nat
import PeatBtle.Data.Gossip
import PeatBtle.Data.LoggedRun
import PeatBtle.DocumentSync

/-!
# Counters in a fleet

Any number of nodes that fit one counter, each with local changes of its own.
Documents stay around once built: they are delivered in any order, more than
once or not at all. What nodes know of each other's activity is a gossip table.
-/

namespace PeatBtle

open Wire MapMerge

namespace DocumentSync

/-- Whether a local change counts as activity. -/
def increments (s : DocumentSync) : Mutation → Bool
  | .sendEmergency _ | .sendAck _ | .incrementCounter | .startEmergency _ _ => true
  | .ackEmergency _ => s.emergency.any fun e => (e.ack s.nodeId).2
  | _ => false

theorem counter_mutate (s : DocumentSync) (mutation : Mutation) :
    (s.mutate mutation).counter =
      if s.increments mutation then s.counter.increment s.nodeId 1 else s.counter := by
  obtain ⟨nodeId, counter, peripheral, emergency, version⟩ := s
  cases mutation with
  | ackEmergency timestamp =>
      cases emergency with
      | none => rfl
      | some e =>
          simp only [mutate, ackEmergency, increments, Option.any]
          by_cases hnew : (e.ack nodeId).2 = true
          · simp only [hnew, if_true]
            rfl
          · simp only [hnew, Bool.false_eq_true, if_false]
  | clearEmergency => cases emergency <;> rfl
  | _ => rfl

end DocumentSync

/-- Distinct nodes that a counter has room for. -/
structure Fleet where
  members : Finset NodeId
  zero_not_mem : 0 ∉ members
  card_le : members.card ≤ maxCounterEntries
  callsign : NodeId → String
  kind : NodeId → PeripheralType

namespace Fleet

abbrev Member (F : Fleet) := { node : NodeId // node ∈ F.members }

structure State (F : Fleet) where
  node : F.Member → DocumentSync
  documents : List Bytes

inductive Action (F : Fleet) where
  | mutate (i : F.Member) (mutation : DocumentSync.Mutation)
  | build (i : F.Member)
  | deliver (i : F.Member) (k : Nat)

variable {F : Fleet}

def start (F : Fleet) : F.State where
  node i := .withPeripheralType i (F.callsign i) (F.kind i)
  documents := []

def State.update (s : F.State) (i : F.Member) (node : DocumentSync) : F.State :=
  { s with node := Function.update s.node i node }

@[simp] theorem node_update_self (s : F.State) (i : F.Member) (node : DocumentSync) :
    (s.update i node).node i = node := Function.update_self ..

theorem node_update_of_ne (s : F.State) {i j : F.Member} (h : j ≠ i) (node : DocumentSync) :
    (s.update i node).node j = s.node j := Function.update_of_ne h ..

/-- A delivery picks any document built so far. -/
def step (s : F.State) : F.Action → F.State
  | .mutate i mutation => s.update i ((s.node i).mutate mutation)
  | .build i => { s with documents := s.documents ++ [(s.node i).buildDocument] }
  | .deliver i k =>
      match s.documents[k]? with
      | none => s
      | some data => s.update i ((s.node i).mergeDocument data).1

/-- Increments, by the node that performs them. -/
def incremented (s : F.State) : F.Action → Option F.Member
  | .mutate i mutation => if (s.node i).increments mutation then some i else none
  | _ => none

def after (F : Fleet) (actions : List F.Action) : F.State :=
  LoggedRun.run step F.start actions

/-- How many increments a node performed in a run. -/
def performed (F : Fleet) (actions : List F.Action) (i : F.Member) : Nat :=
  (LoggedRun.log step incremented F.start actions).count i

/-! ## The gossip table -/

def row (F : Fleet) (data : Bytes) (j : F.Member) : Nat :=
  (PeatDocument.decode data).elim 0 fun received => (received.counter.nodeCount j).toNat

def State.view (s : F.State) : Gossip F.Member Nat where
  table i j := ((s.node i).counter.nodeCount j).toNat
  published := s.documents.map F.row

/-- Counters name only members, in the nodes and in what was built. -/
structure WellFormed (s : F.State) : Prop where
  nodeId_eq : ∀ i, (s.node i).nodeId = i
  member_of_mem : ∀ i, ∀ k ∈ (s.node i).counter.counts, k ∈ F.members
  member_of_document : ∀ data ∈ s.documents, ∀ received, PeatDocument.decode data = some received →
    ∀ k ∈ received.counter.counts, k ∈ F.members

/-- Every node's document carries its counter. -/
theorem WellFormed.decode_built {s : F.State} (h : WellFormed s) (i : F.Member) :
    ∃ received, PeatDocument.decode (s.node i).buildDocument = some received ∧
      received.nodeId = i ∧ received.counter = (s.node i).counter := by
  have hzero : 0 ∉ (s.node i).counter.counts := fun hmem =>
    F.zero_not_mem (h.member_of_mem i 0 hmem)
  obtain ⟨received, hdecode, hnode, hcounter⟩ :=
    PeatDocument.exists_decode_encode (d := (s.node i).toDocument)
      ((size_le_card (h.member_of_mem i)).trans F.card_le) hzero
  exact ⟨received, hdecode, hnode.trans (h.nodeId_eq i), hcounter⟩

/-- The row of a document that has just been built is its author's row. -/
theorem WellFormed.row_built {s : F.State} (h : WellFormed s) (i : F.Member) :
    F.row (s.node i).buildDocument = s.view.table i := by
  obtain ⟨received, hdecode, -, hcounter⟩ := h.decode_built i
  funext j
  rw [row, hdecode, Option.elim, hcounter]
  rfl

theorem wellFormed_start (F : Fleet) : WellFormed F.start where
  nodeId_eq _ := rfl
  member_of_mem _ _ hk := absurd hk Std.ExtTreeMap.not_mem_empty
  member_of_document _ hdata := absurd hdata List.not_mem_nil

section Update

variable {s : F.State} (i : F.Member) {node : DocumentSync}

theorem WellFormed.update (h : WellFormed s) (hnode : node.nodeId = i)
    (hmembers : ∀ k ∈ node.counter.counts, k ∈ F.members) : WellFormed (s.update i node) := by
  refine ⟨fun j => ?_, fun j => ?_, h.member_of_document⟩
  · by_cases hj : j = i
    · subst hj
      rw [node_update_self]
      exact hnode
    · rw [node_update_of_ne s hj]
      exact h.nodeId_eq j
  · by_cases hj : j = i
    · subst hj
      rw [node_update_self]
      exact hmembers
    · rw [node_update_of_ne s hj]
      exact h.member_of_mem j

/-- Only one row of the table depends on a node. -/
theorem view_update (s : F.State) (node : DocumentSync) :
    (s.update i node).view =
      s.view.setRow i fun j => (node.counter.nodeCount j).toNat := by
  apply Gossip.ext
  · funext k j
    rw [Gossip.table_setRow]
    by_cases hk : k = i
    · subst hk
      simp [State.view]
    · simp [State.view, hk, node_update_of_ne]
  · rfl

theorem update_node (s : F.State) : s.update i (s.node i) = s := by
  rw [State.update, Function.update_eq_self]

end Update

/-! ## One step -/

theorem WellFormed.mutate {s : F.State} (h : WellFormed s) (i : F.Member)
    (mutation : DocumentSync.Mutation) :
    WellFormed (s.update i ((s.node i).mutate mutation)) := by
  refine h.update i (((s.node i).mutate_frame mutation).1.trans (h.nodeId_eq i)) ?_
  intro k hk
  rw [DocumentSync.counter_mutate] at hk
  split at hk
  · rw [GCounter.increment, mem_upsert, h.nodeId_eq] at hk
    rcases hk with rfl | hold
    · exact i.2
    · exact h.member_of_mem i k hold
  · exact h.member_of_mem i k hk

/-- A local change raises a node's own count or leaves the table alone. -/
theorem WellFormed.step_mutate {s : F.State} (h : WellFormed s) (i : F.Member)
    (mutation : DocumentSync.Mutation) :
    Gossip.Step s.view (s.update i ((s.node i).mutate mutation)).view := by
  rw [view_update, DocumentSync.counter_mutate, h.nodeId_eq]
  split
  · refine (congrArg (Gossip.Step s.view) (congrArg (s.view.setRow i) ?_)).mpr
      (Gossip.Step.raise s.view i (saturatingAdd ((s.node i).counter.nodeCount i) 1).toNat
        (UInt64.le_iff_toNat_le.mp (le_saturatingAdd _ _)))
    funext j
    rw [GCounter.nodeCount_increment]
    by_cases hj : j = i
    · subst hj
      rw [if_pos rfl, Function.update_self]
    · rw [if_neg (fun heq => hj (Subtype.ext heq.symm)), Function.update_of_ne hj]
      rfl
  · change Gossip.Step s.view (s.view.setRow i (s.view.table i))
    rw [Gossip.setRow_self]
    exact Gossip.Step.idle s.view

/-- What a delivered document does to a node: nothing, or its row is joined. -/
theorem mergeDocument_cases (s : DocumentSync) (data : Bytes) :
    (s.mergeDocument data).1 = s ∨
      ∃ received, PeatDocument.decode data = some received ∧
        (s.mergeDocument data).1.counter = s.counter.merge received.counter := by
  unfold DocumentSync.mergeDocument
  cases PeatDocument.decode data with
  | none => exact Or.inl rfl
  | some received =>
      dsimp only
      by_cases hown : received.nodeId = s.nodeId
      · rw [if_pos hown]
        exact Or.inl rfl
      · rw [if_neg hown]
        exact Or.inr ⟨received, rfl, s.counter_mergeReceived received⟩

theorem WellFormed.deliver {s : F.State} (h : WellFormed s) (i : F.Member) {data : Bytes}
    (hdata : data ∈ s.documents) :
    WellFormed (s.update i ((s.node i).mergeDocument data).1) := by
  refine h.update i (((s.node i).mergeDocument_frame data).1.trans (h.nodeId_eq i)) ?_
  intro k hk
  rcases mergeDocument_cases (s.node i) data with hsame | ⟨received, hdecode, hcounter⟩
  · rw [hsame] at hk
    exact h.member_of_mem i k hk
  · rw [hcounter, GCounter.merge, mem_mergeWith] at hk
    rcases hk with hold | hnew
    · exact h.member_of_mem i k hold
    · exact h.member_of_document data hdata received hdecode k hnew

theorem view_deliver (s : F.State) (i : F.Member) (data : Bytes) :
    (s.update i ((s.node i).mergeDocument data).1).view = s.view ∨
      (s.update i ((s.node i).mergeDocument data).1).view = s.view.hear i (F.row data) := by
  rcases mergeDocument_cases (s.node i) data with hsame | ⟨received, hdecode, hcounter⟩
  · rw [hsame, update_node]
    exact Or.inl rfl
  · refine Or.inr ?_
    rw [view_update, Gossip.hear]
    refine congrArg (s.view.setRow i) ?_
    funext j
    rw [hcounter, GCounter.toNat_nodeCount_merge]
    change _ = max _ (F.row data j)
    rw [row, hdecode]
    rfl

/-- The fleet refines gossip. -/
theorem WellFormed.step {s : F.State} (h : WellFormed s) (action : F.Action) :
    WellFormed (step s action) ∧ Gossip.Step s.view (Fleet.step s action).view := by
  cases action with
  | mutate i mutation => exact ⟨h.mutate i mutation, h.step_mutate i mutation⟩
  | build i =>
      obtain ⟨received, hdecode, -, hcounter⟩ := h.decode_built i
      constructor
      · refine ⟨h.nodeId_eq, h.member_of_mem, ?_⟩
        intro data hdata other hother
        rcases List.mem_append.mp hdata with hold | hnew
        · exact h.member_of_document data hold other hother
        · rw [List.mem_singleton.mp hnew, hdecode] at hother
          obtain rfl := Option.some.inj hother
          rw [hcounter]
          exact h.member_of_mem i
      · have hpublished : (Fleet.step s (.build i)).view = s.view.publish i := by
          apply Gossip.ext
          · rfl
          · rw [Gossip.publish, ← h.row_built i]
            exact List.map_append
        rw [hpublished]
        exact Gossip.Step.publish s.view i
  | deliver i k =>
      simp only [Fleet.step]
      cases hk : s.documents[k]? with
      | none => exact ⟨h, Gossip.Step.idle s.view⟩
      | some data =>
          have hdata := List.mem_of_getElem? hk
          refine ⟨h.deliver i hdata, ?_⟩
          rcases view_deliver s i data with hsame | hhear
          · rw [hsame]
            exact Gossip.Step.idle s.view
          · rw [hhear]
            exact Gossip.Step.hear s.view i _ (List.mem_map_of_mem hdata)

/-! ## Runs -/

/-- What holds of every node, with the increments performed so far. -/
structure Sound (past : List F.Member) (s : F.State) : Prop where
  wellFormed : WellFormed s
  grounded : s.view.Grounded
  counted : ∀ i, s.view.table i i = min (past.count i) (2 ^ 64 - 1)

theorem sound_start (F : Fleet) : Sound [] F.start where
  wellFormed := wellFormed_start F
  grounded := by
    refine ⟨fun i j => ?_, fun row hrow => absurd hrow List.not_mem_nil⟩
    change (GCounter.new.nodeCount j).toNat ≤ (GCounter.new.nodeCount j).toNat
    exact le_rfl
  counted i := by
    change (GCounter.new.nodeCount i).toNat = _
    rw [GCounter.nodeCount_new]
    rfl

/-- A node's own count moves only with its own increments. -/
theorem Sound.counted_step {past : List F.Member} {s : F.State} (h : Sound past s)
    (action : F.Action) (i : F.Member) :
    (step s action).view.table i i =
      min ((past ++ (incremented s action).toList).count i) (2 ^ 64 - 1) := by
  have hcounted := h.counted i
  rw [List.count_append]
  cases action with
  | build j =>
      simp only [incremented, Option.toList_none, List.count_nil, Nat.add_zero]
      exact hcounted
  | mutate j mutation =>
      rw [Fleet.step, view_update, Gossip.table_setRow, incremented, DocumentSync.counter_mutate,
        h.wellFormed.nodeId_eq]
      by_cases hj : i = j
      · subst hj
        change ((s.node i).counter.nodeCount i).toNat = _ at hcounted
        rw [if_pos rfl]
        split
        · rw [GCounter.nodeCount_increment, if_pos rfl, toNat_saturatingAdd, hcounted,
            Option.toList_some, List.count_singleton_self]
          change min (_ + 1) _ = _
          omega
        · rw [hcounted]
          rfl
      · rw [if_neg hj, hcounted]
        split
        · rw [Option.toList_some, List.count_singleton, if_neg (by simpa using Ne.symm hj)]
          rfl
        · rfl
  | deliver j k =>
      simp only [incremented, Option.toList_none, List.count_nil, Nat.add_zero]
      rw [← hcounted, Fleet.step]
      cases hk : s.documents[k]? with
      | none => rfl
      | some data =>
          have hrow := List.mem_map_of_mem (f := F.row) (List.mem_of_getElem? hk)
          dsimp only
          rcases view_deliver s j data with hsame | hhear
          · rw [hsame]
          · rw [hhear]
            exact h.grounded.hear_own hrow i

theorem Sound.step {past : List F.Member} {s : F.State} (h : Sound past s) (action : F.Action) :
    Sound (past ++ (incremented s action).toList) (step s action) where
  wellFormed := (h.wellFormed.step action).1
  grounded := (h.wellFormed.step action).2.grounded h.grounded
  counted := h.counted_step action

theorem sound_after (F : Fleet) (actions : List F.Action) :
    Sound (LoggedRun.log Fleet.step incremented F.start actions) (F.after actions) :=
  LoggedRun.invariant (sound_start F) fun _ _ action _ h => h.step action

theorem WellFormed.run_grows {s : F.State} (h : WellFormed s) (actions : List F.Action) :
    s.view.Grows (LoggedRun.run Fleet.step s actions).view := by
  induction actions generalizing s with
  | nil => exact Gossip.Grows.refl s.view
  | cons action actions ih =>
      obtain ⟨hkept, hstep⟩ := h.step action
      exact hstep.grows.trans (ih hkept)

theorem after_append (F : Fleet) (front back : List F.Action) :
    F.after (front ++ back) = LoggedRun.run Fleet.step (F.after front) back :=
  LoggedRun.run_append ..

theorem grows_append (F : Fleet) (front back : List F.Action) :
    (F.after front).view.Grows (F.after (front ++ back)).view := by
  rw [after_append]
  exact (F.sound_after front).wellFormed.run_grows back

/-- A document that a node built stays in its place. -/
theorem document_kept (F : Fleet) (before : List F.Action) (j : F.Member)
    (between : List F.Action) :
    (F.after (before ++ .build j :: between)).documents[(F.after before).documents.length]? =
      some ((F.after before).node j).buildDocument := by
  have hstep : ∀ (s : F.State) (action : F.Action),
      s.documents <+: (step s action).documents := by
    intro s action
    cases action with
    | mutate i mutation => exact List.prefix_refl _
    | build i => exact List.prefix_append _ _
    | deliver i k =>
        unfold step
        dsimp only
        split
        · exact List.prefix_refl _
        · exact List.prefix_refl _
  have hrun : ∀ (actions : List F.Action) (s : F.State),
      s.documents <+: (LoggedRun.run step s actions).documents := by
    intro actions
    induction actions with
    | nil => exact fun s => List.prefix_refl _
    | cons action actions ih => exact fun s => (hstep s action).trans (ih (step s action))
  rw [after_append, LoggedRun.run_cons]
  obtain ⟨rest, hrest⟩ := hrun between (step (F.after before) (.build j))
  rw [← hrest, List.getElem?_append_left (by simp [step])]
  simp [step]

/-- Once a document has been heard, its author's count at the time is known. -/
theorem known_after_deliver (F : Fleet) (before between later : List F.Action) (i j : F.Member) :
    (F.after before).view.table j j ≤
      (F.after (before ++ .build j :: between ++
        .deliver i (F.after before).documents.length :: later)).view.table i j := by
  have hkept := F.document_kept before j between
  have hbefore := (F.sound_after before).wellFormed
  have hmiddle := (F.sound_after (before ++ .build j :: between)).wellFormed
  have hgrown := F.grows_append before (.build j :: between)
  set s := F.after (before ++ .build j :: between) with hs
  have hstep := hmiddle.step (.deliver i (F.after before).documents.length)
  have hlater := hstep.1.run_grows later
  rw [after_append, LoggedRun.run_cons, ← hs]
  refine le_trans ?_ (hlater.table_le i j)
  by_cases hij : i = j
  · subst hij
    exact (hgrown.table_le i i).trans (hstep.2.grows.table_le i i)
  · obtain ⟨received, hdecode, hnode, hcounter⟩ := hbefore.decode_built j
    have hother : ¬ received.nodeId = (s.node i).nodeId := by
      rw [hnode, hmiddle.nodeId_eq]
      exact fun heq => hij (Subtype.ext heq.symm)
    have hmerged : ((s.node i).mergeDocument ((F.after before).node j).buildDocument).1.counter =
        (s.node i).counter.merge received.counter := by
      rw [DocumentSync.mergeDocument, hdecode]
      dsimp only
      rw [if_neg hother, DocumentSync.counter_mergeReceived]
    have hview := view_update i s
      ((s.node i).mergeDocument ((F.after before).node j).buildDocument).1
    simp only [step, hkept]
    rw [hview, Gossip.table_setRow, if_pos rfl, hmerged, GCounter.toNat_nodeCount_merge, hcounter]
    exact le_max_right _ _

/-- In every run of a fleet: no node counts more of another's activity than there was, a node's
own entry is the number of its increments, entries never decrease, and a node that has merged
another's latest document agrees with it. -/
theorem activity_is_exact (F : Fleet) (actions : List F.Action) :
    (∀ i j : F.Member, ((F.after actions).node i).counter.nodeCount j ≤
        ((F.after actions).node j).counter.nodeCount j) ∧
      (∀ i : F.Member, (((F.after actions).node i).counter.nodeCount i).toNat =
        min (F.performed actions i) (2 ^ 64 - 1)) ∧
      (∀ front, front <+: actions → ∀ i j : F.Member,
        ((F.after front).node i).counter.nodeCount j ≤
          ((F.after actions).node i).counter.nodeCount j) ∧
      ∀ (before between later : List F.Action) (i j : F.Member),
        actions = before ++ .build j :: between ++
          .deliver i (F.after before).documents.length :: later →
        ((F.after before).node j).counter.nodeCount j =
          ((F.after actions).node j).counter.nodeCount j →
        ((F.after actions).node i).counter.nodeCount j =
          ((F.after actions).node j).counter.nodeCount j := by
  have hsound := F.sound_after actions
  have hle : ∀ i j : F.Member, ((F.after actions).node i).counter.nodeCount j ≤
      ((F.after actions).node j).counter.nodeCount j :=
    fun i j => UInt64.le_iff_toNat_le.mpr (hsound.grounded.table_le i j)
  refine ⟨hle, hsound.counted, ?_, ?_⟩
  · rintro front ⟨back, rfl⟩ i j
    exact UInt64.le_iff_toNat_le.mpr ((F.grows_append front back).table_le i j)
  · intro before between later i j hactions hlatest
    have hknown := F.known_after_deliver before between later i j
    rw [← hactions] at hknown
    refine UInt64.le_antisymm (hle i j) ?_
    rw [← hlatest]
    exact UInt64.le_iff_toNat_le.mpr hknown

def pair : Fleet where
  members := {1, 2}
  zero_not_mem := by decide
  card_le := by decide
  callsign _ := "ALPHA"
  kind _ := .soldierSensor

def first : pair.Member := ⟨1, by decide⟩

def second : pair.Member := ⟨2, by decide⟩

theorem pair_agrees :
    ((pair.after [.mutate first .incrementCounter, .build first, .deliver second 0]).node
        second).counter.nodeCount first =
      ((pair.after [.mutate first .incrementCounter, .build first, .deliver second 0]).node
        first).counter.nodeCount first :=
  (activity_is_exact pair [.mutate first .incrementCounter, .build first, .deliver second 0]).2.2.2
    [.mutate first .incrementCounter] [] [] second first rfl (by decide +kernel)

end Fleet

end PeatBtle
