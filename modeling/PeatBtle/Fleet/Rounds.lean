import PeatBtle.Data.GossipRounds
import PeatBtle.Fleet

/-!
# Rounds in a fleet

Documents go to neighbours only. In a round every node builds a document and every
neighbour receives it, at any time in the round, with anything else in between. After as
many rounds as the fleet is wide, everybody knows what anybody had counted.
-/

namespace PeatBtle.Fleet

open Wire

variable {F : Fleet}

/-- In a round one node builds a document and the other receives it. -/
def Exchanges (front round : List F.Action) (i j : F.Member) : Prop :=
  ∃ before between later, round = before ++ .build i :: between ++
    .deliver j (F.after (front ++ before)).documents.length :: later

/-- A document that is delivered to another node is merged with what that node holds. -/
theorem node_after_deliver (F : Fleet) (before between : List F.Action) {i j : F.Member}
    (hij : i ≠ j) : ∃ received,
      PeatDocument.decode ((F.after before).node i).buildDocument = some received ∧
      received.counter = ((F.after before).node i).counter ∧
      (F.after (before ++ .build i :: between ++
        [.deliver j (F.after before).documents.length])).node j =
          (((F.after (before ++ .build i :: between)).node j).mergeReceived received).1 := by
  obtain ⟨received, hdecode, hnode, hcounter⟩ := (F.sound_after before).wellFormed.decode_built i
  refine ⟨received, hdecode, hcounter, ?_⟩
  have hkept := F.document_kept before i between
  have hmiddle := (F.sound_after (before ++ .build i :: between)).wellFormed
  rw [after_append]
  generalize F.after (before ++ .build i :: between) = s at hkept hmiddle
  have hother : ¬ received.nodeId = (s.node j).nodeId := by
    rw [hnode, hmiddle.nodeId_eq]
    exact fun heq => hij (Subtype.ext heq)
  rw [LoggedRun.run_cons, LoggedRun.run_nil, step, hkept]
  dsimp only
  rw [node_update_self, DocumentSync.mergeDocument, hdecode]
  dsimp only
  rw [if_neg hother]

/-- If what nodes know only grows and is passed on with their documents, then after as many rounds
as the fleet is wide everybody knows what anybody knew. -/
theorem told_after_rounds {κ : Type} {R : κ → κ → Prop} [IsPreorder κ R]
    {known : F.State → F.Member → κ} {G : SimpleGraph F.Member} (hconnected : G.Connected)
    {front : List F.Action} {rounds : List (List F.Action)}
    (hrounds : ∀ (m : Nat) (hm : m < rounds.length), ∀ i j, G.Adj i j →
      Exchanges (front ++ (rounds.take m).flatten) rounds[m] i j)
    (hwide : ∀ i j, G.dist i j ≤ rounds.length)
    (hgrows : ∀ past more, front <+: past → past ++ more <+: front ++ rounds.flatten →
      ∀ i, R (known (F.after past) i) (known (F.after (past ++ more)) i))
    (hheard : ∀ before between i j, i ≠ j → front <+: before →
      before ++ .build i :: between ++ [.deliver j (F.after before).documents.length] <+:
        front ++ rounds.flatten →
      R (known (F.after before) i) (known (F.after (before ++ .build i :: between ++
        [.deliver j (F.after before).documents.length])) j)) (i j : F.Member) :
    R (known (F.after front) i) (known (F.after (front ++ rounds.flatten)) j) := by
  refine @GossipRounds.told_after_rounds _ _ R _ _ front rounds
    (fun actions => known (F.after actions)) G hconnected hgrows ?_ hwide i j
  intro m hm a b hadj
  have hpast : front <+: front ++ (rounds.take m).flatten := List.prefix_append _ _
  have hwhole := @GossipRounds.prefix_of_take _ front rounds (m + 1)
  obtain ⟨before, between, later, hround⟩ := hrounds m hm a b hadj
  rw [GossipRounds.append_take_succ hm, hround] at hwhole
  rw [hround]
  generalize front ++ (rounds.take m).flatten = past at hpast hwhole ⊢
  -- the round: up to the document, until it is heard, and what comes after
  have hsplit : past ++ (before ++ .build a :: between ++
      .deliver b (F.after (past ++ before)).documents.length :: later) =
        past ++ before ++ .build a :: between ++
          [.deliver b (F.after (past ++ before)).documents.length] ++ later := by
    simp only [List.append_assoc, List.cons_append, List.nil_append]
  rw [hsplit] at hwhole ⊢
  have hbefore : front <+: past ++ before := hpast.trans (List.prefix_append _ _)
  have hdelivered := (List.prefix_append _ later).trans hwhole
  have hbuilt : past ++ before <+: front ++ rounds.flatten := by
    refine List.IsPrefix.trans ?_ hdelivered
    rw [List.append_assoc]
    exact List.prefix_append _ _
  refine trans_of R (hgrows past before hpast hbuilt a) ?_
  refine trans_of R (hheard (past ++ before) between a b hadj.ne hbefore hdelivered) ?_
  refine hgrows _ later (hbefore.trans ?_) hwhole b
  rw [List.append_assoc]
  exact List.prefix_append _ _

/-- After as many rounds as the fleet is wide, each node has counted at least what any node had
counted before; and if nobody counts anything more, all have the same counts: for each node the
number of its increments. -/
theorem counts_reach_everyone {G : SimpleGraph F.Member} (hconnected : G.Connected)
    {front : List F.Action} {rounds : List (List F.Action)}
    (hrounds : ∀ (m : Nat) (hm : m < rounds.length), ∀ i j, G.Adj i j →
      Exchanges (front ++ (rounds.take m).flatten) rounds[m] i j)
    (hwide : ∀ i j, G.dist i j ≤ rounds.length) :
    let late := front ++ rounds.flatten
    (∀ i j k : F.Member, ((F.after front).node i).counter.nodeCount k ≤
        ((F.after late).node j).counter.nodeCount k) ∧
      ((∀ k, F.performed late k = F.performed front k) →
        ∀ j k : F.Member, (((F.after late).node j).counter.nodeCount k).toNat =
          min (F.performed late k) (2 ^ 64 - 1)) := by
  intro late
  have htold : ∀ i j, (F.after front).view.table i ≤ (F.after late).view.table j := by
    refine @told_after_rounds F (F.Member → Nat) (· ≤ ·) _ (fun s => s.view.table) G hconnected
      front rounds hrounds hwide ?_ ?_
    · intro past more _ _ i
      exact (F.grows_append past more).table_le i
    · intro before between i j hij _ _ about
      obtain ⟨received, -, hcounter, hnode⟩ := F.node_after_deliver before between hij
      show _ ≤ (((F.after _).node j).counter.nodeCount about).toNat
      rw [hnode, DocumentSync.counter_mergeReceived, GCounter.toNat_nodeCount_merge, hcounter]
      exact le_max_right _ _
  have hsound := F.sound_after late
  refine ⟨fun i j k => UInt64.le_iff_toNat_le.mpr (htold i j k), fun hquiet j k => ?_⟩
  have hearly := (F.sound_after front).counted k
  have hlate := hsound.counted k
  refine Nat.le_antisymm ((hsound.grounded.table_le j k).trans (Nat.le_of_eq hlate)) ?_
  rw [hquiet k]
  exact (Nat.le_of_eq hearly.symm).trans (htold k j k)

/-! ## Two nodes -/

theorem pair_cases (i : pair.Member) : i = first ∨ i = second := by
  obtain ⟨node, hnode⟩ := i
  have htwo : node = 1 ∨ node = 2 := by simpa [pair] using hnode
  rcases htwo with rfl | rfl
  · exact Or.inl rfl
  · exact Or.inr rfl

theorem pair_connected : (⊤ : SimpleGraph pair.Member).Connected :=
  have : Nonempty pair.Member := ⟨first⟩
  SimpleGraph.connected_top

theorem pair_dist_le (i j : pair.Member) : (⊤ : SimpleGraph pair.Member).dist i j ≤ 1 := by
  by_cases hij : i = j
  · rw [hij, SimpleGraph.dist_self]
    exact Nat.zero_le _
  · have hadj : (⊤ : SimpleGraph pair.Member).Adj i j := hij
    exact SimpleGraph.dist_le (SimpleGraph.Walk.cons hadj .nil)

/-- One round in which both nodes build a document and hear the other's. -/
def pairRound (documents : Nat) : List pair.Action :=
  [.build first, .deliver second documents, .build second, .deliver first (documents + 1)]

theorem documents_deliver (s : F.State) (i : F.Member) (k : Nat) :
    (step s (.deliver i k)).documents = s.documents := by
  unfold step
  dsimp only
  split <;> rfl

theorem pairRound_exchanges (front : List pair.Action) {i j : pair.Member} (hij : i ≠ j) :
    Exchanges front (pairRound (pair.after front).documents.length) i j := by
  rcases pair_cases i with rfl | rfl <;> rcases pair_cases j with rfl | rfl
  · exact absurd rfl hij
  · refine ⟨[], [], [.build second, .deliver first ((pair.after front).documents.length + 1)], ?_⟩
    rw [List.append_nil]
    rfl
  · refine ⟨[.build first, .deliver second (pair.after front).documents.length], [], [], ?_⟩
    rw [after_append, LoggedRun.run_cons, LoggedRun.run_cons, LoggedRun.run_nil, documents_deliver,
      step, List.length_append]
    rfl
  · exact absurd rfl hij

/-- One of the two has counted something. -/
theorem pair_counts_everywhere :
    ((pair.after [.mutate first .incrementCounter]).node first).counter.nodeCount first ≤
      ((pair.after ([.mutate first .incrementCounter] ++ pairRound 0)).node
        second).counter.nodeCount first := by
  refine (@counts_reach_everyone pair ⊤ pair_connected [.mutate first .incrementCounter]
    [pairRound 0] ?_ pair_dist_le).1 first second first
  intro m hm i j hadj
  obtain rfl : m = 0 := by simpa using hm
  exact pairRound_exchanges [.mutate first .incrementCounter] hadj

end PeatBtle.Fleet
