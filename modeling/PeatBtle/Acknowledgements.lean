import PeatBtle.Mesh.Effect

/-!
# Acknowledgements over a run

A node that only acknowledges and listens never forgets its emergency. What it
holds may be replaced by a later incident; of the same incident no node is dropped
and no acknowledgement taken back, whatever bytes are merged.
-/

namespace PeatBtle

open Wire MapMerge

namespace EmergencyEvent

/-- Every node is still tracked, and has acknowledged if it had. -/
def Extends (later e : EmergencyEvent) : Prop :=
  ∀ (node : UInt32) (flag : Bool), e.acks[node]? = some flag →
    ∃ now, later.acks[node]? = some now ∧ (flag = true → now = true)

/-- A later incident, or the same one with no acknowledgement lost. -/
def Succeeds (later e : EmergencyEvent) : Prop :=
  e.timestamp < later.timestamp ∨ e.SameEvent later ∧ later.Extends e

variable {a b c e other : EmergencyEvent}

theorem Extends.refl (e : EmergencyEvent) : e.Extends e := by
  intro node flag h
  exact ⟨flag, h, id⟩

theorem Extends.trans (hab : a.Extends b) (hbc : b.Extends c) : a.Extends c := by
  intro node flag h
  obtain ⟨middle, hmiddle, hkept⟩ := hbc node flag h
  obtain ⟨now, hnow, hkept'⟩ := hab node middle hmiddle
  exact ⟨now, hnow, fun hflag => hkept' (hkept hflag)⟩

theorem Succeeds.refl (e : EmergencyEvent) : e.Succeeds e := Or.inr ⟨⟨rfl, rfl⟩, Extends.refl e⟩

theorem Succeeds.trans (hab : a.Succeeds b) (hbc : b.Succeeds c) : a.Succeeds c := by
  rcases hab with hnewer | ⟨hsame, hextends⟩
  · rcases hbc with hnewer' | ⟨hsame', -⟩
    · exact Or.inl (UInt64.lt_trans hnewer' hnewer)
    · exact Or.inl (hsame'.2 ▸ hnewer)
  · rcases hbc with hnewer' | ⟨hsame', hextends'⟩
    · exact Or.inl (hsame.2 ▸ hnewer')
    · exact Or.inr ⟨⟨hsame'.1.trans hsame.1, hsame'.2.trans hsame.2⟩, hextends.trans hextends'⟩

theorem Succeeds.timestamp_le (h : a.Succeeds b) : b.timestamp ≤ a.timestamp := by
  rcases h with hnewer | ⟨hsame, -⟩
  · exact UInt64.le_of_lt hnewer
  · exact UInt64.le_of_eq hsame.2

/-- An incident that has been replaced does not come back. -/
theorem Succeeds.extends_of_sameEvent (h : a.Succeeds b) (hsame : b.SameEvent a) : a.Extends b := by
  rcases h with hnewer | ⟨-, hextends⟩
  · exact absurd hsame.2 (UInt64.ne_of_lt hnewer)
  · exact hextends

theorem succeeds_ack (e : EmergencyEvent) (node : UInt32) : (e.ack node).1.Succeeds e := by
  refine Or.inr ⟨⟨rfl, rfl⟩, fun other flag h => ?_⟩
  show ∃ now, (e.acks.insert node true)[other]? = some now ∧ _
  rw [getElem?_insert_eq]
  by_cases hnode : node = other
  · rw [if_pos hnode]
    exact ⟨true, rfl, fun _ => rfl⟩
  · rw [if_neg hnode]
    exact ⟨flag, h, id⟩

theorem succeeds_merge (e other : EmergencyEvent) : (e.merge other).1.Succeeds e := by
  by_cases hsame : e.SameEvent other
  · rw [merge_of_sameEvent hsame]
    refine Or.inr ⟨⟨rfl, rfl⟩, fun node flag h => ?_⟩
    show ∃ now, (mergeWith false or e.acks other.acks)[node]? = some now ∧ _
    rw [getElem?_mergeWith, h]
    cases other.acks[node]? with
    | none => exact ⟨flag, rfl, id⟩
    | some received => exact ⟨flag || received, rfl, fun hflag => by rw [hflag, Bool.true_or]⟩
  · by_cases hnewer : e.timestamp < other.timestamp
    · rw [merge_of_newer hnewer]
      exact Or.inl hnewer
    · rw [merge_of_not_newer hsame (UInt64.not_lt.mp hnewer)]
      exact Succeeds.refl e

end EmergencyEvent

namespace DocumentSync

/-- What a node does that neither declares nor clears an emergency. -/
inductive Response where
  | ackEmergency (timestamp : UInt64)
  | mergeDocument (data : Bytes)

def Response.action : Response → Action
  | .ackEmergency timestamp => .mutate (.ackEmergency timestamp)
  | .mergeDocument data => .merge data

/-- The emergency is still there, or one that succeeds it. -/
def KeepsEmergency (before after : DocumentSync) : Prop :=
  ∀ e, before.emergency = some e → ∃ later, after.emergency = some later ∧ later.Succeeds e

theorem KeepsEmergency.refl (s : DocumentSync) : KeepsEmergency s s := by
  intro e h
  exact ⟨e, h, EmergencyEvent.Succeeds.refl e⟩

theorem KeepsEmergency.trans {a b c : DocumentSync} (hab : KeepsEmergency a b)
    (hbc : KeepsEmergency b c) : KeepsEmergency a c := by
  intro e h
  obtain ⟨middle, hmiddle, hsucceeds⟩ := hab e h
  obtain ⟨later, hlater, hsucceeds'⟩ := hbc middle hmiddle
  exact ⟨later, hlater, hsucceeds'.trans hsucceeds⟩

theorem emergency_ackEmergency (s : DocumentSync) (timestamp : UInt64) :
    (s.ackEmergency timestamp).1.emergency = s.emergency.map fun e => (e.ack s.nodeId).1 := by
  unfold ackEmergency
  cases hemergency : s.emergency with
  | none => exact hemergency
  | some e =>
      dsimp only
      split_ifs <;> rfl

theorem keepsEmergency_ack (s : DocumentSync) (timestamp : UInt64) :
    KeepsEmergency s (s.ackEmergency timestamp).1 := by
  intro e h
  rw [emergency_ackEmergency, h]
  exact ⟨_, rfl, e.succeeds_ack s.nodeId⟩

theorem keepsEmergency_merge (s : DocumentSync) (data : Bytes) :
    KeepsEmergency s (s.mergeDocument data).1 := by
  rw [mergeDocument_eq]
  cases s.accepts data with
  | none => exact KeepsEmergency.refl s
  | some received =>
      intro e h
      show ∃ later, (s.mergeReceived received).1.emergency = some later ∧ later.Succeeds e
      rw [emergency_mergeReceived, h]
      cases received.emergency with
      | none => exact ⟨e, rfl, EmergencyEvent.Succeeds.refl e⟩
      | some other => exact ⟨_, rfl, e.succeeds_merge other⟩

theorem keepsEmergency_respond (s : DocumentSync) (response : Response) :
    KeepsEmergency s (s.act response.action) := by
  cases response with
  | ackEmergency timestamp => exact s.keepsEmergency_ack timestamp
  | mergeDocument data => exact s.keepsEmergency_merge data

theorem keepsEmergency_run (s : DocumentSync) (responses : List Response) :
    KeepsEmergency s (s.run (responses.map Response.action)) := by
  induction responses generalizing s with
  | nil => exact KeepsEmergency.refl s
  | cons response responses ih =>
      exact (s.keepsEmergency_respond response).trans (ih (s.act response.action))

/-- Between any two points of a run of acknowledgements and merges, an emergency stays present, its
timestamp does not decrease, and if it is still the same incident then no node is dropped and no
acknowledgement taken back. -/
theorem acknowledgements_monotone (s : DocumentSync) (front back : List Response)
    (e : EmergencyEvent) (h : (s.run (front.map Response.action)).emergency = some e) :
    ∃ later, (s.run ((front ++ back).map Response.action)).emergency = some later ∧
      e.timestamp ≤ later.timestamp ∧
      (e.SameEvent later → ∀ (node : UInt32) (flag : Bool), e.acks[node]? = some flag →
        ∃ now, later.acks[node]? = some now ∧ (flag = true → now = true)) := by
  rw [List.map_append, run_append]
  obtain ⟨later, hlater, hsucceeds⟩ :=
    keepsEmergency_run (s.run (front.map Response.action)) back e h
  exact ⟨later, hlater, hsucceeds.timestamp_le, hsucceeds.extends_of_sameEvent⟩

/-- Node 2 hears of an emergency of node 1 that tracks both and acknowledges it. -/
def alarm : PeatDocument where
  version := 1
  nodeId := 1
  counter := GCounter.new
  peripheral := none
  emergency := some (EmergencyEvent.new 1 1700000000000 [2])

theorem alarm_stays_acknowledged :
    ∃ later,
      ((DocumentSync.new 2 "BRAVO").run ([Response.mergeDocument alarm.encode,
        .ackEmergency 1700000001000, .mergeDocument alarm.encode].map Response.action)).emergency =
          some later ∧
      1700000000000 ≤ later.timestamp := by
  have hheard : ((DocumentSync.new 2 "BRAVO").run ([Response.mergeDocument alarm.encode,
      .ackEmergency 1700000001000].map Response.action)).emergency =
        some ((EmergencyEvent.new 1 1700000000000 [2]).ack 2).1 := by
    decide +kernel
  obtain ⟨later, hlater, htime, -⟩ := acknowledgements_monotone (DocumentSync.new 2 "BRAVO")
    [Response.mergeDocument alarm.encode, .ackEmergency 1700000001000] [.mergeDocument alarm.encode]
    _ hheard
  exact ⟨later, hlater, htime⟩

end DocumentSync

end PeatBtle
