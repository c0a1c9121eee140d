import PeatBtle.Data.SetFold
import PeatBtle.Document

/-!
# Convergence of merged documents

A replica folds `PeatDocument.merge` over whatever documents reach it. The
counter is a join and converges outright. The emergency is a register ordered by
timestamp alone: among different emergencies with the same timestamp the first
one to arrive stays, so it converges exactly when no such tie is left open.
-/

namespace PeatBtle

open Wire MapMerge SetFold

/-- The document after hearing `received`, in order. -/
def PeatDocument.mergeAll (d : PeatDocument) (received : List PeatDocument) : PeatDocument :=
  received.foldl (fun acc other => (acc.merge other).1) d

namespace Convergence

/-! ## Counters -/

theorem isJoin_max : IsJoin (max : UInt64 → UInt64 → UInt64) := by
  constructor <;> intros <;> simp only [UInt64.max_def] <;> grind

theorem counter_merge_again (c other : GCounter) : (c.merge other).merge other = c.merge other :=
  congrArg GCounter.mk (mergeWith_absorb isJoin_max ..)

theorem counter_merge (d other : PeatDocument) :
    (d.merge other).1.counter = d.counter.merge other.counter := by
  unfold PeatDocument.merge
  dsimp only
  split <;> rfl

theorem mergeAll_counter (a : PeatDocument) (received : List PeatDocument) :
    (a.mergeAll received).counter = received.foldl (fun c d => c.merge d.counter) a.counter :=
  (List.foldl_hom PeatDocument.counter fun d other => (counter_merge d other).symm).symm

theorem counter_converges (a : PeatDocument) {xs ys : List PeatDocument}
    (h : ∀ d, d ∈ xs ↔ d ∈ ys) : (a.mergeAll xs).counter = (a.mergeAll ys).counter := by
  have hcomm : ∀ (c : GCounter) (d e : PeatDocument),
      (c.merge d.counter).merge e.counter = (c.merge e.counter).merge d.counter := by
    intro c d e
    exact congrArg GCounter.mk (mergeWith_right_comm isJoin_max ..)
  have hidem : ∀ (c : GCounter) (d : PeatDocument),
      (c.merge d.counter).merge d.counter = c.merge d.counter :=
    fun c d => counter_merge_again c d.counter
  rw [mergeAll_counter, mergeAll_counter, foldl_eq_of_mem_iff hcomm hidem h]

/-! ## Emergencies -/

/-- The emergency a replica holds after hearing `theirs`. -/
def hear (ours theirs : Option EmergencyEvent) : Option EmergencyEvent :=
  (PeatDocument.mergeEmergency ours theirs).1

theorem emergency_merge (d other : PeatDocument) :
    (d.merge other).1.emergency = hear d.emergency other.emergency := by
  unfold PeatDocument.merge
  dsimp only
  split <;> rfl

theorem mergeAll_emergency (a : PeatDocument) (received : List PeatDocument) :
    (a.mergeAll received).emergency =
      received.foldl (fun e d => hear e d.emergency) a.emergency :=
  (List.foldl_hom PeatDocument.emergency fun d other => (emergency_merge d other).symm).symm

/-- `r` is the outcome of a pool of emergencies: one of the latest, with the flags of
all copies of that emergency united. -/
structure Summarises (pool : List EmergencyEvent) (r : EmergencyEvent) : Prop where
  known : ∃ e ∈ pool, e.SameEvent r
  latest : ∀ e ∈ pool, e.timestamp ≤ r.timestamp
  acked : ∀ node : UInt32, r.acks[node]? = some true ↔
    ∃ e ∈ pool, e.SameEvent r ∧ e.acks[node]? = some true
  untracked : ∀ node : UInt32, r.acks[node]? = none ↔
    ∀ e ∈ pool, e.SameEvent r → e.acks[node]? = none

/-- No emergency is held only when none was in the pool. -/
def Outcome (pool : List EmergencyEvent) : Option EmergencyEvent → Prop
  | none => pool = []
  | some r => Summarises pool r

theorem Summarises.single (e : EmergencyEvent) : Summarises [e] e where
  known := ⟨e, by simp, rfl, rfl⟩
  latest := by
    intro other hother
    rw [List.mem_singleton.mp hother]
    exact UInt64.le_refl _
  acked := by simp [EmergencyEvent.SameEvent]
  untracked := by simp [EmergencyEvent.SameEvent]

/-- The pool decides everything but which of the latest sources is kept. -/
theorem Summarises.unique {pool : List EmergencyEvent} {r r' : EmergencyEvent}
    (h : Summarises pool r) (h' : Summarises pool r') (hsource : r.sourceNode = r'.sourceNode) :
    r = r' := by
  obtain ⟨e, he, hsame⟩ := h.known
  obtain ⟨e', he', hsame'⟩ := h'.known
  have htime : r.timestamp = r'.timestamp := by
    apply UInt64.le_antisymm
    · rw [← hsame.2]
      exact h'.latest e he
    · rw [← hsame'.2]
      exact h.latest e' he'
  have hevent : ∀ x : EmergencyEvent, x.SameEvent r ↔ x.SameEvent r' := by
    intro x
    simp only [EmergencyEvent.SameEvent, hsource, htime]
  refine EmergencyEvent.ext hsource htime (Std.ExtTreeMap.ext_getElem? ?_)
  intro node
  have hacked : r.acks[node]? = some true ↔ r'.acks[node]? = some true := by
    simp only [h.acked, h'.acked, hevent]
  have huntracked : r.acks[node]? = none ↔ r'.acks[node]? = none := by
    simp only [h.untracked, h'.untracked, hevent]
  revert hacked huntracked
  rcases r.acks[node]? with - | - | - <;> rcases r'.acks[node]? with - | - | - <;> simp

/-- A second copy of the held emergency only adds flags. -/
theorem Summarises.same {pool : List EmergencyEvent} {r other : EmergencyEvent}
    (h : Summarises pool r) (hsame : r.SameEvent other) :
    Summarises (pool ++ [other]) { r with acks := mergeWith false or r.acks other.acks } where
  known := by
    obtain ⟨e, he, hevent⟩ := h.known
    exact ⟨e, List.mem_append_left _ he, hevent⟩
  latest := by
    intro e he
    rcases List.mem_append.mp he with he | he
    · exact h.latest e he
    · rw [List.mem_singleton.mp he, ← hsame.2]
      exact UInt64.le_refl _
  acked := by
    intro node
    have hother : other.SameEvent r := ⟨hsame.1.symm, hsame.2.symm⟩
    have hr := h.acked node
    simp only [EmergencyEvent.SameEvent] at hr hother ⊢
    simp only [getElem?_mergeWith, List.mem_append, List.mem_singleton, or_and_right, exists_or,
      exists_eq_left, hother, ← hr, true_and, and_self]
    rcases other.acks[node]? with - | - | - <;> rcases r.acks[node]? with - | - | - <;> simp
  untracked := by
    intro node
    have hother : other.SameEvent r := ⟨hsame.1.symm, hsame.2.symm⟩
    have hr := h.untracked node
    simp only [EmergencyEvent.SameEvent] at hr hother ⊢
    simp only [getElem?_mergeWith, List.mem_append, List.mem_singleton, or_imp, forall_and,
      forall_eq, hother, ← hr, true_imp_iff, and_self]
    rcases other.acks[node]? with - | - | - <;> simp

/-- A later emergency has no earlier copy in the pool. -/
theorem Summarises.newer {pool : List EmergencyEvent} {r other : EmergencyEvent}
    (h : Summarises pool r) (hnewer : r.timestamp < other.timestamp) :
    Summarises (pool ++ [other]) other := by
  have hfresh : ∀ e ∈ pool, ¬ e.SameEvent other := by
    intro e he hevent
    have hle := h.latest e he
    rw [hevent.2] at hle
    exact UInt64.not_lt.mpr hle hnewer
  have hself : other.SameEvent other := ⟨rfl, rfl⟩
  refine ⟨⟨other, by simp, hself⟩, ?_, ?_, ?_⟩
  · intro e he
    rcases List.mem_append.mp he with he | he
    · exact UInt64.le_of_lt (UInt64.lt_of_le_of_lt (h.latest e he) hnewer)
    · rw [List.mem_singleton.mp he]
      exact UInt64.le_refl _
  · intro node
    constructor
    · intro hnode
      exact ⟨other, by simp, hself, hnode⟩
    · rintro ⟨e, he, hevent, hnode⟩
      rcases List.mem_append.mp he with he | he
      · exact absurd hevent (hfresh e he)
      · rwa [List.mem_singleton.mp he] at hnode
  · intro node
    constructor
    · intro hnode e he hevent
      rcases List.mem_append.mp he with he | he
      · exact absurd hevent (hfresh e he)
      · rwa [List.mem_singleton.mp he]
    · intro hall
      exact hall other (by simp) hself

/-- A different emergency that is not later leaves the outcome alone. -/
theorem Summarises.ignored {pool : List EmergencyEvent} {r other : EmergencyEvent}
    (h : Summarises pool r) (hdiff : ¬ r.SameEvent other)
    (hle : other.timestamp ≤ r.timestamp) : Summarises (pool ++ [other]) r := by
  have hother : ¬ other.SameEvent r := fun hevent => hdiff ⟨hevent.1.symm, hevent.2.symm⟩
  obtain ⟨e, he, hevent⟩ := h.known
  refine ⟨⟨e, List.mem_append_left _ he, hevent⟩, ?_, ?_, ?_⟩
  · intro e he
    rcases List.mem_append.mp he with he | he
    · exact h.latest e he
    · rwa [List.mem_singleton.mp he]
  · intro node
    simp [h.acked node, or_and_right, exists_or, hother]
  · intro node
    simp [h.untracked node, or_imp, forall_and, hother]

theorem Summarises.merge {pool : List EmergencyEvent} {r : EmergencyEvent} (h : Summarises pool r)
    (other : EmergencyEvent) : Summarises (pool ++ [other]) (r.merge other).1 := by
  by_cases hsame : r.SameEvent other
  · rw [EmergencyEvent.merge_of_sameEvent hsame]
    exact h.same hsame
  · by_cases hnewer : r.timestamp < other.timestamp
    · rw [EmergencyEvent.merge_of_newer hnewer]
      exact h.newer hnewer
    · rw [EmergencyEvent.merge_of_not_newer hsame (UInt64.not_lt.mp hnewer)]
      exact h.ignored hsame (UInt64.not_lt.mp hnewer)

theorem Outcome.hear {pool : List EmergencyEvent} {ours : Option EmergencyEvent}
    (h : Outcome pool ours) (theirs : Option EmergencyEvent) :
    Outcome (pool ++ theirs.toList) (hear ours theirs) := by
  cases theirs with
  | none => simpa [Convergence.hear, PeatDocument.mergeEmergency] using h
  | some other =>
      cases ours with
      | none =>
          obtain rfl : pool = [] := h
          exact Summarises.single other
      | some r => exact Summarises.merge h other

/-- The emergencies that take part when `a` hears `received`. -/
def pool (a : PeatDocument) (received : List PeatDocument) : List EmergencyEvent :=
  a.emergency.toList ++ received.flatMap fun d => d.emergency.toList

theorem mergeAll_outcome (a : PeatDocument) (received : List PeatDocument) :
    Outcome (pool a received) (a.mergeAll received).emergency := by
  have hrun : ∀ (seen : List EmergencyEvent) (e : Option EmergencyEvent), Outcome seen e →
      Outcome (seen ++ received.flatMap fun d => d.emergency.toList)
        (received.foldl (fun e d => hear e d.emergency) e) := by
    induction received with
    | nil =>
        intro seen e h
        simpa using h
    | cons d received ih =>
        intro seen e h
        have hnext := ih _ _ (h.hear d.emergency)
        rwa [List.append_assoc] at hnext
  rw [mergeAll_emergency]
  refine hrun _ _ ?_
  cases a.emergency with
  | none => rfl
  | some e => exact Summarises.single e

theorem mem_pool {a : PeatDocument} {received : List PeatDocument} {e : EmergencyEvent} :
    e ∈ pool a received ↔
      a.emergency = some e ∨ ∃ d ∈ received, d.emergency = some e := by
  simp [pool]

theorem Outcome.congr {pool pool' : List EmergencyEvent} (h : ∀ e, e ∈ pool ↔ e ∈ pool')
    {outcome : Option EmergencyEvent} (ho : Outcome pool outcome) : Outcome pool' outcome := by
  cases outcome with
  | none =>
      obtain rfl : pool = [] := ho
      exact List.eq_nil_iff_forall_not_mem.mpr fun e he => by simpa using (h e).mpr he
  | some r =>
      obtain ⟨hknown, hlatest, hacked, huntracked⟩ : Summarises pool r := ho
      simp only [h] at hknown hlatest hacked huntracked
      exact ⟨hknown, hlatest, hacked, huntracked⟩

/-! ## Ties -/

/-- While nothing later arrives, the held emergency stays the same incident. -/
theorem mergeAll_keeps {a : PeatDocument} {received : List PeatDocument} {r : EmergencyEvent}
    (hr : a.emergency = some r)
    (hle : ∀ d ∈ received, ∀ e, d.emergency = some e → e.timestamp ≤ r.timestamp) :
    ∃ r', (a.mergeAll received).emergency = some r' ∧ r'.SameEvent r := by
  induction received generalizing a r with
  | nil => exact ⟨r, hr, rfl, rfl⟩
  | cons d received ih =>
      have hstep : ∃ r₁, (a.merge d).1.emergency = some r₁ ∧ r₁.SameEvent r := by
        rw [emergency_merge, hr]
        cases he : d.emergency with
        | none => exact ⟨r, rfl, rfl, rfl⟩
        | some e =>
            refine ⟨(r.merge e).1, rfl, ?_⟩
            by_cases hsame : r.SameEvent e
            · rw [EmergencyEvent.merge_of_sameEvent hsame]
              exact ⟨rfl, rfl⟩
            · rw [EmergencyEvent.merge_of_not_newer hsame (hle d (by simp) e he)]
              exact ⟨rfl, rfl⟩
      obtain ⟨r₁, hr₁, hsource, htime⟩ := hstep
      obtain ⟨r', hr', hsame⟩ := ih hr₁ (by
        intro d' hd' e he
        rw [htime]
        exact hle d' (List.mem_cons_of_mem _ hd') e he)
      exact ⟨r', hr', hsame.1.trans hsource, hsame.2.trans htime⟩

/-- Any two ways of hearing exactly `docs` lead to the same counter and emergency. -/
def Converges (a : PeatDocument) (docs : List PeatDocument) : Prop :=
  ∀ xs ys : List PeatDocument, (∀ d, d ∈ xs ↔ d ∈ docs) → (∀ d, d ∈ ys ↔ d ∈ docs) →
    (a.mergeAll xs).counter = (a.mergeAll ys).counter ∧
      (a.mergeAll xs).emergency = (a.mergeAll ys).emergency

/-- Emergencies of different sources with one timestamp are outdone, either by what `a`
already holds or by a strictly later emergency among `docs`. -/
def NoOpenTie (a : PeatDocument) (docs : List PeatDocument) : Prop :=
  ∀ d₁ ∈ docs, ∀ d₂ ∈ docs, ∀ e₁ e₂, d₁.emergency = some e₁ → d₂.emergency = some e₂ →
    e₁.timestamp = e₂.timestamp → e₁.sourceNode ≠ e₂.sourceNode →
      (∃ e, a.emergency = some e ∧ e₁.timestamp ≤ e.timestamp) ∨
        ∃ d ∈ docs, ∃ e, d.emergency = some e ∧ e₁.timestamp < e.timestamp

/-- Without an open tie, all outcomes name the same source. -/
theorem source_eq_of_noOpenTie {a : PeatDocument} {docs xs ys : List PeatDocument}
    (htie : NoOpenTie a docs) (hxs : ∀ d, d ∈ xs ↔ d ∈ docs) (hys : ∀ d, d ∈ ys ↔ d ∈ docs)
    {r r' : EmergencyEvent} (hr : (a.mergeAll xs).emergency = some r)
    (hr' : (a.mergeAll ys).emergency = some r') (hsum : Summarises (pool a docs) r)
    (hsum' : Summarises (pool a docs) r') : r.sourceNode = r'.sourceNode := by
  obtain ⟨e₁, he₁, hsame₁⟩ := hsum.known
  obtain ⟨e₂, he₂, hsame₂⟩ := hsum'.known
  have htime : r.timestamp = r'.timestamp :=
    UInt64.le_antisymm (hsame₁.2 ▸ hsum'.latest e₁ he₁) (hsame₂.2 ▸ hsum.latest e₂ he₂)
  have hlatest : ∀ d ∈ docs, ∀ e, d.emergency = some e → e.timestamp ≤ r.timestamp :=
    fun d hd e he => hsum.latest e (mem_pool.mpr (Or.inr ⟨d, hd, he⟩))
  by_cases hown : ∃ e, a.emergency = some e ∧ r.timestamp ≤ e.timestamp
  · -- The starting emergency is among the latest, so it is never replaced.
    obtain ⟨e, he, hle⟩ := hown
    have hkeep : ∀ zs : List PeatDocument, (∀ d, d ∈ zs ↔ d ∈ docs) →
        ∃ s, (a.mergeAll zs).emergency = some s ∧ s.SameEvent e := fun zs hzs =>
      mergeAll_keeps he fun d hd x hx => UInt64.le_trans (hlatest d ((hzs d).mp hd) x hx) hle
    obtain ⟨s, hs, hsource, -⟩ := hkeep xs hxs
    obtain ⟨s', hs', hsource', -⟩ := hkeep ys hys
    rw [hr] at hs
    rw [hr'] at hs'
    rw [Option.some.inj hs, Option.some.inj hs', hsource, hsource']
  · have hdoc : ∀ e s : EmergencyEvent, e ∈ pool a docs → e.SameEvent s →
        s.timestamp = r.timestamp → ∃ d ∈ docs, d.emergency = some e := by
      intro e s he hsame hs
      rcases mem_pool.mp he with ha | hd
      · exact absurd ⟨e, ha, by rw [hsame.2, hs]; exact UInt64.le_refl _⟩ hown
      · exact hd
    obtain ⟨d₁, hd₁, hemergency₁⟩ := hdoc e₁ r he₁ hsame₁ rfl
    obtain ⟨d₂, hd₂, hemergency₂⟩ := hdoc e₂ r' he₂ hsame₂ htime.symm
    by_contra hne
    have hsource : e₁.sourceNode ≠ e₂.sourceNode := by rwa [hsame₁.1, hsame₂.1]
    have htie' := htie d₁ hd₁ d₂ hd₂ e₁ e₂ hemergency₁ hemergency₂
      (by rw [hsame₁.2, hsame₂.2, htime]) hsource
    rw [hsame₁.2] at htie'
    rcases htie' with hstart | ⟨d, hd, e, he, hlt⟩
    · exact hown hstart
    · exact UInt64.not_lt.mpr (hlatest d hd e he) hlt

theorem converges_of_noOpenTie {a : PeatDocument} {docs : List PeatDocument}
    (htie : NoOpenTie a docs) : Converges a docs := by
  intro xs ys hxs hys
  refine ⟨counter_converges a fun d => (hxs d).trans (hys d).symm, ?_⟩
  have hout : ∀ zs : List PeatDocument, (∀ d, d ∈ zs ↔ d ∈ docs) →
      Outcome (pool a docs) (a.mergeAll zs).emergency := by
    intro zs hzs
    refine (mergeAll_outcome a zs).congr fun e => ?_
    simp only [mem_pool, hzs]
  have hx := hout xs hxs
  have hy := hout ys hys
  cases hr : (a.mergeAll xs).emergency with
  | none =>
      cases hr' : (a.mergeAll ys).emergency with
      | none => rfl
      | some r' =>
          rw [hr] at hx
          rw [hr'] at hy
          obtain ⟨e, he, -⟩ : ∃ e ∈ pool a docs, e.SameEvent r' := Summarises.known hy
          rw [show pool a docs = [] from hx] at he
          cases he
  | some r =>
      rw [hr] at hx
      cases hr' : (a.mergeAll ys).emergency with
      | none =>
          rw [hr'] at hy
          obtain ⟨e, he, -⟩ : ∃ e ∈ pool a docs, e.SameEvent r := Summarises.known hx
          rw [show pool a docs = [] from hy] at he
          cases he
      | some r' =>
          rw [hr'] at hy
          exact congrArg some
            (Summarises.unique hx hy (source_eq_of_noOpenTie htie hxs hys hr hr' hx hy))

/-- Hearing one of the latest emergencies first makes it the outcome. -/
theorem mergeAll_first_latest {a d : PeatDocument} {docs : List PeatDocument} {e : EmergencyEvent}
    (he : d.emergency = some e) (hstart : ∀ x, a.emergency = some x → x.timestamp < e.timestamp)
    (hlatest : ∀ d' ∈ docs, ∀ x, d'.emergency = some x → x.timestamp ≤ e.timestamp) :
    ∃ r, (a.mergeAll (d :: docs)).emergency = some r ∧ r.SameEvent e := by
  refine mergeAll_keeps (a := (a.merge d).1) ?_ hlatest
  rw [emergency_merge, he]
  cases hx : a.emergency with
  | none => rfl
  | some x => exact congrArg some (EmergencyEvent.merge_of_newer (hstart x hx))

theorem noOpenTie_of_converges {a : PeatDocument} {docs : List PeatDocument}
    (h : Converges a docs) : NoOpenTie a docs := by
  intro d₁ hd₁ d₂ hd₂ e₁ e₂ he₁ he₂ htime hsource
  by_contra hopen
  push Not at hopen
  obtain ⟨hstart, hlatest⟩ := hopen
  have hmem : ∀ d ∈ docs, ∀ x, x ∈ d :: docs ↔ x ∈ docs := by
    intro d hd x
    simp only [List.mem_cons, or_iff_right_iff_imp]
    rintro rfl
    exact hd
  have hstart' : ∀ x, a.emergency = some x → x.timestamp < e₁.timestamp :=
    fun x hx => UInt64.not_le.mp (by simpa using hstart x hx)
  have hlatest' : ∀ d ∈ docs, ∀ x, d.emergency = some x → x.timestamp ≤ e₁.timestamp :=
    fun d hd x hx => UInt64.not_lt.mp (by simpa using hlatest d hd x hx)
  obtain ⟨r₁, hr₁, hsame₁⟩ := mergeAll_first_latest he₁ hstart' hlatest'
  obtain ⟨r₂, hr₂, hsame₂⟩ : ∃ r, (a.mergeAll (d₂ :: docs)).emergency = some r ∧ r.SameEvent e₂ :=
    mergeAll_first_latest he₂ (htime ▸ hstart') (htime ▸ hlatest')
  have hagree := (h (d₁ :: docs) (d₂ :: docs) (hmem d₁ hd₁) (hmem d₂ hd₂)).2
  rw [hr₁, hr₂] at hagree
  exact hsource (by rw [← hsame₁.1, ← hsame₂.1, Option.some.inj hagree])

/-- Two replicas that each start with an emergency of their own and hear of the other's. -/
theorem exchange_emergency_iff {d₁ d₂ : PeatDocument} {e₁ e₂ : EmergencyEvent}
    (h₁ : d₁.emergency = some e₁) (h₂ : d₂.emergency = some e₂)
    (hsource : e₁.sourceNode ≠ e₂.sourceNode) :
    (d₁.merge d₂).1.emergency = (d₂.merge d₁).1.emergency ↔ e₁.timestamp ≠ e₂.timestamp := by
  have hdiff₁ : ¬ e₁.SameEvent e₂ := fun hsame => hsource hsame.1
  have hdiff₂ : ¬ e₂.SameEvent e₁ := fun hsame => hsource hsame.1.symm
  have hhear : hear d₁.emergency d₂.emergency = some (e₁.merge e₂).1 := by rw [h₁, h₂]; rfl
  have hhear' : hear d₂.emergency d₁.emergency = some (e₂.merge e₁).1 := by rw [h₁, h₂]; rfl
  rw [emergency_merge, emergency_merge, hhear, hhear', Option.some_inj]
  rcases UInt64.lt_or_le e₁.timestamp e₂.timestamp with hlt | hle
  · rw [EmergencyEvent.merge_of_newer hlt,
      EmergencyEvent.merge_of_not_newer hdiff₂ (UInt64.le_of_lt hlt)]
    simp [UInt64.ne_of_lt hlt]
  · rw [EmergencyEvent.merge_of_not_newer hdiff₁ hle]
    rcases UInt64.lt_or_eq_of_le hle with hlt | heq
    · rw [EmergencyEvent.merge_of_newer hlt]
      simp [(UInt64.ne_of_lt hlt).symm]
    · rw [EmergencyEvent.merge_of_not_newer hdiff₂ (by rw [heq]; exact UInt64.le_refl _)]
      simp only [ne_eq, heq, not_true_eq_false, iff_false]
      rintro rfl
      exact hsource rfl

/-- Replicas that start from `a` converge exactly when no tie is left open. Two replicas that
exchange emergencies of different sources settle on one exactly when the timestamps differ. -/
theorem replicas_converge_iff (a : PeatDocument) (docs : List PeatDocument) :
    (Converges a docs ↔ NoOpenTie a docs) ∧
      ∀ (other : PeatDocument) (e₁ e₂ : EmergencyEvent), a.emergency = some e₁ →
        other.emergency = some e₂ → e₁.sourceNode ≠ e₂.sourceNode →
          ((a.merge other).1.emergency = (other.merge a).1.emergency ↔
            e₁.timestamp ≠ e₂.timestamp) :=
  ⟨⟨noOpenTie_of_converges, converges_of_noOpenTie⟩,
    fun _ _ _ h₁ h₂ hsource => exchange_emergency_iff h₁ h₂ hsource⟩

/-- A document in which `source` raises an emergency. -/
def alarm (source : NodeId) (timestamp : UInt64) : PeatDocument :=
  { PeatDocument.new source with emergency := some (EmergencyEvent.new source timestamp []) }

theorem replicas_diverge :
    ¬ Converges (PeatDocument.new 1) [alarm 2 1700000000000, alarm 3 1700000000000] := by
  intro h
  have hagree := h [alarm 2 1700000000000, alarm 3 1700000000000]
    [alarm 3 1700000000000, alarm 2 1700000000000] (by simp) (by simp [or_comm])
  exact absurd hagree.2 (by decide)

theorem later_alarm_resolves :
    ((alarm 2 1700000000000).merge (alarm 3 1700000000001)).1.emergency =
      ((alarm 3 1700000000001).merge (alarm 2 1700000000000)).1.emergency :=
  ((replicas_converge_iff _ []).2 _ _ _ rfl rfl (by decide)).mpr (by decide)

end Convergence

end PeatBtle
