import PeatBtle.Data.LinkedTree
import Mathlib.Data.List.Nodup
import Mathlib.Data.List.Perm.Lattice

/-!
# Messages forwarded hop by hop

A copy of a message is on its way from one node to another. When it is delivered,
the receiver looks at where it came from and sends copies on. Copies may be
delivered in any order.
-/

namespace PeatBtle

/-- The copies on their way, as pairs of sender and receiver, and the receptions so far. -/
@[ext] structure HopByHop (α : Type) where
  copies : List (α × α)
  received : List α
deriving DecidableEq

namespace HopByHop

variable {α : Type}

/-- The copies that `v` sends to each of these nodes. -/
def sendTo (v : α) (hops : List α) : List (α × α) := hops.map fun hop => (v, hop)

/-- Before the first delivery. -/
def start (v : α) (hops : List α) : HopByHop α := ⟨sendTo v hops, []⟩

section Run

variable (forward : α → α → List α)

/-- The copy at this place of the list is delivered: `forward receiver source` are the next hops. -/
def deliver (s : HopByHop α) (pick : Nat) : Option (HopByHop α) :=
  match s.copies[pick]? with
  | none => none
  | some (source, receiver) =>
      some ⟨s.copies.eraseIdx pick ++ sendTo receiver (forward receiver source),
        s.received ++ [receiver]⟩

def run (s : HopByHop α) : List Nat → Option (HopByHop α)
  | [] => some s
  | pick :: picks => (s.deliver forward pick).bind fun next => run next picks

end Run

variable {forward : α → α → List α} {s s' : HopByHop α}

@[simp] theorem map_snd_sendTo (v : α) (hops : List α) : (sendTo v hops).map Prod.snd = hops := by
  rw [sendTo, List.map_map]
  exact List.map_id hops

theorem mem_sendTo {v : α} {hops : List α} {copy : α × α} :
    copy ∈ sendTo v hops ↔ copy.1 = v ∧ copy.2 ∈ hops := by
  rw [sendTo, List.mem_map]
  constructor
  · rintro ⟨hop, hmem, rfl⟩
    exact ⟨rfl, hmem⟩
  · rintro ⟨rfl, hmem⟩
    exact ⟨copy.2, hmem, rfl⟩

/-- What one delivery does, up to the order of the copies. -/
theorem deliver_cases {pick : Nat} (h : s.deliver forward pick = some s') :
    ∃ source receiver, s.copies[pick]? = some (source, receiver) ∧
      s'.received = s.received ++ [receiver] ∧
      s'.copies = s.copies.eraseIdx pick ++ sendTo receiver (forward receiver source) := by
  rw [deliver] at h
  cases hcopy : s.copies[pick]? with
  | none => simp [hcopy] at h
  | some copy =>
      rw [hcopy] at h
      cases h
      exact ⟨copy.1, copy.2, rfl, rfl, rfl⟩

theorem perm_eraseIdx {copies : List (α × α)} {pick : Nat} {copy : α × α}
    (h : copies[pick]? = some copy) : List.Perm (copy :: copies.eraseIdx pick) copies := by
  obtain ⟨hlt, rfl⟩ := List.getElem?_eq_some_iff.mp h
  exact List.getElem_cons_eraseIdx_perm hlt

variable (forward) in
/-- Every copy that is on its way can be delivered next. -/
theorem exists_deliver {copy : α × α} (h : copy ∈ s.copies) :
    ∃ pick s', s.deliver forward pick = some s' ∧
      ∀ hop ∈ forward copy.2 copy.1, (copy.2, hop) ∈ s'.copies := by
  obtain ⟨pick, hpick⟩ := List.mem_iff_getElem?.mp h
  refine ⟨pick, _, by rw [deliver, hpick], fun hop hhop => ?_⟩
  exact List.mem_append_right _ (mem_sendTo.mpr ⟨rfl, hhop⟩)

theorem run_length {picks : List Nat} (h : s.run forward picks = some s') :
    s'.received.length = s.received.length + picks.length := by
  induction picks generalizing s with
  | nil =>
      cases h
      rfl
  | cons pick picks ih =>
      obtain ⟨next, hdeliver, hrest⟩ := Option.bind_eq_some_iff.mp h
      obtain ⟨source, receiver, -, hreceived, -⟩ := deliver_cases hdeliver
      rw [ih hrest, hreceived, List.length_append, List.length_singleton, List.length_cons]
      omega

/-- What every delivery keeps, every run keeps. -/
theorem run_invariant {Inv : HopByHop α → Prop} {picks : List Nat} (hs : Inv s)
    (hstep : ∀ s s' pick, s.deliver forward pick = some s' → Inv s → Inv s')
    (h : s.run forward picks = some s') : Inv s' := by
  induction picks generalizing s with
  | nil =>
      cases h
      exact hs
  | cons pick picks ih =>
      obtain ⟨next, hdeliver, hrest⟩ := Option.bind_eq_some_iff.mp h
      exact ih (hstep s next pick hdeliver hs) hrest

/-! ## Forwarding stops -/

/-- Every run makes at most `bound` deliveries. -/
def StopsBy (forward : α → α → List α) (s : HopByHop α) (bound : Nat) : Prop :=
  ∀ picks s', s.run forward picks = some s' → picks.length ≤ bound

/-- Once nothing is on its way any more, `target` has received the message. -/
def Reaches (forward : α → α → List α) (s : HopByHop α) (target : α) : Prop :=
  ∀ picks s', s.run forward picks = some s' → s'.copies = [] → target ∈ s'.received

/-- All deliveries end, and by then `target` has received the message. -/
def Arrives (forward : α → α → List α) (s : HopByHop α) (target : α) : Prop :=
  (∃ bound, StopsBy forward s bound) ∧ Reaches forward s target

theorem run_of_no_copies {picks : List Nat} (hs : s.copies = [])
    (h : s.run forward picks = some s') : picks = [] ∧ s' = s := by
  cases picks with
  | nil =>
      cases h
      exact ⟨rfl, rfl⟩
  | cons pick picks =>
      obtain ⟨next, hdeliver, -⟩ := Option.bind_eq_some_iff.mp h
      rw [deliver, hs] at hdeliver
      simp at hdeliver

/-- A single copy leaves no choice about the next delivery. -/
theorem deliver_single {source receiver : α} {received : List α} {pick : Nat}
    (h : HopByHop.deliver forward ⟨[(source, receiver)], received⟩ pick = some s') :
    s' = ⟨sendTo receiver (forward receiver source), received ++ [receiver]⟩ := by
  obtain ⟨a, b, hcopy, hreceived, hcopies⟩ := deliver_cases h
  obtain ⟨hlt, heq⟩ := List.getElem?_eq_some_iff.mp hcopy
  have hpick : pick = 0 := Nat.lt_one_iff.mp hlt
  subst hpick
  cases heq
  exact HopByHop.ext hcopies hreceived

/-- Nothing is on its way any more, and the target has received the message. -/
theorem arrives_of_no_copies {target : α} (hs : s.copies = []) (htarget : target ∈ s.received) :
    Arrives forward s target := by
  refine ⟨⟨0, fun picks s' hrun => ?_⟩, fun picks s' hrun _ => ?_⟩
  · rw [(run_of_no_copies hs hrun).1]
    exact Nat.le_refl 0
  · rw [(run_of_no_copies hs hrun).2]
    exact htarget

/-- A single copy arrives if what it is sent on as does. -/
theorem arrives_of_next {source receiver target : α} {received : List α}
    (hnext : Arrives forward
      ⟨sendTo receiver (forward receiver source), received ++ [receiver]⟩ target) :
    Arrives forward ⟨[(source, receiver)], received⟩ target := by
  obtain ⟨⟨bound, hbound⟩, hreach⟩ := hnext
  have hend : ∀ picks s', HopByHop.run forward ⟨[(source, receiver)], received⟩ picks = some s' →
      picks.length ≤ bound + 1 ∧ (s'.copies = [] → target ∈ s'.received) := by
    intro picks s' hrun
    cases picks with
    | nil =>
        cases hrun
        exact ⟨Nat.zero_le _, fun hnone => absurd hnone (List.cons_ne_nil _ _)⟩
    | cons pick picks =>
        obtain ⟨next, hdeliver, hrest⟩ := Option.bind_eq_some_iff.mp hrun
        obtain rfl := deliver_single hdeliver
        exact ⟨Nat.succ_le_succ (hbound picks s' hrest), hreach picks s' hrest⟩
  exact ⟨⟨bound + 1, fun picks s' hrun => (hend picks s' hrun).1⟩,
    fun picks s' hrun => (hend picks s' hrun).2⟩

/-- A copy that has reached the target and is not sent on. -/
theorem arrives_of_forward_nil {source target : α} {received : List α}
    (h : forward target source = []) : Arrives forward ⟨[(source, target)], received⟩ target := by
  refine arrives_of_next (arrives_of_no_copies ?_ ?_)
  · rw [h]
    rfl
  · exact List.mem_append_right _ (List.mem_singleton_self target)

/-- A copy that is sent on to one node arrives if the next copy does. -/
theorem arrives_of_forward_one {source receiver hop target : α} {received : List α}
    (h : forward receiver source = [hop])
    (hnext : Arrives forward ⟨[(receiver, hop)], received ++ [receiver]⟩ target) :
    Arrives forward ⟨[(source, receiver)], received⟩ target := by
  refine arrives_of_next ?_
  rw [h]
  exact hnext

/-- Forwarding never stops if some nodes only ever pass a copy on among themselves. -/
theorem not_arrives_of_lost (Lost : α → Prop) {target : α} {copy : α × α}
    (hcopy : copy ∈ s.copies) (hlost : Lost copy.2)
    (hstep : ∀ source receiver, Lost receiver → ∃ hop ∈ forward receiver source, Lost hop) :
    ¬ Arrives forward s target := by
  rintro ⟨⟨bound, hbound⟩, -⟩
  have hruns : ∀ n s copy, copy ∈ HopByHop.copies s → Lost copy.2 →
      ∃ picks s', HopByHop.run forward s picks = some s' ∧ picks.length = n := by
    intro n
    induction n with
    | zero => exact fun s _ _ _ => ⟨[], s, rfl, rfl⟩
    | succ n ih =>
        intro s copy hcopy hlost
        obtain ⟨pick, next, hdeliver, hsent⟩ := exists_deliver forward hcopy
        obtain ⟨hop, hhop, hhoplost⟩ := hstep copy.1 copy.2 hlost
        obtain ⟨picks, s', hrun, hlength⟩ := ih next (copy.2, hop) (hsent hop hhop) hhoplost
        refine ⟨pick :: picks, s', ?_, by rw [List.length_cons, hlength]⟩
        rw [run, hdeliver]
        exact hrun
  obtain ⟨picks, s', hrun, hlength⟩ := hruns (bound + 1) s copy hcopy hlost
  have hle := hbound picks s' hrun
  omega

/-! ## Flooding a tree from its root -/

section Flood

variable {t : LinkedTree α}

/-- A copy goes down one link, no node is served twice, every node served has its parent behind it,
and a node that has the message has served its children. -/
structure Flooding (t : LinkedTree α) (s : HopByHop α) : Prop where
  copy_link : ∀ copy ∈ s.copies, copy.2 ∈ t.nodes ∧ t.parent copy.2 = some copy.1
  served_nodup : (s.received ++ s.copies.map Prod.snd).Nodup
  received_link : ∀ v ∈ s.received, v ∈ t.nodes ∧ v ≠ t.root
  parent_behind : ∀ v ∈ s.received ++ s.copies.map Prod.snd, ∀ p, t.parent v = some p →
    p = t.root ∨ p ∈ s.received
  children_served : ∀ p, p ∈ t.nodes → p = t.root ∨ p ∈ s.received →
    ∀ c ∈ t.children p, c ∈ s.received ++ s.copies.map Prod.snd

theorem flooding_start : Flooding t (start t.root (t.children t.root)) where
  copy_link := by
    intro copy hcopy
    obtain ⟨hfrom, hto⟩ := mem_sendTo.mp hcopy
    rw [hfrom]
    exact (t.mem_children t.root t.root_mem copy.2).mp hto
  served_nodup := by
    rw [start, map_snd_sendTo, List.nil_append]
    exact t.children_nodup t.root t.root_mem
  received_link := fun v hv => absurd hv List.not_mem_nil
  parent_behind := by
    intro v hv p hp
    rw [start, map_snd_sendTo, List.nil_append, t.mem_children t.root t.root_mem] at hv
    exact Or.inl (Option.some.inj (hp.symm.trans hv.2))
  children_served := by
    rintro p - (rfl | hreceived) c hc
    · rw [start, map_snd_sendTo]
      exact hc
    · exact absurd hreceived List.not_mem_nil

/-- The receivers of the copies after a delivery. -/
theorem served_perm {pick : Nat} {source receiver : α}
    (hcopy : s.copies[pick]? = some (source, receiver))
    (hreceived : s'.received = s.received ++ [receiver])
    (hcopies : s'.copies = s.copies.eraseIdx pick ++ sendTo receiver (forward receiver source)) :
    List.Perm (s'.received ++ s'.copies.map Prod.snd)
      ((s.received ++ s.copies.map Prod.snd) ++ forward receiver source) := by
  have herase : List.Perm (receiver :: (s.copies.eraseIdx pick).map Prod.snd)
      (s.copies.map Prod.snd) := (perm_eraseIdx hcopy).map Prod.snd
  rw [hreceived, hcopies, List.map_append, map_snd_sendTo, List.append_assoc, List.append_assoc]
  refine List.Perm.append_left _ ?_
  rw [← List.append_assoc]
  exact herase.append_right _

theorem Flooding.deliver (hs : Flooding t s)
    (hforward : ∀ source receiver, receiver ∈ t.nodes → t.parent receiver = some source →
      forward receiver source = t.children receiver)
    {pick : Nat} (h : s.deliver forward pick = some s') : Flooding t s' := by
  obtain ⟨source, receiver, hcopy, hreceived, hcopies⟩ := deliver_cases h
  have hmem : (source, receiver) ∈ s.copies := List.mem_iff_getElem?.mpr ⟨pick, hcopy⟩
  obtain ⟨hnode, hparent⟩ := hs.copy_link _ hmem
  have hserved := served_perm hcopy hreceived hcopies
  rw [hforward source receiver hnode hparent] at hserved hcopies
  have htarget : receiver ∈ s.copies.map Prod.snd := List.mem_map_of_mem (f := Prod.snd) hmem
  have hroot : receiver ≠ t.root := LinkedTree.root_ne_of_parent hparent
  have hfresh : receiver ∉ s.received := fun hold =>
    (List.nodup_append.mp hs.served_nodup).2.2 receiver hold receiver htarget rfl
  have hkept : ∀ v, v ∈ s.received → v ∈ s'.received := fun v hv =>
    hreceived ▸ List.mem_append_left _ hv
  have hnow : receiver ∈ s'.received := hreceived ▸ List.mem_append_right _ (by simp)
  refine ⟨?_, ?_, ?_, ?_, ?_⟩
  · intro copy hin
    rw [hcopies, List.mem_append, mem_sendTo] at hin
    rcases hin with hold | ⟨hfrom, hto⟩
    · exact hs.copy_link copy (List.mem_of_mem_eraseIdx hold)
    · rw [hfrom]
      exact (t.mem_children receiver hnode copy.2).mp hto
  · rw [hserved.nodup_iff, List.nodup_append]
    refine ⟨hs.served_nodup, t.children_nodup receiver hnode, ?_⟩
    rintro v hv c hc rfl
    -- A child served before has its parent behind it, but `receiver` was still waiting.
    rcases hs.parent_behind v hv receiver ((t.mem_children receiver hnode v).mp hc).2 with
      heq | hold
    · exact hroot heq
    · exact hfresh hold
  · intro v hv
    rw [hreceived, List.mem_append, List.mem_singleton] at hv
    rcases hv with hold | rfl
    · exact hs.received_link v hold
    · exact ⟨hnode, hroot⟩
  · intro v hv p hp
    rw [hserved.mem_iff, List.mem_append] at hv
    rcases hv with hold | hchild
    · exact (hs.parent_behind v hold p hp).imp_right (hkept p)
    · have hlink := ((t.mem_children receiver hnode v).mp hchild).2
      obtain rfl := Option.some.inj (hlink.symm.trans hp)
      exact Or.inr hnow
  · intro p hpnode hp c hc
    rw [hserved.mem_iff, List.mem_append]
    by_cases hpr : p = receiver
    · exact Or.inr (hpr ▸ hc)
    · refine Or.inl (hs.children_served p hpnode (hp.imp_right fun hin => ?_) c hc)
      rw [hreceived, List.mem_append, List.mem_singleton] at hin
      exact hin.resolve_right hpr

/-- Nobody is served twice, and the root not at all. -/
theorem Flooding.length_le [DecidableEq α] (hs : Flooding t s) :
    s.received.length + s.copies.length ≤ t.nodes.card - 1 := by
  have hsub : (s.received ++ s.copies.map Prod.snd).toFinset ⊆ t.nodes.erase t.root := by
    intro v hv
    rw [List.mem_toFinset, List.mem_append, List.mem_map] at hv
    rw [Finset.mem_erase]
    rcases hv with hreceived | ⟨copy, hcopy, rfl⟩
    · exact (hs.received_link v hreceived).symm
    · obtain ⟨hnode, hparent⟩ := hs.copy_link copy hcopy
      exact ⟨LinkedTree.root_ne_of_parent hparent, hnode⟩
  have hcard := Finset.card_le_card hsub
  rwa [List.toFinset_card_of_nodup hs.served_nodup, List.length_append, List.length_map,
    Finset.card_erase_of_mem t.root_mem] at hcard

/-- When nothing is on its way any more, every other node has the message. -/
theorem Flooding.all_received (hs : Flooding t s) (hend : s.copies = []) {v : α}
    (hv : v ∈ t.nodes) (hroot : v ≠ t.root) : v ∈ s.received := by
  have hreach : ∀ v ∈ t.nodes, v = t.root ∨ v ∈ s.received := by
    intro v hv
    have hway := t.rooted v hv
    induction hway using Relation.ReflTransGen.head_induction_on with
    | refl => exact Or.inl rfl
    | @head c p hstep _ ih =>
        have hp := t.parent_mem c hv p hstep
        have hserved := hs.children_served p hp (ih hp) c ((t.mem_children p hp c).mpr ⟨hv, hstep⟩)
        rw [hend, List.map_nil, List.append_nil] at hserved
        exact Or.inr hserved
  exact (hreach v hv).resolve_left hroot

/-- A tree flooded from its root, whichever copy is delivered next at any time. -/
theorem flooding_run
    (hforward : ∀ source receiver, receiver ∈ t.nodes → t.parent receiver = some source →
      forward receiver source = t.children receiver)
    {picks : List Nat} (h : (start t.root (t.children t.root)).run forward picks = some s) :
    Flooding t s :=
  run_invariant flooding_start (fun _ _ _ hdeliver hs => hs.deliver hforward hdeliver) h

end Flood

end HopByHop

end PeatBtle
