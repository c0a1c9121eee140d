import PeatBtle.Data.HopByHop
import PeatBtle.Topology.Router
import Mathlib.Tactic.FinCases

/-!
# Forwarding through a tree

Nodes whose local views are the links of one tree pass a message on by what each
of them knows. A broadcast visits every node once. A targeted message arrives
only where the target comes in sight on the way to the root.
-/

namespace PeatBtle

open HopByHop LinkedTree

/-- The views of the nodes are the tree's links, and there are no others. -/
structure Agrees (topology : NodeId → MeshTopology) (tree : LinkedTree NodeId) : Prop where
  parent : ∀ v ∈ tree.nodes, (topology v).parent = tree.parent v
  children : ∀ v ∈ tree.nodes, (topology v).children = tree.children v
  peers : ∀ v ∈ tree.nodes, (topology v).peers = []

/-- What `receiver` does with a copy from `source`. -/
def forwardHops (level : NodeId → HierarchyLevel) (topology : NodeId → MeshTopology)
    (destination : Option NodeId) (direction : RouteDirection) (receiver source : NodeId) :
    List NodeId :=
  (MeshRouter.handleReceived ⟨receiver, level receiver⟩ source destination direction
    (topology receiver)).nextHops

/-- The message leaves the node that made it. -/
def originate (topology : NodeId → MeshTopology) (direction : RouteDirection) (origin : NodeId) :
    HopByHop NodeId :=
  start origin (MeshRouter.route direction (topology origin)).nextHops

variable {level : NodeId → HierarchyLevel} {topology : NodeId → MeshTopology}
  {tree : LinkedTree NodeId} {destination : Option NodeId} {v origin target : NodeId}

theorem Agrees.allConnected (h : Agrees topology tree) (hv : v ∈ tree.nodes) :
    (topology v).allConnected = tree.neighbours v := by
  rw [MeshTopology.allConnected, h.parent v hv, h.children v hv, h.peers v hv, List.append_nil]
  rfl

theorem Agrees.isConnected_iff (h : Agrees topology tree) (hv : v ∈ tree.nodes)
    (ht : target ∈ tree.nodes) :
    (topology v).isConnected target = true ↔
      tree.parent v = some target ∨ tree.parent target = some v := by
  rw [← MeshTopology.mem_allConnected_iff, h.allConnected hv, mem_neighbours hv, and_iff_right ht]

/-- The views that make up a given tree. -/
def viewsOf (tree : LinkedTree NodeId) (v : NodeId) : MeshTopology where
  parent := tree.parent v
  children := tree.children v
  peers := []
  myLevel := .platform
  maxChildren := 3
  maxConnections := 7

theorem agrees_viewsOf (tree : LinkedTree NodeId) : Agrees (viewsOf tree) tree :=
  ⟨fun _ _ => rfl, fun _ _ => rfl, fun _ _ => rfl⟩

def twoBranchesParent (v : NodeId) : Option NodeId :=
  if v = 2 ∨ v = 3 then some 1 else if v = 4 then some 2 else if v = 5 then some 3 else none

/-- Node 1 at the top, 2 and 3 below it, 4 below 2 and 5 below 3. -/
def twoBranches : LinkedTree NodeId where
  nodes := {1, 2, 3, 4, 5}
  parent := twoBranchesParent
  children := fun v =>
    if v = 1 then [2, 3] else if v = 2 then [4] else if v = 3 then [5] else []
  root := 1
  root_mem := by decide
  root_parent := by decide
  parent_mem := by
    intro v hv p hp
    fin_cases hv <;> cases hp <;> decide
  mem_children := by
    intro v hv c
    unfold twoBranchesParent
    fin_cases hv <;> simp <;> grind
  children_nodup := by
    intro v hv
    fin_cases hv <;> decide
  rooted := by
    intro v hv
    have hup : ∀ c ∈ ({2, 3} : Finset NodeId),
        Relation.ReflTransGen (fun c p => twoBranchesParent c = some p) c 1 := by
      intro c hc
      fin_cases hc <;> exact Relation.ReflTransGen.single rfl
    fin_cases hv
    · exact Relation.ReflTransGen.refl
    · exact hup 2 (by decide)
    · exact hup 3 (by decide)
    · exact Relation.ReflTransGen.head rfl (hup 2 (by decide))
    · exact Relation.ReflTransGen.head rfl (hup 3 (by decide))

/-! ## Broadcast -/

/-- Seen from the origin, every receiver hands the broadcast to the nodes behind it. -/
theorem forwardHops_broadcast (h : Agrees topology tree) (ho : origin ∈ tree.nodes)
    {source receiver : NodeId} (hr : receiver ∈ tree.nodes)
    (hlink : (tree.reroot origin ho).parent receiver = some source) :
    forwardHops level topology none .broadcast receiver source =
      (tree.reroot origin ho).children receiver := by
  change tree.toward origin receiver = some source at hlink
  rw [forwardHops, MeshRouter.nextHops_handleReceived_broadcast (by simp), h.allConnected hr]
  refine List.filter_congr fun hop _ => ?_
  rw [Bool.eq_iff_iff, bne_iff_ne]
  simp only [hlink, ne_eq, Option.some.injEq, decide_not, Bool.not_eq_true', decide_eq_false_iff_not]
  exact not_congr eq_comm

theorem originate_broadcast (h : Agrees topology tree) (ho : origin ∈ tree.nodes) :
    originate topology .broadcast origin =
      start (tree.reroot origin ho).root ((tree.reroot origin ho).children origin) := by
  have hall : (tree.reroot origin ho).children origin = tree.neighbours origin :=
    List.filter_eq_self.mpr fun hop _ => by
      rw [toward_self]
      rfl
  rw [hall, originate, MeshRouter.route, MeshRouter.nextHops_routeBroadcast, h.allConnected ho]
  rfl

theorem flooding_broadcast (h : Agrees topology tree) (ho : origin ∈ tree.nodes)
    {picks : List Nat} {s : HopByHop NodeId}
    (hrun : (originate topology .broadcast origin).run
      (forwardHops level topology none .broadcast) picks = some s) :
    Flooding (tree.reroot origin ho) s := by
  rw [originate_broadcast h ho] at hrun
  exact flooding_run (fun _ _ hr hlink => forwardHops_broadcast h ho hr hlink) hrun

variable (level) in
/-- A broadcast is received once by every other node and never by its origin, in any order of
deliveries, and then nothing is left on its way. -/
theorem broadcast_exactly_once (h : Agrees topology tree) (ho : origin ∈ tree.nodes)
    {picks : List Nat} {s : HopByHop NodeId}
    (hrun : (originate topology .broadcast origin).run
      (forwardHops level topology none .broadcast) picks = some s) :
    (∀ v, s.received.count v ≤ 1) ∧ s.received.count origin = 0 ∧
      (∀ v ∈ s.received, v ∈ tree.nodes) ∧
      picks.length + s.copies.length ≤ tree.nodes.card - 1 ∧
      (s.copies = [] → ∀ v ∈ tree.nodes, v ≠ origin → s.received.count v = 1) := by
  have hflood := flooding_broadcast h ho hrun
  have hnodup : s.received.Nodup := (List.nodup_append.mp hflood.served_nodup).1
  refine ⟨List.nodup_iff_count_le_one.mp hnodup, List.count_eq_zero.mpr fun hin => ?_,
    fun v hv => (hflood.received_link v hv).1, ?_, fun hend v hv hne => ?_⟩
  · exact (hflood.received_link origin hin).2 rfl
  · have hlength := run_length hrun
    have hbound := hflood.length_le
    rw [show (originate topology .broadcast origin).received = [] from rfl, List.length_nil,
      Nat.zero_add] at hlength
    rw [← hlength]
    exact hbound
  · exact List.count_eq_one_of_mem hnodup (hflood.all_received hend hv hne)

theorem broadcast_exactly_once_twoBranches :
    let s : HopByHop NodeId := ⟨[], [2, 1, 3, 5]⟩
    (∀ v, s.received.count v ≤ 1) ∧ s.received.count 4 = 0 ∧
      (∀ v ∈ s.received, v ∈ twoBranches.nodes) ∧
      [0, 0, 0, 0].length + s.copies.length ≤ twoBranches.nodes.card - 1 ∧
      (s.copies = [] → ∀ v ∈ twoBranches.nodes, v ≠ 4 → s.received.count v = 1) :=
  broadcast_exactly_once (fun _ => .platform) (agrees_viewsOf twoBranches) (by decide)
    (by decide)

/-! ## One target -/

/-- The next hops towards a target, read off the tree. -/
def targetedHops (tree : LinkedTree NodeId) (target v : NodeId) : List NodeId :=
  if tree.parent v = some target ∨ tree.parent target = some v then [target]
  else (tree.parent v).elim (tree.children v) fun p => [p]

/-- The target, or the parent of the target, is met on the way up from `v`. -/
def InSight (tree : LinkedTree NodeId) (v target : NodeId) : Prop :=
  tree.Above target v ∨ ∃ p, tree.parent target = some p ∧ tree.Above p v

/-- The target comes in sight, if need be below the only child of the root. -/
def OnTheWay (tree : LinkedTree NodeId) (v target : NodeId) : Prop :=
  InSight tree v target ∨
    v = tree.root ∧ ∃ p, tree.parent target = some p ∧ tree.children tree.root = [p]

theorem nextHops_targeted (h : Agrees topology tree) (hv : v ∈ tree.nodes)
    (ht : target ∈ tree.nodes) :
    (MeshRouter.routeTargeted target (topology v)).nextHops = targetedHops tree target v := by
  rw [MeshRouter.nextHops_routeTargeted, targetedHops, h.parent v hv, h.children v hv]
  exact if_congr (h.isConnected_iff hv ht) rfl rfl

theorem forwardHops_target (source : NodeId) :
    forwardHops level topology destination (.targeted target) target source = [] := by
  by_cases hdest : destination = some target
  · exact MeshRouter.nextHops_handleReceived_self hdest
  · rw [forwardHops, MeshRouter.nextHops_handleReceived_targeted hdest, if_pos rfl]

theorem forwardHops_targeted (h : Agrees topology tree) (hv : v ∈ tree.nodes)
    (ht : target ∈ tree.nodes) (hdest : destination = none ∨ destination = some target)
    (hne : v ≠ target) (source : NodeId) :
    forwardHops level topology destination (.targeted target) v source =
      targetedHops tree target v := by
  have hother : destination ≠ some v := by
    rcases hdest with rfl | rfl
    · exact (Option.some_ne_none v).symm
    · exact fun heq => hne (Option.some.inj heq).symm
  rw [forwardHops, MeshRouter.nextHops_handleReceived_targeted hother, if_neg (Ne.symm hne),
    nextHops_targeted h hv ht]

theorem InSight.of_parent {p : NodeId} (h : InSight tree p target) (hp : tree.parent v = some p) :
    InSight tree v target := by
  rcases h with habove | ⟨q, hq, habove⟩
  · exact Or.inl (habove.trans (above_of_parent hp))
  · exact Or.inr ⟨q, hq, habove.trans (above_of_parent hp)⟩

/-- A node that has the target in sight hands it over or sends the message up. -/
theorem InSight.targetedHops (h : InSight tree v target) (hne : v ≠ target) :
    ∃ hop, targetedHops tree target v = [hop] ∧
      (hop = target ∨ tree.parent v = some hop ∧ InSight tree hop target) := by
  by_cases hconnected : tree.parent v = some target ∨ tree.parent target = some v
  · exact ⟨target, if_pos hconnected, Or.inl rfl⟩
  · have hup : ∃ p, tree.parent v = some p ∧ InSight tree p target := by
      rcases h with habove | ⟨q, hq, habove⟩
      · rcases habove.eq_or_parent with heq | ⟨p, hp, hrest⟩
        · exact absurd heq.symm hne
        · exact ⟨p, hp, Or.inl hrest⟩
      · rcases habove.eq_or_parent with heq | ⟨p, hp, hrest⟩
        · exact absurd (Or.inr (heq ▸ hq)) hconnected
        · exact ⟨p, hp, Or.inr ⟨q, hq, hrest⟩⟩
    obtain ⟨p, hp, hsight⟩ := hup
    refine ⟨p, ?_, Or.inr ⟨hp, hsight⟩⟩
    rw [PeatBtle.targetedHops, if_neg hconnected, hp]
    rfl

/-- On the way to the root, such a message arrives. -/
theorem arrives_of_inSight (h : Agrees topology tree) (hv : v ∈ tree.nodes)
    (ht : target ∈ tree.nodes) (hdest : destination = none ∨ destination = some target)
    (hsight : InSight tree v target) (source : NodeId) (received : List NodeId) :
    Arrives (forwardHops level topology destination (.targeted target)) ⟨[(source, v)], received⟩
      target := by
  have hway := tree.rooted v hv
  induction hway using Relation.ReflTransGen.head_induction_on generalizing source received with
  | refl =>
      by_cases hne : tree.root = target
      · rw [hne]
        exact arrives_of_forward_nil (forwardHops_target source)
      · obtain ⟨hop, hhops, rfl | ⟨hparent, -⟩⟩ := hsight.targetedHops hne
        · refine arrives_of_forward_one ?_ (arrives_of_forward_nil (forwardHops_target _))
          rw [forwardHops_targeted h hv ht hdest hne, hhops]
        · rw [tree.root_parent] at hparent
          cases hparent
  | @head v p hstep _ ih =>
      by_cases hne : v = target
      · rw [hne]
        exact arrives_of_forward_nil (forwardHops_target source)
      · obtain ⟨hop, hhops, hnext⟩ := hsight.targetedHops hne
        have hforward : forwardHops level topology destination (.targeted target) v source = [hop] := by
          rw [forwardHops_targeted h hv ht hdest hne, hhops]
        refine arrives_of_forward_one hforward ?_
        rcases hnext with rfl | ⟨hparent, hrest⟩
        · exact arrives_of_forward_nil (forwardHops_target _)
        · obtain rfl := Option.some.inj (hstep.symm.trans hparent)
          exact ih (tree.parent_mem v hv p hstep) hrest v _

theorem originate_targeted (h : Agrees topology tree) (hv : v ∈ tree.nodes)
    (ht : target ∈ tree.nodes) :
    originate topology (.targeted target) v = start v (targetedHops tree target v) := by
  rw [originate, MeshRouter.route, nextHops_targeted h hv ht]

theorem arrives_of_onTheWay (h : Agrees topology tree) (hv : v ∈ tree.nodes)
    (ht : target ∈ tree.nodes) (hdest : destination = none ∨ destination = some target)
    (hne : v ≠ target) (hway : OnTheWay tree v target) :
    Arrives (forwardHops level topology destination (.targeted target))
      (originate topology (.targeted target) v) target := by
  rw [originate_targeted h hv ht]
  rcases hway with hsight | ⟨rfl, p, hp, honly⟩
  · obtain ⟨hop, hhops, hnext⟩ := hsight.targetedHops hne
    rw [hhops]
    rcases hnext with rfl | ⟨hparent, hrest⟩
    · exact arrives_of_forward_nil (forwardHops_target _)
    · exact arrives_of_inSight h (tree.parent_mem v hv hop hparent) ht hdest hrest _ _
  · -- The root sees only its children, but there is one to choose from.
    have hpnode := tree.parent_mem target ht p hp
    have hsight : InSight tree p target := Or.inr ⟨p, hp, Above.refl p⟩
    by_cases hconnected : tree.parent tree.root = some target ∨ tree.parent target = some tree.root
    · rw [targetedHops, if_pos hconnected]
      exact arrives_of_forward_nil (forwardHops_target _)
    · rw [targetedHops, if_neg hconnected, tree.root_parent, Option.elim_none, honly]
      exact arrives_of_inSight h hpnode ht hdest hsight _ _

/-- A list without repetitions in which nothing but `q` occurs. -/
theorem eq_singleton_of_nodup {l : List NodeId} {q : NodeId} (hnodup : l.Nodup) (hne : l ≠ [])
    (hall : ∀ d ∈ l, d = q) : l = [q] := by
  cases l with
  | nil => exact absurd rfl hne
  | cons d rest =>
      obtain rfl := hall d List.mem_cons_self
      cases rest with
      | nil => rfl
      | cons e rest =>
          have heq := hall e (List.mem_cons_of_mem _ List.mem_cons_self)
          exact absurd (heq ▸ List.mem_cons_self) (List.nodup_cons.mp hnodup).1

/-- The root has a child that is off the way unless its only child is the target's parent. -/
theorem exists_child_off (ht : target ∈ tree.nodes) (hoff : ¬ OnTheWay tree tree.root target) :
    ∃ d, tree.parent d = some tree.root ∧ d ∈ tree.nodes ∧ ¬ OnTheWay tree d target := by
  have hne : target ≠ tree.root := by
    rintro rfl
    exact hoff (Or.inl (Or.inl (Above.refl _)))
  obtain ⟨q, hq⟩ := exists_parent ht hne
  obtain ⟨c, hc, hct⟩ := exists_child_above (root_above ht) hne.symm
  have hmem : ∀ d, d ∈ tree.children tree.root ↔ d ∈ tree.nodes ∧ tree.parent d = some tree.root :=
    tree.mem_children tree.root tree.root_mem
  have hother : ∃ d ∈ tree.children tree.root, d ≠ q := by
    by_contra hall
    push Not at hall
    have honly := eq_singleton_of_nodup (tree.children_nodup tree.root tree.root_mem)
      (List.ne_nil_of_mem ((hmem c).mpr ⟨hct.mem ht, hc⟩)) hall
    exact hoff (Or.inr ⟨rfl, q, hq, honly⟩)
  obtain ⟨d, hd, hdq⟩ := hother
  obtain ⟨hdnode, hdroot⟩ := (hmem d).mp hd
  refine ⟨d, hdroot, hdnode, ?_⟩
  rintro ((habove | ⟨p, hp, habove⟩) | ⟨rfl, -⟩)
  · rcases habove.eq_or_parent with rfl | ⟨r, hr, hrest⟩
    · exact hoff (Or.inl (Or.inr ⟨tree.root, hdroot, Above.refl _⟩))
    · obtain rfl := Option.some.inj (hdroot.symm.trans hr)
      exact hoff (Or.inl (Or.inl hrest))
  · obtain rfl := Option.some.inj (hq.symm.trans hp)
    rcases habove.eq_or_parent with heq | ⟨r, hr, hrest⟩
    · exact hdq heq.symm
    · obtain rfl := Option.some.inj (hdroot.symm.trans hr)
      exact hoff (Or.inl (Or.inr ⟨q, hq, hrest⟩))
  · exact root_ne_of_parent hdroot rfl

/-- A node off the way only knows nodes off the way: its parent, or one of the root's children. -/
theorem exists_hop_off (hv : v ∈ tree.nodes) (ht : target ∈ tree.nodes)
    (hoff : ¬ OnTheWay tree v target) :
    ∃ hop ∈ targetedHops tree target v, hop ∈ tree.nodes ∧ ¬ OnTheWay tree hop target := by
  have hconnected : ¬ (tree.parent v = some target ∨ tree.parent target = some v) := by
    rintro (hparent | hchild)
    · exact hoff (Or.inl (Or.inl (above_of_parent hparent)))
    · exact hoff (Or.inl (Or.inr ⟨v, hchild, Above.refl v⟩))
  rw [targetedHops, if_neg hconnected]
  cases hparent : tree.parent v with
  | some p =>
      refine ⟨p, List.mem_singleton_self p, tree.parent_mem v hv p hparent, ?_⟩
      rintro (hsight | ⟨rfl, q, hq, honly⟩)
      · exact hoff (Or.inl (hsight.of_parent hparent))
      · have hchild := (tree.mem_children tree.root tree.root_mem v).mpr ⟨hv, hparent⟩
        rw [honly, List.mem_singleton] at hchild
        exact hoff (Or.inl (Or.inr ⟨q, hq, hchild ▸ Above.refl _⟩))
  | none =>
      obtain rfl : v = tree.root := by
        by_contra hroot
        obtain ⟨p, hp⟩ := exists_parent hv hroot
        rw [hparent] at hp
        cases hp
      obtain ⟨d, hd, hdnode, hdoff⟩ := exists_child_off ht hoff
      exact ⟨d, (tree.mem_children _ hv d).mpr ⟨hdnode, hd⟩, hdnode, hdoff⟩

theorem targeted_arrives_iff (h : Agrees topology tree) (hv : v ∈ tree.nodes)
    (ht : target ∈ tree.nodes) (hne : v ≠ target)
    (hdest : destination = none ∨ destination = some target) :
    Arrives (forwardHops level topology destination (.targeted target))
      (originate topology (.targeted target) v) target ↔ OnTheWay tree v target := by
  refine ⟨fun harrives => ?_, arrives_of_onTheWay h hv ht hdest hne⟩
  by_contra hoff
  rw [originate_targeted h hv ht] at harrives
  obtain ⟨hop, hhop, hnode, hhopoff⟩ := exists_hop_off hv ht hoff
  have hcopy : (v, hop) ∈ (start v (targetedHops tree target v)).copies :=
    mem_sendTo.mpr ⟨rfl, hhop⟩
  refine not_arrives_of_lost (fun u => u ∈ tree.nodes ∧ ¬ OnTheWay tree u target) hcopy
    ⟨hnode, hhopoff⟩ ?_ harrives
  rintro source receiver ⟨hr, hroff⟩
  have hother : receiver ≠ target := by
    rintro rfl
    exact hroff (Or.inl (Or.inl (Above.refl _)))
  rw [forwardHops_targeted h hr ht hdest hother]
  exact exists_hop_off hr ht hroff

/-- When a received message is not handed back, and when a targeted message arrives. -/
theorem forwarding_exact (router : MeshRouter) (source : NodeId) (destination : Option NodeId)
    (direction : RouteDirection) (view : MeshTopology) (tree : LinkedTree NodeId)
    (topology : NodeId → MeshTopology) (level : NodeId → HierarchyLevel)
    (addressed : Option NodeId) (sender target : NodeId) :
    (source ∉ (router.handleReceived source destination direction view).nextHops ↔
      router.SparesSource source destination direction view) ∧
    (Agrees topology tree → sender ∈ tree.nodes → target ∈ tree.nodes → sender ≠ target →
      addressed = none ∨ addressed = some target →
      (Arrives (forwardHops level topology addressed (.targeted target))
        (originate topology (.targeted target) sender) target ↔ OnTheWay tree sender target)) :=
  ⟨MeshRouter.source_not_mem_iff, targeted_arrives_iff⟩

/-- From 4 the parent of 3 is met on the way up. -/
theorem forwarding_exact_twoBranches :
    Arrives (forwardHops (fun _ => .platform) (viewsOf twoBranches) none (.targeted 3))
      (originate (viewsOf twoBranches) (.targeted 3) 4) 3 :=
  ((forwarding_exact ⟨2, .platform⟩ 1 none .broadcast (viewsOf twoBranches 2) twoBranches
    (viewsOf twoBranches) (fun _ => .platform) none 4 3).2
    (agrees_viewsOf twoBranches) (by decide) (by decide) (by decide) (Or.inl rfl)).mpr
    (Or.inl (Or.inr ⟨1, rfl, (above_of_parent (v := 2) rfl).trans (above_of_parent rfl)⟩))

/-- Node 2 hands a message for 5 back to node 1, and from 4 to 5 forwarding goes on for ever. -/
theorem sibling_branch_not_reached :
    ((viewsOf twoBranches 2).isConnected 1 = true ∧
      (1 : NodeId) ∈ (MeshRouter.handleReceived ⟨2, .platform⟩ 1 none (.targeted 5)
        (viewsOf twoBranches 2)).nextHops) ∧
    ¬ Arrives (forwardHops (fun _ => .platform) (viewsOf twoBranches) none (.targeted 5))
      (originate (viewsOf twoBranches) (.targeted 5) 4) 5 := by
  refine ⟨by decide, fun harrives => ?_⟩
  have hway := (targeted_arrives_iff (agrees_viewsOf twoBranches) (by decide) (by decide)
    (by decide) (Or.inl rfl)).mp harrives
  have habove : ∀ a, twoBranches.Above a 4 → a = 4 ∨ a = 2 ∨ a = 1 := by
    intro a ha
    rcases ha.eq_or_parent with rfl | ⟨p, hp, ha⟩
    · exact Or.inl rfl
    · cases hp
      rcases ha.eq_or_parent with rfl | ⟨q, hq, ha⟩
      · exact Or.inr (Or.inl rfl)
      · cases hq
        rcases ha.eq_or_parent with rfl | ⟨r, hr, -⟩
        · exact Or.inr (Or.inr rfl)
        · cases hr
  rcases hway with (ha | ⟨p, hp, ha⟩) | ⟨heq, -⟩
  · exact absurd (habove 5 ha) (by decide)
  · cases hp
    exact absurd (habove 3 ha) (by decide)
  · exact absurd heq (by decide)

end PeatBtle
