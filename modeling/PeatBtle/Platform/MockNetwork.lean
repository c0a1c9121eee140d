import PeatBtle.Data.LoggedRun
import PeatBtle.Data.Mailbox
import PeatBtle.Data.Presence
import PeatBtle.Basic
import PeatBtle.Data.MapMerge

/-!
# The simulated network

The adapters of a test share who advertises, who is connected and what is under way.
A connection is one flag under two keys, one for each direction.
-/

namespace PeatBtle

open Std Wire MapMerge Presence Mailbox

structure AdvertisingNode where
  nodeId : NodeId
  address : String
  name : Option String
  rssi : Int8
  advData : Bytes
deriving DecidableEq

structure DiscoveredDevice where
  address : String
  name : Option String
  rssi : Int8
  isPeatNode : Bool
  nodeId : Option NodeId
  advData : Bytes
deriving DecidableEq

structure DataPacket where
  sender : NodeId
  receiver : NodeId
  data : Bytes
  timestamp : Nat
deriving DecidableEq

/-- One direction of a connection. -/
structure Direction where
  sender : NodeId
  receiver : NodeId
deriving DecidableEq

namespace Direction

def reverse (d : Direction) : Direction := ⟨d.receiver, d.sender⟩

@[simp] theorem reverse_reverse (d : Direction) : d.reverse.reverse = d := rfl

theorem reverse_eq_iff {d d' : Direction} : d.reverse = d' ↔ d = d'.reverse := by
  constructor
  · rintro rfl
    exact d.reverse_reverse.symm
  · rintro rfl
    exact d'.reverse_reverse

/-- Both directions of one connection. -/
def Joins (d e : Direction) : Prop := e = d ∨ e = d.reverse

instance (d e : Direction) : Decidable (d.Joins e) := inferInstanceAs (Decidable (_ ∨ _))

theorem joins_reverse (d e : Direction) : d.Joins e.reverse ↔ d.Joins e := by
  rw [Joins, Joins, reverse_eq_iff, reverse_eq_iff, reverse_reverse, or_comm]

theorem ite_joins {β : Type} (d e : Direction) (x y : β) :
    (if d.reverse = e then x else if d = e then x else y) = if d.Joins e then x else y := by
  by_cases hback : d.reverse = e
  · rw [if_pos hback, if_pos (show d.Joins e from Or.inr hback.symm)]
  · by_cases hforth : d = e
    · rw [if_neg hback, if_pos hforth, if_pos (show d.Joins e from Or.inl hforth.symm)]
    · have hother : ¬ d.Joins e := by
        rintro (rfl | rfl)
        · exact hforth rfl
        · exact hback rfl
      rw [if_neg hback, if_neg hforth, if_neg hother]

def cmp : Direction → Direction → Ordering := compareLex (compareOn sender) (compareOn receiver)

instance : Ord Direction := ⟨cmp⟩

instance : TransOrd Direction :=
  inferInstanceAs (TransCmp (compareLex (compareOn sender) (compareOn receiver)))

instance : LawfulEqOrd Direction where
  eq_of_compare := by
    intro d d' h
    have hfields : cmp d d' = .eq := h
    simp only [cmp, compareLex, compareOn, Ordering.then_eq_eq, LawfulEqOrd.compare_eq_iff_eq]
      at hfields
    cases d
    cases d'
    simp_all only

end Direction

structure MockNetwork where
  advertisingNodes : Map NodeId AdvertisingNode
  /-- Which flag each direction holds. -/
  connections : Map Direction Nat
  /-- Whether a connection is alive, by order of creation. -/
  alive : List Bool
  dataQueue : Map NodeId (List DataPacket)

namespace MockNetwork

def new : MockNetwork := ⟨∅, ∅, [], ∅⟩

variable (n : MockNetwork)

def startAdvertising (nodeId : NodeId) (address : String) (name : Option String) : MockNetwork :=
  { n with advertisingNodes := n.advertisingNodes.insert nodeId ⟨nodeId, address, name, -50, []⟩ }

def stopAdvertising (nodeId : NodeId) : MockNetwork :=
  { n with advertisingNodes := n.advertisingNodes.erase nodeId }

def discoverNodes (observer : NodeId) : List DiscoveredDevice :=
  ((n.advertisingNodes.toList.map Prod.snd).filter fun node => node.nodeId != observer).map
    fun node => ⟨node.address, node.name, node.rssi, true, some node.nodeId, node.advData⟩

def connect (sender receiver : NodeId) : Except BleError MockNetwork :=
  if receiver ∈ n.advertisingNodes then
    .ok { n with
      connections := (n.connections.insert ⟨sender, receiver⟩ n.alive.length).insert
        ⟨receiver, sender⟩ n.alive.length
      alive := n.alive ++ [true] }
  else .error (.connectionFailed ("Node " ++ receiver.display ++ " is not advertising"))

/-- Takes one direction out and kills what it held. -/
def remove (direction : Direction) : MockNetwork :=
  match n.connections[direction]? with
  | none => n
  | some flag =>
      { n with
        connections := n.connections.erase direction
        alive := n.alive.set flag false }

def disconnect (sender receiver : NodeId) : MockNetwork :=
  (n.remove ⟨sender, receiver⟩).remove ⟨receiver, sender⟩

def isConnected (sender receiver : NodeId) : Bool :=
  n.connections[(⟨sender, receiver⟩ : Direction)]?.any fun flag => n.alive.getD flag false

def sendData (sender receiver : NodeId) (data : Bytes) (now : Nat) : Except BleError MockNetwork :=
  if (⟨sender, receiver⟩ : Direction) ∈ n.connections then
    .ok { n with
      dataQueue := n.dataQueue.alter receiver fun packets =>
        some (packets.getD [] ++ [⟨sender, receiver, data, now⟩]) }
  else
    .error (.connectionFailed
      ("No connection from " ++ sender.display ++ " to " ++ receiver.display))

def receiveData (nodeId : NodeId) : MockNetwork × List DataPacket :=
  ({ n with dataQueue := n.dataQueue.erase nodeId }, n.dataQueue[nodeId]?.getD [])

def connectedPeers (nodeId : NodeId) : List NodeId :=
  (n.connections.keys.filter fun direction => direction.sender == nodeId).map Direction.receiver

def reset : MockNetwork := { n with advertisingNodes := ∅, connections := ∅, dataQueue := ∅ }

/-! ## Steps -/

inductive Action where
  | startAdvertising (nodeId : NodeId) (address : String) (name : Option String)
  | stopAdvertising (nodeId : NodeId)
  | connect (sender receiver : NodeId)
  | disconnect (sender receiver : NodeId)
  | sendData (sender receiver : NodeId) (data : Bytes) (now : Nat)
  | receiveData (nodeId : NodeId)
  | reset

/-- A call that fails changes nothing. -/
def step : Action → MockNetwork
  | .startAdvertising nodeId address name => n.startAdvertising nodeId address name
  | .stopAdvertising nodeId => n.stopAdvertising nodeId
  | .connect sender receiver => (n.connect sender receiver).toOption.getD n
  | .disconnect sender receiver => n.disconnect sender receiver
  | .sendData sender receiver data now => (n.sendData sender receiver data now).toOption.getD n
  | .receiveData nodeId => (n.receiveData nodeId).1
  | .reset => n.reset

def run (n : MockNetwork) (actions : List Action) : MockNetwork := LoggedRun.run step n actions

/-- The network after what has been done to it so far. -/
def after (past : List Action) : MockNetwork := new.run past

theorem after_append (past : List Action) (next : Action) :
    after (past ++ [next]) = (after past).step next := LoggedRun.run_append ..

/-! ## Connections -/

/-- Both directions hold one flag, which is still up; no two connections share one. -/
structure Wired (n : MockNetwork) : Prop where
  both : ∀ d : Direction, n.connections[d.reverse]? = n.connections[d]?
  up : ∀ (d : Direction) (flag : Nat), n.connections[d]? = some flag → n.alive[flag]? = some true
  own : ∀ (d d' : Direction) (flag : Nat), n.connections[d]? = some flag →
    n.connections[d']? = some flag → d' = d ∨ d' = d.reverse

variable {n}

theorem wired_new : new.Wired where
  both _ := rfl
  up _ _ h := absurd h getElem?_empty_ne_some
  own _ _ _ h := absurd h getElem?_empty_ne_some

/-- An entry is all that it takes to be connected. -/
theorem Wired.isConnected_iff (h : n.Wired) {sender receiver : NodeId} :
    n.isConnected sender receiver = true ↔ (⟨sender, receiver⟩ : Direction) ∈ n.connections := by
  rw [isConnected, ExtTreeMap.mem_iff_isSome_getElem?]
  cases hflag : n.connections[(⟨sender, receiver⟩ : Direction)]? with
  | none => simp
  | some flag => simp [h.up _ flag hflag]

theorem Wired.isConnected_comm (h : n.Wired) (sender receiver : NodeId) :
    n.isConnected receiver sender = n.isConnected sender receiver := by
  rw [isConnected, isConnected, ← h.both ⟨sender, receiver⟩]
  rfl

/-- What connecting makes of a direction, if the call succeeds. -/
theorem getElem?_connected (connections : Map Direction Nat) (d e : Direction) (flag : Nat) :
    ((connections.insert d flag).insert d.reverse flag)[e]? =
      if d.Joins e then some flag else connections[e]? := by
  rw [getElem?_insert_eq, getElem?_insert_eq, Direction.ite_joins]

theorem Wired.connected (h : n.Wired) (d : Direction) :
    Wired { n with
      connections := (n.connections.insert d n.alive.length).insert d.reverse n.alive.length
      alive := n.alive ++ [true] } where
  both e := by
    rw [getElem?_connected, getElem?_connected, h.both]
    simp only [d.joins_reverse]
  up e flag he := by
    rw [getElem?_connected] at he
    split at he
    · obtain rfl := Option.some.inj he
      exact List.getElem?_concat_length
    · have hup := h.up e flag he
      exact (List.getElem?_append_left (List.getElem?_eq_some_iff.mp hup).1).trans hup
  own e e' flag he he' := by
    have hfresh : ∀ e, n.connections[e]? ≠ some n.alive.length := fun e he =>
      Nat.lt_irrefl _ (List.getElem?_eq_some_iff.mp (h.up e _ he)).1
    rw [getElem?_connected] at he he'
    split at he
    · rename_i hd
      obtain rfl := Option.some.inj he
      split at he'
      · rename_i hd'
        rcases hd with rfl | rfl <;> rcases hd' with rfl | rfl <;> simp
      · exact absurd he' (hfresh e')
    · split at he'
      · obtain rfl := Option.some.inj he'
        exact absurd he (hfresh e)
      · exact h.own e e' flag he he'

theorem getElem?_remove (n : MockNetwork) (d e : Direction) :
    (n.remove d).connections[e]? = if d = e then none else n.connections[e]? := by
  unfold remove
  cases hflag : n.connections[d]? with
  | none =>
      by_cases he : d = e
      · rw [if_pos he, ← he, hflag]
      · rw [if_neg he]
  | some flag => exact getElem?_erase_eq ..

/-- Only the flag that it held goes down. -/
theorem alive_remove {d : Direction} {flag : Nat} (hup : n.alive[flag]? = some true)
    (hother : n.connections[d]? ≠ some flag) : (n.remove d).alive[flag]? = some true := by
  unfold remove
  cases hheld : n.connections[d]? with
  | none => exact hup
  | some held =>
      have hne : held ≠ flag := fun heq => hother (heq ▸ hheld)
      exact (List.getElem?_set_ne hne).trans hup

theorem getElem?_disconnect (n : MockNetwork) (d e : Direction) :
    (n.disconnect d.sender d.receiver).connections[e]? =
      if d.Joins e then none else n.connections[e]? := by
  show ((n.remove d).remove d.reverse).connections[e]? = _
  rw [getElem?_remove, getElem?_remove, Direction.ite_joins]

theorem Wired.disconnect (h : n.Wired) (d : Direction) :
    (n.disconnect d.sender d.receiver).Wired where
  both e := by
    rw [getElem?_disconnect, getElem?_disconnect, h.both]
    simp only [d.joins_reverse]
  up e flag he := by
    rw [getElem?_disconnect] at he
    split at he
    · cases he
    · rename_i hother
      have hkept : ∀ d', n.connections[d']? = some flag → d.Joins d' → False := by
        intro d' hd' hjoins
        refine hother ?_
        rcases h.own d' e flag hd' he with rfl | rfl
        · exact hjoins
        · exact (d.joins_reverse d').mpr hjoins
      refine alive_remove (alive_remove (h.up e flag he) fun hd => ?_) fun hd => ?_
      · exact hkept _ hd (Or.inl rfl)
      · rw [getElem?_remove] at hd
        split at hd
        · cases hd
        · exact hkept _ hd (Or.inr rfl)
  own e e' flag he he' := by
    rw [getElem?_disconnect] at he he'
    split at he
    · cases he
    · split at he'
      · cases he'
      · exact h.own e e' flag he he'

theorem Wired.step (h : n.Wired) (action : Action) : (n.step action).Wired := by
  cases action with
  | connect sender receiver =>
      show ((n.connect sender receiver).toOption.getD n).Wired
      unfold MockNetwork.connect
      split
      · exact h.connected ⟨sender, receiver⟩
      · exact h
  | disconnect sender receiver => exact h.disconnect ⟨sender, receiver⟩
  | sendData sender receiver data now =>
      show ((n.sendData sender receiver data now).toOption.getD n).Wired
      unfold MockNetwork.sendData
      split
      · exact ⟨h.both, h.up, h.own⟩
      · exact h
  | reset =>
      exact ⟨fun _ => rfl, fun _ _ he => absurd he getElem?_empty_ne_some,
        fun _ _ _ he => absurd he getElem?_empty_ne_some⟩
  | startAdvertising | stopAdvertising | receiveData => exact ⟨h.both, h.up, h.own⟩

theorem wired_after (past : List Action) : (after past).Wired :=
  LoggedRun.run_keeps wired_new fun _ action _ h => h.step action

/-! ## What the history says -/

/-- A call that connects the two, from either side. Its target has to advertise. -/
def Opens (d : Direction) (past : List Action) : Action → Prop
  | .connect sender receiver =>
      Direction.Joins ⟨sender, receiver⟩ d ∧ receiver ∈ (after past).advertisingNodes
  | _ => False

def Closes (d : Direction) (_past : List Action) : Action → Prop
  | .disconnect sender receiver => Direction.Joins ⟨sender, receiver⟩ d
  | .reset => True
  | _ => False

def Announces (nodeId : NodeId) (_past : List Action) : Action → Prop
  | .startAdvertising other _ _ => other = nodeId
  | _ => False

def Withdraws (nodeId : NodeId) (_past : List Action) : Action → Prop
  | .stopAdvertising other => other = nodeId
  | .reset => True
  | _ => False

theorem mem_connections_step (past : List Action) (next : Action) (d : Direction) :
    d ∈ ((after past).step next).connections ↔
      (d ∉ (after past).connections ∧ Opens d past next) ∨
        (d ∈ (after past).connections ∧ ¬ Closes d past next) := by
  cases next with
  | connect sender receiver =>
      show d ∈ (((after past).connect sender receiver).toOption.getD (after past)).connections ↔ _
      unfold connect
      split
      · rename_i hadvertising
        show d ∈ (((after past).connections.insert _ _).insert
          (Direction.reverse ⟨sender, receiver⟩) _) ↔ _
        rw [ExtTreeMap.mem_iff_isSome_getElem?, getElem?_connected,
          ExtTreeMap.mem_iff_isSome_getElem?]
        simp only [Opens, Closes, and_iff_left hadvertising]
        split
        · rename_i hjoins
          simp [hjoins, em']
        · rename_i hother
          simp [hother]
      · rename_i hsilent
        simp [Opens, Closes, hsilent, Except.toOption]
  | disconnect sender receiver =>
      show d ∈ ((after past).disconnect sender receiver).connections ↔ _
      rw [ExtTreeMap.mem_iff_isSome_getElem?, getElem?_disconnect _ ⟨sender, receiver⟩,
        ExtTreeMap.mem_iff_isSome_getElem?]
      simp only [Opens, Closes]
      split
      · rename_i hjoins
        simp [hjoins]
      · rename_i hother
        simp [hother]
  | sendData sender receiver data now =>
      show d ∈ (((after past).sendData sender receiver data now).toOption.getD
        (after past)).connections ↔ _
      unfold sendData
      split <;> simp [Opens, Closes, Except.toOption]
  | reset => simp [MockNetwork.step, reset, Opens, Closes]
  | startAdvertising | stopAdvertising | receiveData =>
      simp [MockNetwork.step, MockNetwork.startAdvertising, MockNetwork.stopAdvertising,
        MockNetwork.receiveData, Opens, Closes]

theorem mem_advertisingNodes_step (past : List Action) (next : Action) (nodeId : NodeId) :
    nodeId ∈ ((after past).step next).advertisingNodes ↔
      (nodeId ∉ (after past).advertisingNodes ∧ Announces nodeId past next) ∨
        (nodeId ∈ (after past).advertisingNodes ∧ ¬ Withdraws nodeId past next) := by
  cases next with
  | startAdvertising other address name =>
      simp only [MockNetwork.step, MockNetwork.startAdvertising, ExtTreeMap.mem_insert,
        LawfulEqOrd.compare_eq_iff_eq, Announces, Withdraws, not_false_eq_true, and_true]
      tauto
  | stopAdvertising other =>
      simp only [MockNetwork.step, MockNetwork.stopAdvertising, ExtTreeMap.mem_erase, ne_eq,
        LawfulEqOrd.compare_eq_iff_eq, Announces, Withdraws, and_false, false_or]
      exact and_comm
  | connect sender receiver =>
      show nodeId ∈ (((after past).connect sender receiver).toOption.getD
        (after past)).advertisingNodes ↔ _
      unfold connect
      split <;> simp [Announces, Withdraws, Except.toOption]
  | disconnect sender receiver =>
      have hsame : ∀ (n : MockNetwork) (d : Direction),
          (n.remove d).advertisingNodes = n.advertisingNodes := by
        intro n d
        unfold remove
        split <;> rfl
      show nodeId ∈ ((after past).disconnect sender receiver).advertisingNodes ↔ _
      rw [MockNetwork.disconnect, hsame, hsame]
      simp [Announces, Withdraws]
  | sendData sender receiver data now =>
      show nodeId ∈ (((after past).sendData sender receiver data now).toOption.getD
        (after past)).advertisingNodes ↔ _
      unfold sendData
      split <;> simp [Announces, Withdraws, Except.toOption]
  | reset => simp [MockNetwork.step, reset, Announces, Withdraws]
  | receiveData other => simp [MockNetwork.step, receiveData, Announces, Withdraws]

theorem mem_connectedPeers {sender receiver : NodeId} :
    receiver ∈ n.connectedPeers sender ↔ (⟨sender, receiver⟩ : Direction) ∈ n.connections := by
  simp only [connectedPeers, List.mem_map, List.mem_filter, ExtTreeMap.mem_keys, beq_iff_eq]
  constructor
  · rintro ⟨d, ⟨hmem, rfl⟩, rfl⟩
    exact hmem
  · intro hmem
    exact ⟨_, ⟨hmem, rfl⟩, rfl⟩

/-- After any calls: two nodes are connected exactly if a call connected them whose target was
advertising, and neither a disconnect from either side nor a reset came since; a node advertises
exactly if it started to and has not stopped since. Each sees the other as connected, and lists
it. -/
theorem network_summarises_history (past : List Action) (a b : NodeId) :
    ((after past).isConnected a b = true ↔ ∃ front action,
        ArrivedAt (fun past => (after past).isConnected a b = true) (Opens ⟨a, b⟩) (Closes ⟨a, b⟩)
          past front action) ∧
      (a ∈ (after past).advertisingNodes ↔ ∃ front action,
        ArrivedAt (fun past => a ∈ (after past).advertisingNodes) (Announces a) (Withdraws a)
          past front action) ∧
      (after past).isConnected b a = (after past).isConnected a b ∧
      (b ∈ (after past).connectedPeers a ↔ (after past).isConnected a b = true) := by
  have hentry : ∀ past, (after past).isConnected a b = true ↔
      (⟨a, b⟩ : Direction) ∈ (after past).connections := fun past =>
    (wired_after past).isConnected_iff
  refine ⟨?_, ?_, (wired_after past).isConnected_comm a b,
    mem_connectedPeers.trans (hentry past).symm⟩
  · refine @here_iff_arrived _ (fun past => (after past).isConnected a b = true) _ _ past ?_ ?_
    · rw [hentry]
      exact ExtTreeMap.not_mem_empty
    · intro past next
      rw [hentry, hentry, after_append]
      exact mem_connections_step past next ⟨a, b⟩
  · refine @here_iff_arrived _ (fun past => a ∈ (after past).advertisingNodes) _ _ past ?_ ?_
    · exact ExtTreeMap.not_mem_empty
    · intro past next
      rw [after_append]
      exact mem_advertisingNodes_step past next a

/-! ## Delivery -/

/-- What a step sends to a node. -/
def sent (node : NodeId) (n : MockNetwork) : Action → List DataPacket
  | .sendData sender receiver data now =>
      if receiver = node ∧ n.isConnected sender receiver = true then
        [⟨sender, receiver, data, now⟩]
      else []
  | _ => []

/-- What a step hands to a node. -/
def received (node : NodeId) (n : MockNetwork) : Action → List DataPacket
  | .receiveData nodeId => if nodeId = node then (n.receiveData nodeId).2 else []
  | _ => []

def pending (node : NodeId) (n : MockNetwork) : List DataPacket := n.dataQueue[node]?.getD []

theorem Wired.received_append_pending (h : n.Wired) (node : NodeId) {action : Action}
    (hreset : action ≠ .reset) :
    received node n action ++ pending node (n.step action) =
      pending node n ++ sent node n action := by
  cases action with
  | reset => exact absurd rfl hreset
  | sendData sender receiver data now =>
      show [] ++ pending node ((n.sendData sender receiver data now).toOption.getD n) = _
      rw [List.nil_append, sent]
      unfold sendData
      split
      · rename_i hentry
        have hconnected := h.isConnected_iff.mpr hentry
        show (n.dataQueue.alter receiver _)[node]?.getD [] = _
        rw [getElem?_alter_eq]
        by_cases hnode : receiver = node
        · rw [if_pos hnode, if_pos ⟨hnode, hconnected⟩, hnode]
          rfl
        · rw [if_neg hnode, if_neg fun hboth => hnode hboth.1, List.append_nil]
          rfl
      · rename_i hnone
        rw [if_neg fun hboth => hnone (h.isConnected_iff.mp hboth.2), List.append_nil]
        rfl
  | receiveData nodeId =>
      show (if nodeId = node then n.dataQueue[nodeId]?.getD [] else []) ++
        (n.dataQueue.erase nodeId)[node]?.getD [] = n.dataQueue[node]?.getD [] ++ []
      rw [getElem?_erase_eq]
      by_cases hnode : nodeId = node
      · subst hnode
        simp
      · simp [hnode]
  | connect sender receiver =>
      show [] ++ pending node ((n.connect sender receiver).toOption.getD n) = _
      unfold connect
      split <;> simp [pending, sent, Except.toOption]
  | disconnect sender receiver =>
      have hsame : ∀ (n : MockNetwork) (d : Direction), (n.remove d).dataQueue = n.dataQueue := by
        intro n d
        unfold remove
        split <;> rfl
      show [] ++ pending node (n.disconnect sender receiver) = _
      rw [pending, MockNetwork.disconnect, hsame, hsame]
      simp [pending, sent]
  | startAdvertising | stopAdvertising => exact (List.append_nil _).symm

/-- In every run a node is handed what was sent to it over its connections, in that order and each
packet once. What has not been handed over is still under way, unless the network was reset. -/
theorem delivery_is_exact (past : List Action) (node : NodeId) :
    List.Sublist (gathered MockNetwork.step (received node) new past ++ pending node (after past))
        (gathered MockNetwork.step (sent node) new past) ∧
      (.reset ∉ past →
        gathered MockNetwork.step (received node) new past ++ pending node (after past) =
          gathered MockNetwork.step (sent node) new past) := by
  constructor
  · show List.Sublist _ (pending node new ++ gathered MockNetwork.step (sent node) new past)
    refine gathered_sublist wired_new (fun n action h => h.step action) ?_
    intro n action h
    by_cases hreset : action = .reset
    · subst hreset
      exact List.nil_sublist _
    · rw [h.received_append_pending node hreset]
  · intro hreset
    show _ = pending node new ++ gathered MockNetwork.step (sent node) new past
    refine gathered_conserved wired_new (fun n action h => h.step action) ?_
    intro n action haction h
    exact h.received_append_pending node fun heq => hreset (heq ▸ haction)

end MockNetwork

end PeatBtle
