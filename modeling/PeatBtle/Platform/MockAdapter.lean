import Mathlib.Algebra.BigOperators.Ring.Finset
import Mathlib.Algebra.Order.BigOperators.Group.Finset
import PeatBtle.Peer
import PeatBtle.Phy.Strategy
import PeatBtle.Platform.MockNetwork

/-!
# Simulated adapters

Adapters on one simulated network. Each keeps a table of the connections it opened
itself and records what happens to it; the network knows of both ends. A callback is
what it has been told so far.
-/

namespace PeatBtle

open Std Wire MapMerge

inductive ConnectionEvent where
  | connected (mtu : UInt16) (phy : BlePhy)
  | disconnected (reason : DisconnectReason)
  | dataReceived (data : Bytes)
deriving DecidableEq

structure MockConnection where
  peerId : NodeId
  mtu : UInt16
  phy : BlePhy
  rssi : Int8
  alive : Bool
  establishedAt : Nat
deriving DecidableEq

structure MockAdapterConfig where
  maxMtu : UInt16 := 517
  maxConnections : UInt8 := 8
deriving DecidableEq

inductive MockEvent where
  | initialized
  | started
  | stopped
  | scanStarted
  | scanStopped
  | advertisingStarted
  | advertisingStopped
  | connected (peer : NodeId)
  | disconnected (peer : NodeId) (reason : DisconnectReason)
  | gattServiceRegistered
  | gattServiceUnregistered
deriving DecidableEq

structure MockBleAdapter where
  nodeId : NodeId
  config : MockAdapterConfig
  powered : Bool
  scanning : Bool
  advertising : Bool
  address : String
  discoveryCallback : Option (List DiscoveredDevice)
  connectionCallback : Option (List (NodeId × ConnectionEvent))
  connections : Map NodeId MockConnection
  events : List MockEvent

namespace MockConnection

def new (peerId : NodeId) (mtu : UInt16) (phy : BlePhy) (now : Nat) : MockConnection :=
  ⟨peerId, mtu, phy, -50, true, now⟩

end MockConnection

/-- What an event says of a peer. -/
def MockEvent.word? (peer : NodeId) : MockEvent → Option Bool
  | .connected other => if other = peer then some true else none
  | .disconnected other _ => if other = peer then some false else none
  | _ => none

namespace MockBleAdapter

/-- `{:02X}` of the byte at `shift`. -/
def hexByte (nodeId : NodeId) (shift : UInt32) : String :=
  String.ofList (hexDigits 2 ((nodeId >>> shift) &&& 0xFF).toNat)

def withConfig (nodeId : NodeId) (config : MockAdapterConfig) : MockBleAdapter where
  nodeId := nodeId
  config := config
  powered := false
  scanning := false
  advertising := false
  address := "00:11:22:" ++ hexByte nodeId 16 ++ ":" ++ hexByte nodeId 8 ++ ":" ++ hexByte nodeId 0
  discoveryCallback := none
  connectionCallback := none
  connections := ∅
  events := []

def new (nodeId : NodeId) : MockBleAdapter := withConfig nodeId {}

variable (a : MockBleAdapter) (n : MockNetwork)

def recordEvent (event : MockEvent) : MockBleAdapter := { a with events := a.events ++ [event] }

def clearEvents : MockBleAdapter := { a with events := [] }

def notify (peer : NodeId) (event : ConnectionEvent) : MockBleAdapter :=
  { a with connectionCallback := a.connectionCallback.map fun told => told ++ [(peer, event)] }

def setDiscoveryCallback (callback : Option (List DiscoveredDevice)) : MockBleAdapter :=
  { a with discoveryCallback := callback }

def setConnectionCallback (callback : Option (List (NodeId × ConnectionEvent))) :
    MockBleAdapter :=
  { a with connectionCallback := callback }

def triggerDiscovery : MockBleAdapter :=
  { a with discoveryCallback := a.discoveryCallback.map fun found =>
      found ++ n.discoverNodes a.nodeId }

def injectData (sender : NodeId) (data : Bytes) : MockBleAdapter :=
  a.notify sender (.dataReceived data)

def init : MockBleAdapter := { a with powered := true }.recordEvent .initialized

def start : MockBleAdapter := a.recordEvent .started

def stop : MockBleAdapter × MockNetwork :=
  ({ a with scanning := false, advertising := false }.recordEvent .stopped,
    n.stopAdvertising a.nodeId)

def startScan : MockBleAdapter := { a with scanning := true }.recordEvent .scanStarted

def stopScan : MockBleAdapter := { a with scanning := false }.recordEvent .scanStopped

def startAdvertising : MockBleAdapter × MockNetwork :=
  ({ a with advertising := true }.recordEvent .advertisingStarted,
    n.startAdvertising a.nodeId a.address (some "PEAT"))

def stopAdvertising : MockBleAdapter × MockNetwork :=
  ({ a with advertising := false }.recordEvent .advertisingStopped, n.stopAdvertising a.nodeId)

/-- The connection is stored, the callback told and the event recorded. -/
def opened (peerId : NodeId) (conn : MockConnection) : MockBleAdapter :=
  ({ a with connections := a.connections.insert peerId conn }.notify peerId
    (.connected conn.mtu conn.phy)).recordEvent (.connected peerId)

def connect (peerId : NodeId) (now : Nat) :
    Except BleError (MockBleAdapter × MockNetwork × MockConnection) :=
  if a.config.maxConnections.toNat ≤ a.connections.size then
    .error (.connectionFailed "Maximum connections reached")
  else
    match n.connect a.nodeId peerId with
    | .error e => .error e
    | .ok network =>
        let conn := MockConnection.new peerId a.config.maxMtu .le1M now
        .ok (a.opened peerId conn, network, conn)

def simulateDisconnect (peerId : NodeId) (reason : DisconnectReason) :
    MockBleAdapter × MockNetwork :=
  let removed := { a with connections := a.connections.erase peerId }
  ((removed.notify peerId (.disconnected reason)).recordEvent (.disconnected peerId reason),
    n.disconnect a.nodeId peerId)

def disconnect (peerId : NodeId) : MockBleAdapter × MockNetwork :=
  a.simulateDisconnect n peerId .localRequest

def getConnection (peerId : NodeId) : Option MockConnection :=
  a.connections[peerId]?.filter MockConnection.alive

def peerCount : Nat := (a.connections.toList.filter fun entry => entry.2.alive).length

def connectedPeers : List NodeId :=
  (a.connections.toList.filter fun entry => entry.2.alive).map Prod.fst

def writeToPeer (peerId : NodeId) (data : Bytes) (now : Nat) : Except BleError MockNetwork :=
  n.sendData a.nodeId peerId data now

def registerGattService : MockBleAdapter := a.recordEvent .gattServiceRegistered

def unregisterGattService : MockBleAdapter := a.recordEvent .gattServiceUnregistered

/-! ## Calls -/

inductive Call where
  | init
  | start
  | stop
  | startScan
  | stopScan
  | startAdvertising
  | stopAdvertising
  | setDiscoveryCallback (callback : Option (List DiscoveredDevice))
  | setConnectionCallback (callback : Option (List (NodeId × ConnectionEvent)))
  | triggerDiscovery
  | injectData (sender : NodeId) (data : Bytes)
  | connect (peerId : NodeId) (now : Nat)
  | simulateDisconnect (peerId : NodeId) (reason : DisconnectReason)
  | writeToPeer (peerId : NodeId) (data : Bytes) (now : Nat)
  | registerGattService
  | unregisterGattService
  | clearEvents

/-- The adapter and the network after a call. One that fails changes neither. -/
def call : Call → MockBleAdapter × MockNetwork
  | .init => (a.init, n)
  | .start => (a.start, n)
  | .stop => a.stop n
  | .startScan => (a.startScan, n)
  | .stopScan => (a.stopScan, n)
  | .startAdvertising => a.startAdvertising n
  | .stopAdvertising => a.stopAdvertising n
  | .setDiscoveryCallback callback => (a.setDiscoveryCallback callback, n)
  | .setConnectionCallback callback => (a.setConnectionCallback callback, n)
  | .triggerDiscovery => (a.triggerDiscovery n, n)
  | .injectData sender data => (a.injectData sender data, n)
  | .connect peerId now =>
      match a.connect n peerId now with
      | .error _ => (a, n)
      | .ok (adapter, network, _) => (adapter, network)
  | .simulateDisconnect peerId reason => a.simulateDisconnect n peerId reason
  | .writeToPeer peerId data now => (a, (a.writeToPeer n peerId data now).toOption.getD n)
  | .registerGattService => (a.registerGattService, n)
  | .unregisterGattService => (a.unregisterGattService, n)
  | .clearEvents => (a.clearEvents, n)

/-- What a call does to the network. -/
def Call.reaches (a : MockBleAdapter) : Call → List MockNetwork.Action
  | .stop | .stopAdvertising => [.stopAdvertising a.nodeId]
  | .startAdvertising => [.startAdvertising a.nodeId a.address (some "PEAT")]
  | .connect peerId _ =>
      if a.config.maxConnections.toNat ≤ a.connections.size then [] else [.connect a.nodeId peerId]
  | .simulateDisconnect peerId _ => [.disconnect a.nodeId peerId]
  | .writeToPeer peerId data now => [.sendData a.nodeId peerId data now]
  | _ => []

/-- Opening a connection needs room in the adapter's table and a peer that advertises. -/
def CanConnect (peerId : NodeId) : Prop :=
  a.connections.size < a.config.maxConnections.toNat ∧ peerId ∈ n.advertisingNodes

instance (peerId : NodeId) : Decidable (a.CanConnect n peerId) :=
  inferInstanceAs (Decidable (_ ∧ _))

variable {a n}

theorem call_connect (peerId : NodeId) (now : Nat) :
    a.call n (.connect peerId now) =
      if a.CanConnect n peerId then
        (a.opened peerId (.new peerId a.config.maxMtu .le1M now),
          n.step (.connect a.nodeId peerId))
      else (a, n) := by
  unfold call CanConnect MockNetwork.step connect MockNetwork.connect
  by_cases hfull : a.config.maxConnections.toNat ≤ a.connections.size
  · simp [hfull, Nat.not_lt.mpr hfull]
  · by_cases hadvertising : peerId ∈ n.advertisingNodes
    · simp [hfull, Nat.lt_of_not_le hfull, hadvertising, Except.toOption, MockConnection.new]
    · simp [hfull, hadvertising]

/-- A call does to the network what it says. -/
theorem snd_call (a : MockBleAdapter) (n : MockNetwork) (c : Call) :
    (a.call n c).2 = n.run (c.reaches a) := by
  cases c with
  | connect peerId now =>
      rw [call_connect, Call.reaches]
      by_cases hfull : a.config.maxConnections.toNat ≤ a.connections.size
      · rw [if_neg fun h => Nat.not_lt.mpr hfull h.1, if_pos hfull]
        rfl
      · rw [if_neg hfull]
        split
        · rfl
        · rename_i hcannot
          have hsilent : peerId ∉ n.advertisingNodes := fun h =>
            hcannot ⟨Nat.lt_of_not_le hfull, h⟩
          show n = ((n.connect a.nodeId peerId).toOption.getD n)
          rw [MockNetwork.connect, if_neg hsilent]
          rfl
  | _ => rfl

/-! ## The table -/

/-- Every stored connection is alive, and there are no more than allowed. -/
structure Tidy (a : MockBleAdapter) : Prop where
  live : ∀ (peer : NodeId) (conn : MockConnection), a.connections[peer]? = some conn →
    conn.peerId = peer ∧ conn.alive = true
  room : a.connections.size ≤ a.config.maxConnections.toNat

theorem tidy_withConfig (nodeId : NodeId) (config : MockAdapterConfig) :
    (withConfig nodeId config).Tidy where
  live _ _ h := absurd h getElem?_empty_ne_some
  room := Nat.zero_le _

theorem Tidy.opened (h : a.Tidy) {peerId : NodeId} {conn : MockConnection}
    (hpeer : conn.peerId = peerId) (hlive : conn.alive = true)
    (hroom : a.connections.size < a.config.maxConnections.toNat) : (a.opened peerId conn).Tidy where
  live peer other hother := by
    have hinsert : (a.connections.insert peerId conn)[peer]? = some other := hother
    rw [getElem?_insert_eq] at hinsert
    split at hinsert
    · rename_i heq
      obtain rfl := Option.some.inj hinsert
      exact ⟨hpeer.trans heq, hlive⟩
    · exact h.live peer other hinsert
  room := ExtTreeMap.size_insert_le.trans hroom

theorem Tidy.disconnected (h : a.Tidy) (n : MockNetwork) (peerId : NodeId)
    (reason : DisconnectReason) : (a.simulateDisconnect n peerId reason).1.Tidy where
  live peer conn hconn := by
    have herase : (a.connections.erase peerId)[peer]? = some conn := hconn
    rw [getElem?_erase_eq] at herase
    split at herase
    · cases herase
    · exact h.live peer conn herase
  room := ExtTreeMap.size_erase_le.trans h.room

theorem Tidy.call (h : a.Tidy) (n : MockNetwork) (c : Call) : (a.call n c).1.Tidy := by
  cases c with
  | connect peerId now =>
      rw [call_connect]
      split
      · rename_i hcan
        exact h.opened rfl rfl hcan.1
      · exact h
  | simulateDisconnect peerId reason => exact h.disconnected n peerId reason
  | _ => exact ⟨h.live, h.room⟩

theorem Tidy.connectedPeers_eq (h : a.Tidy) : a.connectedPeers = a.connections.keys := by
  rw [connectedPeers, List.filter_eq_self.mpr, ExtTreeMap.map_fst_toList_eq_keys]
  intro entry hentry
  exact (h.live _ _ (ExtTreeMap.mem_toList_iff_getElem?_eq_some.mp hentry)).2

theorem peerCount_eq (a : MockBleAdapter) : a.peerCount = a.connectedPeers.length :=
  (List.length_map ..).symm

theorem Tidy.mem_connectedPeers (h : a.Tidy) {peer : NodeId} :
    peer ∈ a.connectedPeers ↔ peer ∈ a.connections := by
  rw [h.connectedPeers_eq, ExtTreeMap.mem_keys]

theorem Tidy.length_connectedPeers (h : a.Tidy) :
    a.connectedPeers.length = a.connections.size := by
  rw [h.connectedPeers_eq, ExtTreeMap.length_keys]

/-- What the events last said of a peer. -/
def lastWord (a : MockBleAdapter) (peer : NodeId) : Option Bool :=
  (a.events.filterMap (MockEvent.word? peer)).getLast?

theorem lastWord_append {b : MockBleAdapter} {event : MockEvent}
    (hevents : b.events = a.events ++ [event]) (peer : NodeId) :
    b.lastWord peer = (event.word? peer).or (a.lastWord peer) := by
  rw [lastWord, hevents, List.filterMap_append, List.getLast?_append, lastWord]
  cases h : event.word? peer <;> simp [h]

/-- The events tell who is in the table. -/
def Recorded (a : MockBleAdapter) : Prop :=
  ∀ peer, peer ∈ a.connections ↔ a.lastWord peer = some true

theorem recorded_withConfig (nodeId : NodeId) (config : MockAdapterConfig) :
    (withConfig nodeId config).Recorded := fun _ =>
  iff_of_false ExtTreeMap.not_mem_empty (by simp [lastWord, withConfig])

theorem Recorded.opened (h : a.Recorded) (peerId : NodeId) (conn : MockConnection) :
    (a.opened peerId conn).Recorded := by
  intro peer
  rw [lastWord_append (a := a) rfl, MockEvent.word?]
  show peer ∈ a.connections.insert peerId conn ↔ _
  rw [ExtTreeMap.mem_insert, LawfulEqOrd.compare_eq_iff_eq, h peer]
  by_cases hpeer : peerId = peer <;> simp [hpeer]

theorem Recorded.disconnected (h : a.Recorded) (n : MockNetwork) (peerId : NodeId)
    (reason : DisconnectReason) : (a.simulateDisconnect n peerId reason).1.Recorded := by
  intro peer
  rw [lastWord_append (a := a) rfl, MockEvent.word?]
  show peer ∈ a.connections.erase peerId ↔ _
  rw [ExtTreeMap.mem_erase, ne_eq, LawfulEqOrd.compare_eq_iff_eq, h peer]
  by_cases hpeer : peerId = peer <;> simp [hpeer]

theorem Recorded.other {b : MockBleAdapter} {event : MockEvent} (h : a.Recorded)
    (htable : b.connections = a.connections) (hevents : b.events = a.events ++ [event])
    (hquiet : ∀ peer, event.word? peer = none) : b.Recorded := by
  intro peer
  rw [lastWord_append hevents, hquiet, htable]
  exact h peer

theorem Recorded.call (h : a.Recorded) (n : MockNetwork) {c : Call} (hclear : c ≠ .clearEvents) :
    (a.call n c).1.Recorded := by
  cases c with
  | clearEvents => exact absurd rfl hclear
  | connect peerId now =>
      rw [call_connect]
      split
      · exact h.opened peerId _
      · exact h
  | simulateDisconnect peerId reason => exact h.disconnected n peerId reason
  | setDiscoveryCallback | setConnectionCallback | triggerDiscovery | injectData
  | writeToPeer => exact h
  | _ => exact h.other rfl rfl fun _ => rfl

end MockBleAdapter

/-! ## Adapters on one network -/

/-- Which node each adapter is for, and how it is configured. -/
structure MockFleet (ι : Type) where
  nodeId : ι → NodeId
  config : ι → MockAdapterConfig

namespace MockFleet

open MockBleAdapter

variable {ι : Type}

structure State (ι : Type) where
  network : MockNetwork
  adapter : ι → MockBleAdapter

inductive Action (ι : Type) where
  | call (i : ι) (c : Call)
  | receiveData (nodeId : NodeId)

def start (F : MockFleet ι) : State ι := ⟨.new, fun i => .withConfig (F.nodeId i) (F.config i)⟩

/-- One of the two opened the connection and still has it in its table. -/
def Owned (s : State ι) (d : Direction) : Prop :=
  ∃ i, (s.adapter i).nodeId = d.sender ∧ d.receiver ∈ (s.adapter i).connections ∨
    (s.adapter i).nodeId = d.receiver ∧ d.sender ∈ (s.adapter i).connections

theorem Owned.frame {s t : State ι} {d : Direction} (h : Owned s d)
    (hid : ∀ i, (t.adapter i).nodeId = (s.adapter i).nodeId)
    (hkept : ∀ i, ∀ peer ∈ (s.adapter i).connections,
      Direction.Joins ⟨(s.adapter i).nodeId, peer⟩ d → peer ∈ (t.adapter i).connections) :
    Owned t d := by
  obtain ⟨i, ⟨hnode, hmem⟩ | ⟨hnode, hmem⟩⟩ := h
  · refine ⟨i, Or.inl ⟨(hid i).trans hnode, hkept i _ hmem (Or.inl ?_)⟩⟩
    rw [hnode]
  · refine ⟨i, Or.inr ⟨(hid i).trans hnode, hkept i _ hmem (Or.inr ?_)⟩⟩
    rw [hnode]
    rfl

structure Consistent (F : MockFleet ι) (s : State ι) : Prop where
  ids : ∀ i, (s.adapter i).nodeId = F.nodeId i ∧ (s.adapter i).config = F.config i
  tidy : ∀ i, (s.adapter i).Tidy
  reached : ∃ past, s.network = MockNetwork.after past
  owned : ∀ d ∈ s.network.connections, Owned s d

theorem consistent_start (F : MockFleet ι) : F.Consistent F.start where
  ids _ := ⟨rfl, rfl⟩
  tidy i := tidy_withConfig (F.nodeId i) (F.config i)
  reached := ⟨[], rfl⟩
  owned _ hd := absurd hd ExtTreeMap.not_mem_empty

variable [DecidableEq ι]

def step (s : State ι) : Action ι → State ι
  | .call i c =>
      let after := (s.adapter i).call s.network c
      ⟨after.2, Function.update s.adapter i after.1⟩
  | .receiveData nodeId => { s with network := (s.network.receiveData nodeId).1 }

def after (F : MockFleet ι) (actions : List (Action ι)) : State ι :=
  LoggedRun.run step F.start actions

/-- What the adapters have done to the network so far. -/
def reaches (s : State ι) : Action ι → List MockNetwork.Action
  | .call i c => c.reaches (s.adapter i)
  | .receiveData nodeId => [.receiveData nodeId]

theorem network_step (s : State ι) (action : Action ι) :
    (step s action).network = s.network.run (reaches s action) := by
  cases action with
  | call i c => exact snd_call ..
  | receiveData nodeId => rfl

theorem call_ids (a : MockBleAdapter) (n : MockNetwork) (c : Call) :
    (a.call n c).1.nodeId = a.nodeId ∧ (a.call n c).1.config = a.config := by
  cases c with
  | connect peerId now =>
      rw [call_connect]
      split <;> exact ⟨rfl, rfl⟩
  | _ => exact ⟨rfl, rfl⟩

/-- A property of adapters that calls keep is kept by the one that acts and by all others. -/
theorem forall_adapter_call {P : ι → MockBleAdapter → Prop} {s : State ι} {i : ι} {c : Call}
    (h : ∀ j, P j (s.adapter j)) (hcall : P i ((s.adapter i).call s.network c).1) :
    ∀ j, P j ((step s (.call i c)).adapter j) := by
  intro j
  show P j (Function.update s.adapter i _ j)
  by_cases hj : j = i
  · subst hj
    rwa [Function.update_self]
  · rw [Function.update_of_ne hj]
    exact h j

/-- What a call leaves connected was opened by it, or was there and has not been closed. -/
theorem mem_connections_call {past : List MockNetwork.Action} {a : MockBleAdapter} {c : Call}
    {d : Direction} (hd : d ∈ (a.call (.after past) c).2.connections) :
    (∃ peerId now, c = .connect peerId now ∧ a.CanConnect (.after past) peerId ∧
        Direction.Joins ⟨a.nodeId, peerId⟩ d) ∨
      (d ∈ (MockNetwork.after past).connections ∧ ∀ peerId reason,
        c = .simulateDisconnect peerId reason → ¬ Direction.Joins ⟨a.nodeId, peerId⟩ d) := by
  cases c with
  | connect peerId now =>
      rw [call_connect] at hd
      split at hd
      · rename_i hcan
        rcases (MockNetwork.mem_connections_step past _ d).mp hd with ⟨-, hjoins, -⟩ | ⟨hold, -⟩
        · exact Or.inl ⟨peerId, now, rfl, hcan, hjoins⟩
        · exact Or.inr ⟨hold, fun _ _ h => by cases h⟩
      · exact Or.inr ⟨hd, fun _ _ h => by cases h⟩
  | simulateDisconnect peerId reason =>
      rcases (MockNetwork.mem_connections_step past (.disconnect a.nodeId peerId) d).mp hd with
        ⟨-, hopens⟩ | ⟨hold, hstays⟩
      · exact hopens.elim
      · refine Or.inr ⟨hold, fun _ _ h => ?_⟩
        obtain ⟨rfl, -⟩ := Call.simulateDisconnect.inj h
        exact hstays
  | writeToPeer peerId data now =>
      rcases (MockNetwork.mem_connections_step past (.sendData a.nodeId peerId data now) d).mp hd
        with ⟨-, hopens⟩ | ⟨hold, -⟩
      · exact hopens.elim
      · exact Or.inr ⟨hold, fun _ _ h => by cases h⟩
  | _ => exact Or.inr ⟨hd, fun _ _ h => by cases h⟩

/-- Only a disconnect takes a peer out of the table. -/
theorem mem_table_call {a : MockBleAdapter} {peer : NodeId} (h : peer ∈ a.connections)
    (n : MockNetwork) {c : Call} (hstays : ∀ reason, c ≠ .simulateDisconnect peer reason) :
    peer ∈ (a.call n c).1.connections := by
  cases c with
  | connect peerId now =>
      rw [call_connect]
      split
      · exact ExtTreeMap.mem_insert.mpr (Or.inr h)
      · exact h
  | simulateDisconnect peerId reason =>
      refine ExtTreeMap.mem_erase.mpr ⟨fun heq => ?_, h⟩
      rw [LawfulEqOrd.compare_eq_iff_eq] at heq
      exact hstays reason (heq ▸ rfl)
  | _ => exact h

theorem Consistent.call {F : MockFleet ι} {s : State ι} (h : F.Consistent s) (i : ι) (c : Call) :
    F.Consistent (step s (.call i c)) := by
  obtain ⟨past, hpast⟩ := h.reached
  have hid : ∀ j, ((step s (.call i c)).adapter j).nodeId = (s.adapter j).nodeId :=
    @forall_adapter_call _ _ (fun j b => b.nodeId = (s.adapter j).nodeId) s i c (fun _ => rfl)
      (call_ids ..).1
  refine ⟨?_, ?_, ?_, ?_⟩
  · refine forall_adapter_call (P := fun j b => b.nodeId = F.nodeId j ∧ b.config = F.config j)
      h.ids ⟨?_, ?_⟩
    · exact (call_ids ..).1.trans (h.ids i).1
    · exact (call_ids ..).2.trans (h.ids i).2
  · exact forall_adapter_call (P := fun _ b => b.Tidy) h.tidy ((h.tidy i).call s.network c)
  · refine ⟨past ++ c.reaches (s.adapter i), ?_⟩
    rw [network_step, hpast]
    exact (LoggedRun.run_append ..).symm
  · intro d hd
    have hcall : d ∈ ((s.adapter i).call (.after past) c).2.connections := hpast ▸ hd
    rcases mem_connections_call hcall with ⟨peerId, now, rfl, hcan, hjoins⟩ | ⟨hold, hopen⟩
    · have hpeer : peerId ∈ ((step s (.call i (.connect peerId now))).adapter i).connections := by
        show peerId ∈ (Function.update s.adapter i _ i).connections
        rw [Function.update_self, hpast, call_connect, if_pos hcan]
        exact ExtTreeMap.mem_insert_self
      refine ⟨i, ?_⟩
      rw [hid]
      rcases hjoins with rfl | rfl
      · exact Or.inl ⟨rfl, hpeer⟩
      · exact Or.inr ⟨rfl, hpeer⟩
    · refine (h.owned d (hpast ▸ hold)).frame hid fun j peer hpeer hjoins => ?_
      show peer ∈ (Function.update s.adapter i _ j).connections
      by_cases hj : j = i
      · subst hj
        rw [Function.update_self]
        exact mem_table_call hpeer _ fun reason heq => hopen peer reason heq hjoins
      · rwa [Function.update_of_ne hj]

theorem Consistent.step {F : MockFleet ι} {s : State ι} (h : F.Consistent s) (action : Action ι) :
    F.Consistent (step s action) := by
  cases action with
  | call i c => exact h.call i c
  | receiveData nodeId =>
      obtain ⟨past, hpast⟩ := h.reached
      refine ⟨h.ids, h.tidy, ⟨past ++ [.receiveData nodeId], ?_⟩, h.owned⟩
      rw [MockNetwork.after_append, ← hpast]
      rfl

theorem consistent_after (F : MockFleet ι) (actions : List (Action ι)) :
    F.Consistent (F.after actions) :=
  LoggedRun.run_keeps F.consistent_start fun _ action _ h => h.step action

theorem recorded_after (F : MockFleet ι) {i : ι} {actions : List (Action ι)}
    (hclear : .call i .clearEvents ∉ actions) : ((F.after actions).adapter i).Recorded := by
  refine @LoggedRun.run_keeps _ _ step (fun s => (s.adapter i).Recorded) _ _
    (recorded_withConfig (F.nodeId i) (F.config i)) fun s action haction h => ?_
  cases action with
  | receiveData nodeId => exact h
  | call j c =>
      show (Function.update s.adapter j _ i).Recorded
      by_cases hi : i = j
      · subst hi
        rw [Function.update_self]
        exact h.call s.network fun heq => hclear (heq ▸ haction)
      · rwa [Function.update_of_ne hi]

omit [DecidableEq ι] in
/-- Every connection of the network takes a place in some table. -/
theorem Consistent.size_le [Fintype ι] {F : MockFleet ι} {s : State ι} (h : F.Consistent s) :
    s.network.connections.size ≤ 2 * ∑ i, (s.adapter i).connections.size := by
  let opened (i : ι) : Finset Direction :=
    (s.adapter i).connections.keys.toFinset.image fun peer => ⟨(s.adapter i).nodeId, peer⟩
  let accepted (i : ι) : Finset Direction :=
    (s.adapter i).connections.keys.toFinset.image fun peer => ⟨peer, (s.adapter i).nodeId⟩
  have hcard : ∀ i, (opened i ∪ accepted i).card ≤ 2 * (s.adapter i).connections.size := by
    intro i
    have hkeys : (s.adapter i).connections.keys.toFinset.card ≤ (s.adapter i).connections.size :=
      (List.toFinset_card_le _).trans_eq ExtTreeMap.length_keys
    have hopened : (opened i).card ≤ _ := Finset.card_image_le
    have haccepted : (accepted i).card ≤ _ := Finset.card_image_le
    have hunion := Finset.card_union_le (opened i) (accepted i)
    omega
  calc s.network.connections.size
    _ ≤ (Finset.univ.biUnion fun i => opened i ∪ accepted i).card := by
        refine size_le_card fun d hd => ?_
        obtain ⟨i, ⟨hnode, hmem⟩ | ⟨hnode, hmem⟩⟩ := h.owned d hd
        · refine Finset.mem_biUnion.mpr ⟨i, Finset.mem_univ i, Finset.mem_union_left _ ?_⟩
          exact Finset.mem_image.mpr ⟨d.receiver, by simpa using hmem, by rw [hnode]⟩
        · refine Finset.mem_biUnion.mpr ⟨i, Finset.mem_univ i, Finset.mem_union_right _ ?_⟩
          exact Finset.mem_image.mpr ⟨d.sender, by simpa using hmem, by rw [hnode]⟩
    _ ≤ ∑ i, (opened i ∪ accepted i).card := Finset.card_biUnion_le
    _ ≤ ∑ i, 2 * (s.adapter i).connections.size := Finset.sum_le_sum fun i _ => hcard i
    _ = 2 * ∑ i, (s.adapter i).connections.size := (Finset.mul_sum ..).symm

/-- In every run of any adapters on one network: no adapter holds more connections than it may,
all of them alive; unless its events were cleared they tell who its peers are; two connected
nodes have an adapter on one side that opened the connection; and so there are never more
connections than the tables have room for. -/
theorem adapters_are_consistent [Fintype ι] (F : MockFleet ι) (actions : List (Action ι)) :
    (∀ i, ((F.after actions).adapter i).peerCount ≤ (F.config i).maxConnections.toNat ∧
        ∀ peer, peer ∈ ((F.after actions).adapter i).connectedPeers ↔
          peer ∈ ((F.after actions).adapter i).connections) ∧
      (∀ i, .call i .clearEvents ∉ actions → ∀ peer,
        peer ∈ ((F.after actions).adapter i).connectedPeers ↔
          ((F.after actions).adapter i).lastWord peer = some true) ∧
      (∀ a b, (F.after actions).network.isConnected a b = true → ∃ i,
        F.nodeId i = a ∧ b ∈ ((F.after actions).adapter i).connectedPeers ∨
          F.nodeId i = b ∧ a ∈ ((F.after actions).adapter i).connectedPeers) ∧
      (F.after actions).network.connections.size ≤ 2 * ∑ i, (F.config i).maxConnections.toNat := by
  have h := F.consistent_after actions
  have hroom : ∀ i, ((F.after actions).adapter i).connections.size ≤
      (F.config i).maxConnections.toNat := fun i => (h.ids i).2 ▸ (h.tidy i).room
  refine ⟨fun i => ⟨?_, fun peer => (h.tidy i).mem_connectedPeers⟩, fun i hclear peer => ?_,
    fun a b hconnected => ?_, ?_⟩
  · rw [peerCount_eq, (h.tidy i).length_connectedPeers]
    exact hroom i
  · exact (h.tidy i).mem_connectedPeers.trans (F.recorded_after hclear peer)
  · obtain ⟨past, hpast⟩ := h.reached
    have hentry : (⟨a, b⟩ : Direction) ∈ (F.after actions).network.connections := by
      rw [hpast] at hconnected ⊢
      exact (MockNetwork.wired_after past).isConnected_iff.mp hconnected
    obtain ⟨i, howned⟩ := h.owned _ hentry
    refine ⟨i, ?_⟩
    rwa [(h.tidy i).mem_connectedPeers, (h.tidy i).mem_connectedPeers, ← (h.ids i).1]
  · exact h.size_le.trans (Nat.mul_le_mul_left 2 (Finset.sum_le_sum fun i _ => hroom i))

end MockFleet

end PeatBtle
