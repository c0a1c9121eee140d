import PeatBtle.Data.TtlFlood
import PeatBtle.Gossip.RandomFanout
import PeatBtle.Mesh.Echo

/-!
# A network of relaying nodes

The platform sends what a node is to relay to the targets that the node names. Any number of
messages are under way at once and copies arrive in any order. If the fan-out is no
limit, a message has reached everyone by the time the last copy of it has arrived.
-/

namespace PeatBtle

open Wire

attribute [local instance] SeenMessageCache.transCmp_messageId

def PeerManager.getConnectedPeers (m : PeerManager) : List PeatPeer :=
  m.getPeers.filter PeatPeer.isConnected

variable {D : Type}

/-- The peers to send on to, as the gossip strategy chooses them. A list that is no slice of
memory does not come up. -/
def PeatMesh.getRelayTargets (m : PeatMesh D) (strategy : RandomFanout) (clock : Nat → Option Nat)
    (excludePeer : Option NodeId) : Option (List PeatPeer) :=
  let connected := m.peerManager.getConnectedPeers
  let filtered := match excludePeer with
    | some exclude => connected.filter fun p => p.nodeId ≠ exclude
    | none => connected
  if h : 8 * filtered.length < USize.size / 2 then strategy.selectPeers clock ⟨filtered, h⟩
  else none

/-- Bytes on their way. -/
structure Packet where
  source : NodeId
  receiver : NodeId
  data : Bytes

def Packet.copy? (messageId : MessageId) (p : Packet) : Option (TtlFlood.Copy NodeId) :=
  (RelayEnvelope.decode p.data).bind fun envelope =>
    if envelope.messageId = messageId then some ⟨p.source, p.receiver, envelope.hopCount.toNat⟩
    else none

/-- The nodes, and what is between them. -/
structure FloodNetwork (D : Type) where
  nodes : NodeId → PeatMesh D
  packets : List Packet

namespace FloodNetwork

/-- One copy for each target. -/
def address (source : NodeId) (data : Bytes) (targets : Option (List PeatPeer)) : List Packet :=
  (targets.getD []).map fun peer => ⟨source, peer.nodeId, data⟩

/-- What the platform of a node sends on behind `process_relay_envelope`. -/
def relayPackets (strategy : RandomFanout) (node : NodeId) (m : PeatMesh D)
    (clock : Nat → Option Nat) (source : NodeId) (decision : Option PeatMesh.RelayDecision) :
    List Packet :=
  match decision.bind fun d => if d.shouldRelay then d.relayEnvelope else none with
  | none => []
  | some envelope =>
      address node envelope.encode (m.getRelayTargets strategy clock (some source))

inductive Action where
  | wrap (node : NodeId) (messageId : MessageId) (payload : Bytes) (clock : Nat → Option Nat)
  | deliver (pick : Nat) (nowMs : UInt64) (clock : Nat → Option Nat)

section Step

variable (strategy : NodeId → RandomFanout)

def step (s : FloodNetwork D) : Action → FloodNetwork D
  | .wrap node messageId payload clock =>
      let m := s.nodes node
      let targets := m.getRelayTargets (strategy node) clock none
      { s with packets := s.packets ++ address node (m.wrapForRelay messageId payload) targets }
  | .deliver pick nowMs clock =>
      match s.packets[pick]? with
      | none => s
      | some p =>
          let processed := (s.nodes p.receiver).processRelayEnvelope p.data p.source nowMs
          { nodes := Function.update s.nodes p.receiver processed.1
            packets := s.packets.eraseIdx pick ++
              relayPackets (strategy p.receiver) p.receiver processed.1 clock p.source processed.2 }

end Step

/-- What a node made of an envelope: a duplicate has no decision. -/
structure Reception where
  node : NodeId
  messageId : MessageId
  decision : Option PeatMesh.RelayDecision

/-- Deliveries are noted. -/
def note (s : FloodNetwork D) : Action → Option Reception
  | .wrap .. => none
  | .deliver pick nowMs _ =>
      s.packets[pick]?.bind fun p => (RelayEnvelope.decode p.data).map fun envelope =>
        ⟨p.receiver, envelope.messageId,
          ((s.nodes p.receiver).processRelayEnvelope p.data p.source nowMs).2⟩

/-- Who accepted the message, in this order. -/
def acceptedBy (messageId : MessageId) (log : List Reception) : List NodeId :=
  log.filterMap fun r => if r.messageId = messageId ∧ r.decision.isSome then some r.node else none

/-- How many copies of the message were delivered. -/
def deliveries (messageId : MessageId) (log : List Reception) : Nat :=
  (log.filter fun r => r.messageId = messageId).length

/-- The messages that the node has accepted. -/
def announced (node : NodeId) (log : List Reception) : List MessageId :=
  log.filterMap fun r => if r.node = node ∧ r.decision.isSome then some r.messageId else none

/-- The copies of the message that are on their way. -/
def copiesOf (messageId : MessageId) (packets : List Packet) : List (TtlFlood.Copy NodeId) :=
  packets.filterMap (Packet.copy? messageId)

end FloodNetwork

/-! ## One arrival -/

namespace SeenMessageCache

variable {c : SeenMessageCache} {messageId other : MessageId} {origin : NodeId} {nowMs : UInt64}

theorem mem_markSeen (hsize : c.cache.size ≤ maxCacheSize)
    (h : messageId ∈ (c.markSeen other origin nowMs).1.cache) :
    messageId = other ∨ messageId ∈ c.cache := by
  obtain ⟨fresh, hcleaned, hmarked⟩ := c.markSeen_cases other origin nowMs
  have hfresh : messageId ∈ fresh.cache → messageId ∈ c.cache := by
    rcases hcleaned with rfl | rfl
    · exact id
    · exact mem_of_mem_cleanup hsize
  rw [hmarked] at h
  split at h
  · exact Or.inr (hfresh (Std.ExtTreeMap.mem_modify.mp h))
  · rw [Std.ExtTreeMap.mem_insert, Std.LawfulEqCmp.compare_eq_iff_eq] at h
    exact h.imp Eq.symm hfresh

variable (origin nowMs) in
theorem markSeen_new (hsize : c.cache.size ≤ maxCacheSize) (h : messageId ∉ c.cache) :
    (c.markSeen messageId origin nowMs).2 = true := by
  obtain ⟨fresh, hcleaned, hmarked⟩ := c.markSeen_cases messageId origin nowMs
  have hfresh : messageId ∉ fresh.cache := by
    rcases hcleaned with rfl | rfl
    · exact h
    · exact fun hmem => h (mem_of_mem_cleanup hsize hmem)
  have hunseen : ¬ fresh.hasSeen messageId = true := by
    rwa [hasSeen, Std.ExtTreeMap.contains_iff_mem]
  rw [hmarked, if_neg hunseen]

/-- A message that was announced is in the cache and no news. -/
theorem Remembers.markSeen_old {keys : Finset MessageId} {times : List UInt64}
    {past : List MessageId} (h : Remembers keys times past c) (hcard : keys.card ≤ maxCacheSize)
    (hwindow : ∀ a ∈ times, ∀ b ∈ times, b.toNat < a.toNat + c.ttlMs.toNat)
    (hold : messageId ∈ past) (hkey : messageId ∈ keys) (hnow : nowMs ∈ times) :
    (c.markSeen messageId origin nowMs).2 = false := by
  have hnodup := (h.markSeen hcard hwindow hkey origin hnow).nodup
  by_contra hnew
  rw [Bool.not_eq_false] at hnew
  rw [hnew, if_pos rfl, List.nodup_append] at hnodup
  exact hnodup.2.2 messageId hold messageId (List.mem_singleton_self _) rfl

end SeenMessageCache

namespace PeatMesh

variable {m : PeatMesh D} {data : Bytes} {envelope : RelayEnvelope} {sourcePeer : NodeId}
  {nowMs : UInt64}

/-- An envelope marks its message and leaves the peers alone. -/
structure Processed (m m' : PeatMesh D) (decision : Option RelayDecision)
    (envelope : RelayEnvelope) (nowMs : UInt64) : Prop where
  seenCache : m'.seenCache =
    (m.seenCache.markSeen envelope.messageId envelope.originNode nowMs).1
  peerManager : m'.peerManager = m.peerManager
  config : m'.config = m.config
  decision : decision =
    if (m.seenCache.markSeen envelope.messageId envelope.originNode nowMs).2 then
      some (m.relayDecision envelope) else none

theorem processed_of_decode (hdecode : RelayEnvelope.decode data = some envelope) :
    Processed m (m.processRelayEnvelope data sourcePeer nowMs).1
      (m.processRelayEnvelope data sourcePeer nowMs).2 envelope nowMs := by
  obtain ⟨graph, hgraph⟩ := m.noteRelayPath_eq sourcePeer envelope nowMs
  unfold processRelayEnvelope
  rw [hdecode]
  simp only [hgraph]
  exact ⟨rfl, rfl, rfl, rfl⟩

theorem processRelayEnvelope_of_invalid (hdecode : RelayEnvelope.decode data = none) :
    m.processRelayEnvelope data sourcePeer nowMs = (m, none) := by
  unfold processRelayEnvelope
  rw [hdecode]

/-- What a relaying node sends on. -/
theorem relayDecision_forward (hrelay : m.config.enableRelay = true) :
    (if (m.relayDecision envelope).shouldRelay then (m.relayDecision envelope).relayEnvelope
      else none) = envelope.relay := by
  unfold relayDecision RelayEnvelope.relay
  rw [hrelay]
  cases envelope.canRelay <;> rfl

/-- With room for all, the strategy selects all. -/
theorem getRelayTargets_eq {strategy : RandomFanout} (clock : Nat → Option Nat)
    (hfits : 8 * m.peerManager.getConnectedPeers.length < USize.size / 2)
    (hfanout : m.peerManager.getConnectedPeers.length ≤ strategy.fanout.toNat)
    (excludePeer : Option NodeId) : m.getRelayTargets strategy clock excludePeer =
      some (m.peerManager.getConnectedPeers.filter fun p => some p.nodeId ≠ excludePeer) := by
  have hselect : ∀ (peers : List PeatPeer) (h : 8 * peers.length < USize.size / 2),
      peers.length ≤ strategy.fanout.toNat →
      strategy.selectPeers clock ⟨peers, h⟩ = some peers :=
    fun _ _ hle => RandomFanout.selectPeers_of_le clock hle
  unfold getRelayTargets
  cases excludePeer with
  | none =>
      have hall : (m.peerManager.getConnectedPeers.filter fun p => some p.nodeId ≠ none) =
          m.peerManager.getConnectedPeers := by simp
      rw [hall]
      dsimp only
      rw [dif_pos hfits]
      exact hselect _ hfits hfanout
  | some exclude =>
      have hlength := List.length_filter_le (fun p : PeatPeer => decide (p.nodeId ≠ exclude))
        m.peerManager.getConnectedPeers
      have hfits' : 8 * (m.peerManager.getConnectedPeers.filter fun p =>
          decide (p.nodeId ≠ exclude)).length < USize.size / 2 := by omega
      simp only [ne_eq, Option.some_inj]
      rw [dif_pos hfits']
      exact hselect _ hfits' (hlength.trans hfanout)

end PeatMesh

/-! ## A run -/

namespace FloodNetwork

/-- The node relays, and its connected peers are its neighbours, which are no more than it selects
at once. -/
structure Linked (strategy : NodeId → RandomFanout) (net : TtlFlood.Net NodeId) (node : NodeId)
    (m : PeatMesh D) : Prop where
  peers : m.peerManager.getConnectedPeers.map PeatPeer.nodeId = net.neighbours node
  relays : m.config.enableRelay = true
  fits : 8 * (net.neighbours node).length < USize.size / 2
  fanout : (net.neighbours node).length ≤ (strategy node).fanout.toNat

section Links

variable {strategy : NodeId → RandomFanout} {net : TtlFlood.Net NodeId} {node : NodeId}
  {m m' : PeatMesh D}

theorem Linked.congr (h : Linked strategy net node m) (hpeers : m'.peerManager = m.peerManager)
    (hconfig : m'.config = m.config) : Linked strategy net node m' where
  peers := by rw [hpeers, h.peers]
  relays := by rw [hconfig, h.relays]
  fits := h.fits
  fanout := h.fanout

theorem Linked.address_eq (h : Linked strategy net node m) (clock : Nat → Option Nat)
    (data : Bytes) (exclude : Option NodeId) :
    address node data (m.getRelayTargets (strategy node) clock exclude) =
      ((net.neighbours node).filter fun w => some w ≠ exclude).map fun w => ⟨node, w, data⟩ := by
  have hlength : m.peerManager.getConnectedPeers.length = (net.neighbours node).length := by
    rw [← h.peers, List.length_map]
  rw [PeatMesh.getRelayTargets_eq clock (hlength ▸ h.fits) (hlength ▸ h.fanout), address,
    Option.getD_some, ← h.peers, List.filter_map, List.map_map]
  rfl

theorem copiesOf_append (messageId : MessageId) (front back : List Packet) :
    copiesOf messageId (front ++ back) = copiesOf messageId front ++ copiesOf messageId back :=
  List.filterMap_append ..

/-- Copies of one envelope to several receivers. -/
theorem copiesOf_addressed {envelope : RelayEnvelope} {data : Bytes} {messageId : MessageId}
    (hdecode : RelayEnvelope.decode data = some envelope) (receivers : List NodeId) :
    copiesOf messageId (receivers.map fun w => ⟨node, w, data⟩) =
      if envelope.messageId = messageId then
        receivers.map fun w => ⟨node, w, envelope.hopCount.toNat⟩ else [] := by
  induction receivers with
  | nil => simp [copiesOf]
  | cons w receivers ih =>
      rw [List.map_cons, copiesOf, List.filterMap_cons, ← copiesOf, ih, Packet.copy?]
      simp only [hdecode, Option.bind_some]
      by_cases hid : envelope.messageId = messageId <;> simp [hid]

/-- Taking a packet away takes its copy away. -/
theorem copiesOf_eraseIdx {packets : List Packet} {pick : Nat} {p : Packet}
    (messageId : MessageId) (hp : packets[pick]? = some p) : (copiesOf messageId packets).Perm
      ((p.copy? messageId).toList ++ copiesOf messageId (packets.eraseIdx pick)) := by
  obtain ⟨hlt, rfl⟩ := List.getElem?_eq_some_iff.mp hp
  have hperm := (List.getElem_cons_eraseIdx_perm hlt).symm.filterMap (Packet.copy? messageId)
  rw [List.filterMap_cons] at hperm
  unfold copiesOf
  cases h : packets[pick].copy? messageId <;> rw [h] at hperm <;> exact hperm

end Links

theorem mem_acceptedBy {messageId : MessageId} {log : List Reception} {node : NodeId} :
    node ∈ acceptedBy messageId log ↔ messageId ∈ announced node log := by
  simp only [acceptedBy, announced, List.mem_filterMap, Option.ite_none_right_eq_some,
    Option.some_inj]
  constructor
  · rintro ⟨r, hr, ⟨rfl, hdecision⟩, rfl⟩
    exact ⟨r, hr, ⟨rfl, hdecision⟩, rfl⟩
  · rintro ⟨r, hr, ⟨rfl, hdecision⟩, rfl⟩
    exact ⟨r, hr, ⟨rfl, hdecision⟩, rfl⟩

/-- The nodes are linked as the network says, and each remembers what it has accepted: among the
messages of `keys`, and for arrivals at the given times. -/
structure Ready (strategy : NodeId → RandomFanout) (net : TtlFlood.Net NodeId)
    (keys : Finset MessageId) (times : List UInt64) (messageId : MessageId)
    (log : List Reception) (nodes : NodeId → PeatMesh D) : Prop where
  linked : ∀ v ∈ net.nodes, Linked strategy net v (nodes v)
  window : ∀ v ∈ net.nodes, ∀ a ∈ times, ∀ b ∈ times,
    b.toNat < a.toNat + (nodes v).seenCache.ttlMs.toNat
  remembers : ∀ v ∈ net.nodes,
    SeenMessageCache.Remembers keys times (announced v log) (nodes v).seenCache
  known : ∀ v ∈ net.nodes, messageId ∈ (nodes v).seenCache.cache → messageId ∈ announced v log

/-- Moreover, the envelope `base` was sent by `origin`, and its copies spread. -/
structure UnderWay (strategy : NodeId → RandomFanout) (net : TtlFlood.Net NodeId)
    (keys : Finset MessageId) (times : List UInt64) (origin : NodeId) (base : RelayEnvelope)
    (log : List Reception) (s : FloodNetwork D) : Prop where
  ready : Ready strategy net keys times base.messageId log s.nodes
  keyed : ∀ p ∈ s.packets, ∀ e, RelayEnvelope.decode p.data = some e → e.messageId ∈ keys
  copies : ∀ p ∈ s.packets, ∀ e, RelayEnvelope.decode p.data = some e →
    e.messageId = base.messageId → e = { base with hopCount := e.hopCount }
  spread : TtlFlood.Spread net origin (copiesOf base.messageId s.packets)
    (acceptedBy base.messageId log) (deliveries base.messageId log)
  carried : ∀ r ∈ log, r.messageId = base.messageId → ∀ d ∈ r.decision,
    d.payload = base.payload ∧ d.originNode = base.originNode

theorem announced_append (node : NodeId) (log : List Reception) (r : Reception) :
    announced node (log ++ [r]) =
      announced node log ++ if r.node = node ∧ r.decision.isSome then [r.messageId] else [] := by
  rw [announced, List.filterMap_append, ← announced, List.filterMap_cons, List.filterMap_nil]
  split <;> split <;> simp_all

theorem acceptedBy_append (messageId : MessageId) (log : List Reception) (r : Reception) :
    acceptedBy messageId (log ++ [r]) = acceptedBy messageId log ++
      if r.messageId = messageId ∧ r.decision.isSome then [r.node] else [] := by
  rw [acceptedBy, List.filterMap_append, ← acceptedBy, List.filterMap_cons, List.filterMap_nil]
  split <;> split <;> simp_all

theorem deliveries_append (messageId : MessageId) (log : List Reception) (r : Reception) :
    deliveries messageId (log ++ [r]) =
      deliveries messageId log + if r.messageId = messageId then 1 else 0 := by
  rw [deliveries, List.filter_append, List.length_append, ← deliveries]
  by_cases h : r.messageId = messageId <;> simp [h]

section Deliver

variable {strategy : NodeId → RandomFanout} {net : TtlFlood.Net NodeId} {keys : Finset MessageId}
  {times : List UInt64} {origin : NodeId} {base envelope : RelayEnvelope} {log : List Reception}
  {s : FloodNetwork D} {pick : Nat} {nowMs : UInt64} {clock : Nat → Option Nat} {p : Packet}

/-- A packet that is delivered and leads to nothing. -/
theorem UnderWay.erase (h : UnderWay strategy net keys times origin base log s)
    (hp : s.packets[pick]? = some p) (hcopy : p.copy? base.messageId = none) :
    UnderWay strategy net keys times origin base log
      { s with packets := s.packets.eraseIdx pick } where
  ready := h.ready
  keyed q hq := h.keyed q (List.mem_of_mem_eraseIdx hq)
  copies q hq := h.copies q (List.mem_of_mem_eraseIdx hq)
  spread := by
    have hperm := copiesOf_eraseIdx base.messageId hp
    rw [hcopy] at hperm
    exact h.spread.perm hperm
  carried := h.carried

theorem hop_of_relayPackets {strategy : RandomFanout} {node source : NodeId} {m m' : PeatMesh D}
    {decision : Option PeatMesh.RelayDecision} {q : Packet}
    (hdecision : ∀ d ∈ decision, d = m.relayDecision envelope)
    (hq : q ∈ relayPackets strategy node m' clock source decision) :
    ∃ next, envelope.hop = some next ∧ RelayEnvelope.decode q.data = some next := by
  unfold relayPackets at hq
  split at hq
  · exact absurd hq List.not_mem_nil
  · rename_i relayed hrelayed
    obtain ⟨d, hd, hforward⟩ := Option.bind_eq_some_iff.mp hrelayed
    obtain rfl := hdecision d hd
    have hrelay : envelope.relay = some relayed := by
      unfold PeatMesh.relayDecision at hforward
      unfold RelayEnvelope.relay
      cases hcan : envelope.canRelay <;> cases henable : m.config.enableRelay <;>
        simp_all [RelayEnvelope.relay]
    obtain ⟨peer, -, rfl⟩ := List.mem_map.mp hq
    refine ⟨_, ?_, relayed.decode_encode⟩
    rw [RelayEnvelope.hop, hrelay, Option.bind_some, RelayEnvelope.decode_encode]

theorem messageId_of_hop {next : RelayEnvelope} (h : envelope.hop = some next) :
    next.messageId = envelope.messageId := by
  rw [RelayEnvelope.hop_eq, Option.ite_none_right_eq_some] at h
  rw [← Option.some.inj h.2]

theorem hop_copy {next : RelayEnvelope} (hshort : base.payload.length < 2 ^ 32)
    (hcopy : envelope = { base with hopCount := envelope.hopCount })
    (h : envelope.hop = some next) : next = { base with hopCount := next.hopCount } := by
  rw [RelayEnvelope.hop_eq, Option.ite_none_right_eq_some] at h
  rw [← Option.some.inj h.2, hcopy]
  simp only [Nat.mod_eq_of_lt hshort, List.take_length]

/-- What is on its way after an arrival is what was, or was sent on. -/
theorem UnderWay.packets_deliver {strategy' : RandomFanout} {node source : NodeId}
    {m m' : PeatMesh D} {decision : Option PeatMesh.RelayDecision} {q : Packet}
    (h : UnderWay strategy net keys times origin base log s)
    (hshort : base.payload.length < 2 ^ 32) (hp : p ∈ s.packets)
    (hdecode : RelayEnvelope.decode p.data = some envelope)
    (hdecision : ∀ d ∈ decision, d = m.relayDecision envelope)
    (hq : q ∈ s.packets.eraseIdx pick ++ relayPackets strategy' node m' clock source decision) :
    ∀ e, RelayEnvelope.decode q.data = some e → e.messageId ∈ keys ∧
      (e.messageId = base.messageId → e = { base with hopCount := e.hopCount }) := by
  intro e he
  rcases List.mem_append.mp hq with hold | hnew
  · have hmem := List.mem_of_mem_eraseIdx hold
    exact ⟨h.keyed q hmem e he, h.copies q hmem e he⟩
  · obtain ⟨next, hhop, hnext⟩ := hop_of_relayPackets hdecision hnew
    obtain rfl := Option.some.inj (hnext.symm.trans he)
    rw [messageId_of_hop hhop]
    refine ⟨h.keyed p hp envelope hdecode, fun hid => ?_⟩
    exact hop_copy hshort (h.copies p hp envelope hdecode hid) hhop

/-- An arrival is remembered where it happens. -/
theorem Ready.receive {nodes : NodeId → PeatMesh D} {messageId : MessageId} {node : NodeId}
    {m' : PeatMesh D} {decision : Option PeatMesh.RelayDecision}
    (h : Ready strategy net keys times messageId log nodes) (hcard : keys.card ≤ maxCacheSize)
    (hkey : envelope.messageId ∈ keys) (hnow : nowMs ∈ times)
    (hm : PeatMesh.Processed (nodes node) m' decision envelope nowMs) :
    Ready strategy net keys times messageId (log ++ [⟨node, envelope.messageId, decision⟩])
      (Function.update nodes node m') := by
  have hsome : decision.isSome =
      ((nodes node).seenCache.markSeen envelope.messageId envelope.originNode nowMs).2 := by
    rw [hm.decision]
    split
    · rename_i hnew
      exact hnew.symm
    · rename_i hold
      exact (Bool.eq_false_iff.mpr hold).symm
  refine ⟨fun v hv => ?_, fun v hv => ?_, fun v hv => ?_, fun v hv hmem => ?_⟩
  · by_cases hnode : v = node
    · subst hnode
      rw [Function.update_self]
      exact (h.linked v hv).congr hm.peerManager hm.config
    · rw [Function.update_of_ne hnode]
      exact h.linked v hv
  · by_cases hnode : v = node
    · subst hnode
      rw [Function.update_self, hm.seenCache, SeenMessageCache.ttlMs_markSeen]
      exact h.window v hv
    · rw [Function.update_of_ne hnode]
      exact h.window v hv
  · by_cases hnode : v = node
    · subst hnode
      have hmarked := (h.remembers v hv).markSeen hcard (h.window v hv) hkey envelope.originNode hnow
      rw [Function.update_self, hm.seenCache, announced_append, hsome]
      simpa using hmarked
    · rw [Function.update_of_ne hnode, announced_append,
        if_neg (fun heq => hnode heq.1.symm), List.append_nil]
      exact h.remembers v hv
  · by_cases hnode : v = node
    · subst hnode
      have hsize := (MapMerge.size_le_card (h.remembers v hv).mem_keys).trans hcard
      rw [Function.update_self, hm.seenCache] at hmem
      rw [announced_append, List.mem_append]
      by_cases hold : messageId ∈ (nodes v).seenCache.cache
      · exact Or.inl (h.known v hv hold)
      · obtain rfl := (SeenMessageCache.mem_markSeen hsize hmem).resolve_right hold
        have hnew := SeenMessageCache.markSeen_new envelope.originNode nowMs hsize hold
        rw [← hsome] at hnew
        rw [if_pos ⟨rfl, hnew⟩]
        exact Or.inr (List.mem_singleton_self _)
    · rw [Function.update_of_ne hnode] at hmem
      rw [announced_append, List.mem_append]
      exact Or.inl (h.known v hv hmem)

/-- What is sent on of another message is no copy of this one. -/
theorem copiesOf_relayPackets_other {strategy' : RandomFanout} {node source : NodeId}
    {m m' : PeatMesh D} {decision : Option PeatMesh.RelayDecision} {messageId : MessageId}
    (hother : envelope.messageId ≠ messageId)
    (hdecision : ∀ d ∈ decision, d = m.relayDecision envelope) :
    copiesOf messageId (relayPackets strategy' node m' clock source decision) = [] := by
  refine List.filterMap_eq_nil_iff.mpr fun q hq => ?_
  obtain ⟨next, hhop, hnext⟩ := hop_of_relayPackets hdecision hq
  rw [Packet.copy?, hnext, Option.bind_some, if_neg]
  rwa [messageId_of_hop hhop]

variable (envelope clock) in
/-- A copy that is accepted is passed on to the other neighbours, as long as it has hops left. -/
theorem copiesOf_relayPackets {node : NodeId} (source : NodeId) {m m' : PeatMesh D}
    (hlinked : Linked strategy net node m) (hpeers : m'.peerManager = m.peerManager)
    (hconfig : m'.config = m.config) :
    copiesOf envelope.messageId (relayPackets (strategy node) node m' clock source
        (some (m.relayDecision envelope))) =
      TtlFlood.forwarded net envelope.maxHops.toNat ⟨source, node, envelope.hopCount.toNat⟩ := by
  have hlt : envelope.canRelay = true ↔ envelope.hopCount.toNat < envelope.maxHops.toNat := by
    rw [RelayEnvelope.canRelay, decide_eq_true_eq, UInt8.lt_iff_toNat_lt]
  unfold relayPackets TtlFlood.forwarded
  rw [Option.bind_some, PeatMesh.relayDecision_forward hlinked.relays, RelayEnvelope.relay]
  dsimp only
  by_cases hcan : envelope.canRelay = true
  · have hcount : (envelope.hopCount + 1).toNat = envelope.hopCount.toNat + 1 := by
      have hmax := envelope.maxHops.toNat_lt
      have hhops := hlt.mp hcan
      rw [UInt8.toNat_add]
      change (envelope.hopCount.toNat + 1) % 256 = _
      omega
    rw [if_pos hcan, if_pos (hlt.mp hcan)]
    dsimp only
    rw [(hlinked.congr hpeers hconfig).address_eq,
      copiesOf_addressed (RelayEnvelope.decode_encode _)]
    dsimp only
    rw [if_pos rfl, hcount]
    simp
  · rw [if_neg hcan, if_neg (mt hlt.mpr hcan)]
    rfl

/-- The decision for an envelope that is not in the cache, and none for one that is. -/
theorem decision_of_processed {m m' : PeatMesh D} {decision : Option PeatMesh.RelayDecision}
    (hm : PeatMesh.Processed m m' decision envelope nowMs) :
    ∀ d ∈ decision, d = m.relayDecision envelope := by
  intro d hd
  rw [hm.decision, Option.mem_def, Option.ite_none_right_eq_some] at hd
  exact (Option.some.inj hd.2).symm

theorem payload_relayDecision (m : PeatMesh D) (envelope : RelayEnvelope) :
    (m.relayDecision envelope).payload = envelope.payload ∧
      (m.relayDecision envelope).originNode = envelope.originNode := by
  unfold PeatMesh.relayDecision
  split <;> exact ⟨rfl, rfl⟩

section Arrival

variable {m' : PeatMesh D} {decision : Option PeatMesh.RelayDecision}
  (h : UnderWay strategy net keys times origin base log s) (hcard : keys.card ≤ maxCacheSize)
  (hp : s.packets[pick]? = some p) (hdecode : RelayEnvelope.decode p.data = some envelope)
  (hm : PeatMesh.Processed (s.nodes p.receiver) m' decision envelope nowMs)
include h hcard hp hdecode hm

omit hcard in
/-- Another message does not bear on this one. -/
theorem UnderWay.spread_other (hother : envelope.messageId ≠ base.messageId) :
    TtlFlood.Spread net origin
      (copiesOf base.messageId (s.packets.eraseIdx pick ++
        relayPackets (strategy p.receiver) p.receiver m' clock p.source decision))
      (acceptedBy base.messageId (log ++ [⟨p.receiver, envelope.messageId, decision⟩]))
      (deliveries base.messageId (log ++ [⟨p.receiver, envelope.messageId, decision⟩])) := by
  have hcopy : p.copy? base.messageId = none := by
    rw [Packet.copy?, hdecode, Option.bind_some, if_neg hother]
  have herased := (h.erase hp hcopy).spread
  rw [copiesOf_append, copiesOf_relayPackets_other hother (decision_of_processed hm),
    acceptedBy_append, deliveries_append, if_neg (fun hid => hother hid.1), if_neg hother,
    List.append_nil, List.append_nil]
  exact herased

/-- A copy of this message is passed on by a node that does not have it, and dropped by one that
has it. -/
theorem UnderWay.spread_copy (hlimit : net.nodes.card ≤ base.maxHops.toNat + 1)
    (horigin : origin ∈ net.nodes) (hnow : nowMs ∈ times)
    (hid : envelope.messageId = base.messageId) :
    TtlFlood.Spread net origin
      (copiesOf base.messageId (s.packets.eraseIdx pick ++
        relayPackets (strategy p.receiver) p.receiver m' clock p.source decision))
      (acceptedBy base.messageId (log ++ [⟨p.receiver, envelope.messageId, decision⟩]))
      (deliveries base.messageId (log ++ [⟨p.receiver, envelope.messageId, decision⟩])) := by
  have hmem := List.mem_of_getElem? hp
  have hcopy : p.copy? base.messageId =
      some ⟨p.source, p.receiver, envelope.hopCount.toNat⟩ := by
    rw [Packet.copy?, hdecode, Option.bind_some, if_pos hid]
  have hperm := copiesOf_eraseIdx base.messageId hp
  rw [hcopy] at hperm
  have hnode : p.receiver ∈ net.nodes :=
    h.spread.receiver_mem _ (hperm.mem_iff.mpr (List.mem_append_left _ (List.mem_singleton_self _)))
  have hkey := h.keyed p hmem envelope hdecode
  have hremembers := h.ready.remembers _ hnode
  have hsize := (MapMerge.size_le_card hremembers.mem_keys).trans hcard
  rw [copiesOf_append, acceptedBy_append, deliveries_append, if_pos hid]
  by_cases hknown : p.receiver ∈ acceptedBy base.messageId log
  · have hold : envelope.messageId ∈ announced p.receiver log := hid ▸ mem_acceptedBy.mp hknown
    have hnone : decision = none := by
      rw [hm.decision, hremembers.markSeen_old hcard (h.ready.window _ hnode) hold hkey hnow,
        if_neg Bool.false_ne_true]
    rw [hnone, if_neg (fun hsome => Bool.false_ne_true hsome.2), List.append_nil]
    exact (List.append_nil (copiesOf base.messageId (s.packets.eraseIdx pick))).symm ▸
      h.spread.drop hperm hknown
  · have hunseen : envelope.messageId ∉ (s.nodes p.receiver).seenCache.cache := fun hseen =>
      hknown (mem_acceptedBy.mpr (h.ready.known _ hnode (hid ▸ hseen)))
    have hsome : decision = some ((s.nodes p.receiver).relayDecision envelope) := by
      rw [hm.decision, SeenMessageCache.markSeen_new _ _ hsize hunseen, if_pos rfl]
    have hmax : envelope.maxHops = base.maxHops := by
      rw [h.copies p hmem envelope hdecode hid]
    have hout := copiesOf_relayPackets envelope clock p.source (h.ready.linked _ hnode)
      hm.peerManager hm.config
    rw [← hid] at hperm hknown ⊢
    rw [hsome, if_pos ⟨rfl, rfl⟩, hout, hmax]
    exact (hid ▸ h.spread).accept hlimit horigin hperm hknown

theorem UnderWay.receive (hshort : base.payload.length < 2 ^ 32)
    (hlimit : net.nodes.card ≤ base.maxHops.toNat + 1) (horigin : origin ∈ net.nodes)
    (hnow : nowMs ∈ times) : UnderWay strategy net keys times origin base
      (log ++ [⟨p.receiver, envelope.messageId, decision⟩])
      ⟨Function.update s.nodes p.receiver m', s.packets.eraseIdx pick ++
        relayPackets (strategy p.receiver) p.receiver m' clock p.source decision⟩ := by
  have hmem := List.mem_of_getElem? hp
  have hdecision := decision_of_processed hm
  have hpackets : ∀ q ∈ s.packets.eraseIdx pick ++
      relayPackets (strategy p.receiver) p.receiver m' clock p.source decision,
      ∀ e, RelayEnvelope.decode q.data = some e → e.messageId ∈ keys ∧
        (e.messageId = base.messageId → e = { base with hopCount := e.hopCount }) :=
    fun q hq => h.packets_deliver hshort hmem hdecode hdecision hq
  refine ⟨h.ready.receive hcard (h.keyed p hmem envelope hdecode) hnow hm,
    fun q hq e he => (hpackets q hq e he).1, fun q hq e he => (hpackets q hq e he).2, ?_, ?_⟩
  · by_cases hid : envelope.messageId = base.messageId
    · exact h.spread_copy hcard hp hdecode hm hlimit horigin hnow hid
    · exact h.spread_other hp hdecode hm hid
  · intro r hr hid d hd
    rcases List.mem_append.mp hr with hr | hr
    · exact h.carried r hr hid d hd
    · obtain rfl := List.mem_singleton.mp hr
      obtain rfl := hdecision d hd
      have hcopy := h.copies p hmem envelope hdecode hid
      obtain ⟨hpayload, horiginNode⟩ := payload_relayDecision (s.nodes p.receiver) envelope
      rw [hpayload, horiginNode, hcopy]
      exact ⟨rfl, rfl⟩

end Arrival

theorem UnderWay.deliver (h : UnderWay strategy net keys times origin base log s)
    (hcard : keys.card ≤ maxCacheSize) (hshort : base.payload.length < 2 ^ 32)
    (hlimit : net.nodes.card ≤ base.maxHops.toNat + 1) (horigin : origin ∈ net.nodes)
    (hnow : nowMs ∈ times) : UnderWay strategy net keys times origin base
      (log ++ (note s (.deliver pick nowMs clock)).toList)
      (s.step strategy (.deliver pick nowMs clock)) := by
  cases hp : s.packets[pick]? with
  | none =>
      simp only [step, note, hp, Option.bind_none, Option.toList_none, List.append_nil]
      exact h
  | some p =>
      simp only [step, note, hp, Option.bind_some]
      cases hdecode : RelayEnvelope.decode p.data with
      | none =>
          have hcopy : p.copy? base.messageId = none := by rw [Packet.copy?, hdecode]; rfl
          rw [PeatMesh.processRelayEnvelope_of_invalid hdecode, Function.update_eq_self]
          simpa [relayPackets] using h.erase hp hcopy
      | some envelope =>
          exact h.receive hcard hp hdecode (PeatMesh.processed_of_decode hdecode) hshort hlimit
            horigin hnow

end Deliver

/-! ## The whole flood -/

def Action.time? : Action → Option UInt64
  | .wrap .. => none
  | .deliver _ nowMs _ => some nowMs

/-- The message that is handed to the network. -/
def Action.wraps? : Action → Option MessageId
  | .wrap _ messageId _ _ => some messageId
  | .deliver .. => none

/-- The message has not come up yet, the nodes are linked as the network says, and they have heard
of messages of `keys` only; no seen cache forgets within the given times. -/
structure Unheard (strategy : NodeId → RandomFanout) (net : TtlFlood.Net NodeId)
    (keys : Finset MessageId) (times : List UInt64) (messageId : MessageId)
    (s : FloodNetwork D) : Prop where
  linked : ∀ v ∈ net.nodes, Linked strategy net v (s.nodes v)
  window : ∀ v ∈ net.nodes, ∀ a ∈ times, ∀ b ∈ times,
    b.toNat < a.toNat + (s.nodes v).seenCache.ttlMs.toNat
  cached : ∀ v ∈ net.nodes, ∀ id ∈ (s.nodes v).seenCache.cache, id ∈ keys ∧ id ≠ messageId
  packets : ∀ p ∈ s.packets, ∀ e, RelayEnvelope.decode p.data = some e →
    e.messageId ∈ keys ∧ e.messageId ≠ messageId

section Wrap

variable {strategy : NodeId → RandomFanout} {net : TtlFlood.Net NodeId} {keys : Finset MessageId}
  {times : List UInt64} {origin : NodeId} {base : RelayEnvelope} {log : List Reception}
  {s : FloodNetwork D} {messageId : MessageId}

/-- The envelope that the origin hands out. -/
def wrapped (s : FloodNetwork D) (origin : NodeId) (messageId : MessageId) (payload : Bytes) :
    RelayEnvelope :=
  (RelayEnvelope.broadcast messageId (s.nodes origin).config.nodeId payload).withMaxHops
    (s.nodes origin).config.maxRelayHops

theorem decode_of_address {source : NodeId} {e : RelayEnvelope} {q : Packet}
    {targets : Option (List PeatPeer)} (hq : q ∈ address source e.encode targets) :
    RelayEnvelope.decode q.data =
      some { e with payload := e.payload.take (e.payload.length % 2 ^ 32) } := by
  obtain ⟨peer, -, rfl⟩ := List.mem_map.mp hq
  exact e.decode_encode

theorem copy?_of_other {p : Packet}
    (h : ∀ e, RelayEnvelope.decode p.data = some e → e.messageId ≠ messageId) :
    p.copy? messageId = none := by
  rw [Packet.copy?]
  cases hdecode : RelayEnvelope.decode p.data with
  | none => rfl
  | some e =>
      rw [Option.bind_some, if_neg (h e hdecode)]

theorem copiesOf_others {packets : List Packet}
    (h : ∀ p ∈ packets, ∀ e, RelayEnvelope.decode p.data = some e → e.messageId ≠ messageId) :
    copiesOf messageId packets = [] :=
  List.filterMap_eq_nil_iff.mpr fun p hp => copy?_of_other (h p hp)

/-- Another message is handed to the network. -/
theorem UnderWay.wrap (h : UnderWay strategy net keys times origin base log s) (node : NodeId)
    (payload : Bytes) (clock : Nat → Option Nat) (hkey : messageId ∈ keys)
    (hother : messageId ≠ base.messageId) :
    UnderWay strategy net keys times origin base log
      (s.step strategy (.wrap node messageId payload clock)) := by
  have hnew : ∀ q ∈ address node ((s.nodes node).wrapForRelay messageId payload)
      ((s.nodes node).getRelayTargets (strategy node) clock none),
      ∀ e, RelayEnvelope.decode q.data = some e → e.messageId = messageId := by
    intro q hq e he
    exact congrArg RelayEnvelope.messageId (Option.some.inj ((decode_of_address hq).symm.trans he)).symm
  refine ⟨h.ready, fun q hq e he => ?_, fun q hq e he hid => ?_, ?_, h.carried⟩
  · rcases List.mem_append.mp hq with hold | hnow
    · exact h.keyed q hold e he
    · exact hnew q hnow e he ▸ hkey
  · rcases List.mem_append.mp hq with hold | hnow
    · exact h.copies q hold e he hid
    · exact absurd ((hnew q hnow e he).symm.trans hid) hother
  · have hnone : copiesOf base.messageId (address node
        ((s.nodes node).wrapForRelay messageId payload)
        ((s.nodes node).getRelayTargets (strategy node) clock none)) = [] :=
      copiesOf_others fun q hq e he => (hnew q hq e he).symm ▸ hother
    simp only [step, copiesOf_append, hnone, List.append_nil]
    exact h.spread

/-- The message is handed to the network. -/
theorem underWay_start (h : s.Unheard strategy net keys times messageId)
    (horigin : origin ∈ net.nodes) (hkey : messageId ∈ keys) (payload : Bytes)
    (hpayload : payload.length < 2 ^ 32) (clock : Nat → Option Nat) :
    UnderWay strategy net keys times origin (s.wrapped origin messageId payload) []
      (s.step strategy (.wrap origin messageId payload clock)) := by
  have hdecode : RelayEnvelope.decode ((s.nodes origin).wrapForRelay messageId payload) =
      some (s.wrapped origin messageId payload) := by
    refine (RelayEnvelope.decode_encode (s.wrapped origin messageId payload)).trans ?_
    have hlength : (s.wrapped origin messageId payload).payload.length = payload.length := rfl
    rw [hlength, Nat.mod_eq_of_lt hpayload, ← hlength, List.take_length]
  have hlinked := h.linked origin horigin
  have hnew : ∀ q ∈ address origin ((s.nodes origin).wrapForRelay messageId payload)
      ((s.nodes origin).getRelayTargets (strategy origin) clock none),
      RelayEnvelope.decode q.data = some (s.wrapped origin messageId payload) := by
    intro q hq
    obtain ⟨peer, -, rfl⟩ := List.mem_map.mp hq
    exact hdecode
  refine ⟨⟨h.linked, h.window, fun v hv => ⟨fun id hid => (h.cached v hv id hid).1,
    fun id hid => absurd hid List.not_mem_nil, List.nodup_nil⟩, fun v hv hmem => ?_⟩,
    fun q hq e he => ?_, fun q hq e he hid => ?_, ?_, fun r hr => absurd hr List.not_mem_nil⟩
  · exact absurd rfl (h.cached v hv messageId hmem).2
  · rcases List.mem_append.mp hq with hold | hnow
    · exact (h.packets q hold e he).1
    · obtain rfl := Option.some.inj ((hnew q hnow).symm.trans he)
      exact hkey
  · rcases List.mem_append.mp hq with hold | hnow
    · exact absurd hid (h.packets q hold e he).2
    · obtain rfl := Option.some.inj ((hnew q hnow).symm.trans he)
      rfl
  · have hnone : copiesOf messageId s.packets = [] :=
      copiesOf_others fun q hq e he => (h.packets q hq e he).2
    have hsent : copiesOf messageId (s.step strategy (.wrap origin messageId payload clock)).packets =
        TtlFlood.sent net origin := by
      simp only [step, copiesOf_append, hnone, List.nil_append]
      rw [hlinked.address_eq, copiesOf_addressed hdecode]
      simp [TtlFlood.sent, wrapped, RelayEnvelope.withMaxHops, RelayEnvelope.broadcast]
    exact hsent ▸ TtlFlood.spread_start horigin

end Wrap

/-- However the copies of a message travel, and whatever else is under way: nobody accepts it
twice, or anything but what was sent; there are never more copies, delivered or under way, than one
for each link of each node, the links of the origin counted twice; and when no copy is left,
everyone within reach has accepted it, if it may make as many hops as there are other nodes. The
origin may send it twice, since a node does not mark what it wraps itself. -/
theorem flood_reaches_all (strategy : NodeId → RandomFanout) (net : TtlFlood.Net NodeId)
    (s : FloodNetwork D) (origin : NodeId) (messageId : MessageId) (payload : Bytes)
    (clock : Nat → Option Nat) (actions : List Action) (keys : Finset MessageId)
    (hstart : s.Unheard strategy net keys (actions.filterMap Action.time?) messageId)
    (horigin : origin ∈ net.nodes) (hkey : messageId ∈ keys) (hcard : keys.card ≤ maxCacheSize)
    (hwraps : ∀ id ∈ actions.filterMap Action.wraps?, id ∈ keys ∧ id ≠ messageId)
    (hpayload : payload.length < 2 ^ 32)
    (hlimit : net.nodes.card ≤ (s.nodes origin).config.maxRelayHops.toNat + 1) :
    let sent := s.step strategy (.wrap origin messageId payload clock)
    let log := LoggedRun.log (step strategy) note sent actions
    let last := LoggedRun.run (step strategy) sent actions
    (acceptedBy messageId log).Nodup ∧
    (∀ r ∈ log, r.messageId = messageId → ∀ d ∈ r.decision,
      d.payload = payload ∧ d.originNode = (s.nodes origin).config.nodeId) ∧
    deliveries messageId log + (copiesOf messageId last.packets).length ≤
      (net.neighbours origin).length + ∑ v ∈ net.nodes, (net.neighbours v).length ∧
    (copiesOf messageId last.packets = [] → ∀ v,
      Relation.ReflTransGen (fun u w => w ∈ net.neighbours u) origin v →
        v = origin ∨ v ∈ acceptedBy messageId log) := by
  intro sent log last
  have hunderWay : UnderWay strategy net keys (actions.filterMap Action.time?) origin
      (s.wrapped origin messageId payload) log last := by
    refine LoggedRun.invariant (underWay_start hstart horigin hkey payload hpayload clock) ?_
    intro past s' action haction hpast
    cases action with
    | wrap node other data draws =>
        have hother := hwraps other (List.mem_filterMap.mpr ⟨_, haction, rfl⟩)
        rw [note, Option.toList_none, List.append_nil]
        exact hpast.wrap node data draws hother.1 hother.2
    | deliver pick nowMs draws =>
        exact hpast.deliver hcard hpayload hlimit horigin
          (List.mem_filterMap.mpr ⟨_, haction, rfl⟩)
  have hspread := hunderWay.spread
  refine ⟨hspread.nodup, hunderWay.carried, hspread.deliveries_le, fun hend v hv => ?_⟩
  exact TtlFlood.Spread.reached (hend ▸ hspread) hv

/-- Three nodes in a row, each with its neighbours connected. -/
def inARow : TtlFlood.Net NodeId where
  nodes := {1, 2, 3}
  neighbours v := if v = 1 then [2] else if v = 2 then [1, 3] else if v = 3 then [2] else []
  closed := by
    simp

theorem forall_inARow {P : NodeId → Prop} : (∀ v ∈ inARow.nodes, P v) ↔ P 1 ∧ P 2 ∧ P 3 := by
  simp only [inARow, Finset.forall_mem_insert, Finset.mem_singleton, forall_eq]

def rowPeers (node : NodeId) : PeerManager :=
  (inARow.neighbours node).foldl
    (fun peers w => (peers.onIncomingConnection (NodeId.display w) w 1).1)
    (PeerManager.new node (PeerManagerConfig.withMeshId "DEMO"))

def rowNode (node : NodeId) : PeatMesh Unit :=
  { PeatMesh.new .unavailable (PeatMeshConfig.new node "NODE" "DEMO").withRelay with
    peerManager := rowPeers node }

def rowActions : List Action := [.deliver 0 1000 fun _ => none, .deliver 0 1010 fun _ => none]

theorem row_linked : ∀ v ∈ inARow.nodes,
    Linked (fun _ => RandomFanout.new 2) inARow v (rowNode v) := by
  have htwo : (2 : USize).toNat = 2 := RandomFanout.toNat_of_small (n := 2) (by decide)
  have hfanout : (RandomFanout.new 2).fanout.toNat = 2 := by
    refine (RandomFanout.toNat_max_one 2).trans ?_
    rw [htwo]
    rfl
  have hpeers : ∀ v ∈ inARow.nodes,
      (rowPeers v).getConnectedPeers.map PeatPeer.nodeId = inARow.neighbours v := by
    rw [forall_inARow]
    decide +kernel
  have hlength : ∀ v ∈ inARow.nodes, (inARow.neighbours v).length ≤ 2 := by
    rw [forall_inARow]
    decide
  have hsize := USize.le_size
  intro v hv
  have hv' := hlength v hv
  exact ⟨hpeers v hv, rfl, by omega, by rw [hfanout]; exact hv'⟩

theorem flood_reaches_row :
    let s : FloodNetwork Unit := ⟨rowNode, []⟩
    let sent := s.step (fun _ => RandomFanout.new 2)
      (.wrap 1 (Vector.replicate 16 7) [1, 2, 3] fun _ => none)
    let log := LoggedRun.log (step fun _ => RandomFanout.new 2) note sent rowActions
    (acceptedBy (Vector.replicate 16 7) log).Nodup := by
  have hwindow : ∀ a ∈ rowActions.filterMap Action.time?, ∀ b ∈ rowActions.filterMap Action.time?,
      b.toNat < a.toNat + defaultSeenTtlMs.toNat := by
    rw [show rowActions.filterMap Action.time? = [1000, 1010] from rfl]
    simp only [List.forall_mem_cons, List.not_mem_nil, false_imp_iff, implies_true, and_true]
    decide
  refine (flood_reaches_all (fun _ => RandomFanout.new 2) inARow ⟨rowNode, []⟩ 1
    (Vector.replicate 16 7) [1, 2, 3] (fun _ => none) rowActions {Vector.replicate 16 7}
    ⟨row_linked, fun _ _ => hwindow, fun v hv id hid => ?_, fun p hp => absurd hp List.not_mem_nil⟩
    (by decide) (Finset.mem_singleton_self _) (by decide)
    (fun id hid => absurd hid List.not_mem_nil) (by decide) (by decide)).1
  exact absurd hid Std.ExtTreeMap.not_mem_empty

end FloodNetwork

end PeatBtle
