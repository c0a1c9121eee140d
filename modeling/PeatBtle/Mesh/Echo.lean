import PeatBtle.Chat.Mesh
import PeatBtle.Mesh.Flood
import PeatBtle.SeenWindow

/-!
# A node's own messages

A wrapped message is handed out without a note in the seen cache. When it comes
back, nothing but an earlier arrival of the same identifier tells the node that it
is not new, and a node that relays sends its own message on.
-/

namespace PeatBtle

open Wire

namespace PeatMesh

attribute [local instance] SeenMessageCache.transCmp_messageId

variable {D : Type} (crypto : Crypto)

/-- A node and the envelopes that it has handed out. -/
structure Wrapping (D : Type) where
  mesh : PeatMesh D
  wrapped : List Bytes

inductive Traffic (D : Type) where
  | wrap (messageId : MessageId) (payload : Bytes)
  | act (action : Action D)

def pass (s : Wrapping D) : Traffic D → Wrapping D
  | .wrap messageId payload => ⟨s.mesh, s.wrapped ++ [s.mesh.wrapForRelay messageId payload]⟩
  | .act action => ⟨s.mesh.act crypto action, s.wrapped⟩

/-- The envelope as others receive it, at any number of hops. -/
def IsEcho (wrapped : Bytes) (envelope : RelayEnvelope) : Prop :=
  ∃ sent, RelayEnvelope.decode wrapped = some sent ∧
    envelope = { sent with hopCount := envelope.hopCount }

/-- What `process_relay_envelope` returns to be sent on. -/
def relayed (m : PeatMesh D) (data : Bytes) (sourcePeer : NodeId) (nowMs : UInt64) :
    Option RelayEnvelope :=
  (m.processRelayEnvelope data sourcePeer nowMs).2.bind RelayDecision.relayEnvelope

/-- The arriving bytes are an envelope of this node, and the node relays. -/
def Wrapping.Returns (s : Wrapping D) (data : Bytes) (envelope : RelayEnvelope) : Prop :=
  s.mesh.config.enableRelay = true ∧ RelayEnvelope.decode data = some envelope ∧
    ∃ wrapped ∈ s.wrapped, IsEcho wrapped envelope

/-- The message is out of hops, or its identifier is in the seen cache and outlives the cleanup
that its arrival may bring on. -/
def Wrapping.Recognised (s : Wrapping D) (envelope : RelayEnvelope) (nowMs : UInt64) : Prop :=
  envelope.maxHops ≤ envelope.hopCount ∨
    envelope.messageId ∈ (s.mesh.seenCache.refreshed nowMs).cache

def EchoNotRelayed (s : Wrapping D) : Traffic D → Prop
  | .act (.relayEnvelope data sourcePeer nowMs) =>
      ∀ envelope, s.Returns data envelope → s.mesh.relayed data sourcePeer nowMs = none
  | _ => True

def EchoRecognised (s : Wrapping D) : Traffic D → Prop
  | .act (.relayEnvelope data _ nowMs) =>
      ∀ envelope, s.Returns data envelope → s.Recognised envelope nowMs
  | _ => True

section Arrival

variable {m : PeatMesh D} {data : Bytes} {envelope : RelayEnvelope} {sourcePeer : NodeId}
  {nowMs : UInt64}

theorem relayEnvelope_relayDecision (m : PeatMesh D) (envelope : RelayEnvelope) :
    (m.relayDecision envelope).relayEnvelope =
      if m.config.enableRelay then envelope.relay else none := by
  unfold relayDecision RelayEnvelope.relay
  split
  · rfl
  · exact (ite_self _).symm

theorem relayed_eq (hdecode : RelayEnvelope.decode data = some envelope) :
    m.relayed data sourcePeer nowMs =
      if m.seenCache.accepts ⟨envelope.messageId, envelope.originNode, nowMs⟩ then
        if m.config.enableRelay then envelope.relay else none
      else none := by
  unfold relayed processRelayEnvelope SeenMessageCache.accepts
  rw [hdecode]
  simp only [markMessageSeen, seenCache_noteRelayPath]
  split
  · exact m.relayEnvelope_relayDecision envelope
  · rfl

/-- A relaying node sends on what has hops left and is not in the cache. -/
theorem relayed_eq_none_iff (hdecode : RelayEnvelope.decode data = some envelope)
    (hrelay : m.config.enableRelay = true) :
    m.relayed data sourcePeer nowMs = none ↔ envelope.maxHops ≤ envelope.hopCount ∨
      envelope.messageId ∈ (m.seenCache.refreshed nowMs).cache := by
  have hnew := m.seenCache.accepts_iff ⟨envelope.messageId, envelope.originNode, nowMs⟩
  rw [relayed_eq hdecode, if_pos hrelay, Std.ExtTreeMap.mem_iff_isSome_getElem?]
  cases hheld : (m.seenCache.refreshed nowMs).cache[envelope.messageId]? with
  | some entry =>
      rw [hheld] at hnew
      rw [if_neg (fun h => Option.some_ne_none entry (hnew.mp h))]
      exact iff_of_true rfl (Or.inr rfl)
  | none =>
      rw [if_pos (hnew.mpr hheld), Option.isSome_none, or_iff_left Bool.false_ne_true, ← UInt8.not_lt]
      simp [RelayEnvelope.relay, RelayEnvelope.canRelay]

end Arrival

theorem Wrapping.Returns.relayed_iff {s : Wrapping D} {data : Bytes} {envelope : RelayEnvelope}
    (h : s.Returns data envelope) (sourcePeer : NodeId) (nowMs : UInt64) :
    s.mesh.relayed data sourcePeer nowMs = none ↔ s.Recognised envelope nowMs :=
  relayed_eq_none_iff h.2.1 h.1

theorem echoNotRelayed_iff (s : Wrapping D) (traffic : Traffic D) :
    EchoNotRelayed s traffic ↔ EchoRecognised s traffic := by
  cases traffic with
  | wrap messageId payload => exact iff_of_true trivial trivial
  | act action =>
      cases action with
      | relayEnvelope data sourcePeer nowMs =>
          exact forall_congr' fun envelope => imp_congr_right fun hreturns =>
            hreturns.relayed_iff sourcePeer nowMs
      | _ => exact iff_of_true trivial trivial

/-- A relaying node never sends on its own message if and only if each that comes back is out of
hops or in the seen cache by then, and this decides every single call. -/
theorem own_message_not_relayed_iff (config : PeatMeshConfig) (traffic : List (Traffic D)) :
    (LoggedRun.Along (pass crypto) EchoNotRelayed ⟨new crypto config, []⟩ traffic ↔
      LoggedRun.Along (pass crypto) EchoRecognised ⟨new crypto config, []⟩ traffic) ∧
    ∀ (data : Bytes) (envelope : RelayEnvelope) (sourcePeer : NodeId) (nowMs : UInt64),
      let s := LoggedRun.run (pass crypto) ⟨new crypto config, []⟩ traffic
      s.Returns data envelope →
        (s.mesh.relayed data sourcePeer nowMs = none ↔ s.Recognised envelope nowMs) := by
  constructor
  · exact @LoggedRun.along_congr _ _ (pass crypto) (fun _ => True) _ _ _ _ trivial
      (fun _ _ _ => trivial) fun s step _ => echoNotRelayed_iff s step
  · intro data envelope sourcePeer nowMs s hreturns
    exact hreturns.relayed_iff sourcePeer nowMs

/-- The first message of node 3, as it comes back from node 2. -/
def returning : RelayEnvelope :=
  { (RelayEnvelope.broadcast (Vector.replicate 16 9) 3 [1, 2, 3]).withMaxHops 7 with hopCount := 1 }

theorem returning_relayed :
    let start : Wrapping Unit :=
      ⟨new .unavailable (PeatMeshConfig.new 3 "CHARLIE" "DEMO").withRelay, []⟩
    let s := LoggedRun.run (pass .unavailable) start [.wrap (Vector.replicate 16 9) [1, 2, 3]]
    s.Returns returning.encode returning ∧
      s.mesh.relayed returning.encode 2 1000 = some { returning with hopCount := 2 } := by
  intro start s
  refine ⟨⟨rfl, by decide +kernel, ?_⟩, by decide +kernel⟩
  exact ⟨{ returning with hopCount := 0 }.encode, List.mem_singleton_self _,
    { returning with hopCount := 0 }, by decide +kernel, rfl⟩

end PeatMesh

end PeatBtle
