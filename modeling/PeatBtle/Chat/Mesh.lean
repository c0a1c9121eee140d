import PeatBtle.Chat.DocumentSync
import PeatBtle.Mesh.DeltaRefinement

/-!
# A mesh node with chat

The node of `PeatMesh` with a chat beside its document state, and the operations
that hand out bytes to broadcast. What the source draws at random is an argument;
the chat operations encrypt twice and draw twice.
-/

namespace PeatBtle

open Wire

namespace PeatMesh

variable {D : Type} (crypto : Crypto) (m : PeatMesh D)

/-- The envelope of a relayed broadcast. -/
def wrapForRelay (messageId : MessageId) (payload : Bytes) : Bytes :=
  ((RelayEnvelope.broadcast messageId m.config.nodeId payload).withMaxHops
    m.config.maxRelayHops).encode

/-! ## What is merged -/

/-- The plaintext inside a message. -/
def plaintextOf (data : Bytes) (nowMs : UInt64) : Option Bytes :=
  (m.unwrap data nowMs).2.bind fun found => m.decryptDocument crypto found.1

/-- The plaintext that an action leads to `merge_document`. Only the path for unknown identifiers
takes deltas there. -/
def heard : Action D → Option Bytes
  | .dataReceived identifier data nowMs =>
      if (m.peerManager.getNodeId identifier).isSome then
        (m.plaintextOf crypto data nowMs).filter fun plaintext =>
          !DeltaDocument.isDeltaDocument plaintext
      else none
  | .dataReceivedFromNode _ data nowMs =>
      (m.plaintextOf crypto data nowMs).filter fun plaintext =>
        !DeltaDocument.isDeltaDocument plaintext
  | .data _ data nowMs => m.plaintextOf crypto data nowMs
  | .dataReceivedAnonymous _ data _ =>
      (m.decryptDocument crypto data).filter fun plaintext =>
        decide (8 ≤ plaintext.length) && (!DeltaDocument.isDeltaDocument plaintext &&
          byteAt plaintext 0 != appLayerMarker)
  | _ => none

variable {crypto m} {plaintext : Bytes}

theorem documentSync_mergeEffect (plaintext : Bytes) :
    (m.mergeEffect plaintext).1.documentSync = (m.documentSync.mergeDocument plaintext).1 := by
  unfold mergeEffect
  rw [DocumentSync.mergeDocument_eq]
  cases m.documentSync.accepts plaintext <;> rfl

theorem documentSync_knownEffect (hdocument : DeltaDocument.isDeltaDocument plaintext = false) :
    (m.knownEffect plaintext).1.documentSync = (m.documentSync.mergeDocument plaintext).1 := by
  unfold knownEffect mergeAndStoreEffect
  rw [hdocument, if_neg Bool.false_ne_true, DocumentSync.mergeDocument_eq]
  cases m.documentSync.accepts plaintext <;> rfl

theorem documentSync_conclude {effect : Bytes → Effect D} {data : Bytes} {nowMs : UInt64}
    (hplain : m.plaintextOf crypto data nowMs = some plaintext) :
    (m.conclude crypto effect (m.unwrap data nowMs)).shared.documentSync =
      (effect plaintext).1.documentSync := by
  obtain ⟨found, hfound, hdecrypt⟩ := Option.bind_eq_some_iff.mp hplain
  simp only [conclude, hfound, hdecrypt]

/-- What an action leads to the merge is merged. -/
theorem documentSync_act_of_heard {action : Action D}
    (h : m.heard crypto action = some plaintext) :
    (m.act crypto action).documentSync = (m.documentSync.mergeDocument plaintext).1 := by
  have hshared : ∀ {received : PeatMesh D × Option DataReceivedResult} {o : Observation D},
      observe received = o → received.1.documentSync = o.shared.documentSync := by
    rintro received o rfl
    rfl
  cases action with
  | dataReceived identifier data nowMs =>
      simp only [heard] at h
      split at h
      · rename_i hknown
        obtain ⟨nodeId, hnode⟩ := Option.isSome_iff_exists.mp hknown
        obtain ⟨hplain, hdocument⟩ := Option.filter_eq_some_iff.mp h
        rw [act, hshared (observe_onBleDataReceived crypto hnode data nowMs),
          documentSync_conclude hplain]
        exact documentSync_knownEffect (by simpa using hdocument)
      · cases h
  | dataReceivedFromNode nodeId data nowMs =>
      obtain ⟨hplain, hdocument⟩ := Option.filter_eq_some_iff.mp h
      rw [act, hshared (m.observe_onBleDataReceivedFromNode crypto nodeId data nowMs),
        documentSync_conclude hplain]
      exact documentSync_knownEffect (by simpa using hdocument)
  | data identifier data nowMs =>
      rw [act, hshared (m.observe_onBleData crypto identifier data nowMs), documentSync_conclude h]
      exact documentSync_mergeEffect plaintext
  | dataReceivedAnonymous identifier data nowMs =>
      obtain ⟨hplain, hkept⟩ := Option.filter_eq_some_iff.mp h
      simp only [Bool.and_eq_true, decide_eq_true_eq, Bool.not_eq_true', bne_iff_ne, ne_eq] at hkept
      obtain ⟨hlong, hdocument, happ⟩ := hkept
      have hshort : ¬ plaintext.length < 8 := by omega
      have hdelta : ¬ DeltaDocument.isDeltaDocument plaintext = true := by rw [hdocument]; decide
      have hanonymous := m.shared_processAnonymous identifier plaintext nowMs
      rw [anonymousEffect, if_neg hshort, if_neg hdelta, if_neg happ] at hanonymous
      simp only [act, onBleDataReceivedAnonymous, hplain]
      exact (congrArg SharedState.documentSync hanonymous).trans (documentSync_mergeEffect plaintext)
  | _ => cases h

end PeatMesh

structure ChatMesh (D : Type) extends PeatMesh D where
  chat : Option ChatCRDT

namespace ChatMesh

variable {D : Type} (crypto : Crypto)

def new (config : PeatMeshConfig) : ChatMesh D := { PeatMesh.new crypto config with chat := none }

/-- The document state with its chat. -/
def sync (m : ChatMesh D) : ChatSync := { m.documentSync with chat := m.chat }

def withSync (m : ChatMesh D) (s : ChatSync) : ChatMesh D :=
  { m with documentSync := s.toDocumentSync, chat := s.chat }

def buildDocument (m : ChatMesh D) (nonce : Nonce) : Bytes :=
  m.encryptDocument crypto nonce m.sync.buildDocument

/-! ## Broadcasts -/

def sendEmergency (m : ChatMesh D) (timestamp : UInt64) (nonce : Nonce) : ChatMesh D × Bytes :=
  let sent := m.sync.sendEmergency timestamp
  (m.withSync sent.1, m.encryptDocument crypto nonce sent.2)

def sendAck (m : ChatMesh D) (timestamp : UInt64) (nonce : Nonce) : ChatMesh D × Bytes :=
  let sent := m.sync.sendAck timestamp
  (m.withSync sent.1, m.encryptDocument crypto nonce sent.2)

def startEmergency (m : ChatMesh D) (timestamp : UInt64) (knownPeers : List UInt32)
    (nonce : Nonce) : ChatMesh D × Bytes :=
  let started := m.sync.startEmergency timestamp knownPeers
  (m.withSync started.1, m.encryptDocument crypto nonce started.2)

def startEmergencyWithKnownPeers (m : ChatMesh D) (timestamp : UInt64) (nonce : Nonce) :
    ChatMesh D × Bytes :=
  m.startEmergency crypto timestamp (m.peerManager.getPeers.map PeatPeer.nodeId) nonce

def ackEmergency (m : ChatMesh D) (timestamp : UInt64) (nonce : Nonce) :
    ChatMesh D × Option Bytes :=
  let acked := m.sync.ackEmergency timestamp
  (m.withSync acked.1, acked.2.map fun data => m.encryptDocument crypto nonce data)

/-- The built document is encrypted already, and is encrypted again. -/
def sendChat (m : ChatMesh D) (sender text : String) (timestamp : UInt64) (inner outer : Nonce) :
    ChatMesh D × Option Bytes :=
  let added := m.sync.addChatMessage sender text timestamp
  let after := m.withSync added.1
  (after,
    if added.2 then some (after.encryptDocument crypto outer (after.buildDocument crypto inner))
    else none)

def sendChatReply (m : ChatMesh D) (sender text : String) (replyToNode : UInt32)
    (replyToTimestamp timestamp : UInt64) (inner outer : Nonce) : ChatMesh D × Option Bytes :=
  let added := m.sync.addChatReply sender text replyToNode replyToTimestamp timestamp
  let after := m.withSync added.1
  (after,
    if added.2 then some (after.encryptDocument crypto outer (after.buildDocument crypto inner))
    else none)

def buildRelayDocument (m : ChatMesh D) (nonce : Nonce) (messageId : MessageId) : Bytes :=
  m.wrapForRelay messageId (m.buildDocument crypto nonce)

/-- After the maintenance, and whether a broadcast is due. -/
def whenDue (m : ChatMesh D) (nowMs : UInt64) : ChatMesh D × Bool :=
  let due := (m.maintain nowMs).syncDue nowMs
  ({ due.1 with chat := m.chat }, due.2)

def tick (m : ChatMesh D) (nonce : Nonce) (nowMs : UInt64) : ChatMesh D × Option Bytes :=
  let due := m.whenDue nowMs
  (due.1, if due.2 && decide (due.1.peerManager.connectedCount > 0) then
    some (due.1.buildDocument crypto nonce) else none)

def tickWithPeerDeltas (m : ChatMesh D) (nonce : Nonce) (nowMs : UInt64) :
    ChatMesh D × List (NodeId × Bytes) :=
  let due := m.whenDue nowMs
  let connected := due.1.peerManager.getPeers.filter PeatPeer.isConnected
  (due.1, if due.2 then connected.map fun p => (p.nodeId, due.1.buildDocument crypto nonce) else [])

/-- The operations that return bytes to broadcast. -/
inductive Broadcast where
  | sendEmergency (timestamp : UInt64) (nonce : Nonce)
  | sendAck (timestamp : UInt64) (nonce : Nonce)
  | startEmergency (timestamp : UInt64) (knownPeers : List UInt32) (nonce : Nonce)
  | startEmergencyWithKnownPeers (timestamp : UInt64) (nonce : Nonce)
  | ackEmergency (timestamp : UInt64) (nonce : Nonce)
  | buildDocument (nonce : Nonce)
  | tick (nonce : Nonce) (nowMs : UInt64)
  | tickWithPeerDeltas (nonce : Nonce) (nowMs : UInt64)
  | buildFullDeltaDocument (nonce : Nonce) (nowMs : UInt64)
  | buildDeltaDocumentForPeer (peer : NodeId) (nonce : Nonce) (nowMs : UInt64)
  | sendChat (sender text : String) (timestamp : UInt64) (inner outer : Nonce)
  | sendChatReply (sender text : String) (replyToNode : UInt32) (replyToTimestamp : UInt64)
      (timestamp : UInt64) (inner outer : Nonce)
  | buildRelayDocument (nonce : Nonce) (messageId : MessageId)

/-- The state afterwards and the bytes returned. -/
def send (m : ChatMesh D) : Broadcast → ChatMesh D × List Bytes
  | .sendEmergency timestamp nonce =>
      let sent := m.sendEmergency crypto timestamp nonce
      (sent.1, [sent.2])
  | .sendAck timestamp nonce =>
      let sent := m.sendAck crypto timestamp nonce
      (sent.1, [sent.2])
  | .startEmergency timestamp knownPeers nonce =>
      let started := m.startEmergency crypto timestamp knownPeers nonce
      (started.1, [started.2])
  | .startEmergencyWithKnownPeers timestamp nonce =>
      let started := m.startEmergencyWithKnownPeers crypto timestamp nonce
      (started.1, [started.2])
  | .ackEmergency timestamp nonce =>
      let acked := m.ackEmergency crypto timestamp nonce
      (acked.1, acked.2.toList)
  | .buildDocument nonce => (m, [m.buildDocument crypto nonce])
  | .tick nonce nowMs =>
      let ticked := m.tick crypto nonce nowMs
      (ticked.1, ticked.2.toList)
  | .tickWithPeerDeltas nonce nowMs =>
      let ticked := m.tickWithPeerDeltas crypto nonce nowMs
      (ticked.1, ticked.2.map Prod.snd)
  | .buildFullDeltaDocument nonce nowMs => (m, [m.buildFullDeltaDocument crypto nonce nowMs])
  | .buildDeltaDocumentForPeer peer nonce nowMs =>
      let built := m.toPeatMesh.buildDeltaDocumentForPeer crypto peer nonce nowMs
      ({ built.1 with chat := m.chat }, built.2.toList)
  | .sendChat sender text timestamp inner outer =>
      let said := m.sendChat crypto sender text timestamp inner outer
      (said.1, said.2.toList)
  | .sendChatReply sender text replyToNode replyToTimestamp timestamp inner outer =>
      let said := m.sendChatReply crypto sender text replyToNode replyToTimestamp timestamp inner
        outer
      (said.1, said.2.toList)
  | .buildRelayDocument nonce messageId => (m, [m.buildRelayDocument crypto nonce messageId])

/-! ## Runs -/

/-- An action of the node without chat, or a broadcast. -/
inductive Action (D : Type) where
  | base (action : PeatMesh.Action D)
  | broadcast (op : Broadcast)

/-- An action of the node without chat. A document heard is merged with its chat. -/
def actBase (m : ChatMesh D) (action : PeatMesh.Action D) : ChatMesh D :=
  let after : ChatMesh D := { m.toPeatMesh.act crypto action with chat := m.chat }
  match m.heard crypto action with
  | none => after
  | some plaintext => after.withSync (m.sync.mergeDocument plaintext).1

def act (m : ChatMesh D) : Action D → ChatMesh D
  | .base action => m.actBase crypto action
  | .broadcast op => (m.send crypto op).1

def run (config : PeatMeshConfig) (actions : List (Action D)) : ChatMesh D :=
  LoggedRun.run (act crypto) (new crypto config) actions

/-! ## Without chat -/

def Broadcast.isChat : Broadcast → Bool
  | .sendChat .. => true
  | .sendChatReply .. => true
  | _ => false

/-- What a broadcast does to a node without chat. -/
def Broadcast.asBase : Broadcast → List (PeatMesh.Action D)
  | .sendEmergency timestamp _ => [.mutate (.sendEmergency timestamp)]
  | .sendAck timestamp _ => [.mutate (.sendAck timestamp)]
  | .startEmergency timestamp knownPeers _ => [.mutate (.startEmergency timestamp knownPeers)]
  | .startEmergencyWithKnownPeers timestamp _ => [.startEmergencyWithKnownPeers timestamp]
  | .ackEmergency timestamp _ => [.mutate (.ackEmergency timestamp)]
  | .tick nonce nowMs => [.tick nonce nowMs]
  | .tickWithPeerDeltas nonce nowMs => [.tickWithPeerDeltas nonce nowMs]
  | .buildDeltaDocumentForPeer peer nonce nowMs => [.buildDelta peer nonce nowMs]
  | _ => []

def Action.asBase : Action D → List (PeatMesh.Action D)
  | .base action => [action]
  | .broadcast op => op.asBase

/-- Nothing is said and nothing heard. -/
def Quiet (m : ChatMesh D) : Action D → Prop
  | .base action => ∀ plaintext, m.heard crypto action = some plaintext →
      ChatDocument.WithoutChat plaintext
  | .broadcast op => op.isChat = false

variable {crypto}

theorem actBase_of_quiet {m : ChatMesh D} {action : PeatMesh.Action D}
    (hquiet : m.Quiet crypto (.base action)) :
    m.actBase crypto action = { m.toPeatMesh.act crypto action with chat := m.chat } := by
  unfold actBase
  cases hheard : m.heard crypto action with
  | none => rfl
  | some plaintext =>
      have hmerged := PeatMesh.documentSync_act_of_heard hheard
      dsimp only
      rw [ChatSync.mergeDocument_of_withoutChat (hquiet plaintext hheard)]
      change ({ m.toPeatMesh.act crypto action with
        documentSync := (m.documentSync.mergeDocument plaintext).1
        chat := m.chat } : ChatMesh D) = _
      rw [← hmerged]

theorem send_of_not_chat {op : Broadcast} (m : ChatMesh D) (hop : op.isChat = false) :
    (m.send crypto op).1 =
      { LoggedRun.run (PeatMesh.act crypto) m.toPeatMesh op.asBase with chat := m.chat } := by
  cases op with
  | sendChat => cases hop
  | sendChatReply => cases hop
  | _ => rfl

theorem act_of_quiet {m : ChatMesh D} {action : Action D} (hquiet : m.Quiet crypto action) :
    m.act crypto action =
      { LoggedRun.run (PeatMesh.act crypto) m.toPeatMesh action.asBase with chat := m.chat } := by
  cases action with
  | base action => exact actBase_of_quiet hquiet
  | broadcast op => exact m.send_of_not_chat hquiet

/-- As long as nobody chats, a node lives through what it would without the chat. -/
theorem run_of_quiet {m : ChatMesh D} {actions : List (Action D)}
    (hquiet : LoggedRun.Along (act crypto) (Quiet crypto) m actions) :
    LoggedRun.run (act crypto) m actions =
      { LoggedRun.run (PeatMesh.act crypto) m.toPeatMesh (actions.flatMap Action.asBase) with
        chat := m.chat } := by
  induction actions generalizing m with
  | nil => rfl
  | cons action actions ih =>
      have hrest := ih hquiet.2
      rw [act_of_quiet hquiet.1] at hrest
      rw [LoggedRun.run_cons, act_of_quiet hquiet.1, hrest, List.flatMap_cons, LoggedRun.run_append]

end ChatMesh

end PeatBtle
