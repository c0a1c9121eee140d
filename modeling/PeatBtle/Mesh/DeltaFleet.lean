import PeatBtle.Fleet.Rounds
import PeatBtle.Mesh.RecordStore

/-!
# Records in a fleet

Nodes send each other deltas, and a delta leaves out what the peer has been sent before.
The records get around all the same, as long as every delta arrives some time.
-/

namespace PeatBtle

open Wire MapMerge

/-- Nodes with the same key, or none, that know the same types of documents. -/
structure DeltaFleet (D : Type) where
  members : Finset NodeId
  crypto : Crypto
  records : Records D
  key : Option Key
  config : { node : NodeId // node ∈ members } → PeatMeshConfig
  nodeId_eq : ∀ i, (config i).nodeId = i
  key_eq : ∀ i, (PeatMesh.new crypto (config i) : PeatMesh D).encryptionKey = key

namespace DeltaFleet

variable {D : Type}

abbrev Member (F : DeltaFleet D) := { node : NodeId // node ∈ F.members }

/-- The bytes of a delta, and the operations that they were written from. -/
structure Message (F : DeltaFleet D) where
  sender : F.Member
  receiver : F.Member
  operations : List Operation
  bytes : Bytes
deriving DecidableEq

/-- The nodes, the messages so far, and those that have arrived. -/
structure State (F : DeltaFleet D) where
  node : F.Member → PeatMesh D
  messages : List F.Message
  arrived : List F.Message

inductive Action (F : DeltaFleet D) where
  | perform (i : F.Member) (action : PeatMesh.Action D)
  | send (i j : F.Member) (nonce : Nonce) (nowMs : UInt64)
  | deliver (k : Nat) (entry : EntryPoint) (nowMs : UInt64)

variable {F : DeltaFleet D}

/-- The types of documents are registered from the start. -/
def start (F : DeltaFleet D) : F.State where
  node i := { PeatMesh.new F.crypto (F.config i) with documentRegistry := F.records.registry }
  messages := []
  arrived := []

def State.update (s : F.State) (i : F.Member) (node : PeatMesh D) : F.State :=
  { s with node := Function.update s.node i node }

/-- A message can be delivered at any time after it was sent, and more than once. -/
def step (s : F.State) : F.Action → F.State
  | .perform i action => s.update i ((s.node i).act F.crypto action)
  | .send i j nonce nowMs =>
      let built := (s.node i).buildDeltaDocumentForPeer F.crypto j nonce nowMs
      let sent := built.2.map fun bytes => ⟨i, j, (s.node i).operationsForPeer j, bytes⟩
      { s.update i built.1 with messages := s.messages ++ sent.toList }
  | .deliver k entry nowMs =>
      match s.messages[k]? with
      | none => s
      | some message =>
          let receiver := (s.node message.receiver).act F.crypto (entry.hand message.bytes nowMs)
          { s.update message.receiver receiver with arrived := message :: s.arrived }

def after (F : DeltaFleet D) (actions : List F.Action) : F.State :=
  LoggedRun.run step F.start actions

/-- The record that an action stores. -/
def stored (_ : F.State) : F.Action → Option DocumentKey
  | .perform _ action => PeatMesh.stores action
  | _ => none

/-- Nodes behave, deltas are within the limits of the format, and messages are handed in where
deltas are taken. -/
def Orderly (s : F.State) : F.Action → Prop
  | .perform i action => (s.node i).Behaves F.records F.crypto action
  | .send i j _ _ =>
      i ≠ j ∧ ((s.node i).operationsForPeer j).length ≤ 65535 ∧
        ∀ op ∈ (s.node i).operationsForPeer j, op.Fits
  | .deliver k entry _ =>
      ∀ message, s.messages[k]? = some message → entry.TakesDeltas (s.node message.receiver)

/-- No message is on its way. -/
def Settled (s : F.State) : Prop := ∀ message ∈ s.messages, message ∈ s.arrived

instance [DecidableEq D] (s : F.State) : Decidable (Settled s) :=
  inferInstanceAs (Decidable (∀ message ∈ s.messages, message ∈ s.arrived))

def Holds (s : F.State) (i : F.Member) (key : DocumentKey) : Prop :=
  F.records.Held (s.node i).appDocuments key

/-- A node has sent a record to another. -/
def Told (s : F.State) (i j : F.Member) (key : DocumentKey) : Prop :=
  ∃ message ∈ s.messages, message.sender = i ∧ message.receiver = j ∧
    .app (F.records.operation key) ∈ message.operations

/-! ## The invariant -/

/-- Every node of the fleet reads the bytes as the delta that they were written from. -/
structure Message.Reads (message : F.Message) (delta : DeltaDocument) : Prop where
  operations_eq : delta.operations = message.operations
  origin_eq : delta.originNode = message.sender
  decode_eq : DeltaDocument.decode delta.encode = some delta
  decrypt_eq : ∀ m : PeatMesh D, m.encryptionKey = F.key →
    m.decryptDocument F.crypto message.bytes = some delta.encode
  unwrap_eq : ∀ (m : PeatMesh D) (nowMs : UInt64),
    m.unwrap message.bytes nowMs = (m.seenCache, some (message.bytes, RelayInfo.direct))

/-- A message between two nodes, with records that have been stored somewhere. -/
structure Message.Sound (past : List DocumentKey) (message : F.Message) : Prop where
  sender_ne : message.sender ≠ message.receiver
  reads : ∃ delta, message.Reads delta
  carried : F.records.Carried message.operations
  stored : ∀ key, F.records.Named key → .app (F.records.operation key) ∈ message.operations →
    key ∈ past

/-- Stores hold records that somebody has stored, and a node that has marked a record as sent has
sent it. -/
structure Sound (past : List DocumentKey) (s : F.State) : Prop where
  key_eq : ∀ i, (s.node i).settings.encryptionKey = F.key
  nodeId_eq : ∀ i, (s.node i).settings.nodeId = i
  registry_eq : ∀ i, (s.node i).settings.documentRegistry = F.records.registry
  truthful : ∀ i, F.records.Truthful (s.node i).appDocuments
  stored : ∀ i key, Holds s i key → key ∈ past
  messages : ∀ message ∈ s.messages, message.Sound past
  told : ∀ (i j : F.Member) (key : DocumentKey) (stamp : UInt64), F.records.Named key →
    (s.node i).sentStamp j (Operation.key (.app (F.records.operation key))) = some stamp →
      Told s i j key
  arrived : ∀ message ∈ s.arrived, ∀ key, F.records.Named key →
    .app (F.records.operation key) ∈ message.operations → Holds s message.receiver key

variable {past : List DocumentKey} {s : F.State}

theorem sound_start (F : DeltaFleet D) : Sound [] F.start where
  key_eq := F.key_eq
  nodeId_eq := F.nodeId_eq
  registry_eq _ := rfl
  truthful _ _ _ hdoc := absurd hdoc getElem?_empty_ne_some
  stored _ _ hheld := absurd hheld getElem?_empty_ne_some
  messages _ hmessage := absurd hmessage List.not_mem_nil
  told i j key stamp _ hstamp := by
    simp [start, PeatMesh.sentStamp, PeatMesh.new, DeltaEncoder.new, DeltaEncoder.sentStamp]
      at hstamp
  arrived _ hmessage := absurd hmessage List.not_mem_nil

theorem Message.Sound.mono {message : F.Message} {later : List DocumentKey}
    (h : message.Sound past) (hpast : past ⊆ later) : message.Sound later where
  sender_ne := h.sender_ne
  reads := h.reads
  carried := h.carried
  stored key hkey hop := hpast (h.stored key hkey hop)

theorem Told.mono {i j : F.Member} {key : DocumentKey} {later : F.State} (h : Told s i j key)
    (hmessages : s.messages ⊆ later.messages) : Told later i j key := by
  obtain ⟨message, hmem, hrest⟩ := h
  exact ⟨message, hmessages hmem, hrest⟩

/-! ## Steps -/

section Step

variable {i : F.Member} {node : PeatMesh D} {added : DocumentKey → Prop} {later : List DocumentKey}
  {sent : List F.Message}

theorem holds_update (hadds : PeatMesh.Adds F.records added (s.node i) node) (j : F.Member)
    (key : DocumentKey) : Holds (s.update i node) j key ↔ Holds s j key ∨ j = i ∧ added key := by
  show F.records.Held (Function.update s.node i node j).appDocuments key ↔ _
  by_cases hj : j = i
  · subst hj
    rw [Function.update_self, hadds.held_iff, and_iff_right rfl]
    rfl
  · rw [Function.update_of_ne hj, or_iff_left fun h => hj h.1]
    rfl

/-- One node has taken a step, and what it sent is on its way. -/
theorem Sound.replace (h : Sound past s) (hadds : PeatMesh.Adds F.records added (s.node i) node)
    (hlater : past ⊆ later) (hadded : ∀ key, added key → key ∈ later)
    (hsent : ∀ message ∈ sent, message.Sound later)
    (htold : ∀ (j : F.Member) (key : DocumentKey) (stamp : UInt64), F.records.Named key →
      node.sentStamp j (Operation.key (.app (F.records.operation key))) = some stamp →
        Told { s.update i node with messages := s.messages ++ sent } i j key) :
    Sound later { s.update i node with messages := s.messages ++ sent } := by
  have hgrown : s.messages ⊆ s.messages ++ sent := List.subset_append_left ..
  have hother : ∀ {P : PeatMesh D → Prop} (j : F.Member), P node → P (s.node j) →
      P (Function.update s.node i node j) := by
    intro P j hnode hrest
    by_cases hj : j = i
    · subst hj
      rwa [Function.update_self]
    · rwa [Function.update_of_ne hj]
  constructor
  · intro j
    refine @hother (fun m => m.settings.encryptionKey = F.key) j ?_ (h.key_eq j)
    rw [hadds.settings_eq]
    exact h.key_eq i
  · intro j
    by_cases hj : j = i
    · subst hj
      show (Function.update s.node j node j).settings.nodeId = j
      rw [Function.update_self, hadds.settings_eq]
      exact h.nodeId_eq j
    · show (Function.update s.node i node j).settings.nodeId = j
      rw [Function.update_of_ne hj]
      exact h.nodeId_eq j
  · intro j
    refine @hother (fun m => m.settings.documentRegistry = F.records.registry) j ?_
      (h.registry_eq j)
    rw [hadds.settings_eq]
    exact h.registry_eq i
  · intro j
    exact @hother (fun m => F.records.Truthful m.appDocuments) j hadds.truthful (h.truthful j)
  · intro j key hheld
    rcases (holds_update hadds j key).mp hheld with hold | ⟨-, hnew⟩
    · exact hlater (h.stored j key hold)
    · exact hadded key hnew
  · intro message hmessage
    rcases List.mem_append.mp hmessage with hold | hnew
    · exact (h.messages message hold).mono hlater
    · exact hsent message hnew
  · intro j k key stamp hkey hstamp
    by_cases hj : j = i
    · subst hj
      refine htold k key stamp hkey ?_
      simpa only [State.update, Function.update_self] using hstamp
    · refine (h.told j k key stamp hkey ?_).mono hgrown
      simpa only [State.update, Function.update_of_ne hj] using hstamp
  · intro message hmessage key hkey hop
    exact (holds_update hadds _ key).mpr (Or.inl (h.arrived message hmessage key hkey hop))

/-- The same for a step that sends nothing. -/
theorem Sound.update (h : Sound past s) (hadds : PeatMesh.Adds F.records added (s.node i) node)
    (hlater : past ⊆ later) (hadded : ∀ key, added key → key ∈ later)
    (hevolves : ∀ peer, PeatMesh.Evolves peer (s.node i) node) : Sound later (s.update i node) := by
  have hreplaced := @Sound.replace _ _ _ s i node added later [] h hadds hlater hadded nofun ?_
  · rwa [List.append_nil] at hreplaced
  · intro j key stamp hkey hstamp
    have hbefore := (hevolves j).sentStamp _ stamp hstamp
    exact (h.told i j key stamp hkey hbefore).mono (List.subset_append_left ..)

/-- An operation that is due goes out with the delta. -/
theorem told_of_due {j : F.Member} {key : DocumentKey} {nonce : Nonce} {nowMs : UInt64}
    (hop : .app (F.records.operation key) ∈ (s.node i).operationsForPeer j) :
    Told (DeltaFleet.step s (.send i j nonce nowMs)) i j key := by
  cases hdelta : (s.node i).deltaForPeer j nowMs with
  | none =>
      rw [PeatMesh.operationsForPeer_of_none hdelta] at hop
      cases hop
  | some delta =>
      have hbytes : ((s.node i).buildDeltaDocumentForPeer F.crypto j nonce nowMs).2 =
          some ((s.node i).encryptDocument F.crypto nonce delta.encode) := by
        rw [PeatMesh.buildDeltaDocumentForPeer, hdelta]
      refine ⟨⟨i, j, (s.node i).operationsForPeer j,
        (s.node i).encryptDocument F.crypto nonce delta.encode⟩, ?_, rfl, rfl, hop⟩
      unfold DeltaFleet.step
      dsimp only
      rw [hbytes]
      exact List.mem_append_right _ (List.mem_singleton_self _)

theorem Sound.send (h : Sound past s) (haead : F.crypto.Aead) {j : F.Member} {nonce : Nonce}
    {nowMs : UInt64} (horderly : Orderly s (.send i j nonce nowMs)) :
    Sound past (DeltaFleet.step s (.send i j nonce nowMs)) := by
  obtain ⟨hij, hcount, hfits⟩ := horderly
  have hregistry : (s.node i).documentRegistry = F.records.registry := h.registry_eq i
  refine h.replace (PeatMesh.adds_buildDelta (h.truthful i) j nonce nowMs) (List.Subset.refl _)
    (fun key hkey => hkey.elim) ?_ ?_
  · intro message hmessage
    obtain ⟨bytes, hbytes, rfl⟩ := Option.map_eq_some_iff.mp (Option.mem_toList.mp hmessage)
    unfold PeatMesh.buildDeltaDocumentForPeer at hbytes
    cases hdelta : (s.node i).deltaForPeer j nowMs with
    | none =>
        rw [hdelta] at hbytes
        cases hbytes
    | some delta =>
        rw [hdelta] at hbytes
        obtain rfl := Option.some.inj hbytes
        obtain ⟨horigin, hread⟩ := PeatMesh.decode_deltaForPeer hdelta hcount hfits
        obtain ⟨hmarker, -, hlong⟩ := PeatMesh.encode_delta delta
        have hplain : byteAt delta.encode 0 ≠ encryptedMarker := by
          rw [hmarker]
          decide
        refine ⟨hij, ⟨delta, PeatMesh.deltaForPeer_operations hdelta, ?_, hread, ?_, ?_⟩,
          Records.carried_operationsForPeer hregistry (h.truthful i) j, ?_⟩
        · exact horigin.trans (h.nodeId_eq i)
        · intro m hkey
          exact PeatMesh.decryptDocument_encryptDocument haead (hkey.trans (h.key_eq i).symm)
            (by omega) hplain nonce
        · intro m nowMs
          exact PeatMesh.unwrap_encryptDocument haead m hmarker nonce nowMs
        · intro key hkey hop
          obtain ⟨held, hheld, hsame⟩ := (Records.mem_allOperations_iff hregistry
            (h.truthful i)).mp (PeatMesh.mem_operationsForPeer.mp hop).1
          obtain rfl := Records.operation_inj hkey (h.truthful i held _ hheld).1
            (congrArg (fun op => Operation.key (.app op)) hsame)
          exact h.stored i key hheld
  · intro k key stamp hkey hstamp
    by_cases hk : k = j
    · subst hk
      rcases Records.sentStamp_buildDelta hregistry (h.truthful i) hkey F.crypto hstamp with
        hbefore | hop
      · exact (h.told i k key stamp hkey hbefore).mono (List.subset_append_left ..)
      · exact told_of_due hop
    · have hother : (j : NodeId) ≠ k := fun heq => hk (Subtype.ext heq.symm)
      have hbefore := (PeatMesh.evolves_buildDelta_other F.crypto (s.node i) k j hother nonce
        nowMs).sentStamp _ stamp hstamp
      exact (h.told i k key stamp hkey hbefore).mono (List.subset_append_left ..)

/-- A message that arrives adds its records to the store of its receiver. -/
theorem Sound.adds_deliver (h : Sound past s) {k : Nat} {message : F.Message} {entry : EntryPoint}
    {nowMs : UInt64} (hmessage : s.messages[k]? = some message)
    (htakes : entry.TakesDeltas (s.node message.receiver)) :
    PeatMesh.Adds F.records
      (fun key => F.records.Named key ∧ .app (F.records.operation key) ∈ message.operations)
      (s.node message.receiver)
      ((s.node message.receiver).act F.crypto (entry.hand message.bytes nowMs)) := by
  have hsound := h.messages message (List.mem_of_getElem? hmessage)
  obtain ⟨delta, hreads⟩ := hsound.reads
  have haccepts : (s.node message.receiver).acceptsDelta delta.encode = some delta := by
    have hforeign : ¬ delta.originNode = (s.node message.receiver).config.nodeId := by
      rw [hreads.origin_eq]
      intro heq
      exact hsound.sender_ne (Subtype.ext (heq.trans (h.nodeId_eq message.receiver)))
    rw [PeatMesh.acceptsDelta, hreads.decode_eq, Option.bind_some, if_neg hforeign]
  rw [← hreads.operations_eq]
  refine PeatMesh.adds_delta (h.registry_eq message.receiver) (h.truthful message.receiver) ?_
    htakes (hreads.unwrap_eq _) (hreads.decrypt_eq _ (h.key_eq message.receiver)) haccepts
  rw [hreads.operations_eq]
  exact hsound.carried

theorem Sound.deliver (h : Sound past s) {k : Nat} {entry : EntryPoint} {nowMs : UInt64}
    (horderly : Orderly s (.deliver k entry nowMs)) :
    Sound past (DeltaFleet.step s (.deliver k entry nowMs)) := by
  unfold DeltaFleet.step
  dsimp only
  cases hmessage : s.messages[k]? with
  | none => exact h
  | some message =>
      dsimp only
      have hsound := h.messages message (List.mem_of_getElem? hmessage)
      have hadds := @Sound.adds_deliver _ _ _ _ h _ _ entry nowMs hmessage (horderly message hmessage)
      have hupdated := h.update hadds (List.Subset.refl past)
        (fun key hkey => hsound.stored key hkey.1 hkey.2)
        fun peer => PeatMesh.evolves_act F.crypto
          (PeatMesh.not_buildsFor_hand message.bytes nowMs entry peer) _
      refine { hupdated with arrived := ?_ }
      intro other hother key hkey hop
      rcases List.mem_cons.mp hother with rfl | hold
      · exact (holds_update hadds _ key).mpr (Or.inr ⟨rfl, hkey, hop⟩)
      · exact hupdated.arrived other hold key hkey hop

theorem Sound.step (h : Sound past s) (haead : F.crypto.Aead) {action : F.Action}
    (horderly : Orderly s action) :
    Sound (past ++ (DeltaFleet.stored s action).toList) (step s action) := by
  cases action with
  | perform i action =>
      have hbehaves : (s.node i).Behaves F.records F.crypto action := horderly
      refine h.update (hbehaves.adds (h.registry_eq i) (h.truthful i))
        (List.subset_append_left ..) (fun key hkey => ?_) fun peer =>
          PeatMesh.evolves_act F.crypto (hbehaves.not_buildsFor peer) _
      refine List.mem_append_right _ (Option.mem_toList.mpr ?_)
      exact hkey
  | send i j nonce nowMs =>
      show Sound (past ++ []) _
      rw [List.append_nil]
      exact h.send haead horderly
  | deliver k entry nowMs =>
      show Sound (past ++ []) _
      rw [List.append_nil]
      exact h.deliver horderly

/-- Records stay where they are. -/
theorem Sound.holds_step (h : Sound past s) {action : F.Action} (horderly : Orderly s action)
    {j : F.Member} {key : DocumentKey} (hheld : Holds s j key) :
    Holds (DeltaFleet.step s action) j key := by
  cases action with
  | perform i action =>
      have hadds := PeatMesh.Behaves.adds horderly (h.registry_eq i) (h.truthful i)
      exact (holds_update hadds j key).mpr (Or.inl hheld)
  | send i peer nonce nowMs =>
      have hadds := @PeatMesh.adds_buildDelta _ F.crypto _ _ (h.truthful i) peer nonce nowMs
      exact (holds_update hadds j key).mpr (Or.inl hheld)
  | deliver k entry nowMs =>
      unfold DeltaFleet.step
      dsimp only
      cases hmessage : s.messages[k]? with
      | none => exact hheld
      | some message =>
          have hadds := @Sound.adds_deliver _ _ _ _ h _ _ entry nowMs hmessage
            (horderly message hmessage)
          exact (holds_update hadds j key).mpr (Or.inl hheld)

theorem messages_step (s : F.State) (action : F.Action) :
    s.messages ⊆ (DeltaFleet.step s action).messages := by
  cases action with
  | perform i action => exact List.Subset.refl _
  | send i j nonce nowMs => exact List.subset_append_left ..
  | deliver k entry nowMs =>
      unfold DeltaFleet.step
      dsimp only
      split <;> exact List.Subset.refl _

/-- What a node holds when it sends a delta, the receiver has been told then. -/
theorem Sound.told_after_send (h : Sound past s) {j : F.Member} {key : DocumentKey}
    (hheld : Holds s i key) (nonce : Nonce) (nowMs : UInt64) :
    Told (DeltaFleet.step s (.send i j nonce nowMs)) i j key := by
  rcases Records.sent_or_due (h.registry_eq i) (h.truthful i) hheld j with hop | ⟨stamp, hstamp⟩
  · exact told_of_due hop
  · have hkey : F.records.Named key := (h.truthful i key _ hheld).1
    exact (h.told i j key stamp hkey hstamp).mono (messages_step s _)

/-- When no message is on its way, what one has told another is held by both. -/
theorem Sound.holds_of_told (h : Sound past s) (hsettled : Settled s) {j : F.Member}
    {key : DocumentKey} (hkey : F.records.Named key) (htold : Told s i j key) : Holds s j key := by
  obtain ⟨message, hmessage, -, rfl, hop⟩ := htold
  exact h.arrived message (hsettled message hmessage) key hkey hop

end Step

/-! ## Runs -/

theorem after_append (F : DeltaFleet D) (front back : List F.Action) :
    F.after (front ++ back) = LoggedRun.run step (F.after front) back :=
  LoggedRun.run_append step F.start front back

theorem sound_after (haead : F.crypto.Aead) {actions : List F.Action}
    (horderly : LoggedRun.Along step Orderly F.start actions) :
    Sound (LoggedRun.log step stored F.start actions) (F.after actions) :=
  LoggedRun.invariant_of_good (sound_start F) horderly
    fun _ _ _ hstep h => h.step haead hstep

theorem holds_after (haead : F.crypto.Aead) {front back : List F.Action}
    (horderly : LoggedRun.Along step Orderly F.start (front ++ back)) {i : F.Member}
    {key : DocumentKey} (hheld : Holds (F.after front) i key) :
    Holds (F.after (front ++ back)) i key := by
  obtain ⟨hfront, hback⟩ := LoggedRun.along_append.mp horderly
  rw [after_append]
  have hboth := @LoggedRun.run_keeps_of_good _ _ _
    (fun s : F.State => (∃ past, Sound past s) ∧ Holds s i key) _ _ _
    ⟨⟨_, sound_after haead hfront⟩, hheld⟩ hback ?_
  · exact hboth.2
  · rintro s action hstep ⟨⟨past, hsound⟩, hkeeps⟩
    exact ⟨⟨_, hsound.step haead hstep⟩, hsound.holds_step hstep hkeeps⟩

theorem messages_after (F : DeltaFleet D) (front back : List F.Action) :
    (F.after front).messages ⊆ (F.after (front ++ back)).messages := by
  rw [after_append]
  exact @LoggedRun.run_keeps _ _ _ (fun s : F.State => (F.after front).messages ⊆ s.messages) _ _
    (List.Subset.refl _) fun s action _ h => List.Subset.trans h (messages_step s action)

/-- What a node holds when it sends a delta, the receiver holds once every message has arrived. -/
theorem passed_on (haead : F.crypto.Aead) {before later : List F.Action} {i j : F.Member}
    {nonce : Nonce} {nowMs : UInt64}
    (horderly : LoggedRun.Along step Orderly F.start (before ++ .send i j nonce nowMs :: later))
    (hsettled : Settled (F.after (before ++ .send i j nonce nowMs :: later))) {key : DocumentKey}
    (hheld : Holds (F.after before) i key) :
    Holds (F.after (before ++ .send i j nonce nowMs :: later)) j key := by
  have hbefore := sound_after haead (LoggedRun.along_append.mp horderly).1
  have htold := hbefore.told_after_send (j := j) hheld nonce nowMs
  have hsplit : before ++ .send i j nonce nowMs :: later =
      (before ++ [.send i j nonce nowMs]) ++ later := by simp
  refine (sound_after haead horderly).holds_of_told hsettled (i := i)
    (hbefore.truthful i key _ hheld).1 (htold.mono ?_)
  rw [hsplit]
  have hsent : F.after (before ++ [.send i j nonce nowMs]) =
      step (F.after before) (.send i j nonce nowMs) := after_append ..
  rw [← hsent]
  exact messages_after F _ later

/-- A record that is stored is held from then on. -/
theorem holds_of_stored (haead : F.crypto.Aead) {actions : List F.Action}
    (horderly : LoggedRun.Along step Orderly F.start actions) {i : F.Member} {key : DocumentKey}
    {doc : D} (hstored : .perform i (.storeAppDocument key doc) ∈ actions) :
    doc = F.records.content key ∧ Holds (F.after actions) i key := by
  obtain ⟨before, later, rfl⟩ := List.append_of_mem hstored
  obtain ⟨hfront, hstep, -⟩ := LoggedRun.along_append.mp horderly
  have hbehaves : ((F.after before).node i).Behaves F.records F.crypto
    (.storeAppDocument key doc) := hstep
  have hsound := sound_after haead hfront
  have hadds := hbehaves.adds (hsound.registry_eq i) (hsound.truthful i)
  have hnow : Holds (F.after (before ++ [.perform i (.storeAppDocument key doc)])) i key := by
    rw [after_append]
    exact (holds_update hadds i key).mpr (Or.inr ⟨rfl, rfl⟩)
  have hsplit : before ++ .perform i (.storeAppDocument key doc) :: later =
      (before ++ [.perform i (.storeAppDocument key doc)]) ++ later := by simp
  rw [hsplit] at horderly ⊢
  exact ⟨hbehaves.2, holds_after haead horderly hnow⟩

/-- What is in a store is a record that somebody has stored. -/
theorem stored_of_lookup (haead : F.crypto.Aead) {actions : List F.Action}
    (horderly : LoggedRun.Along step Orderly F.start actions) {j : F.Member} {key : DocumentKey}
    {doc : D} (hdoc : ((F.after actions).node j).appDocuments[key]? = some doc) :
    ∃ i, .perform i (.storeAppDocument key doc) ∈ actions := by
  have hsound := sound_after haead horderly
  have hlogged := hsound.stored j key ((hsound.truthful j).held hdoc)
  obtain ⟨front, action, back, rfl, hstores⟩ := LoggedRun.mem_log hlogged
  have hmem : action ∈ front ++ action :: back := by simp
  cases action with
  | send => cases hstores
  | deliver => cases hstores
  | perform i action =>
      cases action with
      | storeAppDocument other stored =>
          obtain rfl : other = key := Option.some.inj hstores
          obtain ⟨hcontent, -⟩ := holds_of_stored haead horderly hmem
          obtain ⟨-, hsame⟩ := hsound.truthful j other doc hdoc
          exact ⟨i, by rw [hsame, ← hcontent]; exact hmem⟩
      | _ => cases hstores

/-- If neighbours send each other deltas in rounds, and every message arrives in the round in which
it was sent at the latest, then after as many rounds as the fleet is wide everybody holds the
records that anybody held before; and if nobody stores anything more, all hold just what has been
stored. -/
theorem records_reach_everyone (F : DeltaFleet D) (haead : F.crypto.Aead)
    {G : SimpleGraph F.Member} (hconnected : G.Connected) {front : List F.Action}
    {rounds : List (List F.Action)}
    (horderly : LoggedRun.Along step Orderly F.start (front ++ rounds.flatten))
    (hrounds : ∀ (m : Nat) (hm : m < rounds.length),
      (∀ i j, G.Adj i j → ∃ nonce nowMs, .send i j nonce nowMs ∈ rounds[m]) ∧
        Settled (F.after (front ++ (rounds.take (m + 1)).flatten)))
    (hwide : ∀ i j, G.dist i j ≤ rounds.length) :
    let late := F.after (front ++ rounds.flatten)
    (∀ (i j : F.Member) (key : DocumentKey) (doc : D),
        ((F.after front).node i).appDocuments[key]? = some doc →
          (late.node j).appDocuments[key]? = some doc) ∧
      ((∀ i key doc, .perform i (.storeAppDocument key doc) ∉ rounds.flatten) →
        ∀ (j : F.Member) (key : DocumentKey) (doc : D),
          (late.node j).appDocuments[key]? = some doc ↔
            ∃ i, .perform i (.storeAppDocument key doc) ∈ front) := by
  intro late
  have hwithin : ∀ {past}, past <+: front ++ rounds.flatten →
      LoggedRun.Along step Orderly F.start past := LoggedRun.along_of_prefix horderly
  have hreach : ∀ i j, {key | Holds (F.after front) i key} ≤ {key | Holds late j key} := by
    refine @GossipRounds.told_after_rounds _ (Set DocumentKey) (· ≤ ·) _ _ front rounds
      (fun actions i => {key | Holds (F.after actions) i key}) G hconnected ?_ ?_ hwide
    · intro past more _ hwhole i key hheld
      exact holds_after haead (hwithin hwhole) hheld
    · intro m hm i j hadj key hheld
      obtain ⟨hsends, hsettled⟩ := hrounds m hm
      obtain ⟨nonce, nowMs, hsend⟩ := hsends i j hadj
      obtain ⟨before, later, hround⟩ := List.append_of_mem hsend
      have hwhole := hwithin (GossipRounds.prefix_of_take (m + 1))
      rw [GossipRounds.append_take_succ hm, hround, ← List.append_assoc] at hwhole hsettled
      show Holds (F.after (front ++ (rounds.take m).flatten ++ rounds[m])) j key
      rw [hround, ← List.append_assoc]
      exact passed_on haead hwhole hsettled
        (holds_after haead (LoggedRun.along_append.mp hwhole).1 hheld)
  have hlookup : ∀ (i j : F.Member) (key : DocumentKey) (doc : D),
      ((F.after front).node i).appDocuments[key]? = some doc →
        (late.node j).appDocuments[key]? = some doc := by
    intro i j key doc hdoc
    have hfront := sound_after haead (LoggedRun.along_append.mp horderly).1
    obtain ⟨-, rfl⟩ := hfront.truthful i key doc hdoc
    exact hreach i j hdoc
  refine ⟨hlookup, fun hquiet j key doc => ⟨fun hdoc => ?_, ?_⟩⟩
  · obtain ⟨i, hstored⟩ := stored_of_lookup haead horderly hdoc
    exact ⟨i, (List.mem_append.mp hstored).resolve_right (hquiet i key doc)⟩
  · rintro ⟨i, hstored⟩
    obtain ⟨rfl, hheld⟩ :=
      holds_of_stored haead (LoggedRun.along_append.mp horderly).1 hstored
    exact hlookup i j key _ hheld

/-! ## Two nodes -/

/-- A type whose documents are their keys, written as the source and the time. -/
def keyHandler (typeId : UInt8) : DocumentHandler DocumentKey where
  decode data := if data.length = 12 then some ⟨typeId, u32At data 0, u64At data 4⟩ else none
  merge doc _ := (doc, false)
  toDeltaOp doc :=
    some ⟨typeId, 0, doc.sourceNode, doc.timestamp, u32ToLe doc.sourceNode ++ u64ToLe doc.timestamp⟩
  applyDeltaOp doc _ := (doc, false)

def keyRecords : Records DocumentKey where
  registry := (DocumentRegistry.new.tryRegister 0xC0 (keyHandler 0xC0)).1
  Named key := key.typeId = 0xC0 ∧ key.timestamp &&& 0x0000FFFFFFFFFFFF = key.timestamp
  content := id
  operation key :=
    ⟨0xC0, 0, key.sourceNode, key.timestamp, u32ToLe key.sourceNode ++ u64ToLe key.timestamp⟩
  toDeltaOp_eq := by
    rintro ⟨typeId, sourceNode, timestamp⟩ ⟨rfl, -⟩
    rfl
  headerKey_eq := by
    rintro ⟨typeId, sourceNode, timestamp⟩ ⟨rfl, htimestamp⟩
    rw [PeatMesh.headerKey, htimestamp]
  decode_eq := by
    rintro ⟨typeId, sourceNode, timestamp⟩ ⟨rfl, -⟩
    have hread : (keyHandler 0xC0).decode (u32ToLe sourceNode ++ u64ToLe timestamp) =
        some ⟨0xC0, sourceNode, timestamp⟩ := by
      have htime : u64At (u32ToLe sourceNode ++ u64ToLe timestamp) 4 = timestamp := by
        rw [u64At_skip (by simp), u32ToLe_length, ← List.append_nil (u64ToLe timestamp), u64At_toLe]
      simp [keyHandler, htime]
    exact hread
  merge_self := by
    rintro ⟨typeId, sourceNode, timestamp⟩ ⟨rfl, -⟩
    rfl
  applyDeltaOp_self := by
    rintro ⟨typeId, sourceNode, timestamp⟩ ⟨rfl, -⟩
    rfl

def pair : DeltaFleet DocumentKey where
  members := Fleet.pair.members
  crypto := ChatMesh.tagged
  records := keyRecords
  key := some (ChatMesh.tagged.fromSharedSecret "DEMO" (Vector.replicate 32 0x42))
  config i := (PeatMeshConfig.new i "ALPHA" "DEMO").withEncryption (Vector.replicate 32 0x42)
  nodeId_eq _ := rfl
  key_eq _ := rfl

def sighting : DocumentKey := ⟨0xC0, 1, 1700000000000⟩

/-- A has stored something. -/
def noted : List pair.Action := [.perform Fleet.first (.storeAppDocument sighting sighting)]

/-- Each sends the other a delta. -/
def exchange : List pair.Action :=
  [.send Fleet.first Fleet.second (Vector.replicate 12 0) 1000,
    .send Fleet.second Fleet.first (Vector.replicate 12 1) 1000,
    .deliver 0 (.fromNode 1) 1500, .deliver 1 (.fromNode 2) 1500]

instance : DecidablePred Operation.Fits
  | .updatePeripheral peripheral _ =>
      inferInstanceAs (Decidable (Peripheral.decode peripheral.encode = some peripheral))
  | .setEmergency _ _ knownPeers => inferInstanceAs (Decidable (knownPeers.length ≤ 255))
  | .app op =>
      decidable_of_iff (appTypeMin ≤ op.typeId ∧ op.typeId ≤ appTypeMax ∧ op.payload.length ≤ 65535)
        ⟨fun h => ⟨h.1, h.2.1, h.2.2⟩, fun h => ⟨h.typeId_ge, h.typeId_le, h.payload_le⟩⟩
  | .incrementCounter .. => isTrue trivial
  | .ackEmergency .. => isTrue trivial
  | .clearEmergency .. => isTrue trivial

theorem exchange_orderly :
    LoggedRun.Along step Orderly pair.start (noted ++ exchange) := by
  have htakes : ∀ (m : PeatMesh DocumentKey) (node : NodeId),
      (EntryPoint.fromNode node).TakesDeltas m := fun _ _ => ⟨trivial, nofun⟩
  have hij : Fleet.first ≠ Fleet.second := fun heq => absurd (congrArg Subtype.val heq) (by decide)
  refine ⟨⟨⟨rfl, by decide⟩, rfl⟩, ⟨hij, ?_⟩, ⟨hij.symm, ?_⟩, fun _ _ => htakes _ _,
    fun _ _ => htakes _ _, trivial⟩
  · decide +kernel
  · decide +kernel

theorem exchange_settled : Settled (pair.after (noted ++ exchange)) := by
  decide +kernel

theorem sighting_reaches_pair :
    ((pair.after (noted ++ exchange)).node Fleet.second).appDocuments[sighting]? =
      some sighting := by
  have hflat : [exchange].flatten = exchange := List.flatten_singleton
  have hreach := @records_reach_everyone _ pair ChatMesh.tagged_aead _ Fleet.pair_connected noted
    [exchange] ?_ ?_ Fleet.pair_dist_le
  · rw [hflat] at hreach
    exact hreach.1 Fleet.first Fleet.second sighting sighting (by decide +kernel)
  · rw [hflat]
    exact exchange_orderly
  · intro m hm
    obtain rfl : m = 0 := by simpa using hm
    refine ⟨fun i j hadj => ?_, exchange_settled⟩
    rcases Fleet.pair_cases i with rfl | rfl <;> rcases Fleet.pair_cases j with rfl | rfl
    · exact absurd rfl hadj.ne
    · exact ⟨_, _, List.mem_cons_self⟩
    · exact ⟨_, _, List.mem_cons_of_mem _ List.mem_cons_self⟩
    · exact absurd rfl hadj.ne

end DeltaFleet

end PeatBtle
