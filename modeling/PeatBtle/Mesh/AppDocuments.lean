import PeatBtle.Data.LoggedRun
import PeatBtle.Mesh.Effect

/-!
# App documents and their keys

A document that is stored locally goes under its own identity. One that is received
goes under the source and the time in the header of its operation, and nothing
compares these with the payload that it is decoded from.
-/

namespace PeatBtle

open Wire MapMerge

variable {D : Type} (identity : D → UInt32 × UInt64)

/-- A handler whose merges and delta operations keep the identity of a document. -/
structure IdentityHandler extends DocumentHandler D where
  identity_merge : ∀ doc other, identity (merge doc other).1 = identity doc
  identity_applyDeltaOp : ∀ doc op, identity (applyDeltaOp doc op).1 = identity doc

namespace DocumentRegistry

/-- Every registered handler keeps identities. -/
def KeepsIdentity (r : DocumentRegistry D) : Prop :=
  ∀ (typeId : UInt8) (handler : DocumentHandler D), r.handlers[typeId]? = some handler →
    (∀ doc other, identity (handler.merge doc other).1 = identity doc) ∧
      ∀ doc op, identity (handler.applyDeltaOp doc op).1 = identity doc

variable {identity} {r : DocumentRegistry D}

theorem KeepsIdentity.merge (h : r.KeepsIdentity identity) (typeId : UInt8) (doc other : D) :
    identity (r.merge typeId doc other).1 = identity doc := by
  unfold DocumentRegistry.merge
  cases hhandler : r.handlers[typeId]? with
  | none => rfl
  | some handler => exact (h typeId handler hhandler).1 doc other

theorem KeepsIdentity.applyDeltaOp (h : r.KeepsIdentity identity) (typeId : UInt8) (doc : D)
    (op : AppOperation) : identity (r.applyDeltaOp typeId doc op).1 = identity doc := by
  unfold DocumentRegistry.applyDeltaOp
  cases hhandler : r.handlers[typeId]? with
  | none => rfl
  | some handler => exact (h typeId handler hhandler).2 doc op

theorem KeepsIdentity.tryRegister (h : r.KeepsIdentity identity) (typeId : UInt8)
    (handler : IdentityHandler identity) :
    (r.tryRegister typeId handler.toDocumentHandler).1.KeepsIdentity identity := by
  unfold DocumentRegistry.tryRegister
  split_ifs
  · intro other found hfound
    rw [getElem?_insert_eq] at hfound
    split_ifs at hfound
    · obtain rfl := Option.some.inj hfound
      exact ⟨handler.identity_merge, handler.identity_applyDeltaOp⟩
    · exact h other found hfound
  · exact h

end DocumentRegistry

namespace PeatMesh

/-- The document's own key. -/
def documentKey (typeId : UInt8) (doc : D) : DocumentKey :=
  ⟨typeId, (identity doc).1, (identity doc).2⟩

/-- The typed `store_app_document`, which takes the key from the document. -/
def storeTypedDocument (m : PeatMesh D) (typeId : UInt8) (doc : D) : PeatMesh D :=
  m.storeAppDocument (documentKey identity typeId doc) doc

def getAppDocument (m : PeatMesh D) (typeId : UInt8) (sourceNode : UInt32) (timestamp : UInt64) :
    Option D := m.appDocuments[(⟨typeId, sourceNode, timestamp⟩ : DocumentKey)]?

def receiveAppOperation (m : PeatMesh D) (op : AppOperation) : PeatMesh D :=
  { m with appDocuments := applyAppOperation m.documentRegistry m.appDocuments op }

/-- What can happen to the store: a type is registered, a document stored, an operation received. -/
inductive AppEvent where
  | register (typeId : UInt8) (handler : IdentityHandler identity)
  | store (typeId : UInt8) (doc : D)
  | receive (op : AppOperation)

def appStep (m : PeatMesh D) : AppEvent identity → PeatMesh D
  | .register typeId handler =>
      { m with documentRegistry :=
          (m.documentRegistry.tryRegister typeId handler.toDocumentHandler).1 }
  | .store typeId doc => m.storeTypedDocument identity typeId doc
  | .receive op => m.receiveAppOperation op

/-- The app operations of a delta, in order. -/
def receivedEvents : List Operation → List (AppEvent identity)
  | [] => []
  | .app op :: operations => .receive op :: receivedEvents operations
  | _ :: operations => receivedEvents operations

theorem foldl_storeAppOperation (operations : List Operation) (m : PeatMesh D) :
    operations.foldl (storeAppOperation m.documentRegistry) m.appDocuments =
      (LoggedRun.run (appStep identity) m (receivedEvents identity operations)).appDocuments := by
  induction operations generalizing m with
  | nil => rfl
  | cons op operations ih =>
      cases op with
      | app op => exact ih (m.receiveAppOperation op)
      | _ => exact ih m

/-- Processing a delta is receiving its app operations one after the other. -/
theorem appDocuments_processDelta (m : PeatMesh D) (sourceNode : NodeId) (data : Bytes)
    (nowMs : UInt64) (relay : RelayInfo) :
    (m.processDeltaDocumentInternal sourceNode data nowMs relay).1.appDocuments =
      (LoggedRun.run (appStep identity) m (receivedEvents identity
        ((m.acceptsDelta data).elim [] DeltaDocument.operations))).appDocuments := by
  have hobserved := congrArg (fun o => o.shared.appDocuments)
    (m.observe_processDelta sourceNode data nowMs relay)
  refine (show _ = (m.deltaEffect data).1.appDocuments from hobserved).trans ?_
  unfold deltaEffect
  cases m.acceptsDelta data with
  | none => rfl
  | some delta => exact foldl_storeAppOperation identity delta.operations m

/-- Every entry of the store has the identity of its document as its key, and is found by it. -/
def StoredUnderIdentity (m : PeatMesh D) : Prop :=
  ∀ (key : DocumentKey) (doc : D), m.appDocuments[key]? = some doc →
    identity doc = (key.sourceNode, key.timestamp) ∧
      m.getAppDocument key.typeId (identity doc).1 (identity doc).2 = some doc

/-- A received operation that starts an entry has the identity of its payload in the header, the
time without its upper 16 bits. -/
def HeaderFits (m : PeatMesh D) : AppEvent identity → Prop
  | .receive op =>
      m.getAppDocument op.typeId op.sourceNode (op.timestamp &&& 0x0000FFFFFFFFFFFF) = none →
        ∀ doc, m.documentRegistry.decode op.typeId op.payload = some doc →
          identity doc = (op.sourceNode, op.timestamp &&& 0x0000FFFFFFFFFFFF)
  | _ => True

variable {identity} {m : PeatMesh D}

theorem storedUnderIdentity_iff :
    m.StoredUnderIdentity identity ↔
      ∀ (key : DocumentKey) (doc : D), m.appDocuments[key]? = some doc →
        identity doc = (key.sourceNode, key.timestamp) := by
  refine forall_congr' fun key => forall_congr' fun doc => imp_congr_right fun hdoc => ?_
  refine and_iff_left_of_imp fun hidentity => ?_
  rw [hidentity]
  exact hdoc

/-- An entry put into a good store leaves it good exactly if it is good itself. -/
theorem storedUnderIdentity_insert {after : PeatMesh D} {key : DocumentKey} {doc : D}
    (h : m.StoredUnderIdentity identity)
    (hafter : after.appDocuments = m.appDocuments.insert key doc) :
    after.StoredUnderIdentity identity ↔ identity doc = (key.sourceNode, key.timestamp) := by
  rw [storedUnderIdentity_iff] at h ⊢
  simp only [hafter, getElem?_insert_eq]
  constructor
  · intro hall
    exact hall key doc (if_pos rfl)
  · intro hidentity other found hfound
    split_ifs at hfound with hkey
    · obtain rfl := Option.some.inj hfound
      exact hkey ▸ hidentity
    · exact h other found hfound

theorem storedUnderIdentity_store (hkeeps : m.documentRegistry.KeepsIdentity identity)
    (h : m.StoredUnderIdentity identity) (typeId : UInt8) (doc : D) :
    (m.storeTypedDocument identity typeId doc).StoredUnderIdentity identity := by
  refine (storedUnderIdentity_insert h rfl).mpr ?_
  cases hold : m.appDocuments[documentKey identity typeId doc]? with
  | none => rfl
  | some existing =>
      show identity (m.documentRegistry.merge typeId existing doc).1 = _
      rw [hkeeps.merge]
      exact (h _ existing hold).1

/-- The key that an app operation's header names. -/
def headerKey (op : AppOperation) : DocumentKey :=
  ⟨op.typeId, op.sourceNode, op.timestamp &&& 0x0000FFFFFFFFFFFF⟩

section Receive

variable {registry : DocumentRegistry D} {docs : AppDocumentStore D} {op : AppOperation}

theorem applyAppOperation_of_found {existing : D} (h : docs[headerKey op]? = some existing) :
    applyAppOperation registry docs op =
      docs.insert (headerKey op) (registry.applyDeltaOp op.typeId existing op).1 := by
  unfold headerKey at h
  simp only [applyAppOperation, h, headerKey]

theorem applyAppOperation_of_decoded {decoded : D} (h : docs[headerKey op]? = none)
    (hdecode : registry.decode op.typeId op.payload = some decoded) :
    applyAppOperation registry docs op = docs.insert (headerKey op) decoded := by
  unfold headerKey at h
  simp only [applyAppOperation, h, hdecode, headerKey]

theorem applyAppOperation_of_undecoded (h : docs[headerKey op]? = none)
    (hdecode : registry.decode op.typeId op.payload = none) :
    applyAppOperation registry docs op = docs := by
  unfold headerKey at h
  simp only [applyAppOperation, h, hdecode]

end Receive

theorem storedUnderIdentity_receive (hkeeps : m.documentRegistry.KeepsIdentity identity)
    (h : m.StoredUnderIdentity identity) (op : AppOperation) :
    (m.receiveAppOperation op).StoredUnderIdentity identity ↔
      m.HeaderFits identity (.receive op) := by
  show _ ↔ (m.appDocuments[headerKey op]? = none → ∀ doc,
    m.documentRegistry.decode op.typeId op.payload = some doc →
      identity doc = ((headerKey op).sourceNode, (headerKey op).timestamp))
  cases hold : m.appDocuments[headerKey op]? with
  | some existing =>
      have hafter : (m.receiveAppOperation op).appDocuments = _ := applyAppOperation_of_found hold
      rw [storedUnderIdentity_insert h hafter, hkeeps.applyDeltaOp]
      exact iff_of_true (h (headerKey op) existing hold).1 fun hnone => by cases hnone
  | none =>
      cases hdecode : m.documentRegistry.decode op.typeId op.payload with
      | some decoded =>
          have hafter : (m.receiveAppOperation op).appDocuments = _ :=
            applyAppOperation_of_decoded hold hdecode
          rw [storedUnderIdentity_insert h hafter]
          simp
      | none =>
          have hafter : (m.receiveAppOperation op).appDocuments = m.appDocuments :=
            applyAppOperation_of_undecoded hold hdecode
          refine iff_of_true ?_ fun _ doc hdoc => by cases hdoc
          rw [storedUnderIdentity_iff, hafter]
          exact storedUnderIdentity_iff.mp h

theorem keepsIdentity_appStep (hkeeps : m.documentRegistry.KeepsIdentity identity)
    (event : AppEvent identity) :
    (m.appStep identity event).documentRegistry.KeepsIdentity identity := by
  cases event with
  | register typeId handler => exact hkeeps.tryRegister typeId handler
  | store typeId doc => exact hkeeps
  | receive op => exact hkeeps

theorem storedUnderIdentity_appStep (hkeeps : m.documentRegistry.KeepsIdentity identity)
    (h : m.StoredUnderIdentity identity) (event : AppEvent identity) :
    (m.appStep identity event).StoredUnderIdentity identity ↔ m.HeaderFits identity event := by
  cases event with
  | register typeId handler => exact iff_of_true h trivial
  | store typeId doc => exact iff_of_true (storedUnderIdentity_store hkeeps h typeId doc) trivial
  | receive op => exact storedUnderIdentity_receive hkeeps h op

variable (identity)

/-- A fresh node stores every document under its own identity, at all times, if and only if the
header of every received operation that starts an entry fits its payload; and the operations it
receives are those of the deltas it takes. -/
theorem app_documents_identified_iff (crypto : Crypto) :
    (∀ (config : PeatMeshConfig) (events : List (AppEvent identity)),
      (∀ front, front <+: events →
          (LoggedRun.run (appStep identity) (PeatMesh.new crypto config) front).StoredUnderIdentity
            identity) ↔
        LoggedRun.Along (appStep identity) (HeaderFits identity) (PeatMesh.new crypto config)
          events) ∧
    ∀ (m : PeatMesh D) (sourceNode : NodeId) (data : Bytes) (nowMs : UInt64) (relay : RelayInfo),
      (m.processDeltaDocumentInternal sourceNode data nowMs relay).1.appDocuments =
        (LoggedRun.run (appStep identity) m (receivedEvents identity
          ((m.acceptsDelta data).elim [] DeltaDocument.operations))).appDocuments := by
  refine ⟨fun config events => ?_, appDocuments_processDelta identity⟩
  refine @LoggedRun.forall_prefix_iff_along _ _ (appStep identity)
    (fun m => m.documentRegistry.KeepsIdentity identity) _ _ _ _ ?_ ?_
    (fun _ event hkeeps => keepsIdentity_appStep hkeeps event)
    fun _ event hkeeps h => storedUnderIdentity_appStep hkeeps h event
  · intro typeId handler hhandler
    exact absurd hhandler getElem?_empty_ne_some
  · intro key doc hdoc
    exact absurd hdoc getElem?_empty_ne_some

/-- A type whose documents are a source and a time, decoded from twelve bytes. -/
def stampHandler : IdentityHandler (id : UInt32 × UInt64 → UInt32 × UInt64) where
  decode data := if data.length = 12 then some (u32At data 0, u64At data 4) else none
  merge doc _ := (doc, false)
  toDeltaOp _ := none
  applyDeltaOp doc _ := (doc, false)
  identity_merge _ _ := rfl
  identity_applyDeltaOp _ _ := rfl

/-- The header names node 1 and the time 1000, the payload node 2 and the time 2000. -/
def misfiled : AppOperation where
  typeId := 0xC0
  opCode := 0
  sourceNode := 1
  timestamp := 1000
  payload := u32ToLe 2 ++ u64ToLe 2000

theorem misfiled_not_found :
    let m := LoggedRun.run (appStep id)
      (PeatMesh.new Crypto.unavailable (PeatMeshConfig.new 3 "CHARLIE" "DEMO"))
      [.register 0xC0 stampHandler, .receive misfiled]
    m.getAppDocument 0xC0 1 1000 = some (2, 2000) ∧ m.getAppDocument 0xC0 2 2000 = none := by
  decide +kernel

end PeatMesh

end PeatBtle
