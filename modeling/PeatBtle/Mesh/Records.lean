import PeatBtle.Mesh.AppDocuments
import PeatBtle.Mesh.DeltaCompleteness

/-!
# Records

App documents that do not change: their key says which document it is, and the handler
of their type writes a document into an operation and reads it back. Storing a record
again or receiving it again changes nothing.
-/

namespace PeatBtle

open Wire MapMerge

namespace Operation

theorem appKey_inj {a b : AppOperation} (h : key (.app a) = key (.app b)) :
    a.typeId = b.typeId ∧ a.sourceNode = b.sourceNode ∧ a.timestamp = b.timestamp := by
  have hfirst : ∀ op : AppOperation, key (.app op) = "app:" ++ decimal op.typeId.toNat ++ ":" ++
      ("" ++ decimal op.sourceNode.toNat ++ ":" ++ decimal op.timestamp.toNat) := by
    intro op
    simp only [key, String.append_assoc, String.empty_append]
  rw [hfirst, hfirst] at h
  obtain ⟨htype, hrest⟩ := numbered_key_inj h
  obtain ⟨hsource, htimestamp⟩ := numbered_key_inj hrest
  exact ⟨UInt8.toNat_inj.mp htype, UInt32.toNat_inj.mp hsource,
    UInt64.toNat_inj.mp (decimal_injective htimestamp)⟩

/-- Only app operations are filed under an app document's key. -/
theorem eq_app_of_key {op : Operation} {b : AppOperation} (h : op.key = key (.app b)) :
    ∃ a, op = .app a := by
  have hsecond : op.key.toList[1]? = (key (.app b)).toList[1]? := by rw [h]
  cases op with
  | app a => exact ⟨a, rfl⟩
  | _ => simp [key] at hsecond

end Operation

/-- What the documents of some keys are, and handlers that carry them whole. -/
structure Records (D : Type) where
  registry : DocumentRegistry D
  Named : DocumentKey → Prop
  content : DocumentKey → D
  operation : DocumentKey → AppOperation
  toDeltaOp_eq : ∀ key, Named key →
    registry.toDeltaOp key.typeId (content key) = some (operation key)
  headerKey_eq : ∀ key, Named key → PeatMesh.headerKey (operation key) = key
  decode_eq : ∀ key, Named key →
    registry.decode key.typeId (operation key).payload = some (content key)
  merge_self : ∀ key, Named key →
    (registry.merge key.typeId (content key) (content key)).1 = content key
  applyDeltaOp_self : ∀ key, Named key →
    (registry.applyDeltaOp key.typeId (content key) (operation key)).1 = content key

namespace Records

variable {D : Type} (R : Records D)

/-- Every document in the store is the record that its key names. -/
def Truthful (docs : AppDocumentStore D) : Prop :=
  ∀ (key : DocumentKey) (doc : D), docs[key]? = some doc → R.Named key ∧ doc = R.content key

def Held (docs : AppDocumentStore D) (key : DocumentKey) : Prop := docs[key]? = some (R.content key)

/-- Operations about app documents carry records. -/
def Carried (operations : List Operation) : Prop :=
  ∀ op, .app op ∈ operations → ∃ key, R.Named key ∧ op = R.operation key

variable {R} {docs : AppDocumentStore D} {key : DocumentKey}

theorem Truthful.insert (h : R.Truthful docs) (hkey : R.Named key) :
    R.Truthful (docs.insert key (R.content key)) := by
  intro other doc hdoc
  rw [getElem?_insert_eq] at hdoc
  split_ifs at hdoc with hsame
  · obtain rfl := Option.some.inj hdoc
    exact ⟨hsame ▸ hkey, by rw [hsame]⟩
  · exact h other doc hdoc

theorem held_insert (key other : DocumentKey) :
    R.Held (docs.insert key (R.content key)) other ↔ other = key ∨ R.Held docs other := by
  unfold Held
  rw [getElem?_insert_eq]
  split_ifs with hsame
  · exact iff_of_true (by rw [hsame]) (Or.inl hsame.symm)
  · exact (or_iff_right fun heq => hsame heq.symm).symm

theorem Truthful.held (h : R.Truthful docs) {doc : D} (hdoc : docs[key]? = some doc) :
    R.Held docs key := by
  obtain ⟨-, rfl⟩ := h key doc hdoc
  exact hdoc

theorem operation_inj {key other : DocumentKey} (hkey : R.Named key) (hother : R.Named other)
    (h : Operation.key (.app (R.operation key)) = Operation.key (.app (R.operation other))) :
    key = other := by
  obtain ⟨htype, hsource, htimestamp⟩ := Operation.appKey_inj h
  rw [← R.headerKey_eq key hkey, ← R.headerKey_eq other hother, PeatMesh.headerKey, htype, hsource,
    htimestamp, PeatMesh.headerKey]

/-! ## Storing and receiving -/

theorem appDocuments_store {m : PeatMesh D} (hregistry : m.documentRegistry = R.registry)
    (h : R.Truthful m.appDocuments) (hkey : R.Named key) :
    (m.storeAppDocument key (R.content key)).appDocuments =
      m.appDocuments.insert key (R.content key) := by
  unfold PeatMesh.storeAppDocument
  dsimp only
  cases hold : m.appDocuments[key]? with
  | none => rfl
  | some existing =>
      obtain ⟨-, rfl⟩ := h key existing hold
      dsimp only
      rw [hregistry, R.merge_self key hkey]

theorem applyAppOperation_eq (h : R.Truthful docs) (hkey : R.Named key) :
    PeatMesh.applyAppOperation R.registry docs (R.operation key) =
      docs.insert key (R.content key) := by
  have hheader := R.headerKey_eq key hkey
  have htype : (R.operation key).typeId = key.typeId := congrArg DocumentKey.typeId hheader
  cases hold : docs[key]? with
  | none =>
      rw [PeatMesh.applyAppOperation_of_decoded (by rw [hheader, hold])
        (by rw [htype]; exact R.decode_eq key hkey), hheader]
  | some existing =>
      obtain ⟨-, rfl⟩ := h key existing hold
      rw [PeatMesh.applyAppOperation_of_found (by rw [hheader]; exact hold), hheader, htype,
        R.applyDeltaOp_self key hkey]

/-- The records in a list of operations are added to the store. -/
theorem foldl_storeAppOperation {operations : List Operation} (h : R.Truthful docs)
    (hcarried : R.Carried operations) :
    R.Truthful (operations.foldl (PeatMesh.storeAppOperation R.registry) docs) ∧
      ∀ key, R.Held (operations.foldl (PeatMesh.storeAppOperation R.registry) docs) key ↔
        R.Held docs key ∨ R.Named key ∧ .app (R.operation key) ∈ operations := by
  induction operations generalizing docs with
  | nil => exact ⟨h, fun key => by simp⟩
  | cons op operations ih =>
      have hrest : R.Carried operations := fun a ha => hcarried a (List.mem_cons_of_mem _ ha)
      cases op with
      | app a =>
          obtain ⟨added, hadded, rfl⟩ := hcarried a List.mem_cons_self
          have hstored : PeatMesh.storeAppOperation R.registry docs (.app (R.operation added)) =
              docs.insert added (R.content added) := applyAppOperation_eq h hadded
          rw [List.foldl_cons, hstored]
          obtain ⟨htruthful, hheld⟩ := ih (h.insert hadded) hrest
          refine ⟨htruthful, fun key => ?_⟩
          rw [hheld, held_insert, List.mem_cons]
          constructor
          · rintro ((rfl | hold) | ⟨hkey, hmem⟩)
            · exact Or.inr ⟨hadded, Or.inl rfl⟩
            · exact Or.inl hold
            · exact Or.inr ⟨hkey, Or.inr hmem⟩
          · rintro (hold | ⟨hkey, hsame | hmem⟩)
            · exact Or.inl (Or.inr hold)
            · have hkeys : key = added :=
                operation_inj hkey hadded (congrArg Operation.key hsame)
              exact Or.inl (Or.inl hkeys)
            · exact Or.inr ⟨hkey, hmem⟩
      | _ =>
          obtain ⟨htruthful, hheld⟩ := ih h hrest
          refine ⟨htruthful, fun key => (hheld key).trans ?_⟩
          refine or_congr_right (and_congr_right fun _ => ?_)
          simp

/-! ## Sending -/

variable {m : PeatMesh D}

theorem mem_allOperations_app {op : AppOperation} :
    .app op ∈ m.allOperations ↔ op ∈ m.appDocumentDeltaOps := by
  have hemergency : ∀ e : Option EmergencyEvent, Operation.app op ∉ PeatMesh.emergencyOperations e := by
    intro e
    cases e <;> simp [PeatMesh.emergencyOperations]
  simp [PeatMesh.allOperations, PeatMesh.syncOperations, PeatMesh.peripheralOperation, hemergency]

/-- A node's operations are those of the records it holds. -/
theorem mem_allOperations_iff (hregistry : m.documentRegistry = R.registry)
    (h : R.Truthful m.appDocuments) {op : AppOperation} :
    .app op ∈ m.allOperations ↔ ∃ key, R.Held m.appDocuments key ∧ op = R.operation key := by
  rw [mem_allOperations_app, PeatMesh.appDocumentDeltaOps, List.mem_filterMap, hregistry]
  constructor
  · rintro ⟨⟨key, doc⟩, hentry, hop⟩
    have hdoc := Std.ExtTreeMap.mem_toList_iff_getElem?_eq_some.mp hentry
    obtain ⟨hkey, rfl⟩ := h key doc hdoc
    rw [R.toDeltaOp_eq key hkey] at hop
    exact ⟨key, hdoc, (Option.some.inj hop).symm⟩
  · rintro ⟨key, hheld, rfl⟩
    exact ⟨(key, R.content key), Std.ExtTreeMap.mem_toList_iff_getElem?_eq_some.mpr hheld,
      R.toDeltaOp_eq key (h key _ hheld).1⟩

theorem carried_operationsForPeer (hregistry : m.documentRegistry = R.registry)
    (h : R.Truthful m.appDocuments) (peer : NodeId) : R.Carried (m.operationsForPeer peer) := by
  intro op hop
  obtain ⟨key, hheld, rfl⟩ :=
    (mem_allOperations_iff hregistry h).mp (PeatMesh.mem_operationsForPeer.mp hop).1
  exact ⟨key, (h key _ hheld).1, rfl⟩

/-- A held record is in the delta for a peer, or marked as sent to it. -/
theorem sent_or_due (hregistry : m.documentRegistry = R.registry) (h : R.Truthful m.appDocuments)
    (hheld : R.Held m.appDocuments key) (peer : NodeId) :
    .app (R.operation key) ∈ m.operationsForPeer peer ∨
      ∃ stamp, m.sentStamp peer (Operation.key (.app (R.operation key))) = some stamp := by
  have hop := (mem_allOperations_iff hregistry h).mpr ⟨key, hheld, rfl⟩
  by_cases hneeds : m.needsSend peer (.app (R.operation key)) = true
  · exact Or.inl (PeatMesh.mem_operationsForPeer.mpr ⟨hop, hneeds⟩)
  · rw [PeatMesh.needsSend_iff] at hneeds
    push Not at hneeds
    obtain ⟨stamp, hstamp, -⟩ := hneeds
    exact Or.inr ⟨stamp, hstamp⟩

/-- What a delta marks is what it carries. -/
theorem sentStamp_buildDelta (hregistry : m.documentRegistry = R.registry)
    (h : R.Truthful m.appDocuments) (hkey : R.Named key) (crypto : Crypto) {peer : NodeId}
    {nonce : Nonce} {nowMs stamp : UInt64}
    (hstamp : (m.buildDeltaDocumentForPeer crypto peer nonce nowMs).1.sentStamp peer
      (Operation.key (.app (R.operation key))) = some stamp) :
    m.sentStamp peer (Operation.key (.app (R.operation key))) = some stamp ∨
      .app (R.operation key) ∈ m.operationsForPeer peer := by
  rcases PeatMesh.sentStamp_buildDelta crypto hstamp with hbefore | ⟨op, hop, hsame, -⟩
  · exact Or.inl hbefore
  · obtain ⟨a, rfl⟩ := Operation.eq_app_of_key hsame
    obtain ⟨other, hother, rfl⟩ := carried_operationsForPeer hregistry h peer a hop
    obtain rfl := operation_inj hother hkey hsame
    exact Or.inr hop

end Records

end PeatBtle
