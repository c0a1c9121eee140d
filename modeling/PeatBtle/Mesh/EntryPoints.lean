import Mathlib.Data.List.Induction
import PeatBtle.Mesh.Effect
import PeatBtle.Mesh.Run

/-!
# Agreement of the entry points

The two entry points for known senders agree on everything. The third one skips
the test for deltas and does not keep the sender's peripheral, so it agrees with
them only on messages for which neither step matters.
-/

namespace PeatBtle

open Wire MapMerge

namespace PeatMesh

variable {D : Type} (crypto : Crypto)

/-! ## Peripherals in a delta -/

def updatedPeripherals (operations : List Operation) : List Peripheral :=
  operations.filterMap fun
    | .updatePeripheral peripheral _ => some peripheral
    | _ => none

/-- Only the last peripheral of a delta remains. -/
theorem foldl_storeOperation (origin : NodeId) (operations : List Operation)
    (peripherals : Map NodeId Peripheral) :
    operations.foldl (storeOperation origin) peripherals =
      match (updatedPeripherals operations).getLast? with
      | none => peripherals
      | some peripheral => peripherals.insert origin peripheral := by
  induction operations using List.reverseRecOn with
  | nil => rfl
  | append_singleton operations op ih =>
      have happend : updatedPeripherals (operations ++ [op]) =
          updatedPeripherals operations ++ updatedPeripherals [op] := List.filterMap_append ..
      rw [List.foldl_append, ih, happend]
      cases op with
      | updatePeripheral peripheral timestamp =>
          have hlast : (updatedPeripherals operations ++
              updatedPeripherals [.updatePeripheral peripheral timestamp]).getLast? =
              some peripheral := List.getLast?_concat
          rw [hlast]
          cases (updatedPeripherals operations).getLast? with
          | none => rfl
          | some earlier =>
              apply Std.ExtTreeMap.ext_getElem?
              intro node
              simp only [List.foldl_cons, List.foldl_nil, storeOperation, getElem?_insert_eq]
              split <;> rfl
      | _ =>
          rw [show updatedPeripherals [_] = [] from rfl, List.append_nil]
          rfl

theorem foldl_storeOperation_eq_self_iff {origin : NodeId} {operations : List Operation}
    {peripherals : Map NodeId Peripheral} :
    operations.foldl (storeOperation origin) peripherals = peripherals ↔
      ∀ peripheral, (updatedPeripherals operations).getLast? = some peripheral →
        peripherals[origin]? = some peripheral := by
  rw [foldl_storeOperation]
  cases (updatedPeripherals operations).getLast? with
  | none => simp
  | some peripheral => simp [insert_eq_self_iff]

/-! ## When the third path agrees -/

/-- The author's peripheral, if the document has one, is the one stored. -/
def PeripheralKnown (m : PeatMesh D) (received : PeatDocument) : Prop :=
  ∀ peripheral, received.peripheral = some peripheral →
    m.peerPeripherals[received.nodeId]? = some peripheral

/-- The last peripheral of the delta is the one stored and its app operations change nothing. -/
def DeltaKnown (m : PeatMesh D) (delta : DeltaDocument) : Prop :=
  (∀ peripheral, (updatedPeripherals delta.operations).getLast? = some peripheral →
      m.peerPeripherals[delta.originNode]? = some peripheral) ∧
    delta.operations.foldl (storeAppOperation m.documentRegistry) m.appDocuments = m.appDocuments

/-- A plaintext that is no delta must not bring a new peripheral. A delta must bring nothing new
under either reading, and where it is to be relayed both readings must be accepted or neither. -/
def Neutral (m : PeatMesh D) (relay : RelayInfo) (plaintext : Bytes) : Prop :=
  if DeltaDocument.isDeltaDocument plaintext then
    (∀ received, m.documentSync.accepts plaintext = some received →
        m.documentSync.Covers received) ∧
      (∀ delta, m.acceptsDelta plaintext = some delta → m.DeltaKnown delta) ∧
      (relay.relayData = none ∨
        ((m.documentSync.accepts plaintext).isSome ↔ (m.acceptsDelta plaintext).isSome))
  else ∀ received, m.documentSync.accepts plaintext = some received → m.PeripheralKnown received

/-- Equal states and equal relay data. -/
def SameEffect (relay : RelayInfo) (effect other : Effect D) : Prop :=
  effect.1 = other.1 ∧
    (if effect.2 then relay.relayData else none) = if other.2 then relay.relayData else none

theorem storedPeripheral_eq_self_iff {m : PeatMesh D} {received : PeatDocument} :
    m.storedPeripheral received = m.peerPeripherals ↔ m.PeripheralKnown received := by
  unfold storedPeripheral PeripheralKnown
  cases received.peripheral with
  | none => simp
  | some peripheral => simp [insert_eq_self_iff]

theorem mergeAndStoreEffect_agrees_iff (m : PeatMesh D) (relay : RelayInfo) (plaintext : Bytes) :
    SameEffect relay (m.mergeAndStoreEffect plaintext) (m.mergeEffect plaintext) ↔
      ∀ received, m.documentSync.accepts plaintext = some received → m.PeripheralKnown received := by
  unfold SameEffect mergeAndStoreEffect mergeEffect
  cases m.documentSync.accepts plaintext with
  | none => simp
  | some received =>
      simp [SharedState.ext_iff, shared, ← storedPeripheral_eq_self_iff]

theorem deltaEffect_agrees_iff (m : PeatMesh D) (relay : RelayInfo) (plaintext : Bytes) :
    SameEffect relay (m.deltaEffect plaintext) (m.mergeEffect plaintext) ↔
      (∀ received, m.documentSync.accepts plaintext = some received →
          m.documentSync.Covers received) ∧
        (∀ delta, m.acceptsDelta plaintext = some delta → m.DeltaKnown delta) ∧
        (relay.relayData = none ∨
          ((m.documentSync.accepts plaintext).isSome ↔ (m.acceptsDelta plaintext).isSome)) := by
  unfold SameEffect deltaEffect mergeEffect
  cases m.documentSync.accepts plaintext with
  | none =>
      cases m.acceptsDelta plaintext with
      | none => simp
      | some delta =>
          simp [SharedState.ext_iff, shared, DeltaKnown, foldl_storeOperation_eq_self_iff]
  | some received =>
      have hcovers : m.documentSync = (m.documentSync.mergeReceived received).1 ↔
          m.documentSync.Covers received :=
        eq_comm.trans DocumentSync.mergeReceived_eq_self_iff
      cases m.acceptsDelta plaintext with
      | none => simp [SharedState.ext_iff, shared, hcovers, eq_comm]
      | some delta =>
          simp [SharedState.ext_iff, shared, DeltaKnown, foldl_storeOperation_eq_self_iff, hcovers]

theorem effects_agree_iff (m : PeatMesh D) (relay : RelayInfo) (plaintext : Bytes) :
    SameEffect relay (m.knownEffect plaintext) (m.mergeEffect plaintext) ↔
      m.Neutral relay plaintext := by
  unfold knownEffect Neutral
  split_ifs
  · exact m.deltaEffect_agrees_iff relay plaintext
  · exact m.mergeAndStoreEffect_agrees_iff relay plaintext

/-- Two effects show in the observation exactly where a plaintext comes out. -/
theorem conclude_eq_iff (m : PeatMesh D) (effect other : Bytes → Effect D)
    (unwrapped : SeenMessageCache × Option (Bytes × RelayInfo)) :
    m.conclude crypto effect unwrapped = m.conclude crypto other unwrapped ↔
      ∀ document relay plaintext, unwrapped.2 = some (document, relay) →
        m.decryptDocument crypto document = some plaintext →
        SameEffect relay (effect plaintext) (other plaintext) := by
  unfold conclude
  cases unwrapped.2 with
  | none => simp
  | some opened =>
      obtain ⟨document, relay⟩ := opened
      cases hplain : m.decryptDocument crypto document with
      | none =>
          dsimp only
          refine iff_of_true (by rw [hplain]) ?_
          rintro document' relay' plaintext ⟨⟩ hdecrypt
          rw [hplain] at hdecrypt
          cases hdecrypt
      | some plaintext =>
          dsimp only
          rw [hplain]
          dsimp only
          rw [Observation.mk.injEq]
          constructor
          · rintro ⟨hshared, -, hrelay⟩ document' relay' plaintext' ⟨⟩ hdecrypt
            rw [hplain] at hdecrypt
            cases hdecrypt
            exact ⟨hshared, hrelay⟩
          · intro h
            obtain ⟨hshared, hrelay⟩ := h document relay plaintext rfl hplain
            exact ⟨hshared, rfl, hrelay⟩

/-- All three entry points leave the same document state, stored peripherals, app documents and
seen messages and return the same bytes to relay exactly when the plaintext inside the message, if
one comes out, is neutral. -/
theorem entry_points_agree_iff (m : PeatMesh D) (identifier : String) (nodeId : NodeId)
    (hknown : m.peerManager.getNodeId identifier = some nodeId) (data : Bytes) (nowMs : UInt64) :
    (observe (m.onBleDataReceived crypto identifier data nowMs) =
          observe (m.onBleDataReceivedFromNode crypto nodeId data nowMs) ∧
        observe (m.onBleDataReceived crypto identifier data nowMs) =
          observe (m.onBleData crypto identifier data nowMs)) ↔
      ∀ document relay plaintext, (m.unwrap data nowMs).2 = some (document, relay) →
        m.decryptDocument crypto document = some plaintext → m.Neutral relay plaintext := by
  rw [observe_onBleDataReceived crypto hknown, observe_onBleDataReceivedFromNode, observe_onBleData,
    and_iff_right rfl, conclude_eq_iff]
  simp only [effects_agree_iff]

/-- A first document sent over a connection: only two of the three entry points keep the sender's
peripheral. -/
theorem first_document_kept_by_two :
    let document := (DocumentSync.new 0x11111111 "ALPHA-1").buildDocument
    let received := plainReceiver.onBleDataReceived .unavailable "central" document 2000
    let fromNode := plainReceiver.onBleDataReceivedFromNode .unavailable 0x11111111 document 2000
    let incoming := plainReceiver.onBleData .unavailable "central" document 2000
    plainReceiver.peerManager.getNodeId "central" = some 0x11111111 ∧
      received.1.peerPeripherals.size = 1 ∧ fromNode.1.peerPeripherals.size = 1 ∧
      incoming.1.peerPeripherals.size = 0 := by
  decide +kernel

/-- A document without a peripheral, but with a count that the receiver lacks. -/
def bareDocument : Bytes := (PeatDocument.new 0x11111111).incrementCounter.encode

theorem bareDocument_agrees :
    observe (plainReceiver.onBleDataReceived .unavailable "central" bareDocument 2000) =
        observe
          (plainReceiver.onBleDataReceivedFromNode .unavailable 0x11111111 bareDocument 2000) ∧
      observe (plainReceiver.onBleDataReceived .unavailable "central" bareDocument 2000) =
        observe (plainReceiver.onBleData .unavailable "central" bareDocument 2000) := by
  refine (entry_points_agree_iff .unavailable plainReceiver "central" 0x11111111 (by decide +kernel)
    bareDocument 2000).mpr ?_
  intro document relay plaintext hunwrap hplain
  have hopened : (plainReceiver.unwrap bareDocument 2000).2 =
      some (bareDocument, RelayInfo.direct) := by
    decide +kernel
  have hplaintext : plainReceiver.decryptDocument .unavailable bareDocument = some bareDocument := by
    decide +kernel
  have haccepts : plainReceiver.documentSync.accepts bareDocument =
      some (PeatDocument.new 0x11111111).incrementCounter := by
    decide +kernel
  rw [hopened] at hunwrap
  obtain ⟨rfl, rfl⟩ := Prod.mk.inj (Option.some.inj hunwrap)
  rw [hplaintext] at hplain
  obtain rfl := Option.some.inj hplain
  have hlegacy : ¬ DeltaDocument.isDeltaDocument bareDocument = true := by decide +kernel
  unfold Neutral
  rw [if_neg hlegacy]
  intro received hreceived peripheral hperipheral
  rw [haccepts] at hreceived
  obtain rfl := Option.some.inj hreceived
  cases hperipheral

end PeatMesh

end PeatBtle
