import PeatBtle.Chat.Broadcast
import PeatBtle.Mesh.ActionFrame
import PeatBtle.Mesh.Records
import PeatBtle.Sync.DeltaRoundTrip

/-!
# What a node makes of records

Storing a record and taking in a delta add records to the store, and nothing else does
anything to it.
-/

namespace PeatBtle

open Wire MapMerge

/-- The call that hands the bytes to a node. -/
def EntryPoint.hand {D : Type} (data : Bytes) (nowMs : UInt64) : EntryPoint → PeatMesh.Action D
  | .received identifier => .dataReceived identifier data nowMs
  | .fromNode nodeId => .dataReceivedFromNode nodeId data nowMs
  | .incoming identifier => .data identifier data nowMs
  | .anonymous identifier => .dataReceivedAnonymous identifier data nowMs

/-- An entry point at which a delta is taken for one. -/
def EntryPoint.TakesDeltas {D : Type} (m : PeatMesh D) (entry : EntryPoint) : Prop :=
  entry.Admits m ∧ ∀ identifier, entry ≠ .incoming identifier

namespace PeatMesh

variable {D : Type} {crypto : Crypto} {R : Records D} {m : PeatMesh D}

theorem takenIn_hand (data : Bytes) (nowMs : UInt64) (entry : EntryPoint) :
    takenIn (entry.hand data nowMs : Action D) = some (data, nowMs, entry) := by
  cases entry <;> rfl

theorem not_buildsFor_hand (data : Bytes) (nowMs : UInt64) (entry : EntryPoint) (peer : NodeId) :
    ¬ BuildsFor peer (entry.hand data nowMs : Action D) := by
  cases entry <;> exact id

theorem decryptDocument_encryptDocument (haead : crypto.Aead) {receiver : PeatMesh D}
    (hsame : receiver.encryptionKey = m.encryptionKey) {plaintext : Bytes}
    (hlong : 2 ≤ plaintext.length) (hplain : byteAt plaintext 0 ≠ encryptedMarker) (nonce : Nonce) :
    receiver.decryptDocument crypto (m.encryptDocument crypto nonce plaintext) = some plaintext := by
  cases hkey : m.encryptionKey with
  | none =>
      rw [encryptDocument_of_no_key hkey, decryptDocument_of_no_key (hsame.trans hkey) hlong,
        if_neg hplain]
  | some key =>
      obtain ⟨data, hbytes, hdecrypt, -⟩ := encryptDocument_of_key haead hkey nonce plaintext
      rw [hbytes, decryptDocument_of_key (hsame.trans hkey), hdecrypt]

theorem appDocuments_plaintextEffect {plaintext : Bytes} (entry : EntryPoint)
    (hplain : DeltaDocument.isDeltaDocument plaintext = false) :
    (m.plaintextEffect plaintext entry).appDocuments = m.appDocuments := by
  have hmerge : (m.mergeEffect plaintext).1.appDocuments = m.appDocuments := by
    unfold mergeEffect
    split <;> rfl
  have hknown : (m.knownEffect plaintext).1.appDocuments = m.appDocuments := by
    unfold knownEffect mergeAndStoreEffect
    rw [hplain, if_neg Bool.false_ne_true]
    split <;> rfl
  cases entry with
  | received identifier => exact hknown
  | fromNode nodeId => exact hknown
  | incoming identifier => exact hmerge
  | anonymous identifier =>
      unfold plaintextEffect anonymousEffect
      rw [hplain, if_neg Bool.false_ne_true]
      split_ifs
      · rfl
      · rfl
      · exact hmerge

theorem plaintextEffect_of_delta {plaintext : Bytes} {entry : EntryPoint}
    (htakes : entry.TakesDeltas m) (hdelta : DeltaDocument.isDeltaDocument plaintext = true)
    (hlong : 8 ≤ plaintext.length) :
    m.plaintextEffect plaintext entry = (m.deltaEffect plaintext).1 := by
  have hknown : m.knownEffect plaintext = m.deltaEffect plaintext := if_pos hdelta
  cases entry with
  | received identifier => exact congrArg Prod.fst hknown
  | fromNode nodeId => exact congrArg Prod.fst hknown
  | incoming identifier => exact absurd rfl (htakes.2 identifier)
  | anonymous identifier =>
      unfold plaintextEffect anonymousEffect
      rw [if_neg (by omega), if_pos hdelta]

/-! ## What a step adds to the store -/

/-- The settings stay, and the store is what it was and the records added to it. -/
structure Adds (R : Records D) (added : DocumentKey → Prop) (m after : PeatMesh D) : Prop where
  settings_eq : after.settings = m.settings
  truthful : R.Truthful after.appDocuments
  held_iff : ∀ key, R.Held after.appDocuments key ↔ R.Held m.appDocuments key ∨ added key

theorem adds_of_eq (htruthful : R.Truthful m.appDocuments) {after : PeatMesh D}
    (hsettings : after.settings = m.settings) (hdocs : after.appDocuments = m.appDocuments)
    {added : DocumentKey → Prop} (hnothing : ∀ key, ¬ added key) : Adds R added m after :=
  ⟨hsettings, hdocs ▸ htruthful, fun key => by rw [hdocs, or_iff_left (hnothing key)]⟩

/-- Besides exchanging deltas a node keeps its settings, stores records only and is given no
deltas. -/
def Behaves (R : Records D) (crypto : Crypto) (m : PeatMesh D) : Action D → Prop
  | .storeAppDocument key doc => R.Named key ∧ doc = R.content key
  | .enableEncryption _ => False
  | .disableEncryption => False
  | .registerDocumentType _ _ => False
  | .buildDelta _ _ _ => False
  | action => ∀ data nowMs entry, takenIn action = some (data, nowMs, entry) →
      ∀ document plaintext, Carries data document →
        m.decryptDocument crypto document = some plaintext →
          DeltaDocument.isDeltaDocument plaintext = false

/-- The record that an action stores. -/
def stores : Action D → Option DocumentKey
  | .storeAppDocument key _ => some key
  | _ => none

theorem appDocuments_receive {data : Bytes} {nowMs : UInt64} {entry : EntryPoint}
    (hplain : ∀ document plaintext, Carries data document →
      m.decryptDocument crypto document = some plaintext →
        DeltaDocument.isDeltaDocument plaintext = false) :
    (m.receive crypto data nowMs entry).1.appDocuments = m.appDocuments := by
  by_cases hsame : (m.receive crypto data nowMs entry).1.shared = m.shared
  · exact congrArg SharedState.appDocuments hsame
  · obtain ⟨document, plaintext, hcarries, hdecrypt, heffect⟩ := receive_of_changed hsame
    exact (congrArg SharedState.appDocuments heffect).trans
      (appDocuments_plaintextEffect entry (hplain document plaintext hcarries hdecrypt))

theorem Behaves.adds {action : Action D} (h : m.Behaves R crypto action)
    (hregistry : m.documentRegistry = R.registry) (htruthful : R.Truthful m.appDocuments) :
    Adds R (fun key => stores action = some key) m (m.act crypto action) := by
  by_cases happ : IsApplications action
  · cases action with
    | storeAppDocument key doc =>
        obtain ⟨hkey, rfl⟩ := h
        have hdocs := Records.appDocuments_store hregistry htruthful hkey
        refine ⟨rfl, ?_, fun other => ?_⟩
        · show R.Truthful (m.storeAppDocument key (R.content key)).appDocuments
          rw [hdocs]
          exact htruthful.insert hkey
        · show R.Held (m.storeAppDocument key (R.content key)).appDocuments other ↔ _
          rw [hdocs, Records.held_insert, or_comm]
          exact or_congr_right ⟨fun hother => by rw [hother]; rfl, fun hkeys => by cases hkeys; rfl⟩
    | enableEncryption => exact h.elim
    | disableEncryption => exact h.elim
    | registerDocumentType => exact h.elim
    | _ => exact happ.elim
  · have hnothing : ∀ key, ¬ stores action = some key := by
      intro key hkey
      cases action with
      | storeAppDocument => exact happ trivial
      | _ => cases hkey
    cases htaken : takenIn action with
    | none =>
        obtain ⟨hsettings, hshared⟩ := m.act_frame crypto htaken happ
        exact adds_of_eq htruthful hsettings (congrArg SharedState.appDocuments hshared) hnothing
    | some taken =>
        obtain ⟨data, nowMs, entry⟩ := taken
        have hplain : ∀ document plaintext, Carries data document →
            m.decryptDocument crypto document = some plaintext →
              DeltaDocument.isDeltaDocument plaintext = false := by
          cases action with
          | storeAppDocument => exact absurd trivial happ
          | enableEncryption => exact absurd trivial happ
          | disableEncryption => exact absurd trivial happ
          | registerDocumentType => exact absurd trivial happ
          | buildDelta => exact h.elim
          | _ => exact h data nowMs entry htaken
        rw [(act_of_takenIn crypto htaken).1]
        exact adds_of_eq htruthful (m.settings_receive crypto data nowMs entry)
          (appDocuments_receive hplain) hnothing

theorem Behaves.not_buildsFor {action : Action D} (h : m.Behaves R crypto action) (peer : NodeId) :
    ¬ BuildsFor peer action := by
  cases action with
  | buildDelta => exact h.elim
  | _ => exact id

/-! ## The bytes of a delta -/

/-- A delta whose operations fit the format is read back. -/
theorem decode_deltaForPeer {peer : NodeId} {nowMs : UInt64} {delta : DeltaDocument}
    (h : m.deltaForPeer peer nowMs = some delta)
    (hcount : (m.operationsForPeer peer).length ≤ 65535)
    (hfits : ∀ op ∈ m.operationsForPeer peer, op.Fits) :
    delta.originNode = m.config.nodeId ∧ DeltaDocument.decode delta.encode = some delta := by
  have hoperations := deltaForPeer_operations h
  have hdelta : delta.originNode = m.config.nodeId ∧ delta.flags.hasVectorClock = false ∧
      delta.vectorClock = none := by
    unfold deltaForPeer at h
    dsimp only at h
    split_ifs at h
    rw [← Option.some.inj h, DeltaDocument.foldl_addOperation]
    exact ⟨rfl, rfl, rfl⟩
  obtain ⟨horigin, hflag, hclock⟩ := hdelta
  refine ⟨horigin, DeltaDocument.decode_encode ⟨?_, ?_, ?_⟩ fun clock hsome => ?_⟩
  · rw [hflag, hclock]
    rfl
  · rwa [hoperations]
  · rwa [hoperations]
  · rw [hclock] at hsome
    cases hsome

theorem encode_delta (delta : DeltaDocument) :
    byteAt delta.encode 0 = deltaDocumentMarker ∧
      DeltaDocument.isDeltaDocument delta.encode = true ∧ 8 ≤ delta.encode.length := by
  refine ⟨rfl, rfl, ?_⟩
  rw [DeltaDocument.encode_eq_append, List.length_append, DeltaDocument.header_length]
  omega

/-- No key exchange, no end-to-end message and no envelope starts like this. -/
theorem unwrap_encryptDocument (haead : crypto.Aead) (receiver : PeatMesh D) {plaintext : Bytes}
    (hmarker : byteAt plaintext 0 = deltaDocumentMarker) (nonce : Nonce) (nowMs : UInt64) :
    receiver.unwrap (m.encryptDocument crypto nonce plaintext) nowMs =
      (receiver.seenCache, some (m.encryptDocument crypto nonce plaintext, RelayInfo.direct)) := by
  refine unwrap_of_unmarked ?_ nowMs
  cases hkey : m.encryptionKey with
  | none =>
      rw [encryptDocument_of_no_key hkey, hmarker]
      decide
  | some key =>
      obtain ⟨data, hbytes, -⟩ := encryptDocument_of_key haead hkey nonce plaintext
      rw [hbytes]
      show encryptedMarker ≠ keyExchangeMarker ∧ encryptedMarker ≠ peerE2eeMarker ∧
        encryptedMarker ≠ relayEnvelopeMarker
      decide

theorem adds_buildDelta (htruthful : R.Truthful m.appDocuments) (peer : NodeId) (nonce : Nonce)
    (nowMs : UInt64) :
    Adds R (fun _ => False) m (m.buildDeltaDocumentForPeer crypto peer nonce nowMs).1 := by
  obtain ⟨hsettings, hshared⟩ := @act_frame D crypto m (.buildDelta peer nonce nowMs) rfl id
  exact adds_of_eq htruthful hsettings (congrArg SharedState.appDocuments hshared) fun _ => id

theorem adds_delta {data : Bytes} {nowMs : UInt64} {entry : EntryPoint} {delta : DeltaDocument}
    (hregistry : m.documentRegistry = R.registry) (htruthful : R.Truthful m.appDocuments)
    (hcarried : R.Carried delta.operations) (htakes : entry.TakesDeltas m)
    (hdirect : ∀ nowMs, m.unwrap data nowMs = (m.seenCache, some (data, RelayInfo.direct)))
    (hdecrypt : m.decryptDocument crypto data = some delta.encode)
    (haccepts : m.acceptsDelta delta.encode = some delta) :
    Adds R (fun key => R.Named key ∧ .app (R.operation key) ∈ delta.operations) m
      (m.act crypto (entry.hand data nowMs)) := by
  obtain ⟨-, hdelta, hlong⟩ := encode_delta delta
  have hshared := shared_receive_of_direct crypto nowMs hdirect hdecrypt htakes.1
  rw [plaintextEffect_of_delta htakes hdelta hlong, deltaEffect, haccepts] at hshared
  have hdocs := congrArg SharedState.appDocuments hshared
  dsimp only at hdocs
  rw [hregistry] at hdocs
  obtain ⟨hadded, hheld⟩ := Records.foldl_storeAppOperation htruthful hcarried
  rw [(act_of_takenIn crypto (takenIn_hand data nowMs entry)).1]
  refine ⟨m.settings_receive crypto data nowMs entry, ?_, fun key => ?_⟩
  · show R.Truthful (m.receive crypto data nowMs entry).1.shared.appDocuments
    rw [hdocs]
    exact hadded
  · show R.Held (m.receive crypto data nowMs entry).1.shared.appDocuments key ↔ _
    rw [hdocs]
    exact hheld key

end PeatMesh

end PeatBtle
