import PeatBtle.Chat.Broadcast
import PeatBtle.Data.Simulation
import PeatBtle.Fleet
import PeatBtle.Mesh.ActionFrame

/-!
# A strict mesh under attack

The nodes of a fleet share a key and refuse what is not encrypted. An attacker gives them
any bytes, by any entry point and at any time. Unless one of them reads a document that
no member has built, what they hold is what an undisturbed fleet would hold.
-/

namespace PeatBtle

open Wire

/-- Whether an entry point takes a plaintext for a document. `on_ble_data` does not look for
deltas. -/
def EntryPoint.Merges (plaintext : Bytes) : EntryPoint → Prop
  | .incoming _ => True
  | _ => DeltaDocument.isDeltaDocument plaintext = false

namespace PeatMesh

variable {D : Type} (crypto : Crypto) (m : PeatMesh D)

/-! ## What one node takes from a message -/

theorem documentSync_mergeAndStoreEffect (plaintext : Bytes) :
    (m.mergeAndStoreEffect plaintext).1.documentSync =
      (m.documentSync.mergeDocument plaintext).1 := by
  unfold mergeAndStoreEffect
  rw [DocumentSync.mergeDocument_eq]
  cases m.documentSync.accepts plaintext <;> rfl

theorem documentSync_deltaEffect (plaintext : Bytes) :
    (m.deltaEffect plaintext).1.documentSync = m.documentSync := by
  unfold deltaEffect
  cases m.acceptsDelta plaintext <;> rfl

theorem documentSync_plaintextEffect (plaintext : Bytes) (entry : EntryPoint) :
    (m.plaintextEffect plaintext entry).documentSync = m.documentSync ∨
      entry.Merges plaintext ∧ (m.plaintextEffect plaintext entry).documentSync =
        (m.documentSync.mergeDocument plaintext).1 := by
  have hknown : (m.knownEffect plaintext).1.documentSync = m.documentSync ∨
      DeltaDocument.isDeltaDocument plaintext = false ∧
        (m.knownEffect plaintext).1.documentSync = (m.documentSync.mergeDocument plaintext).1 := by
    unfold knownEffect
    split
    · exact Or.inl (m.documentSync_deltaEffect plaintext)
    · rename_i hdelta
      exact Or.inr ⟨Bool.eq_false_of_not_eq_true hdelta,
        m.documentSync_mergeAndStoreEffect plaintext⟩
  cases entry with
  | received identifier => exact hknown
  | fromNode nodeId => exact hknown
  | incoming identifier => exact Or.inr ⟨trivial, documentSync_mergeEffect plaintext⟩
  | anonymous identifier =>
      show (m.anonymousEffect plaintext).documentSync = m.documentSync ∨
        DeltaDocument.isDeltaDocument plaintext = false ∧ _
      unfold plaintextEffect anonymousEffect
      split_ifs with hshort hdelta happ
      · exact Or.inl rfl
      · exact Or.inl (m.documentSync_deltaEffect plaintext)
      · exact Or.inl rfl
      · exact Or.inr ⟨Bool.eq_false_of_not_eq_true hdelta, documentSync_mergeEffect plaintext⟩

theorem documentSync_receive (data : Bytes) (nowMs : UInt64) (entry : EntryPoint) :
    (m.receive crypto data nowMs entry).1.documentSync = m.documentSync ∨
      ∃ document plaintext, Carries data document ∧
        m.decryptDocument crypto document = some plaintext ∧ entry.Merges plaintext ∧
        (m.receive crypto data nowMs entry).1.documentSync =
          (m.documentSync.mergeDocument plaintext).1 := by
  by_cases hsame : (m.receive crypto data nowMs entry).1.shared = m.shared
  · exact Or.inl (congrArg SharedState.documentSync hsame)
  · obtain ⟨document, plaintext, hcarries, hdecrypt, heffect⟩ := receive_of_changed hsame
    have hsync := congrArg SharedState.documentSync heffect
    rcases m.documentSync_plaintextEffect plaintext entry with hkept | ⟨hmerges, hmerged⟩
    · exact Or.inl (hsync.trans hkept)
    · exact Or.inr ⟨document, plaintext, hcarries, hdecrypt, hmerges, hsync.trans hmerged⟩

/-- An encrypted document is read behind an unknown identifier too. -/
theorem documentSync_onBleData {m : PeatMesh D} {key : Key} (hkey : m.encryptionKey = some key)
    {sealedBytes plaintext : Bytes}
    (hopened : MeshEncryptionKey.decryptFromBytes crypto key sealedBytes = some plaintext)
    (identifier : String) (nowMs : UInt64) :
    (m.onBleData crypto identifier (encryptedMarker :: 0 :: sealedBytes) nowMs).1.documentSync =
      (m.documentSync.mergeDocument plaintext).1 := by
  have hdirect : ∀ nowMs, m.unwrap (encryptedMarker :: 0 :: sealedBytes) nowMs =
      (m.seenCache, some (encryptedMarker :: 0 :: sealedBytes, RelayInfo.direct)) :=
    unwrap_of_unmarked (show encryptedMarker ≠ keyExchangeMarker ∧
      encryptedMarker ≠ peerE2eeMarker ∧ encryptedMarker ≠ relayEnvelopeMarker by decide)
  have hdecrypt : m.decryptDocument crypto (encryptedMarker :: 0 :: sealedBytes) =
      some plaintext := (decryptDocument_of_key hkey 0 sealedBytes).trans hopened
  have hshared := @shared_receive_of_direct _ crypto m _ _ nowMs (.incoming identifier) hdirect
    hdecrypt trivial
  exact (congrArg SharedState.documentSync hshared).trans (documentSync_mergeEffect plaintext)

/-! ## The key -/

/-- The node's key stays the one of the secret. -/
def KeepsKey (secret : Key) : Action D → Prop
  | .enableEncryption other => other = secret
  | .disableEncryption => False
  | _ => True

/-- What decryption depends on, and what a new key is derived from. -/
def keying : Option Key × Bool × String :=
  (m.settings.encryptionKey, m.settings.strictEncryption, m.settings.meshId)

variable {m} in
theorem keying_congr {after : PeatMesh D} (h : after.settings = m.settings) :
    after.keying = m.keying := by
  rw [keying, h, keying]

/-- An action takes in bytes, changes the document state locally, or leaves it alone. -/
theorem act_cases {secret : Key} {action : Action D} (hkeeps : KeepsKey secret action)
    (hkey : m.encryptionKey = some (crypto.fromSharedSecret m.config.meshId secret)) :
    (∃ data nowMs entry, takenIn action = some (data, nowMs, entry) ∧
        m.localChange action = none ∧ m.act crypto action = (m.receive crypto data nowMs entry).1) ∨
      takenIn action = none ∧ (m.act crypto action).keying = m.keying ∧
        (m.act crypto action).documentSync =
          ((m.localChange action).elim m.documentSync m.documentSync.mutate) := by
  cases htaken : takenIn action with
  | some taken =>
      obtain ⟨data, nowMs, entry⟩ := taken
      obtain ⟨hact, hlocal⟩ := act_of_takenIn crypto htaken
      exact Or.inl ⟨data, nowMs, entry, rfl, hlocal, hact⟩
  | none =>
      refine Or.inr ⟨rfl, ?_⟩
      by_cases happ : IsApplications action
      · cases action with
        | enableEncryption other =>
            obtain rfl : other = secret := hkeeps
            refine ⟨?_, rfl⟩
            show (some _, _, _) = (m.encryptionKey, _, _)
            rw [hkey]
            rfl
        | disableEncryption => exact hkeeps.elim
        | registerDocumentType typeId handler => exact ⟨rfl, rfl⟩
        | storeAppDocument key doc => exact ⟨rfl, rfl⟩
        | _ => exact happ.elim
      · obtain ⟨hsettings, hshared⟩ := m.act_frame crypto htaken happ
        exact ⟨keying_congr hsettings, congrArg SharedState.documentSync hshared⟩

end PeatMesh

/-- The local change of a fleet's action. -/
def Fleet.change {F : Fleet} (_ : F.State) : F.Action → Option (F.Member × DocumentSync.Mutation)
  | .mutate i mutation => some (i, mutation)
  | _ => none

/-- The nodes of a fleet, with one key, refuse what is not encrypted. -/
structure StrictMesh (D : Type) where
  fleet : Fleet
  crypto : Crypto
  meshId : String
  secret : Key
  config : fleet.Member → PeatMeshConfig
  nodeId_eq : ∀ i, (config i).nodeId = i
  callsign_eq : ∀ i, (config i).callsign = fleet.callsign i
  kind_eq : ∀ i, (config i).peripheralType = fleet.kind i
  meshId_eq : ∀ i, (config i).meshId = meshId
  secret_eq : ∀ i, (config i).encryptionSecret = some secret
  strict : ∀ i, (config i).strictEncryption = true

namespace StrictMesh

variable {D : Type} {M : StrictMesh D}

def key (M : StrictMesh D) : Key := M.crypto.fromSharedSecret M.meshId M.secret

/-- The nodes, and the documents that they have built. -/
structure State (M : StrictMesh D) where
  node : M.fleet.Member → PeatMesh D
  documents : List Bytes

/-- A node's own actions include whatever an attacker gives it. -/
inductive Action (M : StrictMesh D) where
  | perform (i : M.fleet.Member) (action : PeatMesh.Action D)
  | build (i : M.fleet.Member)

def start (M : StrictMesh D) : M.State where
  node i := .new M.crypto (M.config i)
  documents := []

/-- Documents go out encrypted; what is kept of them here is the plaintext. -/
def step (s : M.State) : M.Action → M.State
  | .perform i action =>
      { s with node := Function.update s.node i ((s.node i).act M.crypto action) }
  | .build i => { s with documents := s.documents ++ [(s.node i).documentSync.buildDocument] }

def after (M : StrictMesh D) (actions : List M.Action) : M.State :=
  LoggedRun.run step M.start actions

def change (s : M.State) : M.Action → Option (M.fleet.Member × DocumentSync.Mutation)
  | .perform i action => ((s.node i).localChange action).map fun mutation => (i, mutation)
  | .build _ => none

/-- A node takes for a document what opens under the key but was not built as one by any member: the
cipher has been broken, or a message of another kind is read as a document. -/
def TakesForeign (s : M.State) : M.Action → Prop
  | .perform _ action => ∃ data nowMs entry document plaintext,
      PeatMesh.takenIn action = some (data, nowMs, entry) ∧ Carries data document ∧
      2 ≤ document.length ∧ byteAt document 0 = encryptedMarker ∧
      MeshEncryptionKey.decryptFromBytes M.crypto M.key (document.drop 2) = some plaintext ∧
      entry.Merges plaintext ∧ (PeatDocument.decode plaintext).isSome = true ∧
      plaintext ∉ s.documents
  | .build _ => False

def KeepsKeys : M.Action → Prop
  | .perform _ action => PeatMesh.KeepsKey M.secret action
  | .build _ => True

/-- The cipher holds, and no key is given up. -/
def Clean (s : M.State) (action : M.Action) : Prop := KeepsKeys action ∧ ¬ TakesForeign s action

/-! ## The fleet in the mesh -/

def view (s : M.State) : M.fleet.State := ⟨fun i => (s.node i).documentSync, s.documents⟩

/-- Every node still has the key and is strict. -/
def Secure (s : M.State) : Prop := ∀ i, (s.node i).keying = (some M.key, true, M.meshId)

/-- A secure mesh shows a fleet's state. -/
def Shows (s : M.State) (fleet : M.fleet.State) : Prop := Secure s ∧ view s = fleet

theorem secure_start (M : StrictMesh D) : Secure M.start := by
  intro i
  show ((M.config i).encryptionSecret.map fun secret =>
    M.crypto.fromSharedSecret (M.config i).meshId secret, (M.config i).strictEncryption,
      (M.config i).meshId) = _
  rw [M.secret_eq, M.meshId_eq, M.strict]
  rfl

theorem shows_start (M : StrictMesh D) : Shows M.start M.fleet.start := by
  refine ⟨secure_start M, congrArg (Fleet.State.mk · []) (funext fun i => ?_)⟩
  show DocumentSync.withPeripheralType (M.config i).nodeId (M.config i).callsign
    (M.config i).peripheralType = _
  rw [M.nodeId_eq, M.callsign_eq, M.kind_eq]

section Step

variable {s : M.State} {i : M.fleet.Member}

theorem Secure.update (h : Secure s) {node : PeatMesh D}
    (hnode : node.keying = (s.node i).keying) :
    Secure { s with node := Function.update s.node i node } := by
  intro j
  show (Function.update s.node i node j).keying = _
  by_cases hj : j = i
  · subst hj
    rw [Function.update_self, hnode]
    exact h j
  · rw [Function.update_of_ne hj]
    exact h j

theorem view_update (s : M.State) (i : M.fleet.Member) (node : PeatMesh D) :
    view { s with node := Function.update s.node i node } =
      (view s).update i node.documentSync := by
  refine congrArg (Fleet.State.mk · s.documents) (funext fun j => ?_)
  by_cases hj : j = i
  · subst hj
    dsimp only
    rw [Function.update_self, Function.update_self]
  · dsimp only
    rw [Function.update_of_ne hj, Function.update_of_ne hj]
    rfl

variable {fleet : M.fleet.State}

/-- The fleet answers every clean step, with the same local change. -/
theorem Shows.answered (h : Shows s fleet) {action : M.Action} (hclean : Clean s action) :
    ∃ moves, LoggedRun.Along Fleet.step (fun _ _ => True) fleet moves ∧
      Shows (step s action) (LoggedRun.run Fleet.step fleet moves) ∧
      LoggedRun.log Fleet.step Fleet.change fleet moves = (change s action).toList := by
  obtain ⟨hsecure, rfl⟩ := h
  cases action with
  | build i => exact ⟨[.build i], ⟨trivial, trivial⟩, ⟨hsecure, rfl⟩, rfl⟩
  | perform i action =>
      have hkey : (s.node i).encryptionKey = some M.key := congrArg Prod.fst (hsecure i)
      have hstrict : (s.node i).config.strictEncryption = true :=
        congrArg (fun keying => keying.2.1) (hsecure i)
      have hmeshId : (s.node i).config.meshId = M.meshId :=
        congrArg (fun keying => keying.2.2) (hsecure i)
      have hderived : (s.node i).encryptionKey =
          some (M.crypto.fromSharedSecret (s.node i).config.meshId M.secret) := by
        rw [hkey, hmeshId]
        rfl
      have hunmoved : (view s).update i (s.node i).documentSync = view s :=
        Fleet.update_node i (view s)
      unfold Shows step change
      dsimp only
      rw [view_update]
      rcases (s.node i).act_cases M.crypto hclean.1 hderived with
        ⟨data, nowMs, entry, htaken, hlocal, hact⟩ | ⟨-, hkeying, hsync⟩
      · rw [hact, hlocal]
        have hstays := hsecure.update
          (PeatMesh.keying_congr ((s.node i).settings_receive M.crypto data nowMs entry))
        rcases (s.node i).documentSync_receive M.crypto data nowMs entry with
          hkept | ⟨document, plaintext, hcarries, hdecrypt, hmerges, hmerged⟩
        · rw [hkept]
          exact ⟨[], trivial, ⟨hstays, hunmoved⟩, rfl⟩
        · rw [hmerged]
          obtain ⟨hlen, hmarker, hopened⟩ :=
            PeatMesh.decryptDocument_of_strict hkey hstrict hdecrypt
          cases hdecode : PeatDocument.decode plaintext with
          | none =>
              rw [DocumentSync.mergeDocument, hdecode]
              exact ⟨[], trivial, ⟨hstays, hunmoved⟩, rfl⟩
          | some received =>
              have hbuilt : plaintext ∈ s.documents := by
                by_contra hforeign
                exact hclean.2 ⟨data, nowMs, entry, document, plaintext, htaken, hcarries, hlen,
                  hmarker, hopened, hmerges, hdecode ▸ rfl, hforeign⟩
              obtain ⟨k, hk⟩ := List.getElem?_of_mem hbuilt
              have hdocument : (view s).documents[k]? = some plaintext := hk
              refine ⟨[.deliver i k], ⟨trivial, trivial⟩, ⟨hstays, ?_⟩, rfl⟩
              rw [LoggedRun.run_cons, LoggedRun.run_nil, Fleet.step, hdocument]
              rfl
      · have hstays := hsecure.update hkeying
        rw [hsync]
        cases hlocal : (s.node i).localChange action with
        | none => exact ⟨[], trivial, ⟨hstays, hunmoved⟩, rfl⟩
        | some mutation => exact ⟨[.mutate i mutation], ⟨trivial, trivial⟩, ⟨hstays, rfl⟩, rfl⟩

/-- A document that a member has built is not foreign, whoever gives it to a node. -/
theorem not_takesForeign_of_built {sealedBytes plaintext : Bytes} (hbuilt : plaintext ∈ s.documents)
    (hopened : MeshEncryptionKey.decryptFromBytes M.crypto M.key sealedBytes = some plaintext)
    (identifier : String) (nowMs : UInt64) :
    ¬ TakesForeign s (.perform i
      (.data identifier (encryptedMarker :: 0 :: sealedBytes) nowMs)) := by
  rintro ⟨data, _, entry, document, other, htaken, hcarries, -, -, hother, -, -, hunbuilt⟩
  cases htaken
  rcases hcarries with rfl | ⟨envelope, hrelay, -⟩
  · have hsame : plaintext = other := Option.some.inj (hopened.symm.trans hother)
    exact hunbuilt (hsame ▸ hbuilt)
  · have hmarker : ¬ byteAt (encryptedMarker :: 0 :: sealedBytes) 0 = relayEnvelopeMarker :=
      show ¬ encryptedMarker = relayEnvelopeMarker by decide
    rw [RelayEnvelope.decode] at hrelay
    split_ifs at hrelay

/-- The mesh replays every move of the fleet: a delivery is a message with the document sealed. -/
theorem Shows.replayed (haead : M.crypto.Aead) (h : Shows s fleet) (move : M.fleet.Action) :
    ∃ actions, LoggedRun.Along step Clean s actions ∧
      Shows (LoggedRun.run step s actions) (Fleet.step fleet move) ∧
      LoggedRun.log step change s actions = (Fleet.change fleet move).toList := by
  obtain ⟨hsecure, rfl⟩ := h
  cases move with
  | mutate i mutation =>
      have hclean : Clean s (.perform i (.mutate mutation)) := by
        refine ⟨trivial, ?_⟩
        rintro ⟨data, nowMs, entry, document, plaintext, htaken, -⟩
        cases htaken
      exact ⟨[.perform i (.mutate mutation)], ⟨hclean, trivial⟩,
        ⟨hsecure.update rfl, view_update ..⟩, rfl⟩
  | build i =>
      exact ⟨[.build i], ⟨⟨trivial, not_false⟩, trivial⟩, ⟨hsecure, rfl⟩, rfl⟩
  | deliver i k =>
      cases hdocument : s.documents[k]? with
      | none =>
          refine ⟨[], trivial, ⟨hsecure, ?_⟩, rfl⟩
          have hmissing : (view s).documents[k]? = none := hdocument
          rw [Fleet.step, hmissing]
          rfl
      | some plaintext =>
          have hkey : (s.node i).encryptionKey = some M.key := congrArg Prod.fst (hsecure i)
          obtain ⟨sealedBytes, -, hopened⟩ :=
            MeshEncryptionKey.decrypt_encrypt haead M.key (Vector.replicate 12 0) plaintext
          have hgiven := PeatMesh.documentSync_onBleData M.crypto hkey hopened "" 0
          refine ⟨[.perform i (.data "" (encryptedMarker :: 0 :: sealedBytes) 0)],
            ⟨⟨trivial, not_takesForeign_of_built (List.mem_of_getElem? hdocument) hopened "" 0⟩,
              trivial⟩, ⟨hsecure.update ?_, ?_⟩, rfl⟩
          · exact PeatMesh.keying_congr ((s.node i).settings_receive M.crypto _ 0 (.incoming ""))
          · have hbuilt : (view s).documents[k]? = some plaintext := hdocument
            rw [Fleet.step, hbuilt]
            show view { s with node := Function.update s.node i _ } = (view s).update i _
            rw [view_update]
            exact congrArg ((view s).update i) hgiven

end Step

theorem answered_of_clean {actions : List M.Action}
    (hclean : LoggedRun.Along step Clean M.start actions) :
    ∃ moves, LoggedRun.log Fleet.step Fleet.change M.fleet.start moves =
        LoggedRun.log step change M.start actions ∧
      ∀ i, ((M.after actions).node i).documentSync = (M.fleet.after moves).node i := by
  have hanswer : ∀ (s : M.State) (fleet : M.fleet.State) (action : M.Action), Shows s fleet →
      Clean s action → ∃ moves, LoggedRun.Along Fleet.step (fun _ _ => True) fleet moves ∧
        Shows (step s action) (LoggedRun.run Fleet.step fleet moves) ∧
        LoggedRun.log Fleet.step Fleet.change fleet moves = (change s action).toList :=
    fun _ _ _ h hstep => h.answered hstep
  obtain ⟨moves, -, ⟨-, hview⟩, hchanges⟩ :=
    LoggedRun.simulated_of_along hanswer (shows_start M) hclean
  exact ⟨moves, hchanges, fun i => congrFun (congrArg Fleet.State.node hview) i⟩

/-- Whatever an attacker gives to the nodes of a strict mesh, by any entry point and at any time:
either a node takes in something foreign, or all nodes hold what they would hold in a fleet with the
same local changes that only exchanges its own documents; so nobody counts more of anybody's
activity than there was. -/
theorem attack_changes_nothing (M : StrictMesh D) (actions : List M.Action)
    (hkeeps : ∀ action ∈ actions, KeepsKeys action) :
    (∃ front action, front ++ [action] <+: actions ∧ TakesForeign (M.after front) action) ∨
      ∃ moves, LoggedRun.log Fleet.step Fleet.change M.fleet.start moves =
          LoggedRun.log step change M.start actions ∧
        (∀ i, ((M.after actions).node i).documentSync = (M.fleet.after moves).node i) ∧
        ∀ i j : M.fleet.Member, (((M.after actions).node i).documentSync.counter.nodeCount j).toNat ≤
          min (M.fleet.performed moves j) (2 ^ 64 - 1) := by
  rcases LoggedRun.bad_or_along step Clean M.start actions with
    ⟨front, action, hfront, hbad⟩ | hclean
  · refine Or.inl ⟨front, action, hfront, ?_⟩
    by_contra hown
    exact hbad ⟨hkeeps action (hfront.mem (by simp)), hown⟩
  · refine Or.inr ?_
    obtain ⟨moves, hchanges, hnode⟩ := answered_of_clean hclean
    refine ⟨moves, hchanges, hnode, fun i j => ?_⟩
    have hsound := M.fleet.sound_after moves
    rw [hnode]
    exact (hsound.grounded.table_le i j).trans (Nat.le_of_eq (hsound.counted j))

/-- A strict mesh whose cipher holds does what a fleet does, neither more nor less: with the same
local changes in the same order, its nodes can come to hold the same. -/
theorem clean_runs_eq (M : StrictMesh D) (haead : M.crypto.Aead)
    (changes : List (M.fleet.Member × DocumentSync.Mutation))
    (held : M.fleet.Member → DocumentSync) :
    (∃ actions, LoggedRun.Along step Clean M.start actions ∧
        LoggedRun.log step change M.start actions = changes ∧
        ∀ i, ((M.after actions).node i).documentSync = held i) ↔
      ∃ moves, LoggedRun.log Fleet.step Fleet.change M.fleet.start moves = changes ∧
        ∀ i, (M.fleet.after moves).node i = held i := by
  constructor
  · rintro ⟨actions, hclean, rfl, hheld⟩
    obtain ⟨moves, hchanges, hnode⟩ := answered_of_clean hclean
    exact ⟨moves, hchanges, fun i => (hnode i).symm.trans (hheld i)⟩
  · rintro ⟨moves, rfl, hheld⟩
    have hany : LoggedRun.Along Fleet.step (fun _ _ => True) M.fleet.start moves :=
      LoggedRun.along_of_mem (fun _ _ _ => trivial) _
    have hback : ∀ (fleet : M.fleet.State) (s : M.State) (move : M.fleet.Action), Shows s fleet →
        True → ∃ actions, LoggedRun.Along step Clean s actions ∧
          Shows (LoggedRun.run step s actions) (Fleet.step fleet move) ∧
          LoggedRun.log step change s actions = (Fleet.change fleet move).toList :=
      fun _ _ move h _ => h.replayed haead move
    obtain ⟨actions, hclean, ⟨-, hview⟩, hchanges⟩ := LoggedRun.simulated_of_along
      hback (shows_start M) hany
    refine ⟨actions, hclean, hchanges, fun i => ?_⟩
    rw [← hheld]
    exact congrFun (congrArg Fleet.State.node hview) i

/-- Two nodes with a key. -/
def sealedPair : StrictMesh Unit where
  fleet := Fleet.pair
  crypto := ChatMesh.tagged
  meshId := "DEMO"
  secret := Vector.replicate 32 0x42
  config i := ((PeatMeshConfig.new i "ALPHA" "DEMO").withEncryption
    (Vector.replicate 32 0x42)).withStrictEncryption
  nodeId_eq _ := rfl
  callsign_eq _ := rfl
  kind_eq _ := rfl
  meshId_eq _ := rfl
  secret_eq _ := rfl
  strict _ := rfl

def counted : sealedPair.State := sealedPair.after [.perform Fleet.first (.mutate .incrementCounter)]

/-- What A sends once it has counted something. -/
def onAir : Bytes := (counted.node Fleet.first).buildDocument sealedPair.crypto (Vector.replicate 12 0)

def eavesdropped : List sealedPair.Action :=
  [.perform Fleet.first (.mutate .incrementCounter), .build Fleet.first,
    .perform Fleet.second (.dataReceivedFromNode 1 onAir 1000)]

theorem onAir_opens :
    RelayEnvelope.decode onAir = none ∧
      MeshEncryptionKey.decryptFromBytes sealedPair.crypto sealedPair.key (onAir.drop 2) =
        some (counted.node Fleet.first).documentSync.buildDocument := by
  decide +kernel

theorem pair_under_attack :
    ∃ moves, LoggedRun.log Fleet.step Fleet.change Fleet.pair.start moves =
        LoggedRun.log step change sealedPair.start eavesdropped ∧
      ∀ i, ((sealedPair.after eavesdropped).node i).documentSync =
        (Fleet.pair.after moves).node i := by
  have hkeeps : ∀ action ∈ eavesdropped, KeepsKeys action := by
    intro action haction
    simp only [eavesdropped, List.mem_cons, List.not_mem_nil, or_false] at haction
    rcases haction with rfl | rfl | rfl <;> trivial
  rcases attack_changes_nothing sealedPair eavesdropped hkeeps with
    ⟨front, action, ⟨back, hsplit⟩, hforeign⟩ | ⟨moves, hchanges, hnodes, -⟩
  · -- the only bytes taken in are A's, and they open to A's document
    have hfront : front ++ action :: back = eavesdropped := by simpa using hsplit
    match front, hfront with
    | [], hfront =>
        obtain ⟨rfl, -⟩ := List.cons.inj hfront
        obtain ⟨data, nowMs, entry, document, plaintext, htaken, -⟩ := hforeign
        cases htaken
    | [_], hfront =>
        obtain ⟨rfl, -⟩ := List.cons.inj (List.cons.inj hfront).2
        exact hforeign.elim
    | [a, b], hfront =>
        obtain ⟨rfl, hrest⟩ := List.cons.inj hfront
        obtain ⟨rfl, hlast⟩ := List.cons.inj hrest
        obtain ⟨rfl, -⟩ := List.cons.inj hlast
        obtain ⟨data, nowMs, entry, document, plaintext, htaken, hcarries, -, -, hopened, -, -,
          hunbuilt⟩ := hforeign
        cases htaken
        rcases hcarries with rfl | ⟨envelope, hrelay, -⟩
        · rw [onAir_opens.2] at hopened
          obtain rfl := Option.some.inj hopened
          exact absurd (List.mem_singleton_self _) hunbuilt
        · rw [onAir_opens.1] at hrelay
          cases hrelay
    | a :: b :: c :: rest, hfront =>
        have hlength := congrArg List.length hfront
        simp [eavesdropped] at hlength
  · exact ⟨moves, hchanges, hnodes⟩

/-- B learns of A's count in the mesh as it does without encryption. -/
theorem pair_replayed :
    ∃ actions, LoggedRun.Along step Clean sealedPair.start actions ∧
      LoggedRun.log step change sealedPair.start actions = [(Fleet.first, .incrementCounter)] ∧
      ∀ i, ((sealedPair.after actions).node i).documentSync =
        (Fleet.pair.after [.mutate Fleet.first .incrementCounter, .build Fleet.first,
          .deliver Fleet.second 0]).node i :=
  (clean_runs_eq sealedPair ChatMesh.tagged_aead _ _).mpr ⟨_, rfl, fun _ => rfl⟩

end StrictMesh

end PeatBtle
