import PeatBtle.Mesh.State
import PeatBtle.Security.PersistedState

/-!
# Restoring a mesh

A node that comes back from a reboot is built from its persisted state. The images
of the genesis and of the registry are read once more on the way, and whatever
cannot be read is left out.
-/

namespace PeatBtle

open Wire

/-- A node with its own identity and with those it has come to know. -/
structure IdentifiedMesh (D : Type) extends PeatMesh D where
  identity : Option DeviceIdentity
  identityRegistry : IdentityRegistry

namespace IdentifiedMesh

variable {D : Type} (crypto : Crypto) (keyCrypto : GenesisCrypto)

/-- The source builds the tables of `PeatMesh.new` under the node that belongs to the key. -/
def withIdentity (config : PeatMeshConfig) (identity : DeviceIdentity) : IdentifiedMesh D :=
  { PeatMesh.new crypto { config with nodeId := identity.nodeId keyCrypto } with
    identity := some identity
    identityRegistry := IdentityRegistry.new }

def fromGenesis (genesis : MeshGenesis) (identity : DeviceIdentity) (callsign : String) :
    IdentifiedMesh D :=
  let config := PeatMeshConfig.new (identity.nodeId keyCrypto) callsign (genesis.meshId keyCrypto)
  let secret := genesis.encryptionSecret keyCrypto
  withIdentity crypto keyCrypto (config.withEncryption secret) identity

/-- A node without a genesis belongs to a mesh of that name. -/
def unaffiliated (identity : DeviceIdentity) (callsign : String) : IdentifiedMesh D :=
  let config := PeatMeshConfig.new (identity.nodeId keyCrypto) callsign "RESTORED"
  withIdentity crypto keyCrypto config identity

def fromPersisted (state : PersistedState) (callsign : String) :
    Except PersistenceError (IdentifiedMesh D) := do
  let identity ← state.restoreIdentity
  let mesh := match state.restoreGenesis with
    | some genesis => fromGenesis crypto keyCrypto genesis identity callsign
    | none => unaffiliated crypto keyCrypto identity callsign
  .ok { mesh with identityRegistry := state.restoreRegistry }

/-- Encryption is on, under the identifier and the secret of the genesis. -/
structure Under (mesh : IdentifiedMesh D) (genesis : MeshGenesis) : Prop where
  meshId : mesh.config.meshId = genesis.meshId keyCrypto
  encrypted : mesh.encryptionKey =
    some (crypto.fromSharedSecret (genesis.meshId keyCrypto) (genesis.encryptionSecret keyCrypto))

/-- What comes back holds the genesis and the identities that are stored, or nothing does. -/
def FailsClosed (D : Type) (state : PersistedState) (callsign : String) : Prop :=
  ∀ mesh : IdentifiedMesh D, fromPersisted crypto keyCrypto state callsign = .ok mesh →
    (∀ data ∈ state.genesisData,
      ∃ genesis, MeshGenesis.decode data = some genesis ∧ mesh.Under crypto keyCrypto genesis) ∧
    (state.registryData ≠ [] →
      IdentityRegistry.decode state.registryData = some mesh.identityRegistry)

/-- A state is always restored. -/
theorem fromPersisted_ok (D : Type) (state : PersistedState) (callsign : String) :
    ∃ mesh : IdentifiedMesh D, fromPersisted crypto keyCrypto state callsign = .ok mesh ∧
      mesh.identityRegistry = state.restoreRegistry ∧
      ∀ genesis, state.restoreGenesis = some genesis → mesh.Under crypto keyCrypto genesis := by
  refine ⟨_, rfl, rfl, fun genesis hgenesis => ?_⟩
  rw [hgenesis]
  exact ⟨rfl, rfl⟩

/-- Restoring fails closed if and only if what is stored can be read. -/
theorem failsClosed_iff (D : Type) (state : PersistedState) (callsign : String) :
    FailsClosed crypto keyCrypto D state callsign ↔
      (∀ data ∈ state.genesisData, MeshGenesis.WellFormed data) ∧
        (state.registryData ≠ [] → IdentityRegistry.WellFormed state.registryData) := by
  obtain ⟨mesh, hmesh, hregistry, hunder⟩ :=
    fromPersisted_ok crypto keyCrypto D state callsign
  constructor
  · intro hcloses
    obtain ⟨hgenesis, hidentities⟩ := hcloses mesh hmesh
    refine ⟨fun data hdata => ?_, fun hne => ?_⟩
    · obtain ⟨genesis, hdecode, -⟩ := hgenesis data hdata
      exact MeshGenesis.isSome_decode_iff.mp (Option.isSome_of_eq_some hdecode)
    · exact IdentityRegistry.isSome_decode_iff.mp (Option.isSome_of_eq_some (hidentities hne))
  · rintro ⟨hgenesis, hidentities⟩ other hother
    obtain rfl := Except.ok.inj (hmesh.symm.trans hother)
    refine ⟨fun data hdata => ?_, fun hne => ?_⟩
    · obtain ⟨genesis, hdecode⟩ := Option.isSome_iff_exists.mp
        (MeshGenesis.isSome_decode_iff.mpr (hgenesis data hdata))
      refine ⟨genesis, hdecode, hunder genesis ?_⟩
      rw [PersistedState.restoreGenesis, Option.mem_def.mp hdata]
      exact hdecode
    · obtain ⟨r, hdecode⟩ := Option.isSome_iff_exists.mp
        (IdentityRegistry.isSome_decode_iff.mpr (hidentities hne))
      rw [hregistry, PersistedState.restoreRegistry, if_neg (by rwa [List.isEmpty_iff]), hdecode]
      rfl

/-- A founder's state in whose genesis the last byte has changed, and in whose registry the last
byte is missing. -/
def damaged : PersistedState :=
  let saved := PersistedState.saved .transparent PersistedState.founder
    (some PersistedState.alphaTeam) (PersistedState.crowd 2).known.toList [] 1000
  { saved with
    genesisData := saved.genesisData.map fun data => data.dropLast ++ [7]
    registryData := saved.registryData.dropLast }

/-- It comes back without encryption and without a single identity. -/
theorem damaged_not_failsClosed :
    PersistedState.decode damaged.encode = .ok damaged ∧
      (∃ mesh : IdentifiedMesh Unit,
        fromPersisted .unavailable .transparent damaged "SENSOR-01" = .ok mesh ∧
          mesh.encryptionKey = none ∧ mesh.identityRegistry.known.size = 0) ∧
      ¬ FailsClosed .unavailable .transparent Unit damaged "SENSOR-01" := by
  have hdecode : PersistedState.decode damaged.encode = .ok damaged := by decide +kernel
  refine ⟨hdecode, ⟨_, rfl, by decide +kernel, by decide +kernel⟩, fun hcloses => ?_⟩
  have hread := (hcloses _ rfl).2 (by decide +kernel)
  have hnone : (IdentityRegistry.decode damaged.registryData).isSome = false := by decide +kernel
  rw [hread] at hnone
  cases hnone

end IdentifiedMesh

end PeatBtle
