import PeatBtle.Data.LoggedRun
import PeatBtle.Data.TwoWay
import PeatBtle.PeerManager

/-!
# The identifier map and the peer table

A node may be reached under several identifiers, since its address rotates, but
its record holds one. Whatever takes a node out of the table, or gives its own
identifier to another, leaves the map behind.
-/

namespace PeatBtle

open Wire MapMerge TwoWay

namespace PeerManager

/-- Every identifier leads to a tracked peer and every peer's own identifier back to it, so a
connection is only announced for a peer that is connected. -/
structure MapAgrees (m : PeerManager) : Prop where
  tracked : ∀ (identifier : String) (node : NodeId),
    m.identifierMap[identifier]? = some node → ∃ peer, m.peers[node]? = some peer
  back : ∀ (node : NodeId) (peer : PeatPeer),
    m.peers[node]? = some peer → m.identifierMap[peer.identifier]? = some node
  connects : ∀ identifier nowMs node, (m.onConnected identifier nowMs).2 = some node →
    ∃ peer, (m.onConnected identifier nowMs).1.peers[node]? = some peer ∧ peer.isConnected = true

/-- Identifiers as names, nodes as their holders. -/
def identifiers (m : PeerManager) : Index String NodeId where
  target := fun identifier => m.identifierMap[identifier]?
  ownName := fun node => m.peers[node]?.map PeatPeer.identifier

section Agreement

variable {m : PeerManager}

theorem isSome_ownName {node : NodeId} :
    (m.identifiers.ownName node).isSome = true ↔ ∃ peer, m.peers[node]? = some peer := by
  rw [identifiers, Option.isSome_map, Option.isSome_iff_exists]

theorem ownName_eq_some {node : NodeId} {identifier : String} :
    m.identifiers.ownName node = some identifier ↔
      ∃ peer, m.peers[node]? = some peer ∧ peer.identifier = identifier := by
  rw [identifiers, Option.map_eq_some_iff]

theorem mapAgrees_iff : m.MapAgrees ↔ m.identifiers.Agrees := by
  constructor
  · intro h
    constructor
    · intro identifier node htarget
      exact isSome_ownName.mpr (h.tracked identifier node htarget)
    · intro node identifier hown
      obtain ⟨peer, hpeer, rfl⟩ := ownName_eq_some.mp hown
      exact h.back node peer hpeer
  · intro h
    have htracked : ∀ (identifier : String) (node : NodeId),
        m.identifierMap[identifier]? = some node → ∃ peer, m.peers[node]? = some peer :=
      fun identifier node htarget => isSome_ownName.mp (h.held identifier node htarget)
    refine ⟨htracked, fun node peer hpeer => ?_, fun identifier nowMs node hconnected => ?_⟩
    · exact h.back node peer.identifier (ownName_eq_some.mpr ⟨peer, hpeer, rfl⟩)
    · unfold onConnected getNodeId at hconnected ⊢
      cases hknown : m.identifierMap[identifier]? with
      | none =>
          rw [hknown] at hconnected
          cases hconnected
      | some known =>
          rw [hknown] at hconnected
          obtain rfl := Option.some.inj hconnected
          obtain ⟨peer, hpeer⟩ := htracked identifier known hknown
          dsimp only
          rw [getElem?_modify_eq, if_pos rfl, hpeer]
          exact ⟨_, rfl, rfl⟩

end Agreement

/-! ## The operations as updates of the two maps -/

section Updates

variable (m : PeerManager)

theorem identifiers_modify (node : NodeId) {f : PeatPeer → PeatPeer}
    (hf : ∀ peer, (f peer).identifier = peer.identifier) :
    ({ m with peers := m.peers.modify node f } : PeerManager).identifiers = m.identifiers := by
  unfold identifiers
  congr 1
  funext other
  rw [getElem?_modify_eq]
  split
  · rename_i hnode
    subst hnode
    rw [Option.map_map]
    exact Option.map_congr fun peer _ => hf peer
  · rfl

theorem identifiers_onConnected (identifier : String) (nowMs : UInt64) :
    (m.onConnected identifier nowMs).1.identifiers = m.identifiers := by
  unfold onConnected
  split
  · rfl
  · exact m.identifiers_modify _ fun _ => rfl

theorem identifiers_disconnect (node : NodeId) :
    (m.disconnect node).identifiers = m.identifiers :=
  m.identifiers_modify node fun _ => rfl

theorem identifiers_onDisconnected (identifier : String) :
    (m.onDisconnected identifier).1.identifiers = m.identifiers := by
  unfold onDisconnected
  split
  · rfl
  · exact m.identifiers_disconnect _

theorem identifiers_registerIdentifier (identifier : String) (node : NodeId) :
    (m.registerIdentifier identifier node).identifiers = m.identifiers.point identifier node := by
  unfold registerIdentifier identifiers Index.point
  congr 1
  funext other
  dsimp only
  rw [getElem?_insert_eq]
  exact if_congr eq_comm rfl rfl

theorem identifiers_onIncomingConnection {identifier : String} {node : NodeId} {nowMs : UInt64}
    (hother : node ≠ m.nodeId) (hroom : m.hasRoomFor m.peers node = true) :
    (m.onIncomingConnection identifier node nowMs).1.identifiers =
      m.identifiers.rename identifier node := by
  unfold onIncomingConnection
  rw [if_neg hother, if_pos hroom]
  unfold identifiers Index.rename
  dsimp only
  congr 1
  · funext other
    rw [getElem?_insert_eq]
    by_cases hname : identifier = other
    · rw [if_pos hname, if_pos hname.symm]
    · rw [if_neg hname, if_neg (Ne.symm hname)]
      rcases m.peers[node]?.eq_none_or_eq_some with hnone | ⟨peer, hsome⟩
      · -- a new peer has no identifier to give up
        simp only [hnone, Option.getD_none]
        change (if identifier ≠ identifier then m.identifierMap.erase identifier
          else m.identifierMap)[other]? = _
        rw [if_neg (not_not_intro rfl), if_neg (by simp)]
      · simp only [hsome, Option.getD_some, Option.map_some]
        change (if peer.identifier ≠ identifier then m.identifierMap.erase peer.identifier
          else m.identifierMap)[other]? = _
        by_cases hkept : peer.identifier = identifier
        · rw [if_neg (not_not_intro hkept), hkept,
            if_neg (fun heq => hname (Option.some.inj heq))]
        · rw [if_pos hkept, getElem?_erase_eq]
          exact if_congr (by rw [Option.some.injEq]) rfl rfl
  · funext other
    rw [getElem?_insert_eq]
    by_cases hnode : node = other
    · rw [if_pos hnode, if_pos hnode.symm]
      rfl
    · rw [if_neg hnode, if_neg (Ne.symm hnode)]

theorem identifiers_erase (node : NodeId) :
    ({ m with peers := m.peers.erase node } : PeerManager).identifiers =
      m.identifiers.drop node := by
  unfold identifiers Index.drop
  congr 1
  funext other
  dsimp only
  rw [getElem?_erase_eq]
  by_cases hnode : node = other
  · rw [if_pos hnode, if_pos hnode.symm]
    rfl
  · rw [if_neg hnode, if_neg (Ne.symm hnode)]

theorem identifiers_alter {identifier : String} {node : NodeId} {f : Option PeatPeer → PeatPeer}
    (hf : ∀ old, (f old).identifier = (old.map PeatPeer.identifier).getD identifier) :
    ({ m with
        peers := m.peers.alter node fun old => some (f old)
        identifierMap := m.identifierMap.insert identifier node } : PeerManager).identifiers =
      m.identifiers.adopt identifier node := by
  have htarget : ∀ other, (m.identifierMap.insert identifier node)[other]? =
      (m.identifiers.adopt identifier node).target other := by
    intro other
    rw [Index.target_adopt, getElem?_insert_eq]
    exact if_congr eq_comm rfl rfl
  have hown : ∀ other, (m.peers.alter node fun old => some (f old))[other]?.map
      PeatPeer.identifier = (m.identifiers.adopt identifier node).ownName other := by
    intro other
    rw [Index.ownName_adopt, getElem?_alter_eq]
    by_cases hnode : node = other
    · rw [if_pos hnode, if_pos hnode.symm, Option.map_some, hf]
      rfl
    · rw [if_neg hnode, if_neg (Ne.symm hnode)]
      rfl
  exact congrArg₂ Index.mk (funext htarget) (funext hown)

/-- The peers left when an identifier moves to a node. -/
def displaced (identifier : String) (node : NodeId) : Map NodeId PeatPeer :=
  m.identifierMap[identifier]?.elim m.peers fun existing =>
    if existing ≠ node then m.peers.erase existing else m.peers

theorem onDiscovered_eq {identifier : String} {name : Option String} {rssi : Int8}
    {meshId : Option String} {nowMs : UInt64} (hmesh : m.config.matchesMesh meshId = true)
    {node : NodeId} (hname : parseNodeIdFromName name = some node) (hother : node ≠ m.nodeId) :
    (m.onDiscovered identifier name rssi meshId nowMs).1 =
      if m.hasRoomFor (m.displaced identifier node) node then
        { m with
          peers := (m.displaced identifier node).alter node fun old =>
            some (({ old.getD (PeatPeer.new node identifier meshId name rssi) with
              rssi := rssi
              name := name.or (old.getD (PeatPeer.new node identifier meshId name rssi)).name
                }).touch nowMs)
          identifierMap := m.identifierMap.insert identifier node }
      else { m with peers := m.displaced identifier node } := by
  unfold onDiscovered
  rw [if_pos hmesh, hname]
  dsimp only
  rw [if_neg hother]
  change Prod.fst (if m.hasRoomFor (m.displaced identifier node) node = true then _ else _) = _
  by_cases hroom : m.hasRoomFor (m.displaced identifier node) node = true
  · rw [if_pos hroom, if_pos hroom]
    rfl
  · rw [if_neg hroom, if_neg hroom]
    rfl

theorem onDiscovered_found {identifier : String} {name : Option String} {rssi : Int8}
    {meshId : Option String} {nowMs : UInt64} (hmesh : m.config.matchesMesh meshId = true)
    {node : NodeId} (hname : parseNodeIdFromName name = some node) (hother : node ≠ m.nodeId) :
    (m.onDiscovered identifier name rssi meshId nowMs).2 =
      if m.hasRoomFor (m.displaced identifier node) node then
        some (node, !(m.displaced identifier node).contains node)
      else none := by
  unfold onDiscovered
  rw [if_pos hmesh, hname]
  dsimp only
  rw [if_neg hother]
  change Prod.snd (if m.hasRoomFor (m.displaced identifier node) node = true then _ else _) = _
  by_cases hroom : m.hasRoomFor (m.displaced identifier node) node = true
  · rw [if_pos hroom, if_pos hroom]
    rfl
  · rw [if_neg hroom, if_neg hroom]

theorem onDiscovered_ignored {identifier : String} {name : Option String} {rssi : Int8}
    {meshId : Option String} {nowMs : UInt64}
    (h : ¬ (m.config.matchesMesh meshId = true ∧
      ∃ node, parseNodeIdFromName name = some node ∧ node ≠ m.nodeId)) :
    m.onDiscovered identifier name rssi meshId nowMs = (m, none) := by
  unfold onDiscovered
  split
  · rename_i hmesh
    split
    · rfl
    · rename_i node hname
      split
      · rfl
      · rename_i hother
        exact absurd ⟨hmesh, node, hname, hother⟩ h
  · rfl

theorem identifiers_onDiscovered {identifier : String} {name : Option String} {rssi : Int8}
    {meshId : Option String} {nowMs : UInt64} (hmesh : m.config.matchesMesh meshId = true)
    {node : NodeId} (hname : parseNodeIdFromName name = some node) (hother : node ≠ m.nodeId)
    (hroom : m.hasRoomFor (m.displaced identifier node) node = true) :
    (m.onDiscovered identifier name rssi meshId nowMs).1.identifiers =
      ({ m with peers := m.displaced identifier node } : PeerManager).identifiers.adopt
        identifier node := by
  rw [m.onDiscovered_eq hmesh hname hother, if_pos hroom]
  refine @identifiers_alter { m with peers := m.displaced identifier node } identifier node
    (fun old => ({ old.getD (PeatPeer.new node identifier meshId name rssi) with
      rssi := rssi
      name := name.or (old.getD (PeatPeer.new node identifier meshId name rssi)).name
        }).touch nowMs) fun old => ?_
  cases old with
  | none => rfl
  | some peer => rfl

theorem identifiers_cleanupStale (h : m.identifiers.Agrees) (nowMs : UInt64) :
    (m.cleanupStale nowMs).1.identifiers = m.identifiers.forget (m.isStale nowMs) := by
  have hown : ∀ node, (m.cleanupStale nowMs).1.identifiers.ownName node =
      (m.identifiers.forget (m.isStale nowMs)).ownName node := by
    intro node
    unfold identifiers Index.forget
    dsimp only
    rw [cleanupStale_peers]
    split
    · rfl
    · rfl
  have htarget : ∀ identifier, (m.cleanupStale nowMs).1.identifierMap[identifier]? =
      (m.identifiers.target identifier).filter fun node =>
        !(m.isStale nowMs node && decide (m.identifiers.ownName node = some identifier)) := by
    intro identifier
    change ((m.staleEntries nowMs).foldl _ m).identifierMap[identifier]? = _
    rw [foldl_removePeer_identifierMap]
    by_cases hgone : identifier ∈ (m.staleEntries nowMs).map fun entry => entry.2.identifier
    · obtain ⟨⟨node, peer⟩, hentry, hidentifier⟩ := List.mem_map.mp hgone
      obtain ⟨hpeer, hstale⟩ := (m.mem_staleEntries nowMs).mp hentry
      have hnode : m.identifiers.ownName node = some identifier :=
        ownName_eq_some.mpr ⟨peer, hpeer, hidentifier⟩
      rw [if_pos hgone, h.back node identifier hnode, Option.filter_some, hnode, isStale, hpeer]
      simp [hstale]
    · rw [if_neg hgone]
      change m.identifiers.target identifier = _
      cases htarget : m.identifiers.target identifier with
      | none => rfl
      | some node =>
          rw [Option.filter_some, if_pos]
          by_contra hboth
          rw [Bool.not_eq_true, Bool.not_eq_false', Bool.and_eq_true, decide_eq_true_eq] at hboth
          obtain ⟨hstale, hnode⟩ := hboth
          obtain ⟨peer, hpeer, hidentifier⟩ := ownName_eq_some.mp hnode
          rw [isStale, hpeer] at hstale
          exact hgone (List.mem_map.mpr
            ⟨(node, peer), (m.mem_staleEntries nowMs).mpr ⟨hpeer, hstale⟩, hidentifier⟩)
  exact congrArg₂ Index.mk (funext htarget) (funext hown)

end Updates

/-! ## Runs -/

inductive PeerEvent where
  | discovered (identifier : String) (name : Option String) (rssi : Int8) (meshId : Option String)
      (nowMs : UInt64)
  | connected (identifier : String) (nowMs : UInt64)
  | disconnected (identifier : String)
  | disconnectedByNodeId (node : NodeId)
  | incoming (identifier : String) (node : NodeId) (nowMs : UInt64)
  | register (identifier : String) (node : NodeId)
  | cleanup (nowMs : UInt64)

def handle (m : PeerManager) : PeerEvent → PeerManager
  | .discovered identifier name rssi meshId nowMs =>
      (m.onDiscovered identifier name rssi meshId nowMs).1
  | .connected identifier nowMs => (m.onConnected identifier nowMs).1
  | .disconnected identifier => (m.onDisconnected identifier).1
  | .disconnectedByNodeId node => (m.onDisconnectedByNodeId node).1
  | .incoming identifier node nowMs => (m.onIncomingConnection identifier node nowMs).1
  | .register identifier node => m.registerIdentifier identifier node
  | .cleanup nowMs => (m.cleanupStale nowMs).1

/-! ### There is always room for a node that replaces another -/

section Room

variable {m : PeerManager}

def Fits (m : PeerManager) : Prop := m.peers.size ≤ m.config.maxPeers

theorem hasRoomFor_iff {peers : Map NodeId PeatPeer} {node : NodeId} :
    m.hasRoomFor peers node = true ↔ peers.size < m.config.maxPeers ∨ node ∈ peers := by
  unfold hasRoomFor
  rw [← Std.ExtTreeMap.contains_iff_mem]
  cases peers.contains node
  · simp
  · simp

theorem size_displaced_le (identifier : String) (node : NodeId) :
    (m.displaced identifier node).size ≤ m.peers.size := by
  unfold displaced
  cases m.identifierMap[identifier]? with
  | none => exact Nat.le_refl _
  | some existing =>
      change (if existing ≠ node then m.peers.erase existing else m.peers).size ≤ _
      split
      · exact Std.ExtTreeMap.size_erase_le
      · exact Nat.le_refl _

theorem size_le_of_hasRoomFor {peers updated : Map NodeId PeatPeer} {node : NodeId}
    (hfits : peers.size ≤ m.config.maxPeers) (hroom : m.hasRoomFor peers node = true)
    (hsize : updated.size = if node ∈ peers then peers.size else peers.size + 1) :
    updated.size ≤ m.config.maxPeers := by
  rcases hasRoomFor_iff.mp hroom with hless | hmem
  · split at hsize
    · omega
    · omega
  · rw [if_pos hmem] at hsize
    omega

theorem size_alter_some (peers : Map NodeId PeatPeer) (node : NodeId)
    (f : Option PeatPeer → PeatPeer) :
    (peers.alter node fun old => some (f old)).size =
      if node ∈ peers then peers.size else peers.size + 1 := by
  split
  · rename_i hmem
    exact Std.ExtTreeMap.size_alter_eq_self_of_mem hmem rfl
  · rename_i hmem
    exact Std.ExtTreeMap.size_alter_eq_add_one hmem rfl

/-- The table never outgrows its limit. -/
theorem fits_handle (h : m.Fits) (event : PeerEvent) : (m.handle event).Fits := by
  cases event with
  | discovered identifier name rssi meshId nowMs =>
      unfold handle
      dsimp only
      by_cases haccepted : m.config.matchesMesh meshId = true ∧
          ∃ node, parseNodeIdFromName name = some node ∧ node ≠ m.nodeId
      · obtain ⟨hmesh, node, hname, hother⟩ := haccepted
        have hdisplaced := Nat.le_trans (m.size_displaced_le identifier node) h
        rw [m.onDiscovered_eq hmesh hname hother]
        split
        · rename_i hroom
          exact size_le_of_hasRoomFor hdisplaced hroom (size_alter_some _ node _)
        · exact hdisplaced
      · rw [m.onDiscovered_ignored haccepted]
        exact h
  | connected identifier nowMs =>
      unfold handle onConnected
      dsimp only
      split
      · exact h
      · exact Nat.le_trans (Nat.le_of_eq Std.ExtTreeMap.size_modify) h
  | disconnected identifier =>
      unfold handle onDisconnected
      dsimp only
      split
      · exact h
      · exact Nat.le_trans (Nat.le_of_eq Std.ExtTreeMap.size_modify) h
  | disconnectedByNodeId node =>
      exact Nat.le_trans (Nat.le_of_eq Std.ExtTreeMap.size_modify) h
  | incoming identifier node nowMs =>
      unfold handle onIncomingConnection
      dsimp only
      split
      · exact h
      · split
        · rename_i hroom
          exact size_le_of_hasRoomFor h hroom Std.ExtTreeMap.size_insert
        · exact h
  | register identifier node => exact h
  | cleanup nowMs =>
      obtain ⟨hconfig, -, hsize⟩ := m.foldl_removePeer_frame (m.staleEntries nowMs)
      change (m.cleanupStale nowMs).1.peers.size ≤ (m.cleanupStale nowMs).1.config.maxPeers
      rw [show (m.cleanupStale nowMs).1.config = m.config from hconfig]
      exact Nat.le_trans hsize h

/-- A tracked node that is displaced makes room. -/
theorem hasRoomFor_displaced (h : m.Fits) (hagrees : m.identifiers.Agrees) (identifier : String)
    {node : NodeId} (hknown : (m.identifierMap[identifier]?).isSome = true) :
    m.hasRoomFor (m.displaced identifier node) node = true := by
  obtain ⟨existing, hexisting⟩ := Option.isSome_iff_exists.mp hknown
  obtain ⟨peer, hpeer⟩ := isSome_ownName.mp (hagrees.held identifier existing hexisting)
  have htracked : existing ∈ m.peers := Std.ExtTreeMap.mem_iff_isSome_getElem?.mpr
    (Option.isSome_iff_exists.mpr ⟨peer, hpeer⟩)
  rw [displaced, hexisting]
  change m.hasRoomFor (if existing ≠ node then m.peers.erase existing else m.peers) node = true
  rw [hasRoomFor_iff]
  by_cases hnode : existing = node
  · rw [if_neg (not_not_intro hnode), ← hnode]
    exact Or.inr htracked
  · rw [if_pos hnode, Std.ExtTreeMap.size_erase,
      if_pos (Std.ExtTreeMap.contains_iff_mem.mpr htracked)]
    have hpositive : m.peers.size ≠ 0 := by
      intro hempty
      rw [Std.ExtTreeMap.eq_empty_iff_size_eq_zero.mpr hempty] at htracked
      exact Std.ExtTreeMap.not_mem_empty htracked
    unfold Fits at h
    omega

end Room

/-! ### The events that keep the agreement -/

/-- No other node holds the identifier for its own. -/
def FreeFor (m : PeerManager) (identifier : String) (node : NodeId) : Prop :=
  ∀ entry ∈ m.peers.toList, entry.2.identifier = identifier → entry.1 = node

/-- The node is reached under this identifier only. -/
def ReachedOnlyAs (m : PeerManager) (node : NodeId) (identifier : String) : Prop :=
  ∀ entry ∈ m.identifierMap.toList, entry.2 = node → entry.1 = identifier

/-- A node that leaves the table, because its identifier moves to another or because it is stale,
was reached under no other identifier, and an identifier is not taken from a node that holds it
for its own. -/
def Orderly (m : PeerManager) : PeerEvent → Prop
  | .discovered identifier name _ meshId _ => m.config.matchesMesh meshId = true →
      ∀ node ∈ parseNodeIdFromName name, node ≠ m.nodeId →
        ∀ existing ∈ m.identifierMap[identifier]?, existing ≠ node →
          m.ReachedOnlyAs existing identifier
  | .incoming identifier node _ => node ≠ m.nodeId → m.hasRoomFor m.peers node = true →
      m.FreeFor identifier node
  | .register identifier node => m.peers.contains node = true ∧ m.FreeFor identifier node
  | .cleanup nowMs => ∀ entry ∈ m.peers.toList,
      entry.2.isStale nowMs m.config.peerTimeoutMs = true →
        m.ReachedOnlyAs entry.1 entry.2.identifier
  | _ => True

section Orderly

variable {m : PeerManager}

theorem freeFor_iff {identifier : String} {node : NodeId} : m.FreeFor identifier node ↔
    ∀ other, m.identifiers.ownName other = some identifier → other = node := by
  constructor
  · intro h other hother
    obtain ⟨peer, hpeer, hidentifier⟩ := ownName_eq_some.mp hother
    exact h (other, peer) (Std.ExtTreeMap.mem_toList_iff_getElem?_eq_some.mpr hpeer) hidentifier
  · rintro h ⟨other, peer⟩ hentry hidentifier
    exact h other (ownName_eq_some.mpr
      ⟨peer, Std.ExtTreeMap.mem_toList_iff_getElem?_eq_some.mp hentry, hidentifier⟩)

theorem reachedOnlyAs_iff {identifier : String} {node : NodeId} :
    m.ReachedOnlyAs node identifier ↔
      ∀ other, m.identifiers.target other = some node → other = identifier := by
  constructor
  · intro h other hother
    exact h (other, node) (Std.ExtTreeMap.mem_toList_iff_getElem?_eq_some.mpr hother) rfl
  · rintro h ⟨other, node'⟩ hentry rfl
    exact h other (Std.ExtTreeMap.mem_toList_iff_getElem?_eq_some.mp hentry)

section Discovered

variable {identifier : String} {node : NodeId}

theorem displaced_of_stays (hstays : ∀ existing ∈ m.identifierMap[identifier]?, existing = node) :
    m.displaced identifier node = m.peers := by
  unfold displaced
  cases hknown : m.identifierMap[identifier]? with
  | none => rfl
  | some existing => exact if_neg (not_not_intro (hstays existing hknown))

theorem displaced_of_moves {existing : NodeId}
    (hknown : m.identifierMap[identifier]? = some existing) (hmoves : existing ≠ node) :
    m.displaced identifier node = m.peers.erase existing := by
  rw [displaced, hknown]
  exact if_pos hmoves

variable {name : Option String} {rssi : Int8} {meshId : Option String} {nowMs : UInt64}
  (hmesh : m.config.matchesMesh meshId = true) (hname : parseNodeIdFromName name = some node)
  (hother : node ≠ m.nodeId)
include hmesh hname hother

/-- An identifier that leads nowhere else is safe to take. -/
theorem agrees_onDiscovered_stays (h : m.identifiers.Agrees)
    (hstays : ∀ existing ∈ m.identifierMap[identifier]?, existing = node) :
    (m.onDiscovered identifier name rssi meshId nowMs).1.identifiers.Agrees := by
  have hkept := displaced_of_stays hstays
  by_cases hroom : m.hasRoomFor (m.displaced identifier node) node = true
  · rw [m.identifiers_onDiscovered hmesh hname hother hroom, hkept]
    refine (Index.agrees_adopt h).mpr fun other hown => ?_
    exact hstays other (h.back other identifier hown)
  · rw [m.onDiscovered_eq hmesh hname hother, if_neg hroom, hkept]
    exact h

theorem agrees_onDiscovered_moves (hfits : m.Fits) (h : m.identifiers.Agrees) {existing : NodeId}
    (hknown : m.identifierMap[identifier]? = some existing) (hmoves : existing ≠ node) :
    (m.onDiscovered identifier name rssi meshId nowMs).1.identifiers.Agrees ↔
      m.ReachedOnlyAs existing identifier := by
  have hroom := @hasRoomFor_displaced m hfits h identifier node (by rw [hknown]; rfl)
  rw [m.identifiers_onDiscovered hmesh hname hother hroom, displaced_of_moves hknown hmoves,
    identifiers_erase, Index.agrees_drop_adopt h hknown hmoves, reachedOnlyAs_iff]

/-- What an accepted discovery has to meet. -/
theorem orderly_discovered_iff :
    m.Orderly (.discovered identifier name rssi meshId nowMs) ↔
      ∀ existing ∈ m.identifierMap[identifier]?, existing ≠ node →
        m.ReachedOnlyAs existing identifier := by
  constructor
  · intro hall
    exact hall hmesh node hname hother
  · intro hall _ named hnamed _
    obtain rfl := Option.some.inj (hname.symm.trans hnamed)
    exact hall

end Discovered

theorem agrees_onDiscovered (hfits : m.Fits) (h : m.identifiers.Agrees) {identifier : String}
    {name : Option String} {rssi : Int8} {meshId : Option String} {nowMs : UInt64} :
    (m.onDiscovered identifier name rssi meshId nowMs).1.identifiers.Agrees ↔
      m.Orderly (.discovered identifier name rssi meshId nowMs) := by
  by_cases haccepted : m.config.matchesMesh meshId = true ∧
      ∃ node, parseNodeIdFromName name = some node ∧ node ≠ m.nodeId
  · obtain ⟨hmesh, node, hname, hother⟩ := haccepted
    rw [orderly_discovered_iff hmesh hname hother]
    by_cases hstays : ∀ existing ∈ m.identifierMap[identifier]?, existing = node
    · refine iff_of_true (agrees_onDiscovered_stays hmesh hname hother h hstays) ?_
      intro existing hknown hmoves
      exact absurd (hstays existing hknown) hmoves
    · obtain ⟨existing, hknown, hmoves⟩ := not_forall₂.mp hstays
      rw [agrees_onDiscovered_moves hmesh hname hother hfits h hknown hmoves, hknown]
      constructor
      · rintro honly _ ⟨rfl⟩ -
        exact honly
      · intro hall
        exact hall existing rfl hmoves
  · rw [m.onDiscovered_ignored haccepted]
    refine iff_of_true h fun hmesh node hname hother => ?_
    exact absurd ⟨hmesh, node, hname, hother⟩ haccepted

theorem agrees_onIncomingConnection (h : m.identifiers.Agrees) (identifier : String)
    (node : NodeId) (nowMs : UInt64) :
    (m.handle (.incoming identifier node nowMs)).identifiers.Agrees ↔
      m.Orderly (.incoming identifier node nowMs) := by
  unfold handle Orderly
  dsimp only
  by_cases hself : node = m.nodeId
  · rw [onIncomingConnection, if_pos hself]
    exact iff_of_true h fun hother => absurd hself hother
  · by_cases hroom : m.hasRoomFor m.peers node = true
    · rw [m.identifiers_onIncomingConnection hself hroom, Index.agrees_rename h, ← freeFor_iff]
      exact ⟨fun hfree _ _ => hfree, fun hfree => hfree hself hroom⟩
    · rw [onIncomingConnection, if_neg hself, if_neg hroom]
      exact iff_of_true h fun _ hyes => absurd hyes hroom

/-- A stale peer that is forgotten must not leave another identifier behind. -/
theorem agrees_cleanupStale (h : m.identifiers.Agrees) (nowMs : UInt64) :
    (m.handle (.cleanup nowMs)).identifiers.Agrees ↔ m.Orderly (.cleanup nowMs) := by
  unfold handle Orderly
  dsimp only
  rw [m.identifiers_cleanupStale h, Index.agrees_forget h]
  constructor
  · rintro honly ⟨node, peer⟩ hentry hstale
    have hpeer := Std.ExtTreeMap.mem_toList_iff_getElem?_eq_some.mp hentry
    refine reachedOnlyAs_iff.mpr fun other htarget => ?_
    have hown := honly node (by rw [isStale, hpeer]; exact hstale) other htarget
    obtain ⟨peer', hpeer', rfl⟩ := ownName_eq_some.mp hown
    rw [hpeer] at hpeer'
    obtain rfl := Option.some.inj hpeer'
    rfl
  · intro hall node hstale other htarget
    obtain ⟨peer, hpeer, hpeerStale⟩ := (Option.any_eq_true ..).mp hstale
    have honly := hall (node, peer)
      (Std.ExtTreeMap.mem_toList_iff_getElem?_eq_some.mpr hpeer) hpeerStale
    rw [reachedOnlyAs_iff.mp honly other htarget]
    exact ownName_eq_some.mpr ⟨peer, hpeer, rfl⟩

/-- An event keeps the agreement exactly if it is orderly. -/
theorem agrees_handle (hfits : m.Fits) (h : m.identifiers.Agrees) (event : PeerEvent) :
    (m.handle event).identifiers.Agrees ↔ m.Orderly event := by
  cases event with
  | discovered identifier name rssi meshId nowMs => exact agrees_onDiscovered hfits h
  | connected identifier nowMs =>
      refine iff_of_true ?_ trivial
      change (m.onConnected identifier nowMs).1.identifiers.Agrees
      rwa [identifiers_onConnected]
  | disconnected identifier =>
      refine iff_of_true ?_ trivial
      change (m.onDisconnected identifier).1.identifiers.Agrees
      rwa [identifiers_onDisconnected]
  | disconnectedByNodeId node =>
      refine iff_of_true ?_ trivial
      change (m.disconnect node).identifiers.Agrees
      rwa [identifiers_disconnect]
  | incoming identifier node nowMs => exact agrees_onIncomingConnection h identifier node nowMs
  | register identifier node =>
      unfold handle Orderly
      dsimp only
      rw [identifiers_registerIdentifier, Index.agrees_point h, freeFor_iff, isSome_ownName,
        ← Option.isSome_iff_exists, Std.ExtTreeMap.contains_eq_isSome_getElem?]
  | cleanup nowMs => exact agrees_cleanupStale h nowMs

end Orderly

/-- All along a run the identifier map agrees with the peer table exactly if every event is
orderly. -/
theorem mapAgrees_iff_orderly (nodeId : NodeId) (config : PeerManagerConfig)
    (events : List PeerEvent) :
    (∀ front, front <+: events → (LoggedRun.run handle (new nodeId config) front).MapAgrees) ↔
      LoggedRun.Along handle Orderly (new nodeId config) events := by
  have hfits : (new nodeId config).Fits := Nat.zero_le _
  have hstart : (new nodeId config).identifiers.Agrees := by
    constructor
    · intro identifier node htarget
      exact absurd htarget getElem?_empty_ne_some
    · intro node identifier hown
      change ((∅ : Map NodeId PeatPeer)[node]?).map PeatPeer.identifier = some identifier at hown
      rw [Std.ExtTreeMap.getElem?_empty] at hown
      cases hown
  have hiff := @LoggedRun.forall_prefix_iff_along _ _ handle Fits
    (fun m => m.identifiers.Agrees) Orderly (new nodeId config) events hfits hstart
    (fun _ event h => fits_handle h event) (fun _ event hfits h => agrees_handle hfits h event)
  rw [← hiff]
  exact forall₂_congr fun _ _ => mapAgrees_iff

/-- A device is seen under two addresses and then goes stale. -/
def rotated : PeerManager :=
  LoggedRun.run handle (new 0x11111111 (PeerManagerConfig.withMeshId "DEMO"))
    [.discovered "AA:BB:CC:DD:EE:01" (some "PEAT_DEMO-22222222") (-70) (some "DEMO") 1000,
      .discovered "AA:BB:CC:DD:EE:02" (some "PEAT_DEMO-22222222") (-65) (some "DEMO") 2000,
      .cleanup 100000]

/-- The second address still leads to it, and a connection is announced for a node that is not
tracked. -/
theorem rotated_not_mapAgrees :
    rotated.peers[(0x22222222 : NodeId)]? = none ∧
      rotated.getNodeId "AA:BB:CC:DD:EE:02" = some 0x22222222 ∧
      (rotated.onConnected "AA:BB:CC:DD:EE:02" 101000).2 = some 0x22222222 ∧
      (rotated.onConnected "AA:BB:CC:DD:EE:02" 101000).1.peers[(0x22222222 : NodeId)]? = none ∧
      ¬ rotated.MapAgrees := by
  have hgone : rotated.peers[(0x22222222 : NodeId)]? = none := by decide +kernel
  have hleads : rotated.getNodeId "AA:BB:CC:DD:EE:02" = some 0x22222222 := by decide +kernel
  refine ⟨hgone, hleads, by decide +kernel, by decide +kernel, fun h => ?_⟩
  obtain ⟨peer, hpeer⟩ := h.tracked _ _ hleads
  rw [hgone] at hpeer
  cases hpeer

end PeerManager

end PeatBtle
