import PeatBtle.Data.LoggedRun
import PeatBtle.Mesh.Receive

/-!
# Flooding

A flood ends because nodes announce a message once and because hops are counted.
The first is a matter of the seen cache over a run of arrivals, the second of
the envelope along a chain of hops.
-/

namespace PeatBtle

open Wire

namespace RelayEnvelope

/-- Each envelope is what the next node receives from the one before. -/
def Chain (e : RelayEnvelope) (hops : List RelayEnvelope) : Prop :=
  List.IsChain (fun sent received => sent.hop = some received) (e :: hops)

/-- What a chain may do to an envelope: count its hops, up to the limit, and nothing else. -/
structure Carried (e : RelayEnvelope) (hops : List RelayEnvelope) : Prop where
  length_le : hops.length ≤ e.maxHops.toNat - e.hopCount.toNat
  hopCount_eq : ∀ k next, hops[k]? = some next → next.hopCount.toNat = e.hopCount.toNat + (k + 1)
  hopCount_le : ∀ next ∈ hops, next.hopCount ≤ next.maxHops
  messageId_eq : ∀ next ∈ hops, next.messageId = e.messageId
  originNode_eq : ∀ next ∈ hops, next.originNode = e.originNode
  maxHops_eq : ∀ next ∈ hops, next.maxHops = e.maxHops
  flags_eq : ∀ next ∈ hops, next.flags = e.flags
  payload_eq : ∀ next ∈ hops, next.payload = e.payload

theorem carried_nil (e : RelayEnvelope) : e.Carried [] where
  length_le := Nat.zero_le _
  hopCount_eq _ _ h := by cases h
  hopCount_le _ h := absurd h List.not_mem_nil
  messageId_eq _ h := absurd h List.not_mem_nil
  originNode_eq _ h := absurd h List.not_mem_nil
  maxHops_eq _ h := absurd h List.not_mem_nil
  flags_eq _ h := absurd h List.not_mem_nil
  payload_eq _ h := absurd h List.not_mem_nil

theorem Carried.cons {e : RelayEnvelope} {hops : List RelayEnvelope} (hlt : e.hopCount < e.maxHops)
    (h : Carried { e with hopCount := e.hopCount + 1 } hops) :
    e.Carried ({ e with hopCount := e.hopCount + 1 } :: hops) := by
  have hlt' := UInt8.lt_iff_toNat_lt.mp hlt
  have hmax := e.maxHops.toNat_lt
  have hnext : (e.hopCount + 1).toNat = e.hopCount.toNat + 1 := by
    rw [UInt8.toNat_add]
    change (e.hopCount.toNat + 1) % 256 = _
    omega
  have hlength := h.length_le
  dsimp only at hlength
  rw [hnext] at hlength
  refine ⟨?_, ?_, ?_, ?_, ?_, ?_, ?_, ?_⟩
  · rw [List.length_cons]
    omega
  · intro k next hk
    cases k with
    | zero =>
        obtain rfl := Option.some.inj hk
        exact hnext
    | succ k =>
        have hcount := h.hopCount_eq k next hk
        dsimp only at hcount
        omega
  · refine List.forall_mem_cons.mpr ⟨?_, h.hopCount_le⟩
    rw [UInt8.le_iff_toNat_le]
    dsimp only
    omega
  · exact List.forall_mem_cons.mpr ⟨rfl, h.messageId_eq⟩
  · exact List.forall_mem_cons.mpr ⟨rfl, h.originNode_eq⟩
  · exact List.forall_mem_cons.mpr ⟨rfl, h.maxHops_eq⟩
  · exact List.forall_mem_cons.mpr ⟨rfl, h.flags_eq⟩
  · exact List.forall_mem_cons.mpr ⟨rfl, h.payload_eq⟩

theorem hop_of_short {e : RelayEnvelope} (hlt : e.hopCount < e.maxHops)
    (hshort : e.payload.length < 2 ^ 32) : e.hop = some { e with hopCount := e.hopCount + 1 } := by
  rw [hop_eq, if_pos hlt, Nat.mod_eq_of_lt hshort, List.take_length]

theorem hop_eq_none {e : RelayEnvelope} (hlast : e.maxHops ≤ e.hopCount) : e.hop = none := by
  rw [hop_eq, if_neg (UInt8.not_lt.mpr hlast)]

theorem carried_of_short {e : RelayEnvelope} (hshort : e.payload.length < 2 ^ 32)
    (hops : List RelayEnvelope) (h : e.Chain hops) : e.Carried hops := by
  induction hops generalizing e with
  | nil => exact e.carried_nil
  | cons next hops ih =>
      obtain ⟨hhop, hrest⟩ := List.isChain_cons_cons.mp h
      rcases Nat.lt_or_ge e.hopCount.toNat e.maxHops.toNat with hlt | hlast
      · rw [hop_of_short (UInt8.lt_iff_toNat_lt.mpr hlt) hshort] at hhop
        obtain rfl := Option.some.inj hhop
        exact (ih (e := { e with hopCount := e.hopCount + 1 }) hshort hrest).cons
          (UInt8.lt_iff_toNat_lt.mpr hlt)
      · rw [hop_eq_none (UInt8.le_iff_toNat_le.mpr hlast)] at hhop
        cases hhop

/-- Only a payload that is too long for its length field does not survive a hop. -/
theorem carried_iff {e : RelayEnvelope} (hle : e.hopCount ≤ e.maxHops) :
    (∀ hops, e.Chain hops → e.Carried hops) ↔
      e.payload.length < 2 ^ 32 ∨ e.hopCount = e.maxHops := by
  constructor
  · intro hall
    by_cases hshort : e.payload.length < 2 ^ 32
    · exact Or.inl hshort
    · refine Or.inr ?_
      by_contra hne
      have hlt := UInt8.lt_of_le_of_ne hle hne
      have hhop := e.hop_eq
      rw [if_pos hlt] at hhop
      have hcarried := hall [_] (List.isChain_cons_cons.mpr ⟨hhop, List.IsChain.singleton _⟩)
      have hpayload := hcarried.payload_eq _ (List.mem_singleton_self _)
      have hlength := congrArg List.length hpayload
      dsimp only at hlength
      rw [List.length_take] at hlength
      omega
  · rintro (hshort | hlast) hops h
    · exact carried_of_short hshort hops h
    · cases hops with
      | nil => exact e.carried_nil
      | cons next hops =>
          obtain ⟨hhop, -⟩ := List.isChain_cons_cons.mp h
          rw [hop_eq_none (UInt8.le_iff_toNat_le.mpr (by rw [hlast]))] at hhop
          cases hhop

/-- An envelope whose length field is zero although there are four gibibytes behind it. -/
def oversized : RelayEnvelope :=
  broadcast (Vector.replicate 16 0) 1 (List.replicate (2 ^ 32) 0)

theorem length_oversized : oversized.payload.length = 2 ^ 32 := List.length_replicate ..

theorem payload_lost_on_first_hop :
    oversized.hopCount ≤ oversized.maxHops ∧
      ∃ next, oversized.Chain [next] ∧ next.payload = [] ∧ ¬ oversized.Carried [next] := by
  have hlt : oversized.hopCount < oversized.maxHops :=
    (by decide : (0 : UInt8) < defaultMaxHops)
  have hhop := oversized.hop_eq
  rw [if_pos hlt, length_oversized, Nat.mod_self, List.take_zero] at hhop
  refine ⟨UInt8.le_of_lt hlt, _, List.isChain_cons_cons.mpr ⟨hhop, List.IsChain.singleton _⟩, rfl, ?_⟩
  intro hcarried
  have hpayload := hcarried.payload_eq _ (List.mem_singleton_self _)
  have hlength := congrArg List.length hpayload
  rw [length_oversized] at hlength
  cases hlength

end RelayEnvelope

namespace PeatMesh

variable {D : Type}

/-- One call of `process_relay_envelope`. -/
structure Arrival where
  data : Bytes
  sourcePeer : NodeId
  nowMs : UInt64

def Arrival.messageId (a : Arrival) : Option MessageId :=
  (RelayEnvelope.decode a.data).map RelayEnvelope.messageId

def arrive (m : PeatMesh D) (a : Arrival) : PeatMesh D :=
  (m.processRelayEnvelope a.data a.sourcePeer a.nowMs).1

/-- The message for which a decision is returned. -/
def decided (m : PeatMesh D) (a : Arrival) : Option MessageId :=
  (m.processRelayEnvelope a.data a.sourcePeer a.nowMs).2.bind fun _ => a.messageId

theorem seenCache_noteRelayPath (m : PeatMesh D) (sourcePeer : NodeId) (envelope : RelayEnvelope)
    (nowMs : UInt64) : (m.noteRelayPath sourcePeer envelope nowMs).seenCache = m.seenCache := by
  unfold noteRelayPath
  split
  · rfl
  · rfl

/-- An arrival marks its message, and is decided exactly when the message was new. -/
theorem arrive_spec (m : PeatMesh D) (a : Arrival) :
    match a.messageId with
    | none => m.arrive a = m ∧ m.decided a = none
    | some id => ∃ origin,
        (m.arrive a).seenCache = (m.seenCache.markSeen id origin a.nowMs).1 ∧
          (m.decided a).toList =
            if (m.seenCache.markSeen id origin a.nowMs).2 then [id] else [] := by
  unfold Arrival.messageId arrive decided processRelayEnvelope Arrival.messageId
  cases hdecode : RelayEnvelope.decode a.data with
  | none => exact ⟨rfl, rfl⟩
  | some envelope =>
      refine ⟨envelope.originNode, ?_⟩
      simp only [markMessageSeen, seenCache_noteRelayPath, Option.map_some]
      refine ⟨trivial, ?_⟩
      split
      · rfl
      · rfl

section Arrivals

variable {keys : Finset MessageId} {arrivals : List Arrival}

theorem decided_nodup (m : PeatMesh D) (hcard : keys.card ≤ maxCacheSize)
    (hold : ∀ id ∈ m.seenCache.cache, id ∈ keys)
    (hids : ∀ a ∈ arrivals, ∀ id, a.messageId = some id → id ∈ keys)
    (hwindow : ∀ a ∈ arrivals, ∀ b ∈ arrivals,
      b.nowMs.toNat < a.nowMs.toNat + m.seenCache.ttlMs.toNat) :
    (LoggedRun.log arrive decided m arrivals).Nodup := by
  have htimes : ∀ s ∈ arrivals.map Arrival.nowMs, ∀ t ∈ arrivals.map Arrival.nowMs,
      t.toNat < s.toNat + m.seenCache.ttlMs.toNat := by
    intro s hs t ht
    obtain ⟨a, ha, rfl⟩ := List.mem_map.mp hs
    obtain ⟨b, hb, rfl⟩ := List.mem_map.mp ht
    exact hwindow a ha b hb
  have hrun := @LoggedRun.invariant _ _ _ arrive decided
    (fun past s => s.seenCache.ttlMs = m.seenCache.ttlMs ∧
      SeenMessageCache.Remembers keys (arrivals.map Arrival.nowMs) past s.seenCache)
    m arrivals ⟨rfl, hold, fun _ h => absurd h List.not_mem_nil, List.nodup_nil⟩ ?_
  · exact hrun.2.nodup
  · rintro past s a ha ⟨httl, hpast⟩
    have hspec := s.arrive_spec a
    cases hid : a.messageId with
    | none =>
        rw [hid] at hspec
        rw [hspec.1, hspec.2, Option.toList_none, List.append_nil]
        exact ⟨httl, hpast⟩
    | some id =>
        rw [hid] at hspec
        obtain ⟨origin, hcache, hdecided⟩ := hspec
        rw [hcache, hdecided, SeenMessageCache.ttlMs_markSeen]
        refine ⟨httl, hpast.markSeen hcard ?_ (hids a ha id hid) origin (List.mem_map_of_mem ha)⟩
        rw [httl]
        exact htimes

end Arrivals

/-- Inside the lifetime of the seen cache, and with no more messages than it holds, a message is
decided once; and an envelope is carried over every chain of hops exactly when its payload fits
its length field or there is no hop. -/
theorem flood_bounded (m : PeatMesh D) (arrivals : List Arrival)
    (hdistinct : (m.seenCache.cache.keys ++ arrivals.filterMap Arrival.messageId).toFinset.card ≤
      maxCacheSize)
    (hwindow : ∀ a ∈ arrivals, ∀ b ∈ arrivals,
      b.nowMs.toNat < a.nowMs.toNat + m.seenCache.ttlMs.toNat) :
    (LoggedRun.log arrive decided m arrivals).Nodup ∧
      ∀ e : RelayEnvelope, e.hopCount ≤ e.maxHops →
        ((∀ hops, e.Chain hops → e.Carried hops) ↔
          e.payload.length < 2 ^ 32 ∨ e.hopCount = e.maxHops) := by
  refine ⟨m.decided_nodup hdistinct ?_ ?_ hwindow, fun e hle => RelayEnvelope.carried_iff hle⟩
  · intro id hid
    exact List.mem_toFinset.mpr (List.mem_append_left _ (Std.ExtTreeMap.mem_keys.mpr hid))
  · intro a ha id hid
    exact List.mem_toFinset.mpr (List.mem_append_right _ (List.mem_filterMap.mpr ⟨a, ha, hid⟩))

/-- A relaying node that hears one broadcast over two neighbours. -/
def crossroads : PeatMesh Unit :=
  PeatMesh.new Crypto.unavailable (PeatMeshConfig.new 3 "CHARLIE" "DEMO").withRelay

def hello : RelayEnvelope := RelayEnvelope.broadcast (Vector.replicate 16 7) 1 [1, 2, 3]

def twice : List Arrival := [⟨hello.encode, 1, 1000⟩, ⟨hello.encode, 2, 1500⟩]

theorem hello_announced_once :
    (LoggedRun.log arrive decided crossroads twice).Nodup ∧
      ∀ hops, hello.Chain hops → hello.Carried hops := by
  obtain ⟨honce, hcarried⟩ := flood_bounded crossroads twice (by decide +kernel) (by decide +kernel)
  exact ⟨honce, (hcarried hello (by decide)).mpr (Or.inl (by decide))⟩

end PeatMesh

end PeatBtle
