import PeatBtle.Document

/-!
# Relay envelopes and duplicate suppression

An envelope carries a document over several hops. Receivers remember the
identifiers they have seen; entries expire, and a cache that is still too large
after expiry is cut back to half its limit, oldest first.
-/

namespace PeatBtle

open Wire

def defaultMaxHops : UInt8 := 7
def defaultSeenTtlMs : UInt64 := 300000
def maxCacheSize : Nat := 1000

abbrev MessageId := Vector UInt8 16

structure RelayFlags where
  requiresAck : Bool
  isBroadcast : Bool
deriving DecidableEq

namespace RelayFlags

def default : RelayFlags := ⟨false, false⟩

def toByte (f : RelayFlags) : UInt8 :=
  (if f.requiresAck then 0x01 else 0) ||| (if f.isBroadcast then 0x02 else 0)

def fromByte (byte : UInt8) : RelayFlags := ⟨byte &&& 0x01 != 0, byte &&& 0x02 != 0⟩

theorem fromByte_toByte (f : RelayFlags) : fromByte f.toByte = f := by
  obtain ⟨requiresAck, isBroadcast⟩ := f
  revert requiresAck isBroadcast
  decide

end RelayFlags

structure RelayEnvelope where
  messageId : MessageId
  hopCount : UInt8
  maxHops : UInt8
  originNode : NodeId
  flags : RelayFlags
  payload : Bytes
deriving DecidableEq

namespace RelayEnvelope

/-- A broadcast under a given identifier; the source draws the identifier from the clock. -/
def broadcast (messageId : MessageId) (originNode : NodeId) (payload : Bytes) : RelayEnvelope :=
  ⟨messageId, 0, defaultMaxHops, originNode, ⟨false, true⟩, payload⟩

def withMaxHops (e : RelayEnvelope) (maxHops : UInt8) : RelayEnvelope := { e with maxHops := maxHops }

def canRelay (e : RelayEnvelope) : Bool := e.hopCount < e.maxHops

/-- The copy for the next hop. -/
def relay (e : RelayEnvelope) : Option RelayEnvelope :=
  if e.canRelay then some { e with hopCount := e.hopCount + 1 } else none

def encode (e : RelayEnvelope) : Bytes :=
  relayEnvelopeMarker :: e.flags.toByte :: (e.messageId.toList ++ (e.hopCount :: e.maxHops ::
    (u32ToLe e.originNode ++ (u32ToLe (UInt32.ofNat e.payload.length) ++ e.payload))))

def decode (data : Bytes) : Option RelayEnvelope :=
  if data.length < 28 then none
  else if byteAt data 0 ≠ relayEnvelopeMarker then none
  else
    let payloadLen := (u32At data 24).toNat
    if data.length < 28 + payloadLen then none
    else some
      { messageId := Vector.ofFn fun i => byteAt (slice data 2 18) i
        hopCount := byteAt data 18
        maxHops := byteAt data 19
        originNode := u32At data 20
        flags := RelayFlags.fromByte (byteAt data 1)
        payload := slice data 28 (28 + payloadLen) }

/-! ## What the next hop receives -/

section Reads

variable (e : RelayEnvelope)

theorem encode_length : e.encode.length = 28 + e.payload.length := by
  simp only [encode, List.length_cons, List.length_append, Vector.length_toList, u32ToLe_length]
  omega

private theorem messageId_read : slice e.encode 2 18 = e.messageId.toList := by
  rw [encode, slice_cons_succ, slice_cons_succ]
  exact slice_append_left (by simp)

/-- Behind the identifier. -/
private theorem encode_eq_append :
    e.encode = (relayEnvelopeMarker :: e.flags.toByte :: e.messageId.toList) ++
      (e.hopCount :: e.maxHops :: (u32ToLe e.originNode ++
        (u32ToLe (UInt32.ofNat e.payload.length) ++ e.payload))) := rfl

private theorem hopCount_read : byteAt e.encode 18 = e.hopCount := by
  rw [encode_eq_append, byteAt_skip (by simp)]
  simp

private theorem maxHops_read : byteAt e.encode 19 = e.maxHops := by
  rw [encode_eq_append, byteAt_skip (by simp)]
  simp

private theorem originNode_read : u32At e.encode 20 = e.originNode := by
  rw [encode_eq_append, u32At_skip (by simp)]
  simp

private theorem payloadLen_read : u32At e.encode 24 = UInt32.ofNat e.payload.length := by
  rw [encode_eq_append, u32At_skip (by simp)]
  simp only [List.length_cons, Vector.length_toList, Nat.reduceAdd, Nat.reduceSub, u32At_cons_succ]
  rw [u32At_skip (by simp), u32ToLe_length, Nat.sub_self, u32At_toLe]

private theorem payload_read (n : Nat) : slice e.encode 28 (28 + n) = e.payload.take n := by
  rw [encode_eq_append, slice_skip (by simp)]
  simp only [List.length_cons, Vector.length_toList, Nat.reduceAdd, Nat.reduceSub]
  rw [show 28 + n - 18 = n + 8 + 2 by omega]
  rw [slice_cons_succ, slice_cons_succ, slice_skip (by simp), u32ToLe_length, slice_skip (by simp),
    u32ToLe_length]
  simp [slice]

/-- The length of the payload is written as 32 bits, and the rest of a longer one is lost. -/
theorem decode_encode :
    decode e.encode = some { e with payload := e.payload.take (e.payload.length % 2 ^ 32) } := by
  have hlen := e.encode_length
  have hmod : e.payload.length % 2 ^ 32 ≤ e.payload.length := Nat.mod_le _ _
  have hmarker : byteAt e.encode 0 = relayEnvelopeMarker := rfl
  have hflags : byteAt e.encode 1 = e.flags.toByte := rfl
  unfold decode
  simp only [hmarker, hflags, messageId_read, hopCount_read, maxHops_read, originNode_read,
    payloadLen_read, payload_read, UInt32.toNat_ofNat', ofFn_byteAt, RelayFlags.fromByte_toByte]
  rw [if_neg (by omega), if_neg (by simp), if_neg (by omega)]

end Reads

/-- One step of a flood: the envelope as the next node receives it. -/
def hop (e : RelayEnvelope) : Option RelayEnvelope :=
  e.relay.bind fun next => decode next.encode

theorem hop_eq (e : RelayEnvelope) :
    e.hop = if e.hopCount < e.maxHops then
      some
        { e with
          hopCount := e.hopCount + 1
          payload := e.payload.take (e.payload.length % 2 ^ 32) }
      else none := by
  unfold hop relay canRelay
  by_cases hlt : e.hopCount < e.maxHops
  · simp only [hlt, decide_true, if_true, Option.bind_some, decode_encode]
  · simp only [hlt, decide_false, Bool.false_eq_true, if_false, Option.bind_none]

end RelayEnvelope

/-! ## Seen messages -/

structure SeenEntry where
  firstSeenMs : UInt64
  count : UInt32
  origin : NodeId
deriving DecidableEq

structure SeenMessageCache where
  cache : Map MessageId SeenEntry
  ttlMs : UInt64
  lastCleanupMs : UInt64
deriving DecidableEq

namespace SeenMessageCache

def withTtl (ttlMs : UInt64) : SeenMessageCache := ⟨∅, ttlMs, 0⟩

def hasSeen (c : SeenMessageCache) (messageId : MessageId) : Bool := c.cache.contains messageId

/-- The identifiers that a forced cleanup removes. -/
def oldest (cache : Map MessageId SeenEntry) : List MessageId :=
  ((cache.toList.mergeSort fun a b => a.2.firstSeenMs ≤ b.2.firstSeenMs).take
    (cache.size - maxCacheSize / 2)).map Prod.fst

def cleanup (c : SeenMessageCache) (nowMs : UInt64) : SeenMessageCache :=
  let live := c.cache.filter fun _ entry => saturatingSub nowMs entry.firstSeenMs < c.ttlMs
  { c with
    cache := if live.size > maxCacheSize then (oldest live).foldl (fun m id => m.erase id) live
      else live
    lastCleanupMs := nowMs }

/-- Whether the message is new. A duplicate only raises its count. -/
def markSeen (c : SeenMessageCache) (messageId : MessageId) (origin : NodeId) (nowMs : UInt64) :
    SeenMessageCache × Bool :=
  let fresh := if saturatingSub nowMs c.lastCleanupMs > c.ttlMs / 2 then c.cleanup nowMs else c
  if fresh.hasSeen messageId then
    ({ fresh with cache := fresh.cache.modify messageId fun e => { e with count := e.count + 1 } },
      false)
  else ({ fresh with cache := fresh.cache.insert messageId ⟨nowMs, 1, origin⟩ }, true)

def clear (c : SeenMessageCache) : SeenMessageCache := { c with cache := ∅ }

/-! ## What is remembered -/

/-- The entry has not expired. -/
def Live (c : SeenMessageCache) (nowMs : UInt64) (entry : SeenEntry) : Prop :=
  saturatingSub nowMs entry.firstSeenMs < c.ttlMs

variable {c : SeenMessageCache} {messageId : MessageId} {entry : SeenEntry}

/-- A cleanup that is not forced keeps what has not expired. -/
theorem cleanup_keeps {nowMs : UInt64} (hsize : c.cache.size ≤ maxCacheSize)
    (hentry : c.cache[messageId]? = some entry) (hlive : c.Live nowMs entry) :
    (c.cleanup nowMs).cache[messageId]? = some entry := by
  have hle := Std.ExtTreeMap.size_filter_le_size (t := c.cache)
    (f := fun _ entry => decide (saturatingSub nowMs entry.firstSeenMs < c.ttlMs))
  unfold cleanup
  dsimp only
  rw [if_neg (by omega), Std.ExtTreeMap.getElem?_filter', hentry]
  exact Option.filter_some_pos (decide_eq_true hlive)

theorem mem_of_mem_cleanup {nowMs : UInt64} (hsize : c.cache.size ≤ maxCacheSize)
    (h : messageId ∈ (c.cleanup nowMs).cache) : messageId ∈ c.cache := by
  have hle := Std.ExtTreeMap.size_filter_le_size (t := c.cache)
    (f := fun _ entry => decide (saturatingSub nowMs entry.firstSeenMs < c.ttlMs))
  unfold cleanup at h
  dsimp only at h
  rw [if_neg (by omega)] at h
  exact Std.ExtTreeMap.mem_of_mem_filter h

/-- After the announced identifiers `past`, all of them are still in the cache, each since one of
the times of the run. -/
structure Remembers (keys : Finset MessageId) (times : List UInt64) (past : List MessageId)
    (c : SeenMessageCache) : Prop where
  mem_keys : ∀ id ∈ c.cache, id ∈ keys
  seen : ∀ id ∈ past, ∃ entry, c.cache[id]? = some entry ∧ entry.firstSeenMs ∈ times
  nodup : past.Nodup

section Window

variable {keys : Finset MessageId} {times : List UInt64} {past : List MessageId} {nowMs : UInt64}

theorem live_of_window (hwindow : ∀ a ∈ times, ∀ b ∈ times, b.toNat < a.toNat + c.ttlMs.toNat)
    (hnow : nowMs ∈ times) (hfirst : entry.firstSeenMs ∈ times) : c.Live nowMs entry := by
  have hspan := hwindow _ hfirst _ hnow
  have hpositive := hwindow _ hfirst _ hfirst
  unfold Live saturatingSub
  rw [UInt64.lt_iff_toNat_lt]
  split
  · rename_i hle
    rw [UInt64.toNat_sub_of_le _ _ hle]
    rw [UInt64.le_iff_toNat_le] at hle
    omega
  · change 0 < _
    omega

theorem Remembers.cleanup (h : Remembers keys times past c) (hcard : keys.card ≤ maxCacheSize)
    (hwindow : ∀ a ∈ times, ∀ b ∈ times, b.toNat < a.toNat + c.ttlMs.toNat)
    (hnow : nowMs ∈ times) : Remembers keys times past (c.cleanup nowMs) := by
  have hsize := (MapMerge.size_le_card h.mem_keys).trans hcard
  refine ⟨fun id hid => h.mem_keys id (mem_of_mem_cleanup hsize hid), fun id hid => ?_, h.nodup⟩
  obtain ⟨entry, hentry, hfirst⟩ := h.seen id hid
  exact ⟨entry, cleanup_keeps hsize hentry (live_of_window hwindow hnow hfirst), hfirst⟩

/-- A duplicate changes no time of arrival. -/
theorem Remembers.duplicate (h : Remembers keys times past c) (messageId : MessageId) :
    Remembers keys times past
      { c with cache := c.cache.modify messageId fun e => { e with count := e.count + 1 } } := by
  refine ⟨fun id hid => h.mem_keys id (Std.ExtTreeMap.mem_modify.mp hid), fun id hid => ?_, h.nodup⟩
  obtain ⟨entry, hentry, hfirst⟩ := h.seen id hid
  dsimp only
  rw [MapMerge.getElem?_modify_eq]
  split
  · rename_i heq
    subst heq
    refine ⟨_, congrArg (Option.map _) hentry, ?_⟩
    exact hfirst
  · exact ⟨entry, hentry, hfirst⟩

theorem Remembers.announce (h : Remembers keys times past c) (hkey : messageId ∈ keys)
    (hnew : messageId ∉ c.cache) (origin : NodeId) (hnow : nowMs ∈ times) :
    Remembers keys times (past ++ [messageId])
      { c with cache := c.cache.insert messageId ⟨nowMs, 1, origin⟩ } := by
  have hnotpast : messageId ∉ past := by
    intro hpast
    obtain ⟨entry, hentry, -⟩ := h.seen messageId hpast
    exact hnew (Std.ExtTreeMap.mem_iff_isSome_getElem?.mpr (by rw [hentry]; rfl))
  refine ⟨fun id hid => ?_, fun id hid => ?_, ?_⟩
  · rw [Std.ExtTreeMap.mem_insert, Std.LawfulEqCmp.compare_eq_iff_eq] at hid
    rcases hid with rfl | hold
    · exact hkey
    · exact h.mem_keys id hold
  · dsimp only
    rw [MapMerge.getElem?_insert_eq]
    split
    · exact ⟨_, rfl, hnow⟩
    · rename_i hother
      rcases List.mem_append.mp hid with hold | hself
      · exact h.seen id hold
      · exact absurd (List.mem_singleton.mp hself).symm hother
  · exact List.nodup_append.mpr ⟨h.nodup, List.nodup_singleton _, by
      rintro a ha b hb rfl
      rw [List.mem_singleton.mp hb] at ha
      exact hnotpast ha⟩

theorem markSeen_cases (c : SeenMessageCache) (messageId : MessageId) (origin : NodeId)
    (nowMs : UInt64) : ∃ fresh, (fresh = c ∨ fresh = c.cleanup nowMs) ∧
      c.markSeen messageId origin nowMs =
        if fresh.hasSeen messageId then
          ({ fresh with
            cache := fresh.cache.modify messageId fun e => { e with count := e.count + 1 } }, false)
        else ({ fresh with cache := fresh.cache.insert messageId ⟨nowMs, 1, origin⟩ }, true) := by
  refine ⟨_, ?_, rfl⟩
  split
  · exact Or.inr rfl
  · exact Or.inl rfl

/-- Inside the window a message is new only once. -/
theorem Remembers.markSeen (h : Remembers keys times past c) (hcard : keys.card ≤ maxCacheSize)
    (hwindow : ∀ a ∈ times, ∀ b ∈ times, b.toNat < a.toNat + c.ttlMs.toNat)
    (hkey : messageId ∈ keys) (origin : NodeId) (hnow : nowMs ∈ times) :
    Remembers keys times
      (past ++ if (c.markSeen messageId origin nowMs).2 then [messageId] else [])
      (c.markSeen messageId origin nowMs).1 := by
  obtain ⟨fresh, hcleaned, hmarked⟩ := c.markSeen_cases messageId origin nowMs
  have hfresh : Remembers keys times past fresh := by
    rcases hcleaned with rfl | rfl
    · exact h
    · exact h.cleanup hcard hwindow hnow
  rw [hmarked]
  by_cases hseen : fresh.hasSeen messageId = true
  · rw [if_pos hseen, if_neg Bool.false_ne_true, List.append_nil]
    exact hfresh.duplicate messageId
  · have hnew : messageId ∉ fresh.cache := by
      simpa [hasSeen] using hseen
    rw [if_neg hseen, if_pos rfl]
    exact hfresh.announce hkey hnew origin hnow

theorem ttlMs_markSeen (c : SeenMessageCache) (messageId : MessageId) (origin : NodeId)
    (nowMs : UInt64) : (c.markSeen messageId origin nowMs).1.ttlMs = c.ttlMs := by
  obtain ⟨fresh, hcleaned, hmarked⟩ := c.markSeen_cases messageId origin nowMs
  have hfresh : fresh.ttlMs = c.ttlMs := by
    rcases hcleaned with rfl | rfl
    · rfl
    · rfl
  rw [hmarked]
  split
  · exact hfresh
  · exact hfresh

end Window

end SeenMessageCache

end PeatBtle
