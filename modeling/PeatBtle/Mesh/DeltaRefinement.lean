import PeatBtle.Mesh.Step

/-!
# Full deltas against documents

A node can describe its state as a document or as a full delta. Processing a delta
leaves the receiver's counter and emergency as they are, so the two agree exactly
when merging the document would not change them either.
-/

namespace PeatBtle

open Wire

namespace PeatDocument

/-! ## What a document carries -/

/-- The emergency a receiver reads back. Within the 16-bit section length it is the one that was
sent, unless it fails the decoder's checks; a longer one is cut, and the rest of it is taken for
further sections. -/
def carriedEmergency (e : EmergencyEvent) : Option EmergencyEvent :=
  if e.encode.length < 65536 then
    if e.sourceNode ≠ 0 ∧ minValidTimestamp ≤ e.timestamp ∧ e.acks.size ≤ maxEmergencyAcks then
      some { e with acks := e.acks.filter fun node _ => node != 0 }
    else none
  else
    let written := encodeSection emergencyMarker e.encode
    (parseSections written written.length 0 none none).2

/-- The emergency found does not depend on the peripheral found before. -/
theorem parseSections_snd (data : Bytes) (fuel offset : Nat) (p q : Option Peripheral)
    (e : Option EmergencyEvent) :
    (parseSections data fuel offset p e).2 = (parseSections data fuel offset q e).2 := by
  induction fuel generalizing offset p q e with
  | zero => rfl
  | succ fuel ih =>
      simp only [parseSections]
      by_cases hend : offset < data.length
      · simp only [if_pos hend]
        cases sectionAt data offset with
        | none => rfl
        | some found =>
            dsimp only
            split_ifs
            · rfl
            · exact ih _ _ _ _
            · exact ih _ _ _ _
            · rfl
      · simp only [if_neg hend]

theorem decode_eq_carried {e : EmergencyEvent} (hfits : e.encode.length < 65536) :
    EmergencyEvent.decode e.encode = carriedEmergency e := by
  rw [carriedEmergency, if_pos hfits, ← List.append_nil e.encode]
  by_cases hid : e.Identified
  · by_cases hacks : e.acks.size ≤ maxEmergencyAcks
    · rw [if_pos ⟨hid.source_ne_zero, hid.timestamp_ge, hacks⟩, EmergencyEvent.decode_encode hid hacks]
    · have hsize : e.acks.size < 2 ^ 32 := by
        rw [EmergencyEvent.encode_length] at hfits
        omega
      rw [if_neg (fun h => hacks h.2.2),
        EmergencyEvent.decode_eq_none_of_many (Nat.not_le.mp hacks) hsize]
  · rw [if_neg (fun h => hid ⟨h.1, h.2.1⟩), EmergencyEvent.decode_eq_none hid]

theorem carried_of_sections (d : PeatDocument) :
    (parseSections d.sections d.sections.length 0 none none).2 =
      d.emergency.bind carriedEmergency := by
  rw [parseSections_peripheral]
  cases hevent : d.emergency with
  | none => exact congrArg Prod.snd (parseSections_end (Nat.zero_le _))
  | some e =>
      simp only [Option.elim_some, Option.bind_some]
      by_cases hfits : e.encode.length < 65536
      · rw [parseSections_lone_emergency hfits, decode_eq_carried hfits]
      · rw [carriedEmergency, if_neg hfits]
        exact parseSections_snd _ _ _ _ _ _

end PeatDocument

namespace DocumentSync

/-- The same counts and the same emergency. -/
def SameCrdts (s other : DocumentSync) : Prop :=
  (∀ node, s.counter.nodeCount node = other.counter.nodeCount node) ∧ s.emergency = other.emergency

/-- Nothing that arrives of a state is news: no count of a valid identifier is higher, and the
emergency that a document carries is known. -/
def Knows (s sender : DocumentSync) : Prop :=
  (∀ node, node ≠ 0 → sender.counter.nodeCount node ≤ s.counter.nodeCount node) ∧
    PeatDocument.EmergencyKnown s.emergency (sender.emergency.bind PeatDocument.carriedEmergency)

theorem mergeDocument_of_accepted {s : DocumentSync} {data : Bytes} {received : PeatDocument}
    (hdecode : PeatDocument.decode data = some received) (hother : received.nodeId ≠ s.nodeId) :
    (s.mergeDocument data).1 = (s.mergeReceived received).1 := by
  simp only [mergeDocument, hdecode, if_neg hother]

theorem nodeCount_filter (c : GCounter) (node : NodeId) :
    (GCounter.mk (c.counts.filter fun key _ => key != 0)).nodeCount node =
      if node = 0 then 0 else c.nodeCount node := by
  simp only [GCounter.nodeCount, Std.ExtTreeMap.getElem?_filter']
  by_cases hzero : node = 0
  · subst hzero
    cases c.counts[(0 : NodeId)]? <;> rfl
  · rw [if_neg hzero]
    cases c.counts[node]? with
    | none => rfl
    | some count => simp [Option.filter, hzero]

theorem merged_counts_iff (c sender : GCounter) :
    (∀ node, c.nodeCount node =
        (c.merge ⟨sender.counts.filter fun key _ => key != 0⟩).nodeCount node) ↔
      ∀ node, node ≠ 0 → sender.nodeCount node ≤ c.nodeCount node := by
  simp only [GCounter.nodeCount_merge, nodeCount_filter, @eq_comm UInt64 (c.nodeCount _),
    GCounter.max_eq_left_iff]
  constructor
  · intro h node hnode
    have hle := h node
    rwa [if_neg hnode] at hle
  · intro h node
    by_cases hzero : node = 0
    · rw [if_pos hzero]
      exact UInt64.zero_le
    · rw [if_neg hzero]
      exact h node hzero

/-- Merging a sender's document keeps counts and emergency exactly when the sender has more counts
than a document may have, or nothing that is news. -/
theorem merge_keeps_iff {s sender : DocumentSync} (hother : sender.nodeId ≠ s.nodeId) :
    SameCrdts s (s.mergeDocument sender.buildDocument).1 ↔
      maxCounterEntries < sender.counter.counts.size ∨ s.Knows sender := by
  by_cases hmany : maxCounterEntries < sender.counter.counts.size
  · refine iff_of_true ?_ (Or.inl hmany)
    have hsame : (s.mergeDocument sender.buildDocument).1 = s := by
      rcases PeatDocument.decode_encode_of_many (d := sender.toDocument) hmany with hnone | hempty
      · simp only [mergeDocument, buildDocument, hnone]
      · rw [buildDocument, mergeDocument_of_accepted hempty hother, mergeReceived_eq_self_iff]
        refine ⟨?_, ?_⟩
        · intro node count hcount
          simp [GCounter.new] at hcount
        · intro event hevent
          cases hevent
    rw [hsame]
    exact ⟨fun _ => rfl, rfl⟩
  · have hdecode := PeatDocument.decode_encode_sections (d := sender.toDocument)
      (Nat.not_lt.mp hmany)
    rw [PeatDocument.carried_of_sections] at hdecode
    rw [or_iff_right hmany, buildDocument, mergeDocument_of_accepted hdecode hother, SameCrdts, Knows,
      counter_mergeReceived, emergency_mergeReceived]
    exact and_congr (merged_counts_iff s.counter sender.counter)
      (eq_comm.trans PeatDocument.mergeEmergency_eq_self_iff)

end DocumentSync

namespace PeatMesh

variable {D E : Type} (crypto : Crypto)

theorem documentSync_processDelta (m : PeatMesh D) (sourceNode : NodeId) (data : Bytes)
    (nowMs : UInt64) (relay : RelayInfo) :
    (m.processDeltaDocumentInternal sourceNode data nowMs relay).1.documentSync = m.documentSync := by
  have hobserve := m.observe_processDelta sourceNode data nowMs relay
  have hsync := congrArg (fun o => o.shared.documentSync) hobserve
  refine hsync.trans ?_
  unfold observeEffect deltaEffect
  cases m.acceptsDelta data <;> rfl

/-- Two nodes after whatever they have lived through: a full delta has the effect of a document on
counts and emergency exactly when the document has too many counts to be accepted or brings
nothing new. -/
theorem full_delta_matches_document_iff (senderConfig receiverConfig : PeatMeshConfig)
    (hnodes : senderConfig.nodeId ≠ receiverConfig.nodeId) (senderActions : List (Action D))
    (receiverActions : List (Action E))
    (hplain : (run crypto senderConfig senderActions).encryptionKey = none) (sourceNode : NodeId)
    (nonce : Nonce) (nowMs receivedMs : UInt64) (relay : RelayInfo) :
    let sender := run crypto senderConfig senderActions
    let receiver := run crypto receiverConfig receiverActions
    DocumentSync.SameCrdts
        (receiver.processDeltaDocumentInternal sourceNode
          (sender.buildFullDeltaDocument crypto nonce nowMs) receivedMs relay).1.documentSync
        (receiver.documentSync.mergeDocument (sender.buildDocument crypto nonce)).1 ↔
      maxCounterEntries < sender.documentSync.counter.counts.size ∨
        receiver.documentSync.Knows sender.documentSync := by
  intro sender receiver
  have hother : sender.documentSync.nodeId ≠ receiver.documentSync.nodeId := by
    rw [nodeId_run, nodeId_run]
    exact hnodes
  have hbuilt : sender.buildDocument crypto nonce = sender.documentSync.buildDocument := by
    rw [buildDocument, encryptDocument, hplain]
  rw [documentSync_processDelta, hbuilt]
  exact DocumentSync.merge_keeps_iff hother

def alphaConfig : PeatMeshConfig := PeatMeshConfig.new 0x11111111 "ALPHA-1" "TEST"

def bravoConfig : PeatMeshConfig := PeatMeshConfig.new 0x22222222 "BRAVO-1" "TEST"

def raiseAlarm : List (Action Unit) := [.mutate (.startEmergency 1700000000000 [0x22222222])]

/-- A node that has raised an alarm. -/
def alarmed : PeatMesh Unit := run .unavailable alphaConfig raiseAlarm

def zeroNonce : Nonce := Vector.replicate 12 0

/-- The delta of an alarm is reported as a change of the emergency, but only the document makes
one. -/
theorem alarm_delta_is_not_applied :
    let delta := alarmed.buildFullDeltaDocument .unavailable zeroNonce 1700000000500
    let document := alarmed.buildDocument .unavailable zeroNonce
    let processed :=
      plainReceiver.processDeltaDocumentInternal 0x11111111 delta 2000 RelayInfo.direct
    let merged := plainReceiver.documentSync.mergeDocument document
    processed.2.map (fun result => (result.counterChanged, result.emergencyChanged)) =
        some (true, true) ∧
      processed.1.documentSync.emergency = none ∧
      processed.1.documentSync.counter.nodeCount 0x11111111 = 0 ∧
      merged.1.emergency = some (EmergencyEvent.new 0x11111111 1700000000000 [0x22222222]) ∧
      merged.1.counter.nodeCount 0x11111111 = 1 := by
  decide +kernel

def hearAlarm : List (Action Unit) :=
  [.dataReceivedFromNode 0x11111111 alarmed.documentSync.buildDocument 1700000000400]

/-- A node that has heard of the alarm by a document. -/
def informed : PeatMesh Unit := run .unavailable bravoConfig hearAlarm

theorem informed_node_agrees :
    DocumentSync.SameCrdts
      (informed.processDeltaDocumentInternal 0x11111111
        (alarmed.buildFullDeltaDocument .unavailable zeroNonce 1700000000500) 1700000000600
        RelayInfo.direct).1.documentSync
      (informed.documentSync.mergeDocument (alarmed.buildDocument .unavailable zeroNonce)).1 := by
  have hagree := full_delta_matches_document_iff .unavailable alphaConfig bravoConfig
    (by decide +kernel) raiseAlarm hearAlarm (by decide +kernel) 0x11111111 zeroNonce 1700000000500
    1700000000600 RelayInfo.direct
  dsimp only at hagree
  rw [← alarmed, ← informed] at hagree
  refine hagree.mpr (Or.inr ⟨?_, ?_⟩)
  · have hcounter : informed.documentSync.counter = alarmed.documentSync.counter := by
      decide +kernel
    intro node _
    rw [hcounter]
    exact UInt64.le_refl _
  · rw [← PeatDocument.mergeEmergency_eq_self_iff]
    decide +kernel

end PeatMesh

end PeatBtle
