import Mathlib.Data.List.Perm.Subperm
import PeatBtle.Data.PartialRun
import PeatBtle.Gatt.Fragmentation

/-!
# A link that loses messages

What the sender queues goes out in order, piece by piece, and any piece may be lost.
The receiver holds one partial message, found again by its sequence number alone, and
the sender starts its numbers over in each session.
-/

namespace PeatBtle

open Wire SyncProtocol

/-- A message as the sender queued it, and the pieces that it goes out in. -/
structure QueuedMessage where
  msgType : SyncMessageType
  payload : Bytes
  parts : List SyncMessage
deriving DecidableEq

/-- The two protocols, with a record: every message queued so far, which piece of which message
each outgoing piece is, the pieces that arrived, and what the receiver returned. -/
structure LossyLink where
  sender : SyncProtocol
  receiver : SyncProtocol
  queued : List QueuedMessage
  tags : List (Nat × Nat)
  arrived : List (Nat × Nat)
  returned : List (SyncMessageType × Bytes)
deriving DecidableEq

namespace LossyLink

inductive Action where
  | setMtu (mtu : UInt16)
  | startSync (syncVector : Bytes)
  | queueDocument (docData : Bytes)
  | endSync
  | reset
  | transmit (arrives : Bool)
deriving DecidableEq

def start : LossyLink := ⟨.new, .new, [], [], [], []⟩

/-- Record the pieces that the sender has just added to its queue as a message. -/
def record (link : LossyLink) (msgType : SyncMessageType) (payload : Bytes)
    (sender : SyncProtocol) : LossyLink :=
  let parts := sender.outgoing.drop link.sender.outgoing.length
  { link with
    sender := sender
    queued := link.queued ++ [⟨msgType, payload, parts⟩]
    tags := link.tags ++ (List.range parts.length).map fun i => (link.queued.length, i) }

def receive (link : LossyLink) (tag : Nat × Nat) (part : SyncMessage) : Option LossyLink :=
  (link.receiver.processIncoming part.encode).map fun answered =>
    { link with
      receiver := answered.1
      arrived := link.arrived ++ [tag]
      returned := link.returned ++ answered.2.toList }

/-- The next outgoing piece with its tag. -/
def head (link : LossyLink) : Option ((Nat × Nat) × SyncMessage) :=
  (link.tags.zip link.sender.outgoing).head?

/-- A call that panics has no result. -/
def step (link : LossyLink) : Action → Option LossyLink
  | .setMtu mtu => some { link with sender := link.sender.setMtu mtu }
  | .startSync syncVector =>
      (link.sender.startSync syncVector).map (link.record .syncVector syncVector)
  | .queueDocument docData =>
      (link.sender.queueDocument docData).map (link.record .document docData)
  | .endSync => some (link.record .endSync [] link.sender.endSync)
  | .reset => some { link with sender := link.sender.reset, tags := [] }
  | .transmit arrives =>
      match link.head with
      | none => some link
      | some next =>
          let sent := { link with sender := link.sender.nextOutgoing.1, tags := link.tags.tail }
          if arrives then sent.receive next.1 next.2 else some sent

/-- All pieces of a message have arrived. -/
def Whole (link : LossyLink) (k : Nat) : Prop :=
  ∃ message ∈ link.queued[k]?, ∀ i < message.parts.length, (k, i) ∈ link.arrived

/-- The receiver has returned the messages that arrived whole, one for one and in order. -/
def Intact (link : LossyLink) : Prop :=
  ∃ whole : List Nat, whole.Pairwise (· < ·) ∧ (∀ k, k ∈ whole ↔ link.Whole k) ∧
    link.returned.map some = whole.map fun k =>
      link.queued[k]?.map fun message => (message.msgType, message.payload)

/-- A payload goes out in at most 255 pieces. -/
def Fits (link : LossyLink) : Action → Prop
  | .startSync payload | .queueDocument payload =>
      payload.length ≤ 255 * link.sender.maxPayload
  | _ => True

/-- A piece of a message in several pieces does not meet a partial message with the same sequence
number, unless it is of the same message. -/
def Unmixed (link : LossyLink) : Action → Prop
  | .transmit true => ∀ next ∈ link.head, next.2.totalFragments > 1 →
      ∀ held ∈ link.receiver.reassembler, held.seq = next.2.seq →
        next.1.1 ∈ link.arrived.map Prod.fst
  | _ => True

instance (link : LossyLink) (k : Nat) : Decidable (link.Whole k) :=
  inferInstanceAs (Decidable (∃ message ∈ link.queued[k]?, _))

instance (link : LossyLink) : (action : Action) → Decidable (link.Fits action)
  | .startSync _ | .queueDocument _ => inferInstanceAs (Decidable (_ ≤ _))
  | .setMtu _ | .endSync | .reset | .transmit _ => inferInstanceAs (Decidable True)

instance (link : LossyLink) : (action : Action) → Decidable (link.Unmixed action)
  | .transmit true => inferInstanceAs (Decidable (∀ next ∈ link.head, _))
  | .setMtu _ | .startSync _ | .queueDocument _ | .endSync | .reset | .transmit false =>
      inferInstanceAs (Decidable True)

theorem lt_of_whole {link : LossyLink} {k : Nat} (h : link.Whole k) : k < link.queued.length := by
  obtain ⟨message, hmessage, -⟩ := h
  exact (List.getElem?_eq_some_iff.mp hmessage).1

section Intact

variable {link : LossyLink} (h : link.Intact)
include h

theorem returned_eq_nil (hnone : ∀ k < link.queued.length, ¬ link.Whole k) :
    link.returned = [] := by
  obtain ⟨whole, -, hmem, hcontents⟩ := h
  obtain rfl : whole = [] := List.eq_nil_iff_forall_not_mem.mpr fun k hk =>
    hnone k (lt_of_whole ((hmem k).mp hk)) ((hmem k).mp hk)
  exact List.map_eq_nil_iff.mp hcontents

theorem returned_ne_nil {k : Nat} (hwhole : link.Whole k) : link.returned ≠ [] := by
  obtain ⟨whole, -, hmem, hcontents⟩ := h
  intro hnil
  rw [hnil, List.map_nil] at hcontents
  have hk := (hmem k).mpr hwhole
  rw [List.map_eq_nil_iff.mp hcontents.symm] at hk
  exact List.not_mem_nil hk

end Intact

/-! ## Pieces -/

/-- A message cut into several pieces. -/
structure Pieces (message : QueuedMessage) (seq : UInt16) (chunks : List Bytes) : Prop where
  countable : Countable chunks
  proper : message.msgType ≠ .error
  payload : message.payload = chunks.flatten
  parts : message.parts = (List.range chunks.length).map (fragmentAt message.msgType seq chunks)

/-- What the sender queues: one piece, or several. -/
inductive Cut (message : QueuedMessage) : Prop
  | one (seq : UInt16) (hparts : message.parts =
      [SyncMessage.new message.msgType seq message.payload])
      (hreturned : ∀ p : SyncProtocol, ∃ q, q.reassembler = p.reassembler ∧
        p.processIncoming (SyncMessage.new message.msgType seq message.payload).encode =
          some (q, some (message.msgType, message.payload)))
  | several (seq : UInt16) (chunks : List Bytes) (h : Pieces message seq chunks)

theorem returned_whole {msgType : SyncMessageType} {payload : Bytes}
    (h : msgType = .syncVector ∨ msgType = .document ∨ msgType = .endSync ∧ payload = [])
    (seq : UInt16) (p : SyncProtocol) : ∃ q : SyncProtocol, q.reassembler = p.reassembler ∧
      p.processIncoming (SyncMessage.new msgType seq payload).encode =
        some (q, some (msgType, payload)) := by
  have htype : msgType ≠ .error := by rcases h with rfl | rfl | ⟨rfl, -⟩ <;> simp
  refine ⟨(p.processWhole (SyncMessage.new msgType seq payload)).1, ?_, ?_⟩
  · rcases h with rfl | rfl | ⟨rfl, -⟩ <;> rfl
  · rw [processIncoming, SyncMessage.decode_encode htype]
    rcases h with rfl | rfl | ⟨rfl, rfl⟩ <;> rfl

/-- A payload that fits is cut into pieces that the receiver can count. -/
theorem cut_of_fragmentPayload {msgType : SyncMessageType} (seq : UInt16) {payload : Bytes}
    {maxPayload : Nat} (htype : msgType = .syncVector ∨ msgType = .document)
    (hfits : payload.length ≤ 255 * maxPayload) : ∃ parts,
      fragmentPayload msgType seq payload maxPayload = some parts ∧
        Cut ⟨msgType, payload, parts⟩ := by
  by_cases hwhole : payload.length ≤ maxPayload
  · refine ⟨_, fragmentPayload_whole hwhole, .one seq rfl (returned_whole ?_ seq)⟩
    exact htype.imp_right Or.inl
  · have hsize : 0 < maxPayload := by omega
    have hcut : maxPayload < payload.length := Nat.lt_of_not_le hwhole
    have hbyte := (count_le_iff payload hsize 255).mpr hfits
    have hlength := Chunks.pieces_length maxPayload payload
    refine ⟨_, fragmentPayload_cut hsize hcut, .several seq (Chunks.pieces maxPayload payload) ?_⟩
    refine ⟨⟨hlength ▸ several_pieces hsize hcut, hlength ▸ hbyte⟩, ?_,
      (Chunks.flatten_pieces hsize payload).symm, ?_⟩
    · rcases htype with rfl | rfl <;> simp
    · rw [Nat.min_eq_left hbyte, hlength]
      refine List.map_congr_left fun i _ => ?_
      rw [fragmentAt, hlength]

theorem Cut.parts_pos {message : QueuedMessage} (h : Cut message) : 0 < message.parts.length := by
  cases h with
  | one seq hparts =>
      rw [hparts]
      exact Nat.one_pos
  | several seq chunks h =>
      have hseveral := h.countable.several
      rw [h.parts, List.length_map, List.length_range]
      omega

/-! ## What one piece does to the receiver -/

section Piece

variable {message : QueuedMessage} {seq : UInt16} {chunks : List Bytes} {got : List Nat} {i : Nat}
  {receiver : SyncProtocol}

/-- The receiver holds the given pieces, or none and no others with the same number. -/
def Holds (receiver : SyncProtocol) (msgType : SyncMessageType) (seq : UInt16)
    (chunks : List Bytes) (got : List Nat) : Prop :=
  receiver.reassembler = some (collecting msgType seq chunks got) ∨
    got = [] ∧ ∀ held ∈ receiver.reassembler, held.seq ≠ seq

/-- One more piece: the message if it is the last, and nothing before. -/
theorem receive_piece (h : Pieces message seq chunks)
    (hholds : Holds receiver message.msgType seq chunks got) (hnodup : (i :: got).Nodup)
    (hbound : ∀ j ∈ i :: got, j < chunks.length) : ∃ q : SyncProtocol,
      if ∀ j < chunks.length, j ∈ i :: got then
        receiver.processIncoming (fragmentAt message.msgType seq chunks i).encode =
          some (q, some (message.msgType, message.payload))
      else receiver.processIncoming (fragmentAt message.msgType seq chunks i).encode =
          some (q, none) ∧
        q.reassembler = some (collecting message.msgType seq chunks (i :: got)) := by
  obtain ⟨sorted, hsorted, hsub⟩ := hnodup.subperm fun j hj => List.mem_range.mpr (hbound j hj)
  obtain ⟨rest, hrest⟩ := hsub.exists_perm_append
  have hperm : ((i :: got) ++ rest).Perm (List.range chunks.length) :=
    (hsorted.symm.append_right rest).trans hrest.symm
  have hfull : (∀ j < chunks.length, j ∈ i :: got) ↔ rest = [] :=
    Slots.all_isSome_filled.symm.trans (Slots.all_isSome_iff_of_perm hperm)
  rcases hholds with hpart | ⟨rfl, hother⟩
  · rw [receive_next h.countable h.proper hpart hperm]
    by_cases hdone : rest = []
    · exact ⟨_, by rw [if_pos (hfull.mpr hdone), if_pos hdone, h.payload]⟩
    · exact ⟨_, by rw [if_neg (mt hfull.mp hdone), if_neg hdone]; exact ⟨rfl, rfl⟩⟩
  · have hseveral := h.countable.several
    have hmore : ¬ ∀ j < chunks.length, j ∈ [i] := fun hall => by
      have hzero := List.mem_singleton.mp (hall 0 (by omega))
      have hone := List.mem_singleton.mp (hall 1 (by omega))
      omega
    have hi := hbound i List.mem_cons_self
    exact ⟨_, by rw [if_neg hmore, receive_first h.countable h.proper hother hi]; exact ⟨rfl, rfl⟩⟩

end Piece

/-! ## The order of the pieces -/

/-- Message by message, and piece by piece. -/
def Before (tag later : Nat × Nat) : Prop :=
  tag.1 < later.1 ∨ tag.1 = later.1 ∧ tag.2 < later.2

theorem before_irrefl (tag : Nat × Nat) : ¬ Before tag tag := by
  rintro (hlt | ⟨-, hlt⟩)
  · exact Nat.lt_irrefl _ hlt
  · exact Nat.lt_irrefl _ hlt

def part (link : LossyLink) (tag : Nat × Nat) : Option SyncMessage :=
  link.queued[tag.1]?.bind fun message => message.parts[tag.2]?

/-- What is on its way is what the record says, in order. -/
structure Outbound (link : LossyLink) : Prop where
  cut : ∀ message ∈ link.queued, Cut message
  parts : link.sender.outgoing.map some = link.tags.map link.part
  ordered : (link.arrived ++ link.tags).Pairwise Before
  known : ∀ tag ∈ link.arrived ++ link.tags, tag.1 < link.queued.length

section Outbound

variable {link : LossyLink} {msgType : SyncMessageType} {payload : Bytes} {parts : List SyncMessage}
  {sender : SyncProtocol}

theorem record_eq (h : sender.outgoing = link.sender.outgoing ++ parts) :
    link.record msgType payload sender = { link with
      sender := sender
      queued := link.queued ++ [⟨msgType, payload, parts⟩]
      tags := link.tags ++ (List.range parts.length).map fun i => (link.queued.length, i) } := by
  rw [record, h, List.drop_left]

theorem outbound_record (h : link.Outbound)
    (hsender : sender.outgoing = link.sender.outgoing ++ parts)
    (hcut : Cut ⟨msgType, payload, parts⟩) : (link.record msgType payload sender).Outbound := by
  rw [record_eq hsender]
  constructor
  · intro message hmessage
    rcases List.mem_append.mp hmessage with hold | hnew
    · exact h.cut message hold
    · rw [List.mem_singleton.mp hnew]
      exact hcut
  · have hold : link.tags.map link.part = link.tags.map fun tag =>
        ((link.queued ++ [⟨msgType, payload, parts⟩])[tag.1]?).bind fun message =>
          message.parts[tag.2]? := by
      refine List.map_congr_left fun tag htag => ?_
      rw [part, List.getElem?_append_left (h.known tag (List.mem_append_right _ htag))]
    have hnew : parts.map some = (List.range parts.length).map fun i => parts[i]? := by
      refine List.ext_getElem (by simp) fun i hi _ => ?_
      rw [List.length_map] at hi
      simp [hi]
    change sender.outgoing.map some = List.map _ _
    rw [hsender, List.map_append, h.parts, hold, hnew, List.map_append, List.map_map]
    refine congrArg _ (List.map_congr_left fun i _ => ?_)
    simp [part]
  · change (link.arrived ++ (link.tags ++ _)).Pairwise Before
    rw [← List.append_assoc]
    refine List.pairwise_append.mpr ⟨h.ordered, ?_, fun tag htag later hlater => ?_⟩
    · rw [List.pairwise_map]
      exact List.pairwise_lt_range.imp fun hlt => Or.inr ⟨rfl, hlt⟩
    · obtain ⟨i, -, rfl⟩ := List.mem_map.mp hlater
      exact Or.inl (h.known tag htag)
  · change ∀ tag ∈ link.arrived ++ (link.tags ++ _), tag.1 < (link.queued ++ _).length
    rw [← List.append_assoc, List.length_append, List.length_singleton]
    intro tag htag
    rcases List.mem_append.mp htag with hold | hnew
    · exact Nat.lt_succ_of_lt (h.known tag hold)
    · obtain ⟨i, -, rfl⟩ := List.mem_map.mp hnew
      exact Nat.lt_succ_self _

/-- What has arrived and what is on its way is never more than it was. -/
theorem outbound_of_sublist (h : link.Outbound) {next : LossyLink}
    (hqueued : next.queued = link.queued)
    (hparts : next.sender.outgoing.map some = next.tags.map link.part)
    (hsub : (next.arrived ++ next.tags).Sublist (link.arrived ++ link.tags)) : next.Outbound := by
  have hpart : next.part = link.part := by
    funext tag
    rw [part, part, hqueued]
  refine ⟨hqueued ▸ h.cut, hpart ▸ hparts, h.ordered.sublist hsub, fun tag htag => ?_⟩
  rw [hqueued]
  exact h.known tag (hsub.subset htag)

/-- The piece at the head of the queue comes after everything that has arrived. -/
theorem head_eq_some (h : link.Outbound) {next : (Nat × Nat) × SyncMessage}
    (hnext : link.head = some next) : ∃ tags outgoing, link.tags = next.1 :: tags ∧
      link.sender.outgoing = next.2 :: outgoing ∧ link.part next.1 = some next.2 ∧
      outgoing.map some = tags.map link.part ∧ ∀ tag ∈ link.arrived, Before tag next.1 := by
  have hparts := h.parts
  have hordered := h.ordered
  unfold head at hnext
  cases htags : link.tags with
  | nil =>
      rw [htags] at hnext
      cases hnext
  | cons tag tags =>
      cases houtgoing : link.sender.outgoing with
      | nil =>
          rw [htags, houtgoing] at hnext
          cases hnext
      | cons piece outgoing =>
          rw [htags, houtgoing] at hnext hparts
          rw [htags] at hordered
          obtain rfl := Option.some.inj hnext
          obtain ⟨hpiece, hrest⟩ := List.cons.inj hparts
          exact ⟨tags, outgoing, rfl, rfl, hpiece.symm, hrest, fun earlier hearlier =>
            (List.pairwise_append.mp hordered).2.2 earlier hearlier tag List.mem_cons_self⟩

end Outbound

/-! ## What has arrived -/

def Several (link : LossyLink) (k : Nat) : Prop :=
  ∃ message ∈ link.queued[k]?, 1 < message.parts.length

/-- The receiver holds the pieces of the last message in several pieces, until it is whole. -/
structure Inbound (link : LossyLink) : Prop where
  intact : link.Intact
  held : ∀ k message, link.queued[k]? = some message → k ∈ link.arrived.map Prod.fst →
    link.Several k → (∀ j ∈ link.arrived.map Prod.fst, link.Several j → j ≤ k) → ¬ link.Whole k →
    ∃ seq chunks got, Pieces message seq chunks ∧ got.Nodup ∧
      (∀ i, i ∈ got ↔ (k, i) ∈ link.arrived) ∧
      link.receiver.reassembler = some (collecting message.msgType seq chunks got)

section Inbound

variable {link next : LossyLink}

theorem queued_append {extra : List QueuedMessage} (hqueued : next.queued = link.queued ++ extra)
    {k : Nat} (hk : k < link.queued.length) : next.queued[k]? = link.queued[k]? := by
  rw [hqueued, List.getElem?_append_left hk]

/-- Some piece of a whole message has arrived. -/
theorem mem_arrived_of_whole (hcut : ∀ message ∈ link.queued, Cut message) {k : Nat}
    (h : link.Whole k) : (k, 0) ∈ link.arrived := by
  obtain ⟨message, hmessage, hall⟩ := h
  exact hall 0 (hcut message (List.mem_of_getElem? hmessage)).parts_pos

/-- A message that is queued has not arrived. -/
theorem whole_append_iff (hnext : next.Outbound) {extra : List QueuedMessage}
    (hqueued : next.queued = link.queued ++ extra) (harrived : next.arrived = link.arrived)
    (hknown : ∀ tag ∈ link.arrived, tag.1 < link.queued.length) (k : Nat) :
    next.Whole k ↔ link.Whole k := by
  have hsame : k < link.queued.length → (next.Whole k ↔ link.Whole k) := fun hk => by
    rw [Whole, Whole, queued_append hqueued hk, harrived]
  constructor
  · intro hwhole
    have hmem := mem_arrived_of_whole hnext.cut hwhole
    rw [harrived] at hmem
    exact (hsame (hknown _ hmem)).mp hwhole
  · intro hwhole
    exact (hsame (lt_of_whole hwhole)).mpr hwhole

theorem inbound_append (h : link.Inbound) (hnext : next.Outbound) {extra : List QueuedMessage}
    (hqueued : next.queued = link.queued ++ extra) (harrived : next.arrived = link.arrived)
    (hreceiver : next.receiver = link.receiver) (hreturned : next.returned = link.returned)
    (hknown : ∀ tag ∈ link.arrived, tag.1 < link.queued.length) : next.Inbound := by
  have hwhole := whole_append_iff hnext hqueued harrived hknown
  have hlt : ∀ k ∈ link.arrived.map Prod.fst, k < link.queued.length := by
    intro k hk
    obtain ⟨tag, htag, rfl⟩ := List.mem_map.mp hk
    exact hknown tag htag
  have hseveral : ∀ k ∈ link.arrived.map Prod.fst, (next.Several k ↔ link.Several k) := by
    intro k hk
    rw [Several, Several, queued_append hqueued (hlt k hk)]
  constructor
  · obtain ⟨whole, hsorted, hmem, hcontents⟩ := h.intact
    refine ⟨whole, hsorted, fun k => (hmem k).trans (hwhole k).symm, ?_⟩
    rw [hreturned, hcontents]
    refine List.map_congr_left fun k hk => ?_
    rw [queued_append hqueued (lt_of_whole ((hmem k).mp hk))]
  · intro k message hmessage hk hmany hlast hpart
    rw [harrived] at hk hlast
    rw [queued_append hqueued (hlt k hk)] at hmessage
    rw [hwhole] at hpart
    rw [harrived, hreceiver]
    exact h.held k message hmessage hk ((hseveral k hk).mp hmany)
      (fun j hj hjs => hlast j hj ((hseveral j hj).mpr hjs)) hpart

end Inbound

section Arrival

variable {link next : LossyLink} {tag : Nat × Nat} {message : QueuedMessage}
  (hqueued : next.queued = link.queued) (harrived : next.arrived = link.arrived ++ [tag])
  (hmessage : link.queued[tag.1]? = some message) (hi : tag.2 < message.parts.length)
  (hbefore : ∀ earlier ∈ link.arrived, Before earlier tag)
include hmessage hi hbefore

/-- The piece that arrives was missing. -/
theorem not_whole_before : ¬ link.Whole tag.1 := by
  rintro ⟨other, hother, hall⟩
  obtain rfl := Option.some.inj (hmessage.symm.trans hother)
  exact before_irrefl tag (hbefore _ (hall tag.2 hi))

include hqueued harrived

theorem whole_arrival_iff (k : Nat) :
    next.Whole k ↔ link.Whole k ∨ k = tag.1 ∧ next.Whole tag.1 := by
  by_cases hk : k = tag.1
  · subst hk
    constructor
    · exact fun h => Or.inr ⟨rfl, h⟩
    · rintro (h | ⟨-, h⟩)
      · exact absurd h (not_whole_before hmessage hi hbefore)
      · exact h
  · rw [or_iff_left fun h => hk h.1, Whole, Whole, hqueued, harrived]
    have hne : ∀ i, (k, i) ≠ tag := fun i heq => hk (congrArg Prod.fst heq)
    simp [hne]

/-- What is returned for the piece keeps the record. -/
theorem intact_arrival (hcut : ∀ message ∈ link.queued, Cut message) (h : link.Intact)
    (hreturned : next.Whole tag.1 ∧
        next.returned = link.returned ++ [(message.msgType, message.payload)] ∨
      ¬ next.Whole tag.1 ∧ next.returned = link.returned) : next.Intact := by
  obtain ⟨whole, hsorted, hmem, hcontents⟩ := h
  have hiff := whole_arrival_iff hqueued harrived hmessage hi hbefore
  rcases hreturned with ⟨hdone, hreturned⟩ | ⟨hopen, hreturned⟩
  · refine ⟨whole ++ [tag.1], ?_, fun k => ?_, ?_⟩
    · refine List.pairwise_append.mpr ⟨hsorted, List.pairwise_singleton _ _, fun k hk j hj => ?_⟩
      rw [List.mem_singleton.mp hj]
      have hwhole := (hmem k).mp hk
      rcases hbefore _ (mem_arrived_of_whole hcut hwhole) with hlt | ⟨heq, -⟩
      · exact hlt
      · exact absurd (heq ▸ hwhole) (not_whole_before hmessage hi hbefore)
    · rw [List.mem_append, List.mem_singleton, hmem, hiff k, and_iff_left hdone]
    · rw [hreturned, List.map_append, hcontents, List.map_append, hqueued]
      simp [hmessage]
  · refine ⟨whole, hsorted, fun k => ?_, ?_⟩
    · rw [hmem, hiff k, or_iff_left fun h => hopen h.2]
    · rw [hreturned, hqueued, hcontents]

end Arrival

/-- A message in one piece does not touch what is held. -/
theorem held_one {link next : LossyLink} {tag : Nat × Nat} (h : link.Inbound)
    (hqueued : next.queued = link.queued) (harrived : next.arrived = link.arrived ++ [tag])
    (hone : ¬ link.Several tag.1)
    (hreceiver : next.receiver.reassembler = link.receiver.reassembler)
    {k : Nat} {message : QueuedMessage} (hmessage : next.queued[k]? = some message)
    (hk : k ∈ next.arrived.map Prod.fst) (hmany : next.Several k)
    (hlast : ∀ j ∈ next.arrived.map Prod.fst, next.Several j → j ≤ k) (hpart : ¬ next.Whole k) :
    ∃ seq chunks got, Pieces message seq chunks ∧ got.Nodup ∧
      (∀ i, i ∈ got ↔ (k, i) ∈ next.arrived) ∧
      next.receiver.reassembler = some (collecting message.msgType seq chunks got) := by
  have hseveral : ∀ j, next.Several j ↔ link.Several j := fun j => by
    rw [Several, Several, hqueued]
  have hother : k ≠ tag.1 := fun heq => hone ((hseveral tag.1).mp (heq ▸ hmany))
  have hne : ∀ i, (k, i) ≠ tag := fun i heq => hother (congrArg Prod.fst heq)
  have hsame : ∀ i, (k, i) ∈ next.arrived ↔ (k, i) ∈ link.arrived := fun i => by
    rw [harrived, List.mem_append, List.mem_singleton, or_iff_left (hne i)]
  have hold : k ∈ link.arrived.map Prod.fst := by
    rw [harrived, List.map_append, List.mem_append] at hk
    exact hk.resolve_right fun heq => hother (List.mem_singleton.mp heq)
  have hopen : ¬ link.Whole k := by
    rintro ⟨other, hother, hall⟩
    exact hpart ⟨other, hqueued ▸ hother, fun i hi => (hsame i).mpr (hall i hi)⟩
  obtain ⟨seq, chunks, got, hpieces, hnodup, hgot, hheld⟩ :=
    h.held k message (hqueued ▸ hmessage) hold ((hseveral k).mp hmany)
      (fun j hj hjs => hlast j (by rw [harrived, List.map_append]; exact List.mem_append_left _ hj)
        ((hseveral j).mpr hjs)) hopen
  exact ⟨seq, chunks, got, hpieces, hnodup, fun i => (hgot i).trans (hsame i).symm,
    hreceiver.trans hheld⟩

/-- The greatest number of a message in several pieces that has arrived so far is that of the piece
that arrives. -/
theorem eq_of_latest {link : LossyLink} {tag : Nat × Nat} (hseveral : link.Several tag.1)
    (hbefore : ∀ earlier ∈ link.arrived, Before earlier tag) {k : Nat}
    (hlast : ∀ j ∈ (link.arrived ++ [tag]).map Prod.fst, link.Several j → j ≤ k)
    (hk : k ∈ (link.arrived ++ [tag]).map Prod.fst) : k = tag.1 := by
  have harrives : tag ∈ link.arrived ++ [tag] :=
    List.mem_append_right _ (List.mem_singleton_self tag)
  have hle := hlast tag.1 (List.mem_map_of_mem harrives) hseveral
  obtain ⟨earlier, hearlier, rfl⟩ := List.mem_map.mp hk
  rcases List.mem_append.mp hearlier with hold | hsame
  · rcases hbefore earlier hold with hlt | ⟨heq, -⟩
    · omega
    · exact heq
  · rw [List.mem_singleton.mp hsame]

/-- A piece of several joins what is held, unless it completes the message. -/
theorem held_several {link next : LossyLink} {tag : Nat × Nat} {message : QueuedMessage}
    {seq : UInt16} {chunks : List Bytes} {got : List Nat} (hpieces : Pieces message seq chunks)
    (hnodup : got.Nodup) (hgot : ∀ i, i ∈ got ↔ (tag.1, i) ∈ next.arrived)
    (hqueued : next.queued = link.queued) (harrived : next.arrived = link.arrived ++ [tag])
    (hmessage : link.queued[tag.1]? = some message) (hseveral : link.Several tag.1)
    (hbefore : ∀ earlier ∈ link.arrived, Before earlier tag)
    (hheld : ¬ next.Whole tag.1 →
      next.receiver.reassembler = some (collecting message.msgType seq chunks got))
    {k : Nat} {other : QueuedMessage} (hother : next.queued[k]? = some other)
    (hk : k ∈ next.arrived.map Prod.fst)
    (hlast : ∀ j ∈ next.arrived.map Prod.fst, next.Several j → j ≤ k) (hpart : ¬ next.Whole k) :
    ∃ seq chunks got, Pieces other seq chunks ∧ got.Nodup ∧
      (∀ i, i ∈ got ↔ (k, i) ∈ next.arrived) ∧
      next.receiver.reassembler = some (collecting other.msgType seq chunks got) := by
  have hsame : ∀ j, next.Several j ↔ link.Several j := fun j => by
    rw [Several, Several, hqueued]
  rw [harrived] at hk hlast
  obtain rfl := eq_of_latest hseveral hbefore (fun j hj hjs => hlast j hj ((hsame j).mpr hjs)) hk
  obtain rfl := Option.some.inj (hmessage.symm.trans (hqueued ▸ hother))
  exact ⟨seq, chunks, got, hpieces, hnodup, hgot, hheld hpart⟩

theorem whole_iff_of_got {link : LossyLink} {k : Nat} {message : QueuedMessage} {got : List Nat}
    (hmessage : link.queued[k]? = some message)
    (hgot : ∀ i, i ∈ got ↔ (k, i) ∈ link.arrived) :
    link.Whole k ↔ ∀ j < message.parts.length, j ∈ got := by
  constructor
  · rintro ⟨same, hsame, hall⟩ j hj
    obtain rfl := Option.some.inj (hmessage.symm.trans hsame)
    exact (hgot j).mpr (hall j hj)
  · exact fun hall => ⟨message, hmessage, fun j hj => (hgot j).mp (hall j hj)⟩

section Receive

variable {link : LossyLink} {tag : Nat × Nat} {piece : SyncMessage} {message : QueuedMessage}
  (hout : ∀ message ∈ link.queued, Cut message) (hin : link.Inbound)
  (hmessage : link.queued[tag.1]? = some message) (hpiece : message.parts[tag.2]? = some piece)
  (hbefore : ∀ earlier ∈ link.arrived, Before earlier tag)
include hout hin hmessage hpiece hbefore

/-- A message in one piece is returned. -/
theorem receive_one {seq : UInt16}
    (hparts : message.parts = [SyncMessage.new message.msgType seq message.payload])
    (hreturned : ∀ p : SyncProtocol, ∃ q : SyncProtocol, q.reassembler = p.reassembler ∧
      p.processIncoming (SyncMessage.new message.msgType seq message.payload).encode =
        some (q, some (message.msgType, message.payload))) :
    ∃ last, link.receive tag piece = some last ∧ last.Inbound := by
  have hi : tag.2 < message.parts.length := (List.getElem?_eq_some_iff.mp hpiece).1
  have hfirst : tag.2 = 0 := by
    rw [hparts, List.length_singleton] at hi
    omega
  obtain rfl : SyncMessage.new message.msgType seq message.payload = piece := by
    rw [hparts, hfirst] at hpiece
    exact Option.some.inj hpiece
  obtain ⟨q, hheld, hanswer⟩ := hreturned link.receiver
  have hone : ¬ link.Several tag.1 := by
    rintro ⟨same, hsame, hlength⟩
    obtain rfl := Option.some.inj (hmessage.symm.trans hsame)
    rw [hparts, List.length_singleton] at hlength
    exact Nat.lt_irrefl 1 hlength
  have hkept : ∀ last : LossyLink, last.queued = link.queued →
      last.arrived = link.arrived ++ [tag] → last.receiver = q →
      last.returned = link.returned ++ [(message.msgType, message.payload)] → last.Inbound := by
    intro last hqueued harrived hreceiver hreturned
    have hwhole : last.Whole tag.1 := by
      refine ⟨message, hqueued ▸ hmessage, fun i hlt => ?_⟩
      rw [hparts, List.length_singleton] at hlt
      obtain rfl : i = tag.2 := by omega
      rw [harrived]
      exact List.mem_append_right _ (List.mem_singleton_self tag)
    refine ⟨intact_arrival hqueued harrived hmessage hi hbefore hout hin.intact
      (Or.inl ⟨hwhole, hreturned⟩), fun k other hother hk hmany hlast hpart => ?_⟩
    exact held_one hin hqueued harrived hone (hreceiver ▸ hheld) hother hk hmany hlast hpart
  refine ⟨{ link with
    receiver := q
    arrived := link.arrived ++ [tag]
    returned := link.returned ++ [(message.msgType, message.payload)] }, ?_,
    hkept _ rfl rfl rfl rfl⟩
  rw [receive, hanswer]
  rfl

/-- One of several pieces is kept, or completes the message. -/
theorem receive_several {seq : UInt16} {chunks : List Bytes} (hpieces : Pieces message seq chunks)
    {got : List Nat} (hnodup : got.Nodup) (hgot : ∀ i, i ∈ got ↔ (tag.1, i) ∈ link.arrived)
    (hbound : ∀ i ∈ got, i < chunks.length)
    (hholds : Holds link.receiver message.msgType seq chunks got) :
    ∃ last, link.receive tag piece = some last ∧ last.Inbound := by
  have hlength : message.parts.length = chunks.length := by
    rw [hpieces.parts, List.length_map, List.length_range]
  have hi : tag.2 < message.parts.length := (List.getElem?_eq_some_iff.mp hpiece).1
  obtain rfl : fragmentAt message.msgType seq chunks tag.2 = piece := by
    rw [hpieces.parts, List.getElem?_map, List.getElem?_range (hlength ▸ hi)] at hpiece
    exact Option.some.inj hpiece
  have hnew : tag.2 ∉ got :=
    fun hmem => before_irrefl tag (hbefore _ ((hgot tag.2).mp hmem))
  have hmoreNodup : (tag.2 :: got).Nodup := List.nodup_cons.mpr ⟨hnew, hnodup⟩
  have harrived : ∀ i, i ∈ tag.2 :: got ↔ (tag.1, i) ∈ link.arrived ++ [tag] := by
    intro i
    rw [List.mem_cons, hgot, List.mem_append, List.mem_singleton, or_comm, Prod.ext_iff,
      and_iff_right rfl]
  obtain ⟨q, hanswer⟩ := receive_piece hpieces hholds hmoreNodup
    (fun j hj => by
      rcases List.mem_cons.mp hj with rfl | hold
      · exact hlength ▸ hi
      · exact hbound j hold)
  have hseveral : link.Several tag.1 := by
    refine ⟨message, hmessage, ?_⟩
    have htwo := hpieces.countable.several
    omega
  have hkept : ∀ last : LossyLink, last.queued = link.queued →
      last.arrived = link.arrived ++ [tag] → last.receiver = q →
      ((∀ j < chunks.length, j ∈ tag.2 :: got) ∧
          last.returned = link.returned ++ [(message.msgType, message.payload)] ∨
        (¬ ∀ j < chunks.length, j ∈ tag.2 :: got) ∧ last.returned = link.returned ∧
          q.reassembler = some (collecting message.msgType seq chunks (tag.2 :: got))) →
      last.Inbound := by
    intro last hqueued hlast hreceiver hcases
    have hwhole : last.Whole tag.1 ↔ ∀ j < chunks.length, j ∈ tag.2 :: got := by
      rw [← hlength]
      exact whole_iff_of_got (hqueued ▸ hmessage) (hlast ▸ harrived)
    constructor
    · refine intact_arrival hqueued hlast hmessage hi hbefore hout hin.intact ?_
      rcases hcases with ⟨hall, hreturned⟩ | ⟨hmissing, hreturned, -⟩
      · exact Or.inl ⟨hwhole.mpr hall, hreturned⟩
      · exact Or.inr ⟨mt hwhole.mp hmissing, hreturned⟩
    · intro k other hother hk _ hle hpart
      refine held_several hpieces hmoreNodup (hlast ▸ harrived) hqueued hlast hmessage hseveral
        hbefore (fun hopen => ?_) hother hk hle hpart
      rcases hcases with ⟨hall, -⟩ | ⟨-, -, hheld⟩
      · exact absurd (hwhole.mpr hall) hopen
      · exact hreceiver ▸ hheld
  split at hanswer
  · rename_i hall
    refine ⟨{ link with
      receiver := q
      arrived := link.arrived ++ [tag]
      returned := link.returned ++ [(message.msgType, message.payload)] }, ?_,
      hkept _ rfl rfl rfl (Or.inl ⟨hall, rfl⟩)⟩
    rw [receive, hanswer]
    rfl
  · rename_i hmissing
    obtain ⟨hanswer, hheld⟩ := hanswer
    refine ⟨{ link with receiver := q, arrived := link.arrived ++ [tag] }, ?_,
      hkept _ rfl rfl rfl (Or.inr ⟨hmissing, rfl, hheld⟩)⟩
    rw [receive, hanswer]
    simp

end Receive

/-! ## Along a run -/

structure Consistent (link : LossyLink) : Prop where
  outbound : link.Outbound
  inbound : link.Inbound

section Step

variable {link : LossyLink}

theorem inbound_receive (hout : link.Outbound) (hin : link.Inbound) {tag : Nat × Nat}
    {piece : SyncMessage} (hpart : link.part tag = some piece)
    (hbefore : ∀ earlier ∈ link.arrived, Before earlier tag)
    (hunmixed : piece.totalFragments > 1 → ∀ held ∈ link.receiver.reassembler,
      held.seq = piece.seq → tag.1 ∈ link.arrived.map Prod.fst) :
    ∃ last, link.receive tag piece = some last ∧ last.Inbound := by
  obtain ⟨message, hmessage, hpiece⟩ := Option.bind_eq_some_iff.mp hpart
  have hi : tag.2 < message.parts.length := (List.getElem?_eq_some_iff.mp hpiece).1
  cases hout.cut message (List.mem_of_getElem? hmessage) with
  | one seq hparts hreturned =>
      exact receive_one hout.cut hin hmessage hpiece hbefore hparts hreturned
  | several seq chunks hpieces =>
      by_cases hseen : tag.1 ∈ link.arrived.map Prod.fst
      · have hmany : link.Several tag.1 := by
          refine ⟨message, hmessage, ?_⟩
          rw [hpieces.parts, List.length_map, List.length_range]
          exact hpieces.countable.several
        obtain ⟨seq, chunks, got, hpieces, hnodup, hgot, hheld⟩ :=
          hin.held tag.1 message hmessage hseen hmany (fun j hj _ => by
            obtain ⟨earlier, hearlier, rfl⟩ := List.mem_map.mp hj
            rcases hbefore earlier hearlier with hlt | ⟨heq, -⟩ <;> omega)
            (not_whole_before hmessage hi hbefore)
        refine receive_several hout.cut hin hmessage hpiece hbefore hpieces hnodup hgot
          (fun i hmem => ?_) (Or.inl hheld)
        rw [hpieces.parts, List.length_map, List.length_range] at hi
        rcases hbefore _ ((hgot i).mp hmem) with hlt | ⟨-, hlt⟩
        · exact absurd hlt (Nat.lt_irrefl _)
        · exact Nat.lt_trans hlt hi
      · have hpiece' : fragmentAt message.msgType seq chunks tag.2 = piece := by
          rw [hpieces.parts, List.length_map, List.length_range] at hi
          rw [hpieces.parts, List.getElem?_map, List.getElem?_range hi] at hpiece
          exact Option.some.inj hpiece
        have htotal : piece.totalFragments > 1 := by
          have hbyte := toNat_ofNat8 hpieces.countable.byte
          have hseveral := hpieces.countable.several
          rw [← hpiece', gt_iff_lt, UInt8.lt_iff_toNat_lt, fragmentAt, hbyte]
          change 1 < _
          omega
        have hother : ∀ held ∈ link.receiver.reassembler, held.seq ≠ seq := by
          intro held hheld heq
          exact hseen (hunmixed htotal held hheld (by rw [heq, ← hpiece']; rfl))
        refine receive_several hout.cut hin hmessage hpiece hbefore hpieces List.nodup_nil
          (fun i => ?_) (fun i hmem => ?_) (Or.inr ⟨rfl, hother⟩)
        · exact iff_of_false List.not_mem_nil fun hmem =>
            hseen (List.mem_map.mpr ⟨(tag.1, i), hmem, rfl⟩)
        · exact absurd hmem List.not_mem_nil

theorem receive_frame {tag : Nat × Nat} {piece : SyncMessage} {last : LossyLink}
    (h : link.receive tag piece = some last) : last.sender = link.sender ∧
      last.queued = link.queued ∧ last.tags = link.tags ∧ last.arrived = link.arrived ++ [tag] := by
  obtain ⟨answered, -, rfl⟩ := Option.map_eq_some_iff.mp h
  exact ⟨rfl, rfl, rfl, rfl⟩

theorem Consistent.record (h : link.Consistent) {msgType : SyncMessageType} {payload : Bytes}
    {parts : List SyncMessage} {sender : SyncProtocol}
    (hsender : sender.outgoing = link.sender.outgoing ++ parts)
    (hcut : Cut ⟨msgType, payload, parts⟩) :
    (link.record msgType payload sender).Consistent := by
  have hout := outbound_record h.outbound hsender hcut
  refine ⟨hout, ?_⟩
  rw [record_eq hsender] at hout ⊢
  exact inbound_append h.inbound hout rfl rfl rfl rfl fun tag htag =>
    h.outbound.known tag (List.mem_append_left _ htag)

/-- Pieces may leave the queue without arriving. -/
theorem Consistent.drop (h : link.Consistent) {sender : SyncProtocol} {tags : List (Nat × Nat)}
    (hparts : sender.outgoing.map some = tags.map link.part) (hsub : tags.Sublist link.tags) :
    ({ link with sender := sender, tags := tags } : LossyLink).Consistent := by
  have hout : ({ link with sender := sender, tags := tags } : LossyLink).Outbound :=
    outbound_of_sublist h.outbound rfl hparts (List.Sublist.append_left hsub _)
  exact ⟨hout, inbound_append h.inbound hout (List.append_nil _).symm rfl rfl rfl fun tag htag =>
    h.outbound.known tag (List.mem_append_left _ htag)⟩

theorem queue_eq {p : SyncProtocol} {msgType : SyncMessageType} {payload : Bytes}
    (htype : msgType = .syncVector ∨ msgType = .document)
    (hfits : payload.length ≤ 255 * p.maxPayload) : ∃ parts sender,
      p.queue msgType payload = some sender ∧ sender.outgoing = p.outgoing ++ parts ∧
        Cut ⟨msgType, payload, parts⟩ := by
  obtain ⟨parts, hparts, hcut⟩ := cut_of_fragmentPayload p.seq htype hfits
  exact ⟨parts, _, by rw [queue, hparts]; rfl, rfl, hcut⟩

theorem Consistent.step (h : link.Consistent) {action : Action} (hfits : link.Fits action)
    (hunmixed : link.Unmixed action) : ∃ next, link.step action = some next ∧ next.Consistent := by
  cases action with
  | setMtu mtu => exact ⟨_, rfl, h.drop h.outbound.parts (List.Sublist.refl _)⟩
  | startSync syncVector =>
      obtain ⟨parts, sender, hqueue, hsender, hcut⟩ :=
        queue_eq (p := { link.sender with state := .sendingVector, seq := 0 }) (Or.inl rfl) hfits
      exact ⟨_, congrArg (Option.map _) hqueue, h.record hsender hcut⟩
  | queueDocument docData =>
      have hkept : ∃ p : SyncProtocol,
          link.sender.queueDocument docData = p.queue .document docData ∧
          p.outgoing = link.sender.outgoing ∧ p.maxPayload = link.sender.maxPayload := by
        refine ⟨_, rfl, ?_, ?_⟩ <;> split <;> rfl
      obtain ⟨p, hdocument, houtgoing, hmax⟩ := hkept
      obtain ⟨parts, sender, hqueue, hsender, hcut⟩ :=
        queue_eq (p := p) (Or.inr rfl) (show docData.length ≤ _ from hmax ▸ hfits)
      exact ⟨_, congrArg (Option.map _) (hdocument.trans hqueue),
        h.record (houtgoing ▸ hsender) hcut⟩
  | endSync =>
      refine ⟨_, rfl, h.record rfl (.one link.sender.seq rfl ?_)⟩
      exact returned_whole (Or.inr (Or.inr ⟨rfl, rfl⟩)) link.sender.seq
  | reset => exact ⟨_, rfl, h.drop rfl (List.nil_sublist _)⟩
  | transmit arrives =>
      unfold LossyLink.step
      cases hnext : link.head with
      | none => exact ⟨link, rfl, h⟩
      | some next =>
          obtain ⟨tags, outgoing, htags, houtgoing, hpart, hrest, hbefore⟩ :=
            head_eq_some h.outbound hnext
          have hpopped : link.sender.nextOutgoing.1.outgoing.map some =
              link.tags.tail.map link.part := by
            rw [htags]
            change link.sender.outgoing.tail.map some = _
            rw [houtgoing]
            exact hrest
          have hsent := h.drop hpopped (List.tail_sublist _)
          cases arrives with
          | false => exact ⟨_, rfl, hsent⟩
          | true =>
              obtain ⟨last, hlast, hin⟩ := inbound_receive hsent.outbound hsent.inbound hpart
                hbefore (hunmixed next hnext)
              obtain ⟨hsender, hqueued, hlasttags, harrived⟩ := receive_frame hlast
              refine ⟨last, hlast, ?_, hin⟩
              refine outbound_of_sublist h.outbound hqueued ?_ ?_
              · rw [hsender, hlasttags]
                exact hpopped
              · rw [hlasttags, harrived, List.append_assoc]
                change (link.arrived ++ ([next.1] ++ link.tags.tail)).Sublist _
                rw [htags]
                exact List.Sublist.refl _

theorem consistent_start : start.Consistent := by
  constructor
  · refine ⟨fun message hmessage => ?_, rfl, List.Pairwise.nil, fun tag htag => ?_⟩
    · cases hmessage
    · cases htag
  · refine ⟨⟨[], List.Pairwise.nil, fun k => ?_, rfl⟩, fun k message hmessage => ?_⟩
    · refine iff_of_false List.not_mem_nil ?_
      rintro ⟨message, hmessage, -⟩
      cases hmessage
    · cases hmessage

end Step

/-- Unless a piece meets a stale partial message with its number, what the receiver returns is
exactly the messages that arrive whole. -/
theorem intact_of_unmixed (actions : List Action)
    (hfits : PartialRun.Along step Fits start actions)
    (hunmixed : PartialRun.Along step Unmixed start actions) :
    ∀ front, front <+: actions → ∃ link, PartialRun.run step start front = some link ∧
      link.Intact := by
  intro front hfront
  have hgood := PartialRun.along_of_prefix (PartialRun.along_and hfits hunmixed) hfront
  obtain ⟨link, hlink, hconsistent⟩ := PartialRun.invariant_of_good consistent_start hgood
    fun link action h hstep => h.step hstep.1 hstep.2
  exact ⟨link, hlink, hconsistent.inbound.intact⟩

/-- Half of a first document arrives, then all of a second one under another number. -/
def halfThenWhole : List Action :=
  [.setMtu 9, .queueDocument [1, 2], .transmit true, .transmit false, .queueDocument [3, 4],
    .transmit true, .transmit true, .endSync, .transmit true]

theorem intact_of_unmixed_halfThenWhole :
    ∃ link, PartialRun.run step start halfThenWhole = some link ∧ link.Intact :=
  intact_of_unmixed halfThenWhole (by decide) (by decide) halfThenWhole List.prefix_rfl

/-- Of a first document only one piece arrives. The session starts over, and the number that the
piece was kept under is used again. -/
def staleThen (first second : Bytes) (arrivals : List Bool) : List Action :=
  [.setMtu 9, .queueDocument first, .transmit true] ++
    List.replicate (first.length - 1) (.transmit false) ++ [.reset, .queueDocument second] ++
    arrivals.map .transmit

/-- The stale piece is taken for one of the second document, or keeps it from being returned. -/
theorem stale_piece_kept :
    (∃ link, PartialRun.run step start (staleThen [1, 2] [3, 4] [false, true]) = some link ∧
      PartialRun.Along step Fits start (staleThen [1, 2] [3, 4] [false, true]) ∧
      link.returned = [(.document, [1, 4])] ∧ ¬ link.Intact) ∧
    ∃ link, PartialRun.run step start (staleThen [1, 2, 3] [4, 5] [true, true]) = some link ∧
      PartialRun.Along step Fits start (staleThen [1, 2, 3] [4, 5] [true, true]) ∧
      link.returned = [] ∧ link.Whole 1 ∧ ¬ link.Intact := by
  refine ⟨⟨_, rfl, by decide, rfl, fun h => ?_⟩, ⟨_, rfl, by decide, rfl, by decide, fun h => ?_⟩⟩
  · exact absurd (returned_eq_nil h (by decide)) (by decide)
  · exact absurd rfl (returned_ne_nil h (k := 1) (by decide))

end LossyLink

end PeatBtle
