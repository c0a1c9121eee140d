import Mathlib.Data.List.Perm.Basic
import PeatBtle.Data.Slots
import PeatBtle.Gatt.Protocol

/-!
# Fragments in any order

The fragments of a message fill the slots of the receiver one by one, and the
payload comes out with the last of them. The total is one byte, so this holds up
to 255 fragments. Beyond, the total stops at 255 and the receiver is done before
the sender is.
-/

namespace PeatBtle

open Wire

namespace SyncMessage

/-- An error is read back as the end of the session, everything else as itself. -/
theorem decode_encode {m : SyncMessage} (h : m.msgType ≠ .error) : decode m.encode = some m := by
  have hheader : SyncDataHeader.decode m.encode = some m.header := by
    have hlength : ¬ m.encode.length < SyncDataHeader.size := by
      simp [encode, SyncDataHeader.encode, SyncDataHeader.size]
    rw [SyncDataHeader.decode, if_neg hlength]
    simp only [encode, SyncDataHeader.encode, List.cons_append, byteAt_cons_zero, byteAt_cons_succ,
      SyncDataOp.fromByte_toByte, u16_of_bytes]
  have hpayload : m.encode.drop SyncDataHeader.size = m.payload := rfl
  have htype : SyncMessageType.ofOp m.msgType.toOp = m.msgType := by
    cases hm : m.msgType with
    | error => exact absurd hm h
    | _ => rfl
  rw [decode, hheader, Option.map_some, hpayload]
  simp only [header, htype]

end SyncMessage

namespace SyncProtocol

variable {msgType : SyncMessageType} {seq : UInt16} {chunks : List Bytes} {got rest : List Nat}
  {p : SyncProtocol} {i : Nat}

theorem receiveAll_append (p : SyncProtocol) (front back : List Bytes) :
    p.receiveAll (front ++ back) = (p.receiveAll front).bind fun first =>
      (first.1.receiveAll back).map fun second => (second.1, first.2 ++ second.2) := by
  induction front generalizing p with
  | nil =>
      rw [List.nil_append, receiveAll, Option.bind_some]
      exact Option.map_id'.symm
  | cons data front ih =>
      rw [List.cons_append, receiveAll, receiveAll]
      cases p.processIncoming data with
      | none => rfl
      | some answered =>
          rw [Option.bind_some, Option.bind_some, ih]
          cases answered.1.receiveAll front with
          | none => rfl
          | some first =>
              simp only [Option.bind_some, Option.map_some, Option.map_map]
              rfl

/-- The fragment with a given chunk of a message. -/
def fragmentAt (msgType : SyncMessageType) (seq : UInt16) (chunks : List Bytes) (i : Nat) :
    SyncMessage :=
  ⟨msgType, seq, UInt8.ofNat chunks.length, UInt8.ofNat i, chunks.getD i []⟩

/-- The reassembler after the given fragments. -/
def collecting (msgType : SyncMessageType) (seq : UInt16) (chunks : List Bytes) (got : List Nat) :
    FragmentReassembler :=
  ⟨UInt8.ofNat chunks.length, Slots.filled chunks got, seq, msgType⟩

/-- As many chunks as the receiver can count, and more than one. -/
structure Countable (chunks : List Bytes) : Prop where
  several : 2 ≤ chunks.length
  byte : chunks.length ≤ 255

theorem getElem?_eq_getD (hi : i < chunks.length) : chunks[i]? = some (chunks.getD i []) := by
  rw [List.getD_eq_getElem?_getD, List.getElem?_eq_getElem hi]
  rfl

theorem toNat_ofNat8 {n : Nat} (h : n ≤ 255) : (UInt8.ofNat n).toNat = n := by
  rw [UInt8.toNat_ofNat', Nat.mod_eq_of_lt (by omega)]

/-- A fragment goes to the reassembler. -/
theorem processIncoming_fragmentAt (hchunks : Countable chunks) (htype : msgType ≠ .error) :
    p.processIncoming (fragmentAt msgType seq chunks i).encode =
      p.processFragment (fragmentAt msgType seq chunks i) := by
  have hmany : (fragmentAt msgType seq chunks i).totalFragments > 1 := by
    have htotal := toNat_ofNat8 hchunks.byte
    have hseveral := hchunks.several
    rw [gt_iff_lt, UInt8.lt_iff_toNat_lt, fragmentAt, htotal]
    change 1 < _
    omega
  rw [processIncoming, SyncMessage.decode_encode htype]
  exact if_pos hmany

theorem new_fragmentAt (hchunks : Countable chunks) (hi : i < chunks.length) :
    FragmentReassembler.new (fragmentAt msgType seq chunks i) =
      some (collecting msgType seq chunks [i]) := by
  have htotal := toNat_ofNat8 hchunks.byte
  have hbyte := hchunks.byte
  have hindex : (UInt8.ofNat i).toNat = i := toNat_ofNat8 (by omega)
  have hvalue := getElem?_eq_getD hi
  have hfill : (Slots.filled chunks []).set i (some (chunks.getD i [])) = Slots.filled chunks [i] :=
    Slots.set_filled hvalue
  rw [Slots.filled_nil] at hfill
  simp only [FragmentReassembler.new, fragmentAt, htotal, hindex, if_pos hi, hfill, collecting]

theorem addFragment_collecting (hchunks : Countable chunks) (hi : i < chunks.length) :
    (collecting msgType seq chunks got).addFragment (fragmentAt msgType seq chunks i) =
      (collecting msgType seq chunks (i :: got),
        (collecting msgType seq chunks (i :: got)).isComplete) := by
  have hbyte := hchunks.byte
  have hindex : (UInt8.ofNat i).toNat = i := toNat_ofNat8 (by omega)
  have hvalue := getElem?_eq_getD hi
  simp only [FragmentReassembler.addFragment, fragmentAt, collecting, ne_eq, not_true_eq_false,
    or_self, if_false, hindex, Slots.set_filled hvalue]

theorem reassemble_collecting (h : (collecting msgType seq chunks got).isComplete = true) :
    (collecting msgType seq chunks got).reassemble = some chunks.flatten := by
  rw [FragmentReassembler.reassemble, if_pos h]
  exact congrArg (fun row => some (List.flatten row))
    (Slots.filterMap_filled (Slots.all_isSome_filled.mp h))

/-- What a receiver without a partial message of that number makes of the first fragment. -/
theorem receive_first (hchunks : Countable chunks) (htype : msgType ≠ .error)
    (hother : ∀ held ∈ p.reassembler, held.seq ≠ seq) (hi : i < chunks.length) :
    p.processIncoming (fragmentAt msgType seq chunks i).encode =
      some ({ p with reassembler := some (collecting msgType seq chunks [i]) }, none) := by
  have hpart : ¬ (collecting msgType seq chunks [i]).isComplete = true := by
    intro hall
    have hseveral := hchunks.several
    have hzero := Slots.all_isSome_filled.mp hall 0 (by omega)
    have hone := Slots.all_isSome_filled.mp hall 1 (by omega)
    rw [List.mem_singleton] at hzero hone
    omega
  have hstart : p.processFragment (fragmentAt msgType seq chunks i) =
      p.startReassembly (fragmentAt msgType seq chunks i) := by
    unfold processFragment
    split
    · rfl
    · rename_i held hheld
      exact if_neg (hother held hheld)
  rw [processIncoming_fragmentAt hchunks htype, hstart]
  simp only [startReassembly, new_fragmentAt hchunks hi, Option.map_some, if_neg hpart]

/-- One more fragment: the payload, if no other is left to arrive. -/
theorem receive_next (hchunks : Countable chunks) (htype : msgType ≠ .error)
    (hpart : p.reassembler = some (collecting msgType seq chunks got))
    (hperm : ((i :: got) ++ rest).Perm (List.range chunks.length)) :
    p.processIncoming (fragmentAt msgType seq chunks i).encode =
      if rest = [] then some ({ p with reassembler := none }, some (msgType, chunks.flatten))
      else some ({ p with reassembler := some (collecting msgType seq chunks (i :: got)) }, none) := by
  have hi : i < chunks.length := by
    rw [← List.mem_range, ← hperm.mem_iff]
    exact List.mem_cons_self ..
  have hcomplete : (collecting msgType seq chunks (i :: got)).isComplete = true ↔ rest = [] :=
    Slots.all_isSome_iff_of_perm hperm
  have hseq : (collecting msgType seq chunks got).seq = (fragmentAt msgType seq chunks i).seq := rfl
  rw [processIncoming_fragmentAt hchunks htype, processFragment, hpart]
  simp only [if_pos hseq, addFragment_collecting hchunks hi]
  by_cases hrest : rest = []
  · have hall := hcomplete.mpr hrest
    simp only [if_pos hall, if_pos hrest, reassemble_collecting hall]
    rfl
  · rw [if_neg (mt hcomplete.mp hrest), if_neg hrest]

/-- The rest of the fragments, whatever the order. -/
theorem receive_rest (hchunks : Countable chunks) (htype : msgType ≠ .error) (hrest : rest ≠ [])
    (hpart : p.reassembler = some (collecting msgType seq chunks got))
    (hperm : (got ++ rest).Perm (List.range chunks.length)) :
    p.receiveAll (rest.map fun i => (fragmentAt msgType seq chunks i).encode) =
      some ({ p with reassembler := none },
        List.replicate (rest.length - 1) none ++ [some (msgType, chunks.flatten)]) := by
  induction rest generalizing p got with
  | nil => exact absurd rfl hrest
  | cons i rest ih =>
      have hmoved : ((i :: got) ++ rest).Perm (List.range chunks.length) :=
        List.perm_middle.symm.trans hperm
      rw [List.map_cons, receiveAll, receive_next hchunks htype hpart hmoved]
      cases rest with
      | nil => rfl
      | cons j rest =>
          rw [if_neg (List.cons_ne_nil j rest), Option.bind_some,
            ih (List.cons_ne_nil j rest) rfl hmoved]
          rfl

variable (p seq) in
/-- All of the fragments, in any order, by a receiver without a partial message. -/
theorem receive_fragments (hchunks : Countable chunks) (htype : msgType ≠ .error)
    (hidle : p.reassembler = none) {order : List Nat}
    (hperm : order.Perm (List.range chunks.length)) :
    p.receiveAll (order.map fun i => (fragmentAt msgType seq chunks i).encode) =
      some (p, List.replicate (chunks.length - 1) none ++ [some (msgType, chunks.flatten)]) := by
  have hseveral := hchunks.several
  have hlength : order.length = chunks.length := by rw [hperm.length_eq, List.length_range]
  have hother : ∀ held ∈ p.reassembler, held.seq ≠ seq := by
    rw [hidle]
    intro held hheld
    cases hheld
  have hback : { p with reassembler := none } = p := by rw [← hidle]
  cases order with
  | nil =>
      rw [← hlength] at hseveral
      cases hseveral
  | cons i rest =>
      have hi : i < chunks.length := by
        rw [← List.mem_range, ← hperm.mem_iff]
        exact List.mem_cons_self ..
      rw [List.length_cons] at hlength
      have hrest : rest ≠ [] := by
        rintro rfl
        rw [List.length_nil] at hlength
        omega
      rw [List.map_cons, receiveAll, receive_first hchunks htype hother hi, Option.bind_some,
        receive_rest hchunks htype hrest rfl hperm]
      have hpos := List.length_pos_iff.mpr hrest
      simp only [Option.map_some, hback, ← hlength, Nat.add_sub_cancel]
      rw [← List.cons_append, ← List.replicate_succ, Nat.sub_add_cancel hpos]

/-! ## Cutting a payload -/

section Payload

variable {payload : Bytes} {maxFragmentSize : Nat}

theorem fragmentPayload_whole (h : payload.length ≤ maxFragmentSize) :
    fragmentPayload msgType seq payload maxFragmentSize =
      some [SyncMessage.new msgType seq payload] := if_pos (Or.inr h)

theorem fragmentPayload_cut (hsize : 0 < maxFragmentSize) (h : maxFragmentSize < payload.length) :
    fragmentPayload msgType seq payload maxFragmentSize =
      some ((List.range (Chunks.count maxFragmentSize payload)).map fun i =>
        ⟨msgType, seq, UInt8.ofNat (min (Chunks.count maxFragmentSize payload) 255), UInt8.ofNat i,
          (Chunks.pieces maxFragmentSize payload).getD i []⟩) := by
  have hlarge : ¬ (payload.isEmpty = true ∨ payload.length ≤ maxFragmentSize) := by
    rintro (hempty | hle)
    · rw [List.isEmpty_iff.mp hempty] at h
      exact absurd h (Nat.not_lt_zero _)
    · omega
  rw [fragmentPayload, if_neg hlarge, if_neg (by omega)]
  refine congrArg some (List.ext_getElem (by simp) fun i hi _ => ?_)
  have hpiece : i < (Chunks.pieces maxFragmentSize payload).length := by simpa using hi
  rw [List.getElem_mapIdx, List.getElem_map, List.getElem_range, List.getD_eq_getElem?_getD,
    List.getElem?_eq_getElem hpiece]
  rfl

theorem several_pieces (hsize : 0 < maxFragmentSize) (h : maxFragmentSize < payload.length) :
    2 ≤ Chunks.count maxFragmentSize payload := by
  have hcover := Chunks.length_le_count_mul hsize payload
  by_contra hfew
  have hmul : Chunks.count maxFragmentSize payload * maxFragmentSize ≤ 1 * maxFragmentSize :=
    Nat.mul_le_mul_right _ (by omega)
  omega

variable (payload) in
theorem count_le_iff (hsize : 0 < maxFragmentSize) (n : Nat) :
    Chunks.count maxFragmentSize payload ≤ n ↔ payload.length ≤ n * maxFragmentSize := by
  constructor
  · intro hle
    exact Nat.le_trans (Chunks.length_le_count_mul hsize payload) (Nat.mul_le_mul_right _ hle)
  · intro hle
    rw [Chunks.count, ← Nat.lt_succ_iff, Nat.div_lt_iff_lt_mul hsize, Nat.succ_mul]
    omega

end Payload

/-- The fragments of a payload, each received once and in any order, are answered by the payload
at the last of them and by nothing before. -/
def Lossless (msgType : SyncMessageType) (seq : UInt16) (payload : Bytes) (maxFragmentSize : Nat) :
    Prop :=
  ∃ messages, fragmentPayload msgType seq payload maxFragmentSize = some messages ∧
    ∀ order : List SyncMessage, order.Perm messages →
      (new.receiveAll (order.map SyncMessage.encode)).map Prod.snd =
        some (List.replicate (messages.length - 1) none ++ [some (msgType, payload)])

section Lossless

variable {payload : Bytes} {maxFragmentSize : Nat}

theorem lossless_whole (htype : msgType = .syncVector ∨ msgType = .document)
    (h : payload.length ≤ maxFragmentSize) : Lossless msgType seq payload maxFragmentSize := by
  refine ⟨_, fragmentPayload_whole h, fun order horder => ?_⟩
  rw [List.perm_singleton.mp horder, List.map_singleton, receiveAll, processIncoming,
    SyncMessage.decode_encode (by rcases htype with rfl | rfl <;> exact (nomatch ·))]
  rcases htype with rfl | rfl
  · rfl
  · rfl

theorem lossless_cut (htype : msgType ≠ .error) (hsize : 0 < maxFragmentSize)
    (hcut : maxFragmentSize < payload.length)
    (hbyte : Chunks.count maxFragmentSize payload ≤ 255) :
    Lossless msgType seq payload maxFragmentSize := by
  refine ⟨_, fragmentPayload_cut hsize hcut, fun order horder => ?_⟩
  rw [Nat.min_eq_left hbyte] at horder
  have hlength := Chunks.pieces_length maxFragmentSize payload
  have hchunks : Countable (Chunks.pieces maxFragmentSize payload) :=
    ⟨hlength ▸ several_pieces hsize hcut, hlength ▸ hbyte⟩
  obtain ⟨indices, rfl, hperm⟩ : ∃ indices, order = List.map _ indices ∧ indices.Perm _ :=
    (congrFun (congrFun (List.eq_map_comp_perm _) order) _).mpr horder
  have hreceived := receive_fragments seq new hchunks htype rfl
    (hlength.symm ▸ hperm)
  rw [hlength, Chunks.flatten_pieces hsize] at hreceived
  simp only [fragmentAt, hlength] at hreceived
  rw [List.map_map, List.length_map, List.length_range]
  exact congrArg (Option.map Prod.snd) hreceived

theorem eq_of_first_answer {α : Type} {a b : Nat} {x y : α} {rest : List (Option α)}
    (h : List.replicate a none ++ some x :: rest = List.replicate b none ++ [some y]) : a = b := by
  induction a generalizing b with
  | zero =>
      cases b with
      | zero => rfl
      | succ b => cases h
  | succ a ih =>
      cases b with
      | zero => cases h
      | succ b => rw [ih (List.cons.inj h).2]

/-- With more than 255 fragments the first 255, in order, already count as the message. -/
theorem receive_many (msgType : SyncMessageType) (seq : UInt16) (htype : msgType ≠ .error)
    (hsize : 0 < maxFragmentSize) (hmany : 255 < Chunks.count maxFragmentSize payload) :
    ∃ messages, fragmentPayload msgType seq payload maxFragmentSize = some messages ∧
      255 < messages.length ∧
      new.receiveAll ((messages.take 255).map SyncMessage.encode) =
        some (new, List.replicate 254 none ++
          [some (msgType, payload.take (255 * maxFragmentSize))]) := by
  have hcut : maxFragmentSize < payload.length := by
    by_contra hle
    have hone := (count_le_iff payload hsize 1).mpr (by omega)
    omega
  have hpieces : (Chunks.pieces maxFragmentSize payload).take 255 =
      (List.range 255).map (Chunks.piece maxFragmentSize payload) := by
    rw [Chunks.pieces, ← List.map_take, List.take_range, Nat.min_eq_left (Nat.le_of_lt hmany)]
  have hlength : ((Chunks.pieces maxFragmentSize payload).take 255).length = 255 := by
    rw [hpieces, List.length_map, List.length_range]
  have hchunks : Countable ((Chunks.pieces maxFragmentSize payload).take 255) :=
    ⟨by omega, by omega⟩
  have hreceived := receive_fragments seq new hchunks htype rfl (List.Perm.refl _)
  have hflatten : ((Chunks.pieces maxFragmentSize payload).take 255).flatten =
      payload.take (255 * maxFragmentSize) := by
    rw [hpieces, ← List.flatMap_def, Chunks.flatMap_piece_range]
  rw [hlength, hflatten] at hreceived
  refine ⟨_, fragmentPayload_cut hsize hcut, by simpa using hmany, ?_⟩
  rw [← hreceived, ← List.map_take, List.take_range, Nat.min_eq_left (Nat.le_of_lt hmany),
    Nat.min_eq_right (Nat.le_of_lt hmany), List.map_map]
  refine congrArg _ (List.map_congr_left fun i hi => ?_)
  rw [Function.comp_apply, fragmentAt, hlength, List.getD_eq_getElem?_getD,
    List.getD_eq_getElem?_getD, List.getElem?_take_of_lt (List.mem_range.mp hi)]

theorem not_lossless_of_many (htype : msgType ≠ .error) (hsize : 0 < maxFragmentSize)
    (hmany : 255 < Chunks.count maxFragmentSize payload) :
    ¬ Lossless msgType seq payload maxFragmentSize := by
  rintro ⟨messages, hmessages, hall⟩
  obtain ⟨_, hsame, hlength, hfirst⟩ := receive_many msgType seq htype hsize hmany
  obtain rfl := Option.some.inj (hmessages.symm.trans hsame)
  have hreceived := hall messages (List.Perm.refl _)
  rw [← List.take_append_drop 255 messages, List.map_append, receiveAll_append, hfirst,
    Option.bind_some, List.take_append_drop] at hreceived
  obtain ⟨answered, hback, hanswers⟩ := Option.map_eq_some_iff.mp hreceived
  obtain ⟨second, -, rfl⟩ := Option.map_eq_some_iff.mp hback
  -- The answer to the 255th fragment is a payload, where nothing may be answered yet.
  have hearly := eq_of_first_answer (b := messages.length - 1)
    (by simpa only [List.append_assoc, List.singleton_append] using hanswers)
  omega

end Lossless

theorem lossless_iff (htype : msgType = .syncVector ∨ msgType = .document) (seq : UInt16)
    (payload : Bytes) {maxFragmentSize : Nat} (hsize : 0 < maxFragmentSize) :
    Lossless msgType seq payload maxFragmentSize ↔ payload.length ≤ 255 * maxFragmentSize := by
  have hnot : msgType ≠ .error := by
    rcases htype with rfl | rfl <;> exact (nomatch ·)
  rw [← count_le_iff payload hsize]
  constructor
  · intro h
    by_contra hmany
    exact not_lossless_of_many hnot hsize (Nat.lt_of_not_le hmany) h
  · intro hbyte
    by_cases hcut : maxFragmentSize < payload.length
    · exact lossless_cut hnot hsize hcut hbyte
    · exact lossless_whole htype (Nat.le_of_not_lt hcut)

theorem lossless_ten : Lossless .document 1 [1, 2, 3, 4, 5, 6, 7, 8, 9, 10] 4 :=
  (lossless_iff (Or.inr rfl) 1 [1, 2, 3, 4, 5, 6, 7, 8, 9, 10] (by decide)).mpr (by decide)

/-- A payload of 256 bytes in fragments of one byte loses the last of them. -/
theorem long_payload_truncated :
    ¬ Lossless .document 1 (List.replicate 256 7) 1 ∧
      ∃ messages, fragmentPayload .document 1 (List.replicate 256 7) 1 = some messages ∧
        (new.receiveAll ((messages.take 255).map SyncMessage.encode)).map Prod.snd =
          some (List.replicate 254 none ++ [some (.document, List.replicate 255 7)]) := by
  have hmany : 255 < Chunks.count 1 (List.replicate 256 (7 : UInt8)) := by
    rw [Chunks.count, List.length_replicate]
    decide
  refine ⟨not_lossless_of_many (nomatch ·) Nat.one_pos hmany, ?_⟩
  obtain ⟨messages, hmessages, -, hreceived⟩ :=
    receive_many .document 1 (nomatch ·) Nat.one_pos hmany
  refine ⟨messages, hmessages, ?_⟩
  rw [hreceived, List.take_replicate]
  rfl

end SyncProtocol

end PeatBtle
