import OpcUa.EntryPoints
import OpcUa.MemoryDecoding

namespace OpcUa.MemoryTracking

open StatusCodes NodeIds DataTypes Values Decoding ValueDecoding Ledgers DecodedMemory MemoryReaders MemoryDecoding
open ReadPrograms EntryPoints
open Readers (Dec DecM)

/-- The length or the text behind it lies beyond the end. -/
def textUnreadable (st : Dec) : Bool :=
  decide (st.offset + 4 > st.data.length) || decide (st.offset + 4 + (lengthAt st).toNat > st.data.length)

/-- The node id that starts here is of no known kind, or it has a text that
cannot be read. -/
def unreadableId (st : Dec) : Bool :=
  let encodingByte := st.data.getD st.offset 0
  decide (st.offset < st.data.length) && (decide (encodingByte > 5) ||
    (decide (encodingByte = 3 ∨ encodingByte = 5) && textUnreadable { st with offset := st.offset + 3 }))

variable {α : Type}

section Strings

def heldText : Option Buffer → List Nat
  | none => []
  | some s => s.data.held

theorem blockText_spec {n : Nat} {s s' : Store} {r : Except StatusCode UaString} {x : Option Buffer}
    (hroom : ¬s.dec.offset + n > s.dec.data.length)
    (hrun : withBlock (some nullBuffer)
      (fun id => place some (fun _ => some ⟨.block id, n⟩) (plain (Readers.take n))) s = some (r, x, s')) :
    s'.typeIds = s.typeIds ∧ Balanced s.next s.log s'.next s'.log (heldText x) 0 ∧
      (∀ code, r = .error code → heldText x = []) ∧ x ≠ none := by
  simp only [withBlock, allocate_eq] at hrun
  cases hheap : (allocated s.dec).1 with
  | false =>
      simp only [hheap] at hrun
      cases hrun
      exact ⟨rfl, .refl _ _, fun _ _ => rfl, fun h => by cases h⟩
  | true =>
      have hrest := allocated_rest s.dec
      simp only [hheap, if_true, place, plain, Readers.take, hrest.1, hrest.2, if_neg hroom] at hrun
      cases hrun
      exact ⟨rfl, .allocate _ _, (fun _ h => by cases h), fun h => by cases h⟩

theorem string_spec {s s' : Store} {r : Except StatusCode UaString} {x : Option Buffer}
    (hrun : stringMem s = some (r, x, s')) :
    s'.typeIds = s.typeIds ∧ Balanced s.next s.log s'.next s'.log (heldText x) 0 ∧
      (∀ code, r = .error code → heldText x = []) ∧ x.isNone = textUnreadable s.dec ∧
      (x = none → ∃ code, r = .error code) := by
  simp only [stringMem, after_plain, Readers.withError, int32_eq] at hrun
  by_cases hroom : s.dec.offset + 4 > s.dec.data.length
  · simp only [if_pos hroom] at hrun
    cases hrun
    exact ⟨rfl, .refl _ _, fun _ _ => rfl, by simp [textUnreadable, hroom], fun _ => ⟨_, rfl⟩⟩
  simp only [if_neg hroom] at hrun
  by_cases hnone : lengthAt s.dec ≤ 0
  · simp only [if_pos hnone] at hrun
    cases hrun
    have hfits : ¬s.dec.offset + 4 + (lengthAt s.dec).toNat > s.dec.data.length := by omega
    refine ⟨rfl, ?_, (fun _ h => by cases h), by simp [textUnreadable, hroom, hfits], fun h => by cases h⟩
    by_cases hzero : lengthAt s.dec = 0
    · rw [if_pos hzero]
      exact .refl _ _
    · rw [if_neg hzero]
      exact .refl _ _
  simp only [if_neg hnone] at hrun
  by_cases hlong : s.dec.offset + 4 + (lengthAt s.dec).toNat > s.dec.data.length
  · have hunreadable : textUnreadable s.dec = true := by simp [textUnreadable, hlong]
    rw [if_pos (show (s.dec.advance 4).offset + _ > (s.dec.advance 4).data.length from hlong)] at hrun
    cases hrun
    exact ⟨rfl, .refl _ _, fun _ _ => rfl, hunreadable.symm, fun _ => ⟨_, rfl⟩⟩
  have hreadable : textUnreadable s.dec = false := by simp [textUnreadable, hroom, hlong]
  have hroom' : ¬(s.dec.advance 4).offset + (lengthAt s.dec).toNat > (s.dec.advance 4).data.length := hlong
  rw [if_neg hroom'] at hrun
  obtain ⟨hids, hbalanced, herror, hset⟩ := blockText_spec hroom' hrun
  refine ⟨hids, hbalanced, herror, ?_, fun h => absurd h hset⟩
  cases x with
  | none => exact absurd rfl hset
  | some b => exact hreadable.symm

theorem cleans_string : Cleans unreadableId heldText stringMem := by
  refine ⟨fun s r x s' hrun => ?_, fun s code x s' hrun => ?_⟩
  · obtain ⟨hids, hbalanced, _⟩ := string_spec hrun
    exact ⟨[], hids, hbalanced⟩
  · obtain ⟨_, _, herror, _⟩ := string_spec hrun
    exact herror code rfl

theorem cleans_buffer : Cleans unreadableId (fun s => s.data.held) bufferMem := by
  refine cleans_place id cleans_string fun x => ?_
  cases x <;> exact .refl _

end Strings

section NodeIds

/-- What `NodeId_decodeBinary` has allocated for the id. -/
def heldId : IdWrite → List Nat
  | .text (some s) => s.data.held
  | _ => []

/-- `NodeId_deleteMembers` would look at what has not been assigned. -/
def unassigned : IdWrite → Bool
  | .nothing | .text none => true
  | .plain | .text (some _) => false

theorem release_assigned {x : IdWrite} (h : unassigned x = false) : x.release = (heldId x).map .block := by
  match x, h with
  | .plain, _ => rfl
  | .text (some s), _ => exact s.data.release_eq

theorem unassigned_spec {x : IdWrite} (h : unassigned x = true) : x.release = [.unset] ∧ heldId x = [] := by
  match x, h with
  | .nothing, _ | .text none, _ => exact ⟨rfl, rfl⟩

theorem held_zeroed (x : IdWrite) : x.zeroed.held = heldId x := by
  match x with
  | .nothing | .plain | .text none | .text (some _) => rfl

/-- The id behind its encoding byte has nothing that can be freed. -/
def unreadableBody (encodingByte : UInt8) (st : Dec) : Bool :=
  decide (encodingByte > 5) ||
    (decide (encodingByte = 3 ∨ encodingByte = 5) && textUnreadable { st with offset := st.offset + 2 })

theorem unassigned_text (x : Option Buffer) : unassigned (.text x) = x.isNone := by
  cases x <;> rfl

theorem held_text (x : Option Buffer) : heldId (.text x) = heldText x := by
  cases x <;> rfl

theorem uint16_eq (st : Dec) : uint16DecodeBinary st =
    if st.offset + 2 > st.data.length then some (.error badDecodingError, st)
    else some (.ok (UInt16.ofNat (LittleEndian.ofBytes ((st.data.drop st.offset).take 2))), st.advance 2) := by
  rw [uint16DecodeBinary, Readers.map, Readers.andThen, Readers.take]
  by_cases h : st.offset + 2 > st.data.length
  · rw [if_pos h, if_pos h]
  · rw [if_neg h, if_neg h]
    rfl

theorem textUnreadable_of_short {st : Dec} (h : st.offset + 2 > st.data.length) (k : Nat) :
    textUnreadable { st with offset := st.offset + k } = true := by
  have hend : st.offset + k + 4 > st.data.length := by omega
  simp [textUnreadable, hend]

theorem text_spec {f : UInt16 × UaString → NodeId} {s s' : Store} {r : Except StatusCode NodeId} {x : IdWrite}
    (hrun : place f (fun x => IdWrite.text x.2) (both (plain uint16DecodeBinary) stringMem) s = some (r, x, s')) :
    s'.typeIds = s.typeIds ∧ Balanced s.next s.log s'.next s'.log (heldId x) 0 ∧
      unassigned x = textUnreadable { s.dec with offset := s.dec.offset + 2 } ∧
      (unassigned x = true → ∃ code, r = .error code) := by
  have hstring : ∀ {st : Dec} {r₀ : Except StatusCode UInt16} {r₁ : Except StatusCode UaString} {y : Option Buffer}
      {s₁ : Store}, stringMem { s with dec := st } = some (r₁, y, s₁) →
      textUnreadable st = textUnreadable { s.dec with offset := s.dec.offset + 2 } →
      s₁.typeIds = s.typeIds ∧ Balanced s.next s.log s₁.next s₁.log (heldId (.text y)) 0 ∧
        unassigned (.text y) = textUnreadable { s.dec with offset := s.dec.offset + 2 } ∧
        (unassigned (.text y) = true → ∃ code, (Readers.joined r₀ r₁).map f = .error code) := by
    intro st r₀ r₁ y s₁ hsecond hst
    obtain ⟨hids, hbalanced, _, hnone, hfails⟩ := string_spec hsecond
    rw [held_text, unassigned_text]
    refine ⟨hids, hbalanced, hnone.trans hst, fun h => ?_⟩
    obtain ⟨code, rfl⟩ := hfails (Option.isNone_iff_eq_none.mp h)
    cases r₀ <;> exact ⟨_, rfl⟩
  simp only [place, both, plain, uint16_eq] at hrun
  by_cases hshort : s.dec.offset + 2 > s.dec.data.length
  · rw [if_pos hshort] at hrun
    cases hsecond : stringMem s with
    | none => simp only [hsecond] at hrun; cases hrun
    | some res =>
        obtain ⟨r₁, y, s₁⟩ := res
        simp only [hsecond] at hrun
        cases hrun
        exact hstring hsecond
          ((textUnreadable_of_short hshort 0).trans (textUnreadable_of_short hshort 2).symm)
  · rw [if_neg hshort] at hrun
    cases hsecond : stringMem { s with dec := s.dec.advance 2 } with
    | none => simp only [hsecond] at hrun; cases hrun
    | some res =>
        obtain ⟨r₁, y, s₁⟩ := res
        simp only [hsecond] at hrun
        cases hrun
        exact hstring hsecond rfl

theorem nodeIdBody_spec {encodingByte : UInt8} {s s' : Store} {r : Except StatusCode NodeId} {x : IdWrite}
    (hrun : nodeIdBodyMem encodingByte s = some (r, x, s')) :
    s'.typeIds = s.typeIds ∧ Balanced s.next s.log s'.next s'.log (heldId x) 0 ∧
      unassigned x = unreadableBody encodingByte s.dec ∧ (unassigned x = true → ∃ code, r = .error code) := by
  rw [nodeIdBodyMem] at hrun
  by_cases hstring : encodingByte = 3
  · subst hstring
    exact text_spec hrun
  rw [if_neg hstring] at hrun
  by_cases hbytes : encodingByte = 5
  · subst hbytes
    exact text_spec hrun
  rw [if_neg hbytes] at hrun
  by_cases hunknown : encodingByte > 5
  · rw [if_pos hunknown] at hrun
    cases hrun
    exact ⟨rfl, .refl _ _, by simp [unassigned, unreadableBody, hunknown], fun _ => ⟨_, rfl⟩⟩
  · rw [if_neg hunknown] at hrun
    simp only [place, plain] at hrun
    cases hplain : nodeIdBodyDecodeBinary encodingByte s.dec with
    | none =>
        rw [hplain] at hrun
        cases hrun
    | some res =>
        rw [hplain] at hrun
        cases hrun
        exact ⟨rfl, .refl _ _, by simp [unassigned, unreadableBody, hunknown, hstring, hbytes], fun h => by cases h⟩

theorem tracks_nodeIdBody (encodingByte : UInt8) : Tracks unreadableId heldId (nodeIdBodyMem encodingByte) := by
  intro s r x s' hrun
  obtain ⟨hids, hbalanced, _⟩ := nodeIdBody_spec hrun
  exact ⟨[], hids, hbalanced⟩

theorem cleans_nodeId : Cleans unreadableId IdMem.held nodeIdMem := by
  refine cleans_after (cleans_plain _).1 rfl fun encodingByte => ?_
  refine cleans_onError (tracks_place id (tracks_nodeIdBody encodingByte) fun x => ?_) IdMem.release_eq
    IdMem.held_deleted
  rw [held_zeroed]

theorem numericBody_held {encodingByte : UInt8} {s s' : Store} {n : NodeId} {x : IdWrite}
    (hrun : nodeIdBodyMem encodingByte s = some (.ok n, x, s')) (hnumeric : n.identifier.isNumeric = true) :
    heldId x = [] := by
  rw [nodeIdBodyMem] at hrun
  split at hrun
  · obtain ⟨p, _, _, rfl, _⟩ := place_ok hrun
    cases hnumeric
  · split at hrun
    · obtain ⟨p, _, _, rfl, _⟩ := place_ok hrun
      cases hnumeric
    · split at hrun
      · cases hrun
      · obtain ⟨_, _, _, _, rfl⟩ := place_ok hrun
        rfl

theorem numeric_held {s s' : Store} {n : NodeId} {x : IdMem} (hrun : nodeIdMem s = some (.ok n, x, s'))
    (hnumeric : n.identifier.isNumeric = true) : x.held = [] := by
  rw [nodeIdMem, after_plain] at hrun
  split at hrun
  · cases hrun
  · cases hrun
  · obtain ⟨a, y, hbody, rfl, rfl⟩ := place_ok (onError_ok hrun)
    rw [held_zeroed]
    exact numericBody_held hbody hnumeric

theorem unreadableId_eq (st : Dec) : unreadableId st =
    (decide (st.offset < st.data.length) && unreadableBody (st.data.getD st.offset 0) (st.advance 1)) := rfl

theorem byte_eq (st : Dec) : byteDecodeBinary st =
    if st.offset + 1 > st.data.length then some (.error badDecodingError, st)
    else some (.ok (st.data.getD st.offset 0), st.advance 1) := by
  rw [byteDecodeBinary, Readers.map, Readers.andThen, Readers.take]
  by_cases h : st.offset + 1 > st.data.length
  · rw [if_pos h, if_pos h]
  · have hlt : st.offset < st.data.length := by omega
    have hbytes : (st.data.drop st.offset).take 1 = [st.data.getD st.offset 0] := by
      rw [List.drop_eq_getElem_cons hlt, List.getD_eq_getElem?_getD, List.getElem?_eq_getElem hlt]
      rfl
    rw [if_neg h, if_neg h, hbytes]
    simp [Readers.succeed, LittleEndian.ofBytes]

theorem unsetNodeId_spec {s s' : Store} {r : Except StatusCode NodeId} {x : IdWrite}
    (hrun : unsetNodeIdMem s = some (r, x, s')) :
    (∃ ids, s'.typeIds = ids ++ s.typeIds ∧
      Balanced s.next s.log s'.next s'.log (heldId x) (ids.countP unreadableId)) ∧
      (∀ code, r = .error code → heldId x = []) ∧ (∀ n, r = .ok n → x.release = (heldId x).map .block) := by
  rw [unsetNodeIdMem, after_plain, byte_eq] at hrun
  by_cases hend : s.dec.offset + 1 > s.dec.data.length
  · simp only [if_pos hend] at hrun
    cases hrun
    have hreadable : unreadableId s.dec = false := by
      rw [unreadableId_eq, decide_eq_false (by omega), Bool.false_and]
    refine ⟨⟨[s.dec], rfl, ?_⟩, fun _ _ => rfl, fun _ h => by cases h⟩
    rw [List.countP_singleton, hreadable]
    exact .refl _ _
  simp only [if_neg hend] at hrun
  have hbyte : unreadableId s.dec = unreadableBody (s.dec.data.getD s.dec.offset 0) (s.dec.advance 1) := by
    rw [unreadableId_eq, decide_eq_true (by omega), Bool.true_and]
  cases r with
  | ok n =>
      have hbody := onError_ok hrun
      obtain ⟨hids, hbalanced, hset, hfails⟩ := nodeIdBody_spec hbody
      have hassigned : unassigned x = false := by
        cases hx : unassigned x with
        | false => rfl
        | true =>
            obtain ⟨code, h⟩ := hfails hx
            cases h
      refine ⟨⟨[s.dec], hids, ?_⟩, fun _ h => (by cases h), fun _ _ => release_assigned hassigned⟩
      rw [List.countP_singleton, hbyte, ← hset, hassigned]
      exact hbalanced
  | error code =>
      obtain ⟨x₀, s₀, hbody, rfl, rfl⟩ := onError_error hrun
      obtain ⟨hids, hbalanced, hset, hfails⟩ := nodeIdBody_spec hbody
      refine ⟨⟨[s.dec], hids, ?_⟩, fun _ _ => rfl, fun _ h => by cases h⟩
      rw [List.countP_singleton, hbyte, ← hset]
      cases hassigned : unassigned x₀ with
      | false =>
          rw [Store.free, release_assigned hassigned]
          exact hbalanced.release (by rw [show heldId .plain = [] from rfl, List.append_nil])
      | true =>
          obtain ⟨hrelease, hheld⟩ := unassigned_spec hassigned
          rw [Store.free, hrelease]
          rw [hheld] at hbalanced
          exact hbalanced.stray

end NodeIds

section Leaves

theorem tracks_number (b : Bool) (d : DecM α) (a : α) :
    Tracks unreadableId (fun _ => []) (whenFlagged b a () (plain d)) :=
  tracks_whenFlagged b a (cleans_plain d).1 rfl

theorem tracks_flaggedBuffer (b : Bool) :
    Tracks unreadableId (fun s => s.data.held) (whenFlagged b none nullBuffer bufferMem) :=
  tracks_whenFlagged b none cleans_buffer.1 rfl

theorem cleans_expandedNodeId : Cleans unreadableId (SimpleMem.held .expandedNodeId) expandedNodeIdMem := by
  have hfields : ∀ b, Tracks unreadableId (SimpleMem.held .expandedNodeId) (expandedNodeIdFieldsMem b) := fun b =>
    tracks_place _ (tracks_both cleans_nodeId.1 (tracks_both (tracks_flaggedBuffer _) (tracks_number _ _ _)))
      fun x => by rw [List.append_nil]; exact .refl _
  refine cleans_of_eq fun s => ?_
  by_cases hend : s.dec.offset ≥ s.dec.data.length
  · exact ⟨_, cleans_fail badDecodingError rfl, if_pos hend⟩
  · refine ⟨_, cleans_reading (fun s => { s.dec with
      data := Buffers.overwrite s.dec.data s.dec.offset [s.dec.data.getD s.dec.offset 0 &&& 0x3f],
      reads := (s.dec.offset, 1) :: s.dec.reads })
      (cleans_onError (hfields (s.dec.data.getD s.dec.offset 0)) (SimpleMem.release_eq .expandedNodeId)
        (SimpleMem.held_deleted .expandedNodeId)), if_neg hend⟩

theorem cleans_localizedText : Cleans unreadableId (SimpleMem.held .localizedText) localizedTextMem := by
  refine cleans_after (cleans_plain _).1 rfl fun mask => ?_
  refine cleans_onError ?_ (SimpleMem.release_eq .localizedText) (SimpleMem.held_deleted .localizedText)
  exact tracks_place _ (tracks_both (tracks_flaggedBuffer _) (tracks_flaggedBuffer _)) fun x => .refl _

theorem tracks_diagnosticFields (mask : UInt8) :
    Tracks unreadableId (fun s => s.data.held) (diagnosticFieldsMem mask) := by
  refine tracks_place _ (tracks_both (tracks_number _ _ _) (tracks_both (tracks_number _ _ _)
    (tracks_both (tracks_number _ _ _) (tracks_both (tracks_number _ _ _)
      (tracks_both (tracks_flaggedBuffer _) (tracks_number _ _ _)))))) fun x => ?_
  rw [List.append_nil]
  exact .refl _

def heldInner : Option (Nat × InfoMem) → List Nat
  | none => []
  | some (id, inner) => inner.held ++ [id]

theorem held_infoOf (x : Buffer × Option (Nat × InfoMem)) : (infoOf x).held = x.1.data.held ++ heldInner x.2 := by
  obtain ⟨s, inner⟩ := x
  match inner with
  | none => exact (List.append_nil _).symm
  | some (id, inner) => rfl

theorem cleans_diagnosticInfo (fuel : Nat) : Cleans unreadableId InfoMem.held (diagnosticInfoMem fuel) := by
  induction fuel with
  | zero => exact ⟨(fun _ _ _ _ h => by cases h), fun _ _ _ _ h => by cases h⟩
  | succ fuel ih =>
      refine cleans_after (cleans_plain _).1 rfl fun mask => ?_
      refine cleans_onError ?_ InfoMem.release_eq fun _ => rfl
      by_cases hinner : hasInner mask = true
      · rw [dif_pos hinner]
        have hblock : Tracks unreadableId heldInner
            (withBlock none fun block => place id (fun inner => some (block, inner)) (diagnosticInfoMem fuel)) :=
          tracks_withBlock rfl fun id => keeps_place _ ih.1.keeps fun x => List.perm_append_comm
        refine tracks_place _ (tracks_both (tracks_diagnosticFields mask) hblock) fun x => ?_
        rw [held_infoOf]
      · rw [dif_neg hinner]
        exact tracks_place _ (tracks_diagnosticFields mask) fun x => .refl _

theorem cleans_simple (fuel : Nat) (b : Builtin) : Cleans unreadableId (SimpleMem.held b) (simpleMem fuel b) := by
  cases b with
  | string | byteString | xmlElement => exact cleans_buffer
  | nodeId => exact cleans_nodeId
  | expandedNodeId => exact cleans_expandedNodeId
  | localizedText => exact cleans_localizedText
  | diagnosticInfo => exact cleans_diagnosticInfo fuel
  | _ => exact cleans_plain _

end Leaves

section Arrays

variable {t : DataType} {item : MemM (Val t) (Mem t)}

theorem tracks_items (h : Cleans unreadableId held item) (n : Nat) :
    Tracks unreadableId heldCells (itemsMem item n) := by
  induction n with
  | zero => exact (cleans_succeed _ (by rw [heldCells])).1
  | succ n ih =>
      intro s r x s' hrun
      simp only [itemsMem] at hrun
      split at hrun
      · cases hrun
      · case _ code m s₀ hitem =>
          obtain ⟨ids, hids, hbalanced⟩ := h.1 s _ m s₀ hitem
          rw [h.2 s code m s₀ hitem] at hbalanced
          cases hrun
          exact ⟨ids, hids, by rw [heldCells]; exact hbalanced⟩
      · case _ v m s₀ hitem =>
          obtain ⟨ids, hids, hbalanced⟩ := h.1 s _ m s₀ hitem
          have hrest : Keeps unreadableId heldCells (held m) (place (Vals.cons v) (Cells.cons m) (itemsMem item n)) :=
            keeps_place _ ih.keeps fun items => by rw [heldCells]
          obtain ⟨ids', hids', hbalanced'⟩ := hrest _ _ _ s₀ r x s' hbalanced hrun
          refine ⟨ids' ++ ids, by rw [hids', hids, List.append_assoc], ?_⟩
          rw [List.countP_append]
          exact hbalanced'

theorem tracks_array (h : Cleans unreadableId held item) (signedLength : Int) :
    Tracks unreadableId heldArr (arrayMem t item signedLength) := by
  refine tracks_of_eq fun s => ?_
  simp only [arrayMem]
  by_cases hnone : signedLength ≤ 0
  · rw [if_pos hnone]
    refine ⟨succeed _ _, (cleans_succeed _ ?_).1, rfl⟩
    by_cases hzero : signedLength = 0
    · rw [if_pos hzero, heldArr]
    · rw [if_neg hzero, heldArr]
  rw [if_neg hnone]
  by_cases hsize : t.memSize * signedLength.toNat > maxArraySize
  · rw [if_pos hsize]
    exact ⟨fail _ _, (cleans_fail _ (by rw [heldArr])).1, rfl⟩
  rw [if_neg hsize]
  by_cases hroom : s.dec.offset + t.memSize * signedLength.toNat / 32 > s.dec.data.length
  · rw [if_pos hroom]
    exact ⟨fail _ _, (cleans_fail _ (by rw [heldArr])).1, rfl⟩
  rw [if_neg hroom]
  refine ⟨withBlock _ _, tracks_withBlock (by rw [heldArr]) fun id => ?_, rfl⟩
  split
  · have hcopied : ∀ bytes : List UInt8 → Arr t, Tracks unreadableId (fun _ => []) (after
        (plain (Readers.take (t.memSize * signedLength.toNat))) 0 fun bs => succeed (bytes bs) signedLength.toNat) :=
      fun bytes => tracks_after (cleans_plain _).1 rfl fun _ => (cleans_succeed _ rfl).1
    exact keeps_place _ (hcopied _).keeps fun x => by rw [heldArr, List.append_nil]
  · refine keeps_onError (keeps_place _ (tracks_items h _).keeps fun x => ?_) (fun _ _ x _ _ => releaseArr_eq x)
      fun _ => by rw [heldArr]
    rw [heldArr]
    exact List.perm_append_comm

end Arrays

end OpcUa.MemoryTracking
