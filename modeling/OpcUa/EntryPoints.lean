import OpcUa.EncoderRuns
import OpcUa.ReadPrograms
import OpcUa.SimpleRoundTrips

namespace OpcUa.EntryPoints

open StatusCodes LittleEndian NodeIds DataTypes Values Writers ValueEncoding Readers Decoding ValueDecoding
open ReadPrograms WritePrograms EncoderPrograms EncoderRuns LeafReading NodeIdRoundTrips SimpleRoundTrips

variable {α : Type}

/-- The builtin types whose description has other members than the type
itself and which have a codec of their own. -/
def rerouted : DataType → Bool
  | .simple _ b => [Builtin.string, .byteString, .xmlElement, .expandedNodeId, .localizedText].contains b
  | _ => false

section Encoding

def SameBytes (r r' : StatusCode × Enc) : Prop := r.1 = r'.1 ∧ r.2.data = r'.2.data ∧ r.2.offset = r'.2.offset

/-- `UA_encodeBinary` does the same as the entry of the jump table. -/
def EncodesAlike (t : DataType) : Prop := ∀ (v : Val t) st, SameBytes (uaEncodeBinary v st) (encodeBinary v st)

def EncodesAlikeWithRoom (t : DataType) : Prop :=
  ∀ v : Val t, ∃ n, ∀ st : Enc, st.offset + n ≤ st.data.length → SameBytes (uaEncodeBinary v st) (encodeBinary v st)

theorem SameBytes.refl (r : StatusCode × Enc) : SameBytes r r := ⟨rfl, rfl, rfl⟩

theorem SameBytes.symm {r r' : StatusCode × Enc} (h : SameBytes r r') : SameBytes r' r :=
  ⟨h.1.symm, h.2.1.symm, h.2.2.symm⟩

theorem SameBytes.trans {r r' r'' : StatusCode × Enc} (h : SameBytes r r') (h' : SameBytes r' r'') : SameBytes r r'' :=
  ⟨h.1.trans h'.1, h.2.1.trans h'.2.1, h.2.2.trans h'.2.2⟩

theorem emit_room {bytes : List UInt8} {st : Enc} (h : st.offset + bytes.length ≤ st.data.length) :
    emit bytes st = (good, st.write bytes) := if_neg (by omega)

theorem emit_short {bytes : List UInt8} {st : Enc} (h : st.data.length < st.offset + bytes.length) :
    emit bytes st = (badEncodingError, st) := if_pos h

theorem length_lengthBytes (n : Nat) : (lengthBytes n).length = 4 := length_toBytes 4 n

def bytesEncodeBinary (x : UaString) : EncM :=
  arrayEncodeBinary TypeTable.byte x.isNone x.length x.bytes (x.bytes.map byteEncodeBinary)

theorem bytesEncode_short {x : UaString} {st : Enc} (h : st.data.length < st.offset + 4) :
    bytesEncodeBinary x st = (badEncodingError, st) := by
  have hemit : ∀ n, emit (lengthBytes n) st = (badEncodingError, st) := fun n =>
    emit_short (by rw [length_lengthBytes]; exact h)
  have hnull : emit nullLengthBytes st = (badEncodingError, st) := emit_short h
  rw [bytesEncodeBinary, arrayEncodeBinary]
  split
  · rw [hemit]
    rfl
  split
  · rw [hnull]
    rfl
  · rw [hemit]
    rfl

theorem bytesEncode_text {bytes : List UInt8} (hne : bytes ≠ []) {st : Enc} (h : st.offset + 4 ≤ st.data.length) :
    bytesEncodeBinary (some bytes) st =
      if st.data.length < st.offset + 4 + bytes.length then (badEncodingError, st.write (lengthBytes bytes.length))
      else (good, (st.write (lengthBytes bytes.length)).write bytes) := by
  have hpos : UaString.length (some bytes) > 0 := List.length_pos_iff.mpr hne
  have hemit : emit (lengthBytes (UaString.length (some bytes))) st = (good, st.write (lengthBytes bytes.length)) :=
    emit_room (by rw [length_lengthBytes]; exact h)
  have hdata : (st.write (lengthBytes bytes.length)).data.length = st.data.length := Buffers.length_overwrite _ _ _
  have hoffset : (st.write (lengthBytes bytes.length)).offset = st.offset + 4 := by
    change st.offset + (lengthBytes bytes.length).length = _
    rw [length_lengthBytes]
  have hcopied : TypeTable.byte.memSize * UaString.length (some bytes) = bytes.length := Nat.one_mul _
  have hzero : zeroCopyable TypeTable.byte = true := rfl
  rw [bytesEncodeBinary, arrayEncodeBinary, if_pos hpos, hemit]
  dsimp only
  rw [if_neg (by simp), if_pos hzero, hcopied, hdata, hoffset]
  rfl

theorem stringEncode_text {bytes : List UInt8} (hne : bytes ≠ []) (st : Enc) :
    stringEncodeBinary (some bytes) st =
      if st.data.length < st.offset + bytes.length then (badEncodingError, st)
      else ((emit (lengthBytes bytes.length) st).1, (emit (lengthBytes bytes.length) st).2.write bytes) := by
  obtain ⟨b, bytes, rfl⟩ := List.exists_cons_of_ne_nil hne
  rfl

theorem overwrite_nil (data : List UInt8) (i : Nat) : Buffers.overwrite data i [] = data := by
  induction data generalizing i with
  | nil => cases i <;> rfl
  | cons d data ih =>
      cases i with
      | zero => rfl
      | succ i => rw [Buffers.overwrite, ih]

theorem stringEncode_empty {x : UaString} (hx : x.length = 0) (st : Enc) :
    stringEncodeBinary x st = emit (if x.isNone then nullLengthBytes else lengthBytes 0) st := by
  have hguard : st.data.length < st.offset →
      (badEncodingError, st) = emit (if x.isNone then nullLengthBytes else lengthBytes 0) st := by
    intro h
    refine (emit_short ?_).symm
    omega
  match x, hx with
  | none, _ =>
      by_cases h : st.offset + UaString.length none > st.data.length
      · exact (if_pos h).trans (hguard h)
      · exact if_neg h
  | some [], _ =>
      by_cases h : st.offset + UaString.length (some []) > st.data.length
      · exact (if_pos h).trans (hguard h)
      · exact if_neg h

theorem sameBytes_empty {x : UaString} (hx : x.length = 0) (st : Enc) :
    SameBytes (bytesEncodeBinary x st) (stringEncodeBinary x st) := by
  have hlen : (if x.isNone then nullLengthBytes else lengthBytes 0).length = 4 := by
    split <;> rfl
  have hnil : x.bytes = [] := List.eq_nil_of_length_eq_zero hx
  rw [stringEncode_empty hx]
  by_cases hroom : st.offset + 4 ≤ st.data.length
  · have hfits : ∀ y : Enc, y.data.length = st.data.length → y.offset = st.offset + 4 →
        ¬ y.data.length < y.offset + TypeTable.byte.memSize * 0 := by
      intro y hdata hoffset
      omega
    have hzero : zeroCopyable TypeTable.byte = true := rfl
    have hlength : ¬ 0 > 0 := Nat.lt_irrefl 0
    have hgood : ¬ good ≠ good := fun h => h rfl
    rw [bytesEncodeBinary, arrayEncodeBinary, hx, hnil, if_neg hlength, emit_room (by rw [hlen]; exact hroom)]
    dsimp only
    rw [if_neg hgood, if_pos hzero, if_neg (hfits _ (Buffers.length_overwrite _ _ _) (congrArg (st.offset + ·) hlen))]
    exact ⟨rfl, overwrite_nil _ _, rfl⟩
  · rw [bytesEncode_short (by omega), emit_short (by rw [hlen]; omega)]
    exact SameBytes.refl _

/-- There is room for the string or it has no bytes, or neither the length
nor the bytes fit. -/
def Fits (x : UaString) (st : Enc) : Prop :=
  x.length = 0 ∨ st.offset + 4 + x.length ≤ st.data.length ∨
    st.data.length < st.offset + x.length ∧ st.data.length < st.offset + 4

theorem sameBytes_string_iff (x : UaString) (st : Enc) :
    SameBytes (bytesEncodeBinary x st) (stringEncodeBinary x st) ↔ Fits x st := by
  by_cases hempty : x.length = 0
  · exact ⟨fun _ => .inl hempty, fun _ => sameBytes_empty hempty st⟩
  obtain ⟨bytes, rfl, hne⟩ : ∃ bytes, x = some bytes ∧ bytes ≠ [] := by
    match x, hempty with
    | none, h => exact absurd rfl h
    | some [], h => exact absurd rfl h
    | some (b :: bytes), _ => exact ⟨b :: bytes, rfl, List.cons_ne_nil _ _⟩
  have hpos : 0 < bytes.length := List.length_pos_iff.mpr hne
  change _ ↔ bytes.length = 0 ∨ st.offset + 4 + bytes.length ≤ st.data.length ∨
    st.data.length < st.offset + bytes.length ∧ st.data.length < st.offset + 4
  have hoffset : (st.write (lengthBytes bytes.length)).offset = st.offset + 4 := by
    change st.offset + (lengthBytes bytes.length).length = _
    rw [length_lengthBytes]
  rw [stringEncode_text hne]
  by_cases hlength : st.offset + 4 ≤ st.data.length
  · rw [bytesEncode_text hne hlength, emit_room (by rw [length_lengthBytes]; exact hlength)]
    by_cases hfits : st.offset + 4 + bytes.length ≤ st.data.length
    · rw [if_neg (by omega), if_neg (by omega)]
      exact ⟨fun _ => .inr (.inl hfits), fun _ => SameBytes.refl _⟩
    · rw [if_pos (by omega)]
      refine ⟨fun hsame => ?_, fun hcond => by omega⟩
      by_cases hbytes : st.data.length < st.offset + bytes.length
      · rw [if_pos hbytes] at hsame
        have hmoved : st.offset + 4 = st.offset := hoffset.symm.trans hsame.2.2
        omega
      · rw [if_neg hbytes] at hsame
        have hstatus : badEncodingError = good := hsame.1
        exact absurd hstatus (by decide)
  · rw [bytesEncode_short (by omega), emit_short (by rw [length_lengthBytes]; omega)]
    by_cases hbytes : st.data.length < st.offset + bytes.length
    · rw [if_pos hbytes]
      exact ⟨fun _ => .inr (.inr ⟨hbytes, by omega⟩), fun _ => SameBytes.refl _⟩
    · rw [if_neg hbytes]
      refine ⟨fun hsame => ?_, fun hcond => by omega⟩
      have hmoved : st.offset = st.offset + bytes.length := hsame.2.2
      omega

/-- In a buffer with room two encoders leave the same only if they write the
same bytes. -/
theorem wire_eq_of_sameBytes {f g : EncM} {w w' : List UInt8} {limit : Nat} (hf : Writes limit f w)
    (hg : Writes limit g w') {st : Enc} (hroom : st.offset + w.length ≤ st.data.length)
    (hroom' : st.offset + w'.length ≤ st.data.length) (hlimit : st.data.length ≤ limit)
    (h : SameBytes (f st) (g st)) : w = w' := by
  have hparts : ∀ k, st.offset + k ≤ st.data.length → ∃ mid post : List UInt8,
      st.data = st.data.take st.offset ++ mid ++ post ∧ mid.length = k := by
    intro k hk
    refine ⟨(st.data.drop st.offset).take k, (st.data.drop st.offset).drop k, ?_, ?_⟩
    · rw [List.append_assoc, List.take_append_drop, List.take_append_drop]
    · rw [List.length_take, List.length_drop]
      omega
  have hoffset : st.offset = (st.data.take st.offset).length := by
    rw [List.length_take]
    omega
  obtain ⟨mid, post, hdata, hmid⟩ := hparts w.length hroom
  obtain ⟨mid', post', hdata', hmid'⟩ := hparts w'.length hroom'
  obtain ⟨st1, hrun1, hdata1, hoff1⟩ := hf _ mid post st hdata hoffset hmid hlimit
  obtain ⟨st2, hrun2, hdata2, hoff2⟩ := hg _ mid' post' st hdata' hoffset hmid' hlimit
  rw [hrun1, hrun2] at h
  obtain ⟨-, hsame, hmoved⟩ := h
  dsimp only at hsame hmoved
  have hlength : w.length = w'.length := by omega
  rw [hdata1, hdata2, List.append_assoc, List.append_assoc] at hsame
  exact (List.append_inj (List.append_cancel_left hsame) hlength).1

/-- A string with its pointer, which may be an ordinary one without bytes
behind it, as that of `UA_STRING("")`. -/
inductive Pointed
  | null
  | sentinel
  | pointer (bytes : List UInt8)
deriving DecidableEq

namespace Pointed

def string : Pointed → UaString
  | null => none
  | sentinel => some []
  | pointer bytes => some bytes

/-- `UA_encodeBinary` takes the string for an array, which is empty if its
pointer is the sentinel. -/
def uaEncodeBinary (x : Pointed) : EncM :=
  arrayEncodeBinary TypeTable.byte (x ≠ sentinel) x.string.length x.string.bytes (x.string.bytes.map byteEncodeBinary)

/-- `String_encodeBinary` takes only NULL for null. -/
def encodeBinary (x : Pointed) : EncM := stringEncodeBinary x.string

/-- An ordinary pointer without bytes is written as null or as empty, which is
the same only if neither can be written. -/
def Fits (x : Pointed) (st : Enc) : Prop :=
  if x = pointer [] then st.data.length < st.offset + 4 else EntryPoints.Fits x.string st

theorem uaEncodeBinary_of_ne {x : Pointed} (h : x ≠ pointer []) : x.uaEncodeBinary = bytesEncodeBinary x.string := by
  cases x with
  | null | sentinel => rfl
  | pointer bytes =>
      funext st
      have hne : bytes ≠ [] := fun hnil => h (congrArg pointer hnil)
      have hpos : UaString.length (some bytes) > 0 := List.length_pos_iff.mpr hne
      rw [uaEncodeBinary, bytesEncodeBinary, arrayEncodeBinary, arrayEncodeBinary, string, if_pos hpos, if_pos hpos]

theorem not_sameBytes_null {st : Enc} (h : st.offset + 4 ≤ st.data.length) :
    ¬ SameBytes (emit nullLengthBytes st) (emit (lengthBytes 0) st) := by
  intro hsame
  have hwrites : Writes st.data.length (emit nullLengthBytes) nullLengthBytes := writes_emit _
  have hwire := wire_eq_of_sameBytes hwrites (writes_emit (lengthBytes 0)) h h (Nat.le_refl _) hsame
  cases hwire

theorem sameBytes_iff (x : Pointed) (st : Enc) : SameBytes (x.uaEncodeBinary st) (x.encodeBinary st) ↔ x.Fits st := by
  rw [Fits]
  by_cases hempty : x = pointer []
  · subst hempty
    rw [if_pos rfl]
    have hnull : SameBytes ((pointer []).uaEncodeBinary st) (emit nullLengthBytes st) := by
      have hsame := sameBytes_empty (x := none) rfl st
      rwa [stringEncode_empty rfl] at hsame
    have hentry : (pointer []).encodeBinary st = emit (lengthBytes 0) st := stringEncode_empty (x := some []) rfl st
    rw [hentry]
    constructor
    · intro hsame
      by_contra hroom
      exact not_sameBytes_null (Nat.not_lt.mp hroom) (hnull.symm.trans hsame)
    · intro hshort
      have hempty : emit (lengthBytes 0) st = (badEncodingError, st) := emit_short hshort
      have hshortNull : emit nullLengthBytes st = (badEncodingError, st) := emit_short hshort
      rw [hshortNull] at hnull
      rw [hempty]
      exact hnull
  · rw [if_neg hempty, uaEncodeBinary_of_ne hempty]
    exact sameBytes_string_iff x.string st

end Pointed

theorem length_emit (bytes : List UInt8) (st : Enc) : (emit bytes st).2.data.length = st.data.length := by
  rw [emit]
  split
  · rfl
  · exact Buffers.length_overwrite _ _ _

end Encoding

section Decoding

/-- The status, and with success the value and the offset. -/
def returned (o : Outcome α) : Option (Except StatusCode (α × Nat)) := o.map (fun x => x.1.map (·, x.2.offset))

/-- `UA_decodeBinary` returns the same as the entry of the jump table. -/
def DecodesAlike (t : DataType) : Prop :=
  ∀ fuel st, returned (uaDecodeBinary (fuel + 1) t st) = returned (decodeBinary (fuel + 1) t st)

def lengthAt (st : Dec) : Int := toInt32 (UInt32.ofNat (ofBytes ((st.data.drop st.offset).take 4))).toNat

theorem int32_eq (st : Dec) :
    int32DecodeBinary st = if st.offset + 4 > st.data.length then some (.error badDecodingError, st)
      else some (.ok (lengthAt st), st.advance 4) := by
  rw [int32DecodeBinary, Readers.map, andThen, uint32DecodeBinary, Readers.map, andThen, take]
  by_cases h : st.offset + 4 > st.data.length
  · rw [if_pos h, if_pos h]
  · rw [if_neg h, if_neg h]
    rfl

theorem bytesOf_ofImages (typeId : NodeId) (bytes : List UInt8) :
    bytesOf (ofImages (.simple typeId .byte) bytes.length bytes) = bytes := by
  induction bytes with
  | nil => rw [List.length_nil, ofImages, bytesOf]
  | cons b bytes ih =>
      have hfirst : ofImage (.simple typeId .byte) (b :: bytes) = .simple (b := .byte) b := by
        simp [ofImage, simpleOfImage, ofBytes]
      have hrest : (b :: bytes).drop (DataType.simple typeId .byte).memSize = bytes := rfl
      rw [List.length_cons, ofImages, hfirst, hrest, bytesOf, ih]

theorem bytesOf_nil {typeId : NodeId} : bytesOf (.nil : Vals (.simple typeId .byte)) = [] := by rw [bytesOf]

theorem allocate_eq (st : Dec) :
    allocate st = some (if (allocated st).1 then .ok () else .error badOutOfMemory, (allocated st).2) := by
  obtain ⟨data, offset, reads, heap⟩ := st
  match heap with
  | [] | true :: _ | false :: _ => rfl

theorem allocated_rest (st : Dec) : (allocated st).2.data = st.data ∧ (allocated st).2.offset = st.offset := by
  obtain ⟨data, offset, reads, heap⟩ := st
  match heap with
  | [] | true :: _ | false :: _ => exact ⟨rfl, rfl⟩

theorem allocated_advance (st : Dec) (k : Nat) : (allocated (st.advance k)).1 = (allocated st).1 := by
  obtain ⟨data, offset, reads, heap⟩ := st
  match heap with
  | [] | true :: _ | false :: _ => rfl

/-- The bytes of a string at the offset, after the length. -/
def textAt (st : Dec) (n : Nat) : List UInt8 := (st.data.drop (st.offset + 4)).take n

/-- The outcome of the array decoder where the elements are copied as they
are. -/
theorem arrayDecode_eq {t : DataType} (ht : zeroCopyable t = true) (item : DecM (Val t)) (n : Int) (st : Dec) :
    arrayDecodeBinary t item n st =
      if n ≤ 0 then some (.ok (if n = 0 then .items .nil else .null), st)
      else if t.memSize * n.toNat > maxArraySize then some (.error badOutOfMemory, st)
      else if st.offset + t.memSize * n.toNat / 32 > st.data.length then some (.error badDecodingError, st)
      else if (allocated st).1 = false then some (.error badOutOfMemory, (allocated st).2)
      else if st.offset + t.memSize * n.toNat > st.data.length then some (.error badDecodingError, (allocated st).2)
      else some (.ok (.items (ofImages t n.toNat ((st.data.drop st.offset).take (t.memSize * n.toNat)))),
        (allocated st).2.advance (t.memSize * n.toNat)) := by
  obtain ⟨hdata, hoffset⟩ := allocated_rest st
  rw [arrayDecodeBinary]
  split
  · rfl
  split
  · rfl
  split
  · rfl
  rw [andThen, allocate_eq]
  cases (allocated st).1 with
  | false => rfl
  | true =>
      have hmemory : ¬ true = false := by simp
      simp only [if_true]
      rw [if_neg hmemory, Readers.map, andThen, take, hdata, hoffset]
      by_cases h : st.offset + t.memSize * n.toNat > st.data.length
      · rw [if_pos h, if_pos h]
      · rw [if_neg h, if_neg h]
        rfl

theorem byteArray_returned (st : Dec) :
    returned (byteArrayDecodeBinary st) =
      if st.offset + 4 > st.data.length then some (.error badDecodingError)
      else if lengthAt st ≤ 0 then some (.ok (if lengthAt st = 0 then some [] else none, st.offset + 4))
      else if (lengthAt st).toNat > maxArraySize then some (.error badOutOfMemory)
      else if st.offset + 4 + (lengthAt st).toNat / 32 > st.data.length then some (.error badDecodingError)
      else if (allocated st).1 = false then some (.error badOutOfMemory)
      else if st.offset + 4 + (lengthAt st).toNat > st.data.length then some (.error badDecodingError)
      else some (.ok (some (textAt st (lengthAt st).toNat), st.offset + 4 + (lengthAt st).toNat)) := by
  rw [byteArrayDecodeBinary, Readers.map, andThen, andThen, int32_eq]
  by_cases hlength : st.offset + 4 > st.data.length
  · rw [if_pos hlength, if_pos hlength]
    rfl
  rw [if_neg hlength, if_neg hlength]
  have hsize : TypeTable.byte.memSize * (lengthAt st).toNat = (lengthAt st).toNat := Nat.one_mul _
  have hzero : zeroCopyable TypeTable.byte = true := rfl
  obtain ⟨hdata, hoffset⟩ := allocated_rest (st.advance 4)
  dsimp only
  rw [arrayDecode_eq hzero, hsize, allocated_advance]
  by_cases hnull : lengthAt st ≤ 0
  · rw [if_pos hnull, if_pos hnull]
    by_cases hempty : lengthAt st = 0
    · rw [if_pos hempty, if_pos hempty]
      exact congrArg (fun bs => some (Except.ok (some bs, st.offset + 4))) bytesOf_nil
    · rw [if_neg hempty, if_neg hempty]
      rfl
  rw [if_neg hnull, if_neg hnull]
  by_cases hmax : (lengthAt st).toNat > maxArraySize
  · rw [if_pos hmax, if_pos hmax]
    rfl
  rw [if_neg hmax, if_neg hmax]
  have hfilter : ((st.advance 4).offset + (lengthAt st).toNat / 32 > (st.advance 4).data.length) =
      (st.offset + 4 + (lengthAt st).toNat / 32 > st.data.length) := rfl
  have hbytes : ((st.advance 4).offset + (lengthAt st).toNat > (st.advance 4).data.length) =
      (st.offset + 4 + (lengthAt st).toNat > st.data.length) := rfl
  simp only [hfilter, hbytes]
  by_cases hsmall : st.offset + 4 + (lengthAt st).toNat / 32 > st.data.length
  · rw [if_pos hsmall, if_pos hsmall]
    rfl
  rw [if_neg hsmall, if_neg hsmall]
  by_cases hmemory : (allocated st).1 = false
  · rw [if_pos hmemory, if_pos hmemory]
    rfl
  rw [if_neg hmemory, if_neg hmemory]
  by_cases hshort : st.offset + 4 + (lengthAt st).toNat > st.data.length
  · rw [if_pos hshort, if_pos hshort]
    rfl
  rw [if_neg hshort, if_neg hshort]
  have hlen : (textAt st (lengthAt st).toNat).length = (lengthAt st).toNat := by
    rw [textAt, List.length_take, List.length_drop]
    omega
  have htext := bytesOf_ofImages (numericId 0 3) (textAt st (lengthAt st).toNat)
  rw [hlen] at htext
  change some (Except.ok (some (bytesOf (ofImages (.simple (numericId 0 3) .byte) (lengthAt st).toNat
    (textAt st (lengthAt st).toNat))), (allocated (st.advance 4)).2.offset + (lengthAt st).toNat)) = _
  rw [htext, hoffset]
  rfl

theorem string_returned (st : Dec) :
    returned (stringDecodeBinary st) =
      if st.offset + 4 > st.data.length then some (.error badInternalError)
      else if lengthAt st ≤ 0 then some (.ok (if lengthAt st = 0 then some [] else none, st.offset + 4))
      else if st.offset + 4 + (lengthAt st).toNat > st.data.length then some (.error badDecodingError)
      else if (allocated st).1 = false then some (.error badOutOfMemory)
      else some (.ok (some (textAt st (lengthAt st).toNat), st.offset + 4 + (lengthAt st).toNat)) := by
  rw [stringDecodeBinary, andThen, withError, int32_eq]
  by_cases hlength : st.offset + 4 > st.data.length
  · rw [if_pos hlength, if_pos hlength]
    rfl
  rw [if_neg hlength, if_neg hlength]
  dsimp only
  by_cases hnull : lengthAt st ≤ 0
  · rw [if_pos hnull, if_pos hnull]
    rfl
  rw [if_neg hnull, if_neg hnull]
  change returned (if st.offset + 4 + (lengthAt st).toNat > st.data.length then _ else _) = _
  by_cases hbytes : st.offset + 4 + (lengthAt st).toNat > st.data.length
  · rw [if_pos hbytes, if_pos hbytes]
    rfl
  rw [if_neg hbytes, if_neg hbytes, andThen, allocate_eq, allocated_advance]
  obtain ⟨hdata, hoffset⟩ := allocated_rest (st.advance 4)
  have htake : take (lengthAt st).toNat (allocated (st.advance 4)).2 =
      some (.ok (textAt st (lengthAt st).toNat), (allocated (st.advance 4)).2.advance (lengthAt st).toNat) := by
    rw [take, hdata, hoffset]
    exact if_neg hbytes
  cases (allocated st).1 with
  | false => rfl
  | true =>
      change returned (Readers.map some (take (lengthAt st).toNat) (allocated (st.advance 4)).2) = _
      rw [Readers.map, andThen, htake]
      change some (Except.ok (some (textAt st (lengthAt st).toNat),
        (allocated (st.advance 4)).2.offset + (lengthAt st).toNat)) = _
      rw [hoffset]
      rfl

/-- The length is there, and the string is neither too long for an array nor
cut off in a way that only an array notices. -/
def Readable (st : Dec) : Prop :=
  st.offset + 4 ≤ st.data.length ∧ (0 < lengthAt st →
    if (lengthAt st).toNat > maxArraySize then
      st.offset + 4 + (lengthAt st).toNat ≤ st.data.length ∧ (allocated st).1 = false
    else st.offset + 4 + (lengthAt st).toNat ≤ st.data.length ∨
      st.data.length < st.offset + 4 + (lengthAt st).toNat / 32 ∨ (allocated st).1 = true)

theorem returned_string_iff (st : Dec) :
    returned (byteArrayDecodeBinary st) = returned (stringDecodeBinary st) ↔ Readable st := by
  have hcodes : badDecodingError ≠ badInternalError ∧ badOutOfMemory ≠ badDecodingError := by decide
  rw [byteArray_returned, string_returned, Readable]
  by_cases hlength : st.offset + 4 > st.data.length
  · rw [if_pos hlength, if_pos hlength]
    refine ⟨fun h => ?_, fun h => by omega⟩
    exact absurd (Except.error.inj (Option.some.inj h)) hcodes.1
  rw [if_neg hlength, if_neg hlength]
  by_cases hnull : lengthAt st ≤ 0
  · rw [if_pos hnull, if_pos hnull]
    exact ⟨fun _ => ⟨by omega, fun hpos => by omega⟩, fun _ => rfl⟩
  rw [if_neg hnull, if_neg hnull]
  have hrest : ∀ p : Prop, (st.offset + 4 ≤ st.data.length ∧ (0 < lengthAt st → p)) ↔ p := fun p =>
    ⟨fun h => h.2 (by omega), fun h => ⟨by omega, fun _ => h⟩⟩
  rw [hrest]
  by_cases hmax : (lengthAt st).toNat > maxArraySize
  · rw [if_pos hmax, if_pos hmax]
    by_cases hshort : st.offset + 4 + (lengthAt st).toNat > st.data.length
    · rw [if_pos hshort]
      refine ⟨fun h => ?_, fun h => by omega⟩
      exact absurd (Except.error.inj (Option.some.inj h)) hcodes.2
    · rw [if_neg hshort]
      by_cases hmemory : (allocated st).1 = false
      · rw [if_pos hmemory]
        exact ⟨fun _ => ⟨by omega, hmemory⟩, fun _ => rfl⟩
      · rw [if_neg hmemory]
        exact ⟨fun h => by simp at h, fun h => absurd h.2 hmemory⟩
  rw [if_neg hmax, if_neg hmax]
  by_cases hfilter : st.offset + 4 + (lengthAt st).toNat / 32 > st.data.length
  · rw [if_pos hfilter, if_pos (by omega)]
    exact ⟨fun _ => .inr (.inl hfilter), fun _ => rfl⟩
  rw [if_neg hfilter]
  by_cases hshort : st.offset + 4 + (lengthAt st).toNat > st.data.length
  · rw [if_pos hshort, if_pos hshort]
    cases hmemory : (allocated st).1 with
    | false =>
        rw [if_pos rfl]
        refine ⟨fun h => ?_, fun h => ?_⟩
        · exact absurd (Except.error.inj (Option.some.inj h)) hcodes.2
        · rcases h with h | h | h
          · omega
          · omega
          · cases h
    | true =>
        rw [if_neg (by simp)]
        exact ⟨fun _ => .inr (.inr rfl), fun _ => rfl⟩
  · rw [if_neg hshort, if_neg hshort]
    exact ⟨fun _ => .inl (by omega), fun _ => rfl⟩

end Decoding

section Types

def isText : DataType → Bool
  | .simple _ b => [Builtin.string, .byteString, .xmlElement].contains b
  | _ => false

/-- The types whose codec writes something else than their members. -/
def ownFormat : DataType → Bool
  | .simple _ b => [Builtin.expandedNodeId, .localizedText].contains b
  | _ => false

def textOf : {t : DataType} → Val t → UaString
  | _, .simple (b := .string) x | _, .simple (b := .byteString) x | _, .simple (b := .xmlElement) x => x
  | _, _ => none

theorem encode_of_direct {t : DataType} (h : rerouted t = false) (v : Val t) : uaEncodeBinary v = encodeBinary v := by
  cases v with
  | @simple typeId b x =>
      cases b <;> first | rfl | cases h
  | _ => rfl

theorem decode_of_direct {t : DataType} (h : rerouted t = false) (fuel : Nat) :
    uaDecodeBinary fuel t = decodeBinary fuel t := by
  cases t with
  | simple typeId b =>
      cases b <;> first | rfl | cases h
  | _ => rfl

theorem sameBytes_text_iff {t : DataType} (h : isText t = true) (v : Val t) (st : Enc) :
    SameBytes (uaEncodeBinary v st) (encodeBinary v st) ↔ Fits (textOf v) st := by
  cases v with
  | @simple typeId b x =>
      cases b <;> first | exact sameBytes_string_iff x st | cases h
  | _ => cases h

/-- The values of the text types are the strings whose empty ones have the
sentinel for a pointer. -/
theorem pointed_text {t : DataType} (h : isText t = true) {x : Pointed} {v : Val t} (hv : textOf v = x.string) :
    encodeBinary v = x.encodeBinary ∧ (x ≠ .pointer [] → uaEncodeBinary v = x.uaEncodeBinary) ∧
      ∀ st, SameBytes (x.uaEncodeBinary st) (x.encodeBinary st) ↔ x.Fits st := by
  have hentry : encodeBinary v = stringEncodeBinary (textOf v) ∧ uaEncodeBinary v = bytesEncodeBinary (textOf v) := by
    cases v with
    | @simple typeId b y =>
        cases b with
        | string | byteString | xmlElement => exact ⟨rfl, rfl⟩
        | _ => cases h
    | _ => cases h
  rw [hv] at hentry
  exact ⟨hentry.1, fun hne => hentry.2.trans (Pointed.uaEncodeBinary_of_ne hne).symm, Pointed.sameBytes_iff x⟩

theorem returned_map {β : Type} (f : α → β) (d : DecM α) (st : Dec) :
    returned (Readers.map f d st) = (returned (d st)).map (fun r => r.map (fun p => (f p.1, p.2))) := by
  rw [Readers.map, andThen]
  cases d st with
  | none => rfl
  | some x =>
      obtain ⟨r, st'⟩ := x
      cases r <;> rfl

theorem returned_map_iff {β : Type} {f : α → β} (hf : Function.Injective f) (d e : DecM α) (st : Dec) :
    returned (Readers.map f d st) = returned (Readers.map f e st) ↔ returned (d st) = returned (e st) := by
  rw [returned_map, returned_map]
  refine ⟨fun h => Option.map_injective ?_ h, fun h => by rw [h]⟩
  intro r r' heq
  cases r with
  | error code =>
      cases r' with
      | error code' => exact congrArg _ (Except.error.inj heq)
      | ok p => cases heq
  | ok p =>
      cases r' with
      | error code => cases heq
      | ok p' =>
          obtain ⟨hvalue, hoffset⟩ := Prod.mk.inj (Except.ok.inj heq)
          rw [Prod.ext (hf hvalue) hoffset]

theorem returned_text_iff {t : DataType} (h : isText t = true) (fuel : Nat) (st : Dec) :
    returned (uaDecodeBinary (fuel + 1) t st) = returned (decodeBinary (fuel + 1) t st) ↔ Readable st := by
  cases t with
  | simple typeId b =>
      cases b <;> first
        | exact (returned_map_iff (fun _ _ => Val.simple.inj) _ _ st).trans (returned_string_iff st)
        | cases h
  | _ => cases h

theorem isText_or_ownFormat {t : DataType} (h : rerouted t = true) : isText t = true ∨ ownFormat t = true := by
  cases t with
  | simple typeId b =>
      cases b <;> first | exact .inl rfl | exact .inr rfl | cases h
  | _ => cases h

/-- A text with a mask has one byte more, and four less for each null
string. -/
theorem localizedText_wire_ne (x : LocalizedText) :
    wire (localizedTextProg x) ≠ wire (.seq (stringProg x.locale) (stringProg x.text)) := by
  intro h
  have hlength := congrArg List.length h
  have hmask : (wire (plain [localizedTextMask x])).length = 1 := rfl
  obtain ⟨hlocale, htext⟩ := localizedText_flags x
  simp only [localizedTextProg, wire, List.length_append, length_optionally, hlocale, htext, hmask,
    wire_stringProg_length] at hlength
  have hnull : ∀ s : UaString, (if s.isSome then 4 + s.length else 0) = 4 + s.length ∨
      (if s.isSome then 4 + s.length else 0) = 0 ∧ s.length = 0 := by
    intro s
    cases s with
    | none => exact .inr ⟨rfl, rfl⟩
    | some bytes => exact .inl rfl
  have hfirst := hnull x.locale
  have hsecond := hnull x.text
  omega

theorem expandedNodeId_wire_ne (x : ExpandedNodeId) :
    wire (expandedNodeIdProg x) ≠ wire (.seq (nodeIdProg x.nodeId)
      (.seq (stringProg x.namespaceUri) (plain (toBytes 4 x.serverIndex.toNat)))) := by
  intro h
  obtain ⟨tag, w, hw, htag⟩ := wire_nodeIdProg x.nodeId
  have hunflagged : ∀ tag ∈ [(0 : UInt8), 1, 2, 3, 4, 5], flagged tag 0x80 = false ∧ flagged tag 0x40 = false := by
    decide +kernel
  obtain ⟨huri, hserver, -⟩ := expandedFlags_spec htag (x.namespaceUri.length > 0) (x.serverIndex > 0)
  rw [wire_expandedNodeIdProg x hw, wire, hw, List.cons_append, List.cons.injEq] at h
  obtain ⟨hfirst, hrest⟩ := h
  rw [hfirst, (hunflagged tag htag).1] at huri
  rw [hfirst, (hunflagged tag htag).2] at hserver
  rw [← huri, ← hserver, wire, List.append_cancel_left_eq] at hrest
  have hlength := congrArg List.length hrest
  rw [List.length_append, List.length_append, wire_stringProg_length] at hlength
  have hnone : ∀ p, (wire (Prog.optionally false p)).length = 0 := fun _ => rfl
  rw [hnone, hnone] at hlength
  omega

theorem ownFormat_differs {t : DataType} (h : ownFormat t = true) (v : Val t) : ∃ n, ∀ st : Enc,
    st.offset + n ≤ st.data.length → st.data.length ≤ 4294967296 ∨ Untagged (valProg v) →
    ¬ SameBytes (uaEncodeBinary v st) (encodeBinary v st) := by
  have hdiffers : wire (uaProg v) ≠ wire (valProg v) ∧ Encodable (uaProg v) ∧ Untagged (uaProg v) ∧
      Encodable (valProg v) := by
    cases v with
    | @simple typeId b x =>
        have hentry : Encodable (valProg (.simple x : Val (.simple typeId b))) := by
          rw [valProg]
          exact (encodable_simpleProg b x).1
        cases b with
        | expandedNodeId =>
            have hid := encodable_nodeIdProg x.nodeId
            have huri := encodable_stringProg x.namespaceUri
            refine ⟨?_, ⟨hid.1, huri.1, trivial⟩, ⟨hid.2, huri.2, trivial⟩, hentry⟩
            rw [valProg]
            exact (expandedNodeId_wire_ne x).symm
        | localizedText =>
            have hlocale := encodable_stringProg x.locale
            have htext := encodable_stringProg x.text
            refine ⟨?_, ⟨hlocale.1, htext.1⟩, ⟨hlocale.2, htext.2⟩, hentry⟩
            rw [valProg]
            exact (localizedText_wire_ne x).symm
        | _ => cases h
    | _ => cases h
  obtain ⟨hne, hdirect, huntagged, hentry⟩ := hdiffers
  refine ⟨(wire (uaProg v)).length + (wire (valProg v)).length, fun st hroom hlimit hsame => hne ?_⟩
  rw [uaEncodeBinary_run, encodeBinary_run] at hsame
  refine wire_eq_of_sameBytes (run_writes _ hdirect (.inr huntagged))
    (run_writes _ hentry hlimit) (by omega) (by omega) (le_refl _) hsame

theorem withRoom_iff (t : DataType) : EncodesAlikeWithRoom t ↔ ownFormat t = false := by
  constructor
  · intro h
    cases hown : ownFormat t with
    | false => rfl
    | true =>
        -- a value without any flag, so that the size of the buffer does not matter
        obtain ⟨v, hv⟩ : ∃ v : Val t, Untagged (valProg v) := by
          cases t with
          | simple typeId b =>
              cases b with
              | expandedNodeId =>
                  refine ⟨.simple (b := .expandedNodeId) ⟨numericId 0 0, none, 0⟩, ?_⟩
                  rw [valProg]
                  exact ⟨(encodable_nodeIdProg (numericId 0 0)).2, rfl⟩
              | localizedText =>
                  refine ⟨.simple (b := .localizedText) ⟨none, none⟩, ?_⟩
                  rw [valProg]
                  exact (encodable_localizedTextProg ⟨none, none⟩).2
              | _ => cases hown
          | _ => cases hown
        obtain ⟨n, hsame⟩ := h v
        obtain ⟨n', hdiffers⟩ := ownFormat_differs hown v
        let st : Enc := ⟨List.replicate (n + n') 0, 0, []⟩
        have hlength : st.data.length = n + n' := List.length_replicate
        exact absurd (hsame st (by change 0 + n ≤ _; omega)) (hdiffers st (by change 0 + n' ≤ _; omega) (.inr hv))
  · intro hown v
    cases hrerouted : rerouted t with
    | false =>
        refine ⟨0, fun st _ => ?_⟩
        rw [encode_of_direct hrerouted]
        exact SameBytes.refl _
    | true =>
        have htext := (isText_or_ownFormat hrerouted).resolve_right (by rw [hown]; simp)
        refine ⟨4 + (textOf v).length, fun st hroom => (sameBytes_text_iff htext v st).mpr ?_⟩
        exact .inr (.inl (by omega))

theorem encodesAlike_iff (t : DataType) : EncodesAlike t ↔ rerouted t = false := by
  constructor
  · intro h
    cases hrerouted : rerouted t with
    | false => rfl
    | true =>
        rcases isText_or_ownFormat hrerouted with htext | hown
        · have hsmall : ∃ v : Val t, textOf v = some [0] := by
            cases t with
            | simple typeId b =>
                cases b with
                | string => exact ⟨.simple (b := .string) (some [0]), rfl⟩
                | byteString => exact ⟨.simple (b := .byteString) (some [0]), rfl⟩
                | xmlElement => exact ⟨.simple (b := .xmlElement) (some [0]), rfl⟩
                | _ => cases htext
            | _ => cases htext
          obtain ⟨v, hv⟩ := hsmall
          have hfits := (sameBytes_text_iff htext v ⟨[0, 0, 0, 0], 0, []⟩).mp (h v _)
          rw [hv] at hfits
          exact absurd hfits (by unfold Fits; decide)
        · rw [(withRoom_iff t).mp (fun v => ⟨0, fun st _ => h v st⟩)] at hown
          cases hown
  · intro hrerouted v st
    rw [encode_of_direct hrerouted]
    exact SameBytes.refl _

theorem decodesAlike_iff (t : DataType) : DecodesAlike t ↔ rerouted t = false := by
  constructor
  · intro h
    cases hrerouted : rerouted t with
    | false => rfl
    | true =>
        rcases isText_or_ownFormat hrerouted with htext | hown
        · have hreadable := (returned_text_iff htext 0 ⟨[], 0, [], []⟩).mp (h 0 _)
          exact absurd hreadable.1 (by decide)
        · cases t with
          | simple typeId b =>
              cases b with
              | expandedNodeId =>
                  have hstatus := congrArg (Option.map Except.isOk) (h 0 ⟨[0, 0], 0, [], []⟩)
                  cases hstatus
              | localizedText =>
                  have hstatus := congrArg (Option.map Except.isOk) (h 0 ⟨[0], 0, [], []⟩)
                  cases hstatus
              | _ => cases hown
          | _ => cases hown
  · intro hrerouted fuel st
    rw [decode_of_direct hrerouted]

/-- `UA_encodeBinary` and `UA_decodeBinary` do what the jump tables do for
every type but five. For an ExpandedNodeId or a LocalizedText they have
another format. For a string they differ when the buffer is too small or the
message is cut off, and when an ordinary pointer has no bytes behind it. -/
theorem uaBinary_agrees_iff (t : DataType) :
    (EncodesAlike t ↔ rerouted t = false) ∧ (DecodesAlike t ↔ rerouted t = false) ∧
      (EncodesAlikeWithRoom t ↔ ownFormat t = false) ∧
      (isText t = true →
        (∀ (v : Val t) st, SameBytes (uaEncodeBinary v st) (encodeBinary v st) ↔ Fits (textOf v) st) ∧
          (∀ (x : Pointed) (v : Val t), textOf v = x.string →
            encodeBinary v = x.encodeBinary ∧ (x ≠ .pointer [] → uaEncodeBinary v = x.uaEncodeBinary) ∧
              ∀ st, SameBytes (x.uaEncodeBinary st) (x.encodeBinary st) ↔ x.Fits st) ∧
          ∀ fuel st, returned (uaDecodeBinary (fuel + 1) t st) = returned (decodeBinary (fuel + 1) t st) ↔
            Readable st) :=
  ⟨encodesAlike_iff t, decodesAlike_iff t, withRoom_iff t,
    fun h => ⟨sameBytes_text_iff h, fun _ _ hv => pointed_text h hv, returned_text_iff h⟩⟩

def sampleText : Val TypeTable.string := .simple (b := .string) (some [104, 105])

theorem uaBinary_agrees_sampleText :
    isText TypeTable.string = true ∧
      SameBytes (uaEncodeBinary sampleText ⟨List.replicate 6 0, 0, []⟩)
        (encodeBinary sampleText ⟨List.replicate 6 0, 0, []⟩) :=
  ⟨rfl, (((uaBinary_agrees_iff TypeTable.string).2.2.2 rfl).1 sampleText ⟨List.replicate 6 0, 0, []⟩).mpr
    (.inr (.inl (by decide)))⟩

def sampleNullText : Val TypeTable.localizedText := .simple (b := .localizedText) ⟨none, none⟩

/-- The null text takes eight bytes or one, and the byte 0 is that text or
cannot be decoded. -/
theorem uaBinary_differs :
    (uaEncodeBinary sampleNullText ⟨List.replicate 16 0, 0, []⟩).2.offset = 8 ∧
      (encodeBinary sampleNullText ⟨List.replicate 16 0, 0, []⟩).2.offset = 1 ∧
      ¬ EncodesAlike TypeTable.localizedText ∧
      (returned (uaDecodeBinary 1 TypeTable.localizedText ⟨[0], 0, [], []⟩)).map Except.isOk = some false ∧
      (returned (decodeBinary 1 TypeTable.localizedText ⟨[0], 0, [], []⟩)).map Except.isOk = some true ∧
      ¬ DecodesAlike TypeTable.localizedText := by
  have hdirect : (uaEncodeBinary sampleNullText ⟨List.replicate 16 0, 0, []⟩).2.offset = 8 := by decide +kernel
  have hentry : (encodeBinary sampleNullText ⟨List.replicate 16 0, 0, []⟩).2.offset = 1 := by decide +kernel
  have hfails : (returned (uaDecodeBinary 1 TypeTable.localizedText ⟨[0], 0, [], []⟩)).map Except.isOk =
    some false := rfl
  have hreads : (returned (decodeBinary 1 TypeTable.localizedText ⟨[0], 0, [], []⟩)).map Except.isOk = some true := rfl
  refine ⟨hdirect, hentry, ?_, hfails, hreads, ?_⟩
  · intro hsame
    have hoffset := (hsame sampleNullText ⟨List.replicate 16 0, 0, []⟩).2.2
    rw [hdirect, hentry] at hoffset
    cases hoffset
  · intro hsame
    rw [hsame 0, hreads] at hfails
    cases hfails

end Types

end OpcUa.EntryPoints
