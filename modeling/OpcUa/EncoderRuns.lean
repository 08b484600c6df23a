import OpcUa.EncoderPrograms
import OpcUa.WriteBounds

namespace OpcUa.EncoderRuns

open StatusCodes LittleEndian NodeIds DataTypes Values Writers ValueEncoding WritePrograms EncoderPrograms Buffers
open WriteBounds

theorem orThen_skip (f : EncM) : orThen f skip = f := by
  funext st
  simp [orThen, skip]

theorem skip_orThen (f : EncM) : orThen skip f = f := by
  funext st
  simp [orThen, skip]

theorem run_optionally (b : Bool) (p : Prog) : (Prog.optionally b p).run = optionally b p.run := by
  cases b <;> rfl

theorem run_seqAll (ps : List Prog) : (Prog.seqAll ps).run = all (ps.map Prog.run) := by
  induction ps with
  | nil => rfl
  | cons p ps ih => rw [Prog.seqAll, Prog.run, ih, List.map_cons, all]

theorem run_stopAll (ps : List Prog) : (Prog.stopAll ps).run = untilFailure (ps.map Prog.run) := by
  induction ps with
  | nil => rfl
  | cons p ps ih => rw [Prog.stopAll, Prog.run, ih, List.map_cons, untilFailure]

theorem emit_of_full (bytes : List UInt8) {st : Enc} (h : st.offset > st.data.length) :
    emit bytes st = (badEncodingError, st) := by
  rw [emit, if_pos (by omega)]

theorem string_run (s : UaString) : stringEncodeBinary s = (stringProg s).run := by
  have hempty : ∀ bytes st, (if st.offset + 0 > st.data.length then (badEncodingError, st)
      else emit bytes st) = emit bytes st := by
    intro bytes st
    split
    · rename_i h
      exact (emit_of_full bytes h).symm
    · rfl
  funext st
  match s with
  | none => exact hempty nullLengthBytes st
  | some [] => exact hempty (lengthBytes 0) st
  | some (b :: bs) => rfl

theorem guid_run (g : Guid) : guidEncodeBinary g = (guidProg g).run := by
  simp only [guidProg, Prog.run, run_seqAll, List.map_map]
  rfl

theorem nodeId_run (n : NodeId) : nodeIdEncodeBinary n = (nodeIdProg n).run := by
  obtain ⟨ns, identifier⟩ := n
  cases identifier with
  | numeric i =>
      simp only [nodeIdEncodeBinary, nodeIdProg]
      split
      · rfl
      · split <;> rfl
  | string s => simp only [nodeIdEncodeBinary, nodeIdProg, string_run]; rfl
  | guid g => simp only [nodeIdEncodeBinary, nodeIdProg, guid_run]; rfl
  | byteString b => simp only [nodeIdEncodeBinary, nodeIdProg, string_run]; rfl

theorem stringProg_of_pos {s : UaString} (h : s.length > 0) : stringProg s = .write (.text s.bytes) := by
  match s, h with
  | some (b :: bs), _ => rfl

theorem expandedOptions_run (x : ExpandedNodeId) (start : Nat) :
    runOptions start (expandedOptions x) =
      orThen
        (optionally (x.namespaceUri.length > 0)
          (orThen (stringEncodeBinary x.namespaceUri) (flagAt start namespaceUriFlag)))
        (optionally (x.serverIndex > 0)
          (orThen (uint32EncodeBinary x.serverIndex) (flagAt start serverIndexFlag))) := by
  by_cases huri : x.namespaceUri.length > 0 <;> by_cases hserver : x.serverIndex > 0 <;>
    simp only [expandedOptions, huri, hserver, if_true, if_false, decide_true, decide_false,
      optionally, string_run, List.nil_append, List.append_nil, List.cons_append, runOptions,
      orThen_skip, skip_orThen, Bool.false_eq_true]
  · rw [stringProg_of_pos huri]
    rfl
  · rw [stringProg_of_pos huri]
    rfl
  · rfl

theorem expandedNodeId_run (x : ExpandedNodeId) :
    expandedNodeIdEncodeBinary x = (expandedNodeIdProg x).run := by
  funext st
  simp only [expandedNodeIdProg, Prog.run, expandedOptions_run, ← nodeId_run]
  rfl

theorem localizedText_run (x : LocalizedText) :
    localizedTextEncodeBinary x = (localizedTextProg x).run := by
  simp only [localizedTextProg, Prog.run, run_optionally, ← string_run]
  rfl

theorem diagnosticFields_run (x : DiagnosticFields) :
    diagnosticFieldsEncodeBinary x = (diagnosticFieldsProg x).run := by
  simp only [diagnosticFieldsProg, Prog.run, run_optionally, ← string_run]
  rfl

theorem diagnosticInfo_run (x : DiagnosticInfo) :
    diagnosticInfoEncodeBinary x = (diagnosticInfoProg x).run := by
  induction x with
  | plain fields h => exact diagnosticFields_run fields
  | nested fields h inner ih =>
      rw [diagnosticInfoEncodeBinary, diagnosticInfoProg, Prog.run, ih, diagnosticFields_run]

theorem simple_run (b : Builtin) (x : b.Carrier) : simpleEncodeBinary b x = (simpleProg b x).run := by
  cases b with
  | string | byteString | xmlElement => exact string_run x
  | guid => exact guid_run x
  | nodeId => exact nodeId_run x
  | expandedNodeId => exact expandedNodeId_run x
  | localizedText => exact localizedText_run x
  | diagnosticInfo => exact diagnosticInfo_run x
  | _ => rfl

theorem length_simpleImage (b : Builtin) (x : b.Carrier) (h : b.zeroCopyable = true) :
    (simpleImage b x).length = b.memSize := by
  cases b <;> first | rfl | exact length_toBytes _ _ | cases h

mutual

theorem length_image : {t : DataType} → (v : Val t) → flat t = true → (image v).length = t.memSize
  | _, .simple (b := b) x, h => length_simpleImage b x h
  | _, .struct slots, h => by
      simp only [flat, Bool.and_eq_true, beq_iff_eq] at h
      rw [image, length_imageSlots slots h.1, DataType.memSize, h.2]

theorem length_imageSlots : {members : Members} → (slots : Slots members) →
    flatMembers members = true → (imageSlots slots).length = packedSize members
  | _, .nil, _ => rfl
  | _, .scalar v slots, h => by
      simp only [flatMembers, Bool.and_eq_true] at h
      rw [imageSlots, List.length_append, length_image v h.1, length_imageSlots slots h.2, packedSize]

end

theorem flat_of_zeroCopyable {t : DataType} (h : zeroCopyable t = true) : flat t = true := by
  cases t with
  | «structure» info members =>
      simp only [zeroCopyable, Bool.and_eq_true] at h
      exact h.2
  | _ => exact h

theorem length_imageVals {t : DataType} (h : zeroCopyable t = true) :
    (vs : Vals t) → (imageVals vs).length = t.memSize * vs.length
  | .nil => rfl
  | .cons v vs => by
      rw [imageVals, List.length_append, length_image v (flat_of_zeroCopyable h),
        length_imageVals h vs, Vals.length, Nat.mul_add, Nat.mul_one, Nat.add_comm]

theorem array_run (type : DataType) (null : Bool) {length : Nat} {bytes : List UInt8}
    (items : List Prog) (hbytes : zeroCopyable type = true → bytes.length = type.memSize * length)
    (hnull : null = true → length = 0) :
    arrayEncodeBinary type null length bytes (items.map Prog.run) =
      (arrayProg type (if null then nullLengthBytes else lengthBytes length) bytes items).run := by
  have hlength : (if length > 0 then lengthBytes length
      else if null then nullLengthBytes else lengthBytes 0) =
      if null then nullLengthBytes else lengthBytes length := by
    cases null with
    | true => simp [hnull rfl]
    | false =>
        simp only [Bool.false_eq_true, if_false]
        split
        · rfl
        · rw [show length = 0 by omega]
  funext st
  simp only [arrayEncodeBinary, arrayProg, Prog.run, hlength]
  generalize hr : emit (if null then nullLengthBytes else lengthBytes length) st = r
  have hrun : (plain (if null then nullLengthBytes else lengthBytes length)).run st = r := hr
  rw [hrun]
  by_cases hgood : r.1 = good
  · rw [if_neg (not_not.mpr hgood), if_pos hgood]
    by_cases hzero : zeroCopyable type = true
    · rw [if_pos hzero, if_pos hzero, ← hbytes hzero]
      rfl
    · rw [if_neg hzero, if_neg hzero, run_stopAll]
  · rw [if_pos hgood, if_neg hgood]

theorem wrap_run (typeId : NodeId) (content : Prog) :
    wrapEncodeBinary typeId content.run = (wrapProg typeId content).run := by
  funext st
  simp only [wrapProg, Prog.run, ← nodeId_run]
  rfl

theorem encoded_run (typeId : NodeId) (encoding : BodyEncoding) (body : UaString) :
    encodedEncodeBinary typeId encoding body = (encodedProg typeId encoding body).run := by
  simp only [encodedProg, Prog.run, run_optionally, ← nodeId_run, ← string_run]
  rfl

theorem decoded_run (type : DataType) (content : Prog) :
    decodedEncodeBinary type content.run = (decodedProg type content).run := by
  rw [decodedEncodeBinary, decodedProg, wrap_run]
  split <;> rfl

theorem dimensions_run (dimensions : List UInt32) :
    dimensionsEncodeBinary dimensions = (dimensionsProg dimensions).run := by
  have hitems : dimensions.map uint32EncodeBinary =
      (dimensions.map (fun d => plain (toBytes 4 d.toNat))).map Prog.run := by
    rw [List.map_map]
    rfl
  have hbytes : (dimensions.flatMap (fun d => toBytes 4 d.toNat)).length =
      TypeTable.int32.memSize * dimensions.length := by
    rw [List.length_flatMap]
    simp [Nat.mul_comm, DataType.memSize, Builtin.memSize]
  rw [dimensionsEncodeBinary, hitems, array_run _ _ _ (fun _ => hbytes) (by simp)]
  rfl

theorem variant_run (type : DataType) (length : Option (List UInt8)) (items : List Prog)
    (dimensions : List UInt32) :
    variantEncodeBinary type length (items.map Prog.run) dimensions =
      (variantProg type length items dimensions).run := by
  have hitems : (if type.builtin then items.map Prog.run
      else (items.map Prog.run).map (wrapEncodeBinary type.typeId)) =
      (if type.builtin then items else items.map (wrapProg type.typeId)).map Prog.run := by
    split
    · rfl
    · rw [List.map_map, List.map_map]
      exact List.map_congr_left (fun p _ => wrap_run type.typeId p)
  simp only [variantEncodeBinary, variantProg, hitems, dimensions_run]
  split
  · rfl
  · cases length <;> simp only [Prog.run, run_seqAll, run_optionally] <;> rfl

theorem dataValue_run (fields : DataValueFields) (value : Prog) :
    dataValueEncodeBinary fields value.run = (dataValueProg fields value).run := by
  simp only [dataValueProg, Prog.run, run_optionally]
  rfl

mutual

theorem encodeBinary_run : {t : DataType} → (v : Val t) → encodeBinary v = (valProg v).run
  | _, .simple (b := b) x => by rw [encodeBinary, valProg, simple_run]
  | _, .struct slots => by rw [encodeBinary, valProg, encodeMembers_run slots]
  | _, .encoded typeId encoding body => by rw [encodeBinary, valProg, encoded_run]
  | _, .decoded nodelete type data => by
      rw [encodeBinary, valProg, encodeBinary_run data, decoded_run]
  | _, .emptyVariant => by rw [encodeBinary, valProg]; rfl
  | _, .scalarVariant type data => by
      rw [encodeBinary, valProg, encodeBinary_run data, ← variant_run]
      rfl
  | _, .arrayVariant type data dimensions => by
      rw [encodeBinary, valProg, encodeArr_run data, variant_run]
  | _, .dataValue fields value => by
      rw [encodeBinary, valProg, encodeBinary_run value, dataValue_run]

theorem encodeArr_run : {t : DataType} → (a : Arr t) → encodeArr a = (arrProgs a).map Prog.run
  | _, .null => by rw [encodeArr, arrProgs]; rfl
  | _, .items vs => by rw [encodeArr, arrProgs, encodeVals_run vs]

theorem encodeVals_run : {t : DataType} → (vs : Vals t) → encodeVals vs = (valsProgs vs).map Prog.run
  | _, .nil => by rw [encodeVals, valsProgs]; rfl
  | _, .cons v vs => by
      rw [encodeVals, valsProgs, encodeBinary_run v, encodeVals_run vs, List.map_cons]

theorem encodeMembers_run : {members : Members} → (slots : Slots members) →
    encodeMembers slots = (slotsProg slots).run
  | _, .nil => by rw [encodeMembers, slotsProg]; rfl
  | _, .scalar v slots => by
      rw [encodeMembers, slotsProg, Prog.run, encodeBinary_run v, encodeMembers_run slots]
  | _, .array (t := t) (.null) slots => by
      rw [encodeMembers, slotsProg, Prog.run, encodeMembers_run slots]
      have h : arrayEncodeBinary t true 0 [] ([].map Prog.run) = _ :=
        array_run t true [] (fun _ => rfl) (fun _ => rfl)
      rw [List.map_nil, if_pos rfl] at h
      rw [h]
  | _, .array (t := t) (.items vs) slots => by
      rw [encodeMembers, slotsProg, Prog.run, encodeMembers_run slots, encodeVals_run vs,
        array_run t false (valsProgs vs) (fun h => length_imageVals h vs) (by simp)]
      rfl

end

/-- The program of `UA_encodeBinary` on a value that is not a member. -/
def uaProg : {t : DataType} → Val t → Prog
  | _, .simple (b := .string) x | _, .simple (b := .byteString) x
  | _, .simple (b := .xmlElement) x =>
      arrayProg TypeTable.byte (if x.isNone then nullLengthBytes else lengthBytes x.length) x.bytes
        (x.bytes.map (fun byte => plain [byte]))
  | _, .simple (b := .expandedNodeId) x =>
      .seq (nodeIdProg x.nodeId) <| .seq (stringProg x.namespaceUri) <|
        plain (toBytes 4 x.serverIndex.toNat)
  | _, .simple (b := .localizedText) x => .seq (stringProg x.locale) (stringProg x.text)
  | _, v => valProg v

theorem bytes_run (x : UaString) :
    arrayEncodeBinary TypeTable.byte x.isNone x.length x.bytes (x.bytes.map byteEncodeBinary) =
      (arrayProg TypeTable.byte (if x.isNone then nullLengthBytes else lengthBytes x.length) x.bytes
        (x.bytes.map (fun byte => plain [byte]))).run := by
  have hitems : x.bytes.map byteEncodeBinary = (x.bytes.map (fun byte => plain [byte])).map Prog.run := by
    rw [List.map_map]
    rfl
  rw [hitems]
  refine array_run TypeTable.byte x.isNone _ (fun _ => ?_) (fun hnone => ?_)
  · simp [UaString.length, TypeTable.byte, DataType.memSize, Builtin.memSize]
  · cases x with
    | none => rfl
    | some bytes => cases hnone

theorem uaEncodeBinary_run {t : DataType} (v : Val t) : uaEncodeBinary v = (uaProg v).run := by
  cases v with
  | @simple _ b x =>
      cases b with
      | string | byteString | xmlElement => exact bytes_run x
      | expandedNodeId =>
          simp only [uaEncodeBinary, uaProg, Prog.run, nodeId_run, string_run]
          rfl
      | localizedText => simp only [uaEncodeBinary, uaProg, Prog.run, string_run]
      | _ => exact encodeBinary_run _
  | _ => exact encodeBinary_run _

/-- Somewhere the encoder reports success after `n` bytes. -/
def Takes (f : EncM) (n : Nat) : Prop :=
  ∃ st st', f st = (good, st') ∧ st'.offset = st.offset + n

/-- The encoder keeps to the bytes from `offset` on to the end of the buffer
and succeeds if what it has to write fits there. -/
structure Bounded (f : EncM) (data : List UInt8) (offset : Nat) : Prop where
  writes : ∀ w ∈ (f ⟨data, offset, []⟩).2.writes, InBounds offset data.length w
  offset_le : (f ⟨data, offset, []⟩).1 = good → (f ⟨data, offset, []⟩).2.offset ≤ data.length
  fits : ∀ n, Takes f n → offset + n ≤ data.length → (f ⟨data, offset, []⟩).1 = good

theorem takes_wire {p : Prog} {n : Nat} (h : Takes p.run n) {size o : Nat}
    (hroom : o + n ≤ size) : (walk size p o).1 = true := by
  obtain ⟨st, st', hrun, hoffset⟩ := h
  have heffect := effect_run (e := st) p
  rw [hrun] at heffect
  have hok := heffect.status.mp rfl
  have hn : (wire p).length = n := by
    have hend := walk_end hok
    rw [← heffect.offset, hoffset] at hend
    omega
  rw [walk_of_room hok (by rw [hn]; exact hroom)]

theorem run_bounded_iff (p : Prog) {data : List UInt8} {offset : Nat} (h : offset ≤ data.length) :
    Bounded p.run data offset ↔ Safe data.length offset p offset := by
  have heffect := effect_run (e := ⟨data, offset, []⟩) p
  obtain ⟨new, hnew, hwrites⟩ := heffect.writes
  rw [List.append_nil] at hnew
  have hsafe := hwrites offset (le_refl _)
  rw [← hnew] at hsafe
  constructor
  · intro hbounded
    exact hsafe.mp hbounded.writes
  · intro hwalk
    refine ⟨hsafe.mpr hwalk, fun hgood => ?_, fun n htakes hroom => ?_⟩
    · rw [heffect.offset]
      exact walk_le h hwalk (heffect.status.mp hgood)
    · exact heffect.status.mpr (takes_wire htakes hroom)

/-- The encoders check the room for the bytes of a string without that for
its length, and set the flags of an `ExpandedNodeId` without a check. -/
theorem encodeBinary_bounded_iff {t : DataType} (v : Val t) {data : List UInt8} {offset : Nat}
    (h : offset ≤ data.length) :
    (Bounded (encodeBinary v) data offset ↔ Safe data.length offset (valProg v) offset) ∧
      (Bounded (uaEncodeBinary v) data offset ↔ Safe data.length offset (uaProg v) offset) := by
  rw [encodeBinary_run, uaEncodeBinary_run]
  exact ⟨run_bounded_iff _ h, run_bounded_iff _ h⟩

def sampleText : Val TypeTable.localizedText :=
  .simple ⟨some [0x65, 0x6e, 0x2d, 0x55, 0x53], none⟩

theorem encodeBinary_bounded_sampleText :
    0 ≤ (List.replicate 13 (0 : UInt8)).length ∧
      Bounded (encodeBinary sampleText) (List.replicate 13 0) 0 ∧
      Bounded (uaEncodeBinary sampleText) (List.replicate 13 0) 0 := by
  obtain ⟨hjump, hmembers⟩ := encodeBinary_bounded_iff sampleText (Nat.zero_le (List.replicate 13 0).length)
  exact ⟨Nat.zero_le _, hjump.mpr (by decide), hmembers.mpr (by decide)⟩

/-- In a buffer of eight bytes the last one of the locale lies behind the
end. -/
theorem encodeBinary_leaves_buffer :
    TypeTable.localizedText ∈ TypeTable.uaTypes ∧
      ¬ Bounded (uaEncodeBinary sampleText) (List.replicate 8 0) 0 := by
  refine ⟨List.getElem_mem (l := TypeTable.uaTypes) (n := 20) (by decide +kernel), fun h => ?_⟩
  rw [uaEncodeBinary_run, run_bounded_iff _ (Nat.zero_le _)] at h
  exact absurd h (by decide)

end OpcUa.EncoderRuns
