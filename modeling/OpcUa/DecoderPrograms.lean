import OpcUa.ReadPrograms
import OpcUa.ValueDecoding

namespace OpcUa.DecoderPrograms

open StatusCodes LittleEndian NodeIds DataTypes Values Decoding ValueDecoding ReadPrograms
open ReadPrograms.Prog

def byteProg : Prog UInt8 := map (fun bs => UInt8.ofNat (ofBytes bs)) (bytes 1)

def uint16Prog : Prog UInt16 := map (fun bs => UInt16.ofNat (ofBytes bs)) (bytes 2)

def uint32Prog : Prog UInt32 := map (fun bs => UInt32.ofNat (ofBytes bs)) (bytes 4)

def uint64Prog : Prog UInt64 := map (fun bs => UInt64.ofNat (ofBytes bs)) (bytes 8)

def int32Prog : Prog Int := map (fun x => toInt32 x.toNat) uint32Prog

def stringProg : Prog UaString :=
  andThen (withError badInternalError int32Prog) fun signedLength =>
    if signedLength ≤ 0 then succeed (if signedLength = 0 then some [] else none)
    else within signedLength.toNat (andThen memory (fun _ => map some (bytes signedLength.toNat)))

def bytesProg : Nat → Prog (List UInt8)
  | 0 => succeed []
  | n + 1 => map (fun p => p.1 :: p.2) (both byteProg (bytesProg n))

def guidProg : Prog Guid :=
  map guidOf (both uint32Prog (both uint16Prog (both uint16Prog (bytesProg 8))))

def nodeIdBodyProg (encodingByte : UInt8) : Prog NodeId :=
  if encodingByte = 0 then map (fun b => numericId 0 b.toUInt32) byteProg
  else if encodingByte = 1 then map (fun p => numericId p.1.toUInt16 p.2.toUInt32) (both byteProg uint16Prog)
  else if encodingByte = 2 then map (fun p => numericId p.1 p.2) (both uint16Prog uint32Prog)
  else if encodingByte = 3 then map (fun p => ⟨p.1, .string p.2⟩) (both uint16Prog stringProg)
  else if encodingByte = 4 then map (fun p => ⟨p.1, .guid p.2⟩) (both uint16Prog guidProg)
  else if encodingByte = 5 then map (fun p => ⟨p.1, .byteString p.2⟩) (both uint16Prog stringProg)
  else fail badInternalError

def nodeIdProg : Prog NodeId := andThen byteProg nodeIdBodyProg

def expandedNodeIdFieldsProg (encodingByte : UInt8) : Prog ExpandedNodeId :=
  map (fun p => ⟨if flagged encodingByte 0x80 then { p.1 with namespaceIndex := 0 } else p.1,
      p.2.1, p.2.2⟩)
    (both nodeIdProg (both (whenFlagged (flagged encodingByte 0x80) none stringProg)
      (whenFlagged (flagged encodingByte 0x40) 0 uint32Prog)))

def expandedNodeIdProg : Prog ExpandedNodeId := within 1 (flags expandedNodeIdFieldsProg)

def localizedTextProg : Prog LocalizedText :=
  andThen byteProg fun mask =>
    map (fun p => ⟨p.1, p.2⟩) (both (whenFlagged (flagged mask 1) none stringProg)
      (whenFlagged (flagged mask 2) none stringProg))

def diagnosticFieldsProg (mask : UInt8) : Prog DiagnosticFields :=
  map (fun p => ⟨mask, p.1, p.2.1, p.2.2.1, p.2.2.2.1, p.2.2.2.2.1, p.2.2.2.2.2⟩)
    (both (whenFlagged (flagged mask 0x01) 0 uint32Prog)
      (both (whenFlagged (flagged mask 0x02) 0 uint32Prog)
        (both (whenFlagged (flagged mask 0x04) 0 uint32Prog)
          (both (whenFlagged (flagged mask 0x08) 0 uint32Prog)
            (both (whenFlagged (flagged mask 0x10) none stringProg)
              (whenFlagged (flagged mask 0x20) 0 uint32Prog))))))

theorem noInner (mask : UInt8) (h : ¬ hasInner mask = true) : hasInner mask = false := eq_false_of_ne_true h

def diagnosticInfoProg : Nat → Prog DiagnosticInfo
  | 0 => stuck
  | fuel + 1 => andThen byteProg fun mask =>
      if h : hasInner mask = true then
        map (fun p => .nested { p.1 with mask := mask } h p.2)
          (both (diagnosticFieldsProg mask) (andThen memory (fun _ => diagnosticInfoProg fuel)))
      else
        map (fun fields => .plain { fields with mask := mask } (noInner mask h)) (diagnosticFieldsProg mask)

def simpleProg (fuel : Nat) : (b : Builtin) → Prog b.Carrier
  | .boolean => map (fun b => if b > 0 then 1 else 0) byteProg
  | .sbyte | .byte => byteProg
  | .int16 | .uint16 => uint16Prog
  | .int32 | .uint32 | .float | .statusCode => uint32Prog
  | .int64 | .uint64 | .double | .dateTime => uint64Prog
  | .string | .byteString | .xmlElement => stringProg
  | .guid => guidProg
  | .nodeId => nodeIdProg
  | .expandedNodeId => expandedNodeIdProg
  | .localizedText => localizedTextProg
  | .diagnosticInfo => diagnosticInfoProg fuel

def itemsProg {t : DataType} (item : Prog (Val t)) : Nat → Prog (Vals t)
  | 0 => succeed .nil
  | n + 1 => andThen item (fun v => map (Vals.cons v) (itemsProg item n))

def arrayProg (t : DataType) (item : Prog (Val t)) (signedLength : Int) : Prog (Arr t) :=
  if signedLength ≤ 0 then succeed (if signedLength = 0 then .items .nil else .null)
  else if t.memSize * signedLength.toNat > maxArraySize then fail badOutOfMemory
  else within (t.memSize * signedLength.toNat / 32) (andThen memory (fun _ =>
    if zeroCopyable t then
      map (fun bytes => .items (ofImages t signedLength.toNat bytes)) (bytes (t.memSize * signedLength.toNat))
    else map Arr.items (itemsProg item signedLength.toNat)))

def headerProg : Prog (NodeId × UInt8) :=
  offset fun start => peek start fun kind => (both nodeIdProg byteProg).bind fun
    | .error code => fail (if kind > 5 then code else badDecodingError)
    | .ok (typeId, encoding) =>
        if typeId.namespaceIndex ≠ 0 ∨ typeId.identifier.isNumeric = false then fail badDecodingError
        else succeed (typeId, encoding)

def contentProg (jump : (t : DataType) → Prog (Val t)) (typeId : NodeId) : Prog (Val .extensionObject) :=
  offset fun start => andThen int32Prog fun length =>
    match TypeTable.findDataType (contentId typeId) with
    | some type => (andThen memory (fun _ => jump type)).bind fun r => offset fun now =>
        if (now : Int) ≠ start + 4 + length then fail badDecodingError
        else done (r.map (Val.decoded false type))
    | none => seek start (map (fun body => .encoded (contentId typeId) .byteString body) stringProg)

def extensionObjectProg (jump : (t : DataType) → Prog (Val t)) : Prog (Val .extensionObject) :=
  andThen headerProg fun (typeId, encoding) =>
    if encoding = 0 then succeed (.encoded typeId .nobody none)
    else if encoding = 2 then map (fun body => .encoded typeId .xml body) stringProg
    else contentProg jump typeId

def dimensionsProg (jump : (t : DataType) → Prog (Val t)) (signedLength : Int) : Prog (List UInt32) :=
  map dimensionsOf (arrayProg TypeTable.int32 (jump TypeTable.int32) signedLength)

def arrayVariantProg (jump : (t : DataType) → Prog (Val t)) (type : DataType) (hasDimensions : Bool) :
    Prog (Val .variant) :=
  andThen int32Prog fun signedLength =>
    if hasDimensions then
      andThen (both (arrayProg type (jump type) signedLength) int32Prog) fun (data, dimensions) =>
        map (fun ds => .arrayVariant type data ds) (dimensionsProg jump dimensions)
    else map (fun data => .arrayVariant type data []) (arrayProg type (jump type) signedLength)

def objectVariantProg (jump : (t : DataType) → Prog (Val t)) : Prog (Val .variant) :=
  offset fun start =>
    (andThen nodeIdProg (fun typeId => map (Prod.mk typeId) byteProg)).bind fun
    | .error code => seek start (fail code)
    | .ok (typeId, encoding) =>
        match if typeId.namespaceIndex = 0 ∧ encoding = (1 : UInt8) then TypeTable.findDataType typeId else none with
        | some type => andThen memory (fun _ => map (Val.scalarVariant type) (jump type))
        | none => seek start
            (andThen memory (fun _ => map (Val.scalarVariant .extensionObject) (jump .extensionObject)))

def variantProg (jump : (t : DataType) → Prog (Val t)) : Prog (Val .variant) :=
  andThen byteProg fun encodingByte =>
    let index := (encodingByte &&& 0x3f).toNat
    if index = 0 ∨ index > 25 then fail badDecodingError
    else
      let type := TypeTable.uaTypes.getD (index - 1) .extensionObject
      if flagged encodingByte 0x80 then arrayVariantProg jump type (flagged encodingByte 0x40)
      else if index - 1 ≠ 21 then map scalarOf (arrayProg type (jump type) 1)
      else objectVariantProg jump

def dataValueProg (variant : Prog (Val .variant)) : Prog (Val .dataValue) :=
  andThen byteProg fun mask =>
    map (fun p => .dataValue ⟨mask, p.2.1, p.2.2.1, clampPicoseconds p.2.2.2.1, p.2.2.2.2.1,
        clampPicoseconds p.2.2.2.2.2⟩ p.1)
      (both (whenFlagged (flagged mask 0x01) .emptyVariant variant)
        (both (whenFlagged (flagged mask 0x02) 0 uint32Prog)
          (both (whenFlagged (flagged mask 0x04) 0 uint64Prog)
            (both (whenFlagged (flagged mask 0x10) 0 uint16Prog)
              (both (whenFlagged (flagged mask 0x08) 0 uint64Prog)
                (whenFlagged (flagged mask 0x20) 0 uint16Prog))))))

mutual

def typeProg (fuel : Nat) (jump : (t : DataType) → Prog (Val t)) : (t : DataType) → Prog (Val t)
  | .simple _ b => map Val.simple (simpleProg fuel b)
  | .extensionObject => extensionObjectProg jump
  | .dataValue => dataValueProg (variantProg jump)
  | .variant => variantProg jump
  | .structure _ members => map Val.struct (membersProg fuel jump members)

def membersProg (fuel : Nat) (jump : (t : DataType) → Prog (Val t)) : (members : Members) → Prog (Slots members)
  | .nil => succeed .nil
  | .scalar t rest => map (fun p => .scalar p.1 p.2) (both (typeProg fuel jump t) (membersProg fuel jump rest))
  | .array t rest => map (fun p => .array p.1 p.2)
      (both (andThen int32Prog (arrayProg t (typeProg fuel jump t))) (membersProg fuel jump rest))

end

def decodeProg : Nat → (t : DataType) → Prog (Val t)
  | 0, _ => stuck
  | fuel + 1, t => typeProg (fuel + 1) (decodeProg fuel) t

def byteArrayProg : Prog UaString :=
  map stringOf (andThen int32Prog (arrayProg TypeTable.byte (map Val.simple byteProg)))

/-- The program of `UA_decodeBinary`. -/
def uaDecodeProg (fuel : Nat) : (t : DataType) → Prog (Val t)
  | .simple _ .string | .simple _ .byteString | .simple _ .xmlElement => map Val.simple byteArrayProg
  | .simple _ .expandedNodeId =>
      map (fun p => .simple (b := .expandedNodeId) ⟨p.1, p.2.1, p.2.2⟩)
        (both nodeIdProg (both stringProg uint32Prog))
  | .simple _ .localizedText =>
      map (fun p => .simple (b := .localizedText) ⟨p.1, p.2⟩) (both stringProg stringProg)
  | t => decodeProg fuel t

section Runs

@[simp] theorem byte_run : byteProg.run = byteDecodeBinary := run_map _ _

@[simp] theorem uint16_run : uint16Prog.run = uint16DecodeBinary := run_map _ _

@[simp] theorem uint32_run : uint32Prog.run = uint32DecodeBinary := run_map _ _

@[simp] theorem uint64_run : uint64Prog.run = uint64DecodeBinary := run_map _ _

@[simp] theorem int32_run : int32Prog.run = int32DecodeBinary := by
  rw [int32Prog, run_map, uint32_run]
  rfl

@[simp] theorem string_run : stringProg.run = stringDecodeBinary := by
  rw [stringProg, run_andThen, run_withError, int32_run, stringDecodeBinary]
  congr 1
  funext signedLength st
  split
  · rfl
  · rw [within, run]
    by_cases h : st.offset + signedLength.toNat ≤ st.data.length
    · rw [decide_eq_true h, if_pos rfl, if_neg (not_lt.mpr h), run_andThen, run_memory]
      simp only [run_map, run_bytes]
    · rw [decide_eq_false h, if_pos (not_le.mp h)]
      rfl

@[simp] theorem bytes_run (n : Nat) : (bytesProg n).run = bytesDecodeBinary n := by
  induction n with
  | zero => rfl
  | succ n ih => rw [bytesProg, run_map, run_both, byte_run, ih, bytesDecodeBinary]

@[simp] theorem guid_run : guidProg.run = guidDecodeBinary := by
  simp only [guidProg, run_map, run_both, uint32_run, uint16_run, bytes_run, guidDecodeBinary]

@[simp] theorem nodeIdBody_run (encodingByte : UInt8) :
    (nodeIdBodyProg encodingByte).run = nodeIdBodyDecodeBinary encodingByte := by
  simp only [nodeIdBodyProg, nodeIdBodyDecodeBinary, apply_ite run, run_map, run_both, byte_run, uint16_run,
    uint32_run, string_run, guid_run, run_fail]

@[simp] theorem nodeId_run : nodeIdProg.run = nodeIdDecodeBinary := by
  simp only [nodeIdProg, run_andThen, byte_run, nodeIdBody_run]
  rfl

@[simp] theorem expandedNodeIdFields_run (encodingByte : UInt8) :
    (expandedNodeIdFieldsProg encodingByte).run = expandedNodeIdFields encodingByte := by
  simp only [expandedNodeIdFieldsProg, run_map, run_both, run_whenFlagged, nodeId_run, string_run, uint32_run,
    expandedNodeIdFields]

@[simp] theorem expandedNodeId_run : expandedNodeIdProg.run = expandedNodeIdDecodeBinary := by
  funext st
  rw [expandedNodeIdProg, within, run, expandedNodeIdDecodeBinary]
  by_cases h : st.offset + 1 ≤ st.data.length
  · rw [decide_eq_true h, if_pos rfl, if_neg (by omega), run, expandedNodeIdFields_run]
    rfl
  · rw [decide_eq_false h, if_pos (show st.offset ≥ st.data.length by omega)]
    rfl

@[simp] theorem localizedText_run : localizedTextProg.run = localizedTextDecodeBinary := by
  simp only [localizedTextProg, run_andThen, run_map, run_both, run_whenFlagged, byte_run, string_run,
    localizedTextDecodeBinary]

@[simp] theorem diagnosticFields_run (mask : UInt8) :
    (diagnosticFieldsProg mask).run = diagnosticFieldsDecodeBinary mask := by
  simp only [diagnosticFieldsProg, run_map, run_both, run_whenFlagged, uint32_run, string_run,
    diagnosticFieldsDecodeBinary]

@[simp] theorem diagnosticInfo_run (fuel : Nat) :
    (diagnosticInfoProg fuel).run = diagnosticInfoDecodeBinary fuel := by
  induction fuel with
  | zero => rfl
  | succ fuel ih =>
      rw [diagnosticInfoProg, run_andThen, byte_run, diagnosticInfoDecodeBinary]
      congr 1
      funext mask
      split
      · simp only [run_map, run_both, run_andThen, run_memory, diagnosticFields_run, ih]
      · simp only [run_map, diagnosticFields_run]

theorem simple_run (fuel : Nat) (b : Builtin) : (simpleProg fuel b).run = simpleDecodeBinary fuel b := by
  cases b with
  | boolean =>
      simp only [simpleProg, run_map, byte_run]
      rfl
  | sbyte | byte => exact byte_run
  | int16 | uint16 => exact uint16_run
  | int32 | uint32 | float | statusCode => exact uint32_run
  | int64 | uint64 | double | dateTime => exact uint64_run
  | string | byteString | xmlElement => exact string_run
  | guid => exact guid_run
  | nodeId => exact nodeId_run
  | expandedNodeId => exact expandedNodeId_run
  | localizedText => exact localizedText_run
  | diagnosticInfo => exact diagnosticInfo_run fuel

theorem items_run {t : DataType} {item : Prog (Val t)} {d : Readers.DecM (Val t)} (h : item.run = d) (n : Nat) :
    (itemsProg item n).run = itemsDecodeBinary d n := by
  induction n with
  | zero => rfl
  | succ n ih => simp only [itemsProg, run_andThen, run_map, ih, h, itemsDecodeBinary]

theorem array_run {t : DataType} {item : Prog (Val t)} {d : Readers.DecM (Val t)} (h : item.run = d)
    (signedLength : Int) : (arrayProg t item signedLength).run = arrayDecodeBinary t d signedLength := by
  funext st
  rw [arrayProg, arrayDecodeBinary]
  split
  · rfl
  split
  · rfl
  · rw [within, run]
    by_cases hfits : st.offset + t.memSize * signedLength.toNat / 32 ≤ st.data.length
    · rw [decide_eq_true hfits, if_pos rfl, if_neg (not_lt.mpr hfits), run_andThen, run_memory]
      congr 1
      funext _
      split
      · exact run_map _ _
      · rw [run_map, items_run h]
    · rw [decide_eq_false hfits, if_pos (not_le.mp hfits)]
      rfl

theorem header_run : headerProg.run = headerDecodeBinary := by
  funext st
  rw [headerProg, run, run, run_bind, run_both, nodeId_run, byte_run, headerDecodeBinary]
  cases hboth : Readers.both nodeIdDecodeBinary byteDecodeBinary st with
  | none => rfl
  | some x =>
      obtain ⟨r, st'⟩ := x
      cases r with
      | error code =>
          simp only [Option.bind_some, unknownEncoding, decide_eq_true_eq]
          rfl
      | ok p =>
          dsimp only [Option.bind_some]
          split <;> rfl

variable {jump : (t : DataType) → Prog (Val t)} {d : (t : DataType) → Readers.DecM (Val t)}

theorem content_run (h : ∀ t, (jump t).run = d t) (typeId : NodeId) :
    (contentProg jump typeId).run = contentDecodeBinary d typeId := by
  funext st
  rw [contentProg, run, run_andThen, int32_run, contentDecodeBinary]
  congr 1
  funext length st'
  cases TypeTable.findDataType (contentId typeId) with
  | some type =>
      dsimp only
      rw [run_bind, run_andThen, run_memory]
      simp only [h]
      cases Readers.andThen Readers.allocate (fun _ => d type) st' with
      | none => rfl
      | some x =>
          dsimp only [Option.bind_some]
          rw [run]
          split <;> rfl
  | none =>
      dsimp only
      rw [run, run_map, string_run]

theorem extensionObject_run (h : ∀ t, (jump t).run = d t) :
    (extensionObjectProg jump).run = extensionObjectDecodeBinary d := by
  rw [extensionObjectProg, run_andThen, header_run, extensionObjectDecodeBinary]
  congr 1
  funext p
  obtain ⟨typeId, encoding⟩ := p
  dsimp only
  split
  · rfl
  split
  · rw [run_map, string_run]
  · exact content_run h typeId

theorem arrayVariant_run (h : ∀ t, (jump t).run = d t) (type : DataType) (hasDimensions : Bool) :
    (arrayVariantProg jump type hasDimensions).run = arrayVariantDecodeBinary d type hasDimensions := by
  rw [arrayVariantProg, run_andThen, int32_run, arrayVariantDecodeBinary]
  congr 1
  funext signedLength
  cases hasDimensions with
  | true =>
      dsimp only
      rw [if_pos rfl, if_pos rfl, run_andThen, run_both, array_run (h type), int32_run]
      congr 1
      funext p
      obtain ⟨data, dimensions⟩ := p
      rw [run_map, dimensionsProg, run_map, array_run (h _), dimensionsDecodeBinary]
  | false =>
      dsimp only
      rw [if_neg (by decide), if_neg (by decide), run_map, array_run (h type)]

theorem objectVariant_run (h : ∀ t, (jump t).run = d t) :
    (objectVariantProg jump).run = objectVariantDecodeBinary d := by
  funext st
  rw [objectVariantProg, run, run_bind, run_andThen, nodeId_run, objectVariantDecodeBinary]
  simp only [run_map, byte_run]
  cases Readers.andThen nodeIdDecodeBinary (fun typeId => Readers.map (Prod.mk typeId) byteDecodeBinary) st with
  | none => rfl
  | some x =>
      obtain ⟨r, st'⟩ := x
      cases r with
      | error code => rfl
      | ok p =>
          obtain ⟨typeId, encoding⟩ := p
          dsimp only [Option.bind_some]
          generalize (if typeId.namespaceIndex = 0 ∧ encoding = 1 then TypeTable.findDataType typeId
            else none) = found
          cases found with
          | some type => simp only [run_andThen, run_memory, run_map, h]
          | none => simp only [run, run_andThen, run_memory, run_map, h]

theorem variant_run (h : ∀ t, (jump t).run = d t) : (variantProg jump).run = variantDecodeBinary d := by
  rw [variantProg, run_andThen, byte_run, variantDecodeBinary]
  congr 1
  funext encodingByte
  dsimp only
  split
  · rfl
  split
  · exact arrayVariant_run h _ _
  split
  · rw [run_map, array_run (h _)]
  · exact objectVariant_run h

theorem dataValue_run {variant : Prog (Val .variant)} {v : Readers.DecM (Val .variant)} (h : variant.run = v) :
    (dataValueProg variant).run = dataValueDecodeBinary v := by
  simp only [dataValueProg, run_andThen, run_map, run_both, run_whenFlagged, byte_run, uint16_run, uint32_run,
    uint64_run, h, dataValueDecodeBinary]

mutual

theorem type_run (fuel : Nat) (h : ∀ t, (jump t).run = d t) :
    (t : DataType) → (typeProg fuel jump t).run = typeDecodeBinary fuel d t
  | .simple _ b => by rw [typeProg, run_map, simple_run, typeDecodeBinary]
  | .extensionObject => by rw [typeProg, extensionObject_run h, typeDecodeBinary]
  | .dataValue => by rw [typeProg, dataValue_run (variant_run h), typeDecodeBinary]
  | .variant => by rw [typeProg, variant_run h, typeDecodeBinary]
  | .structure _ members => by rw [typeProg, run_map, members_run fuel h members, typeDecodeBinary]

theorem members_run (fuel : Nat) (h : ∀ t, (jump t).run = d t) :
    (members : Members) → (membersProg fuel jump members).run = membersDecodeBinary fuel d members
  | .nil => rfl
  | .scalar t rest => by
      rw [membersProg, run_map, run_both, type_run fuel h t, members_run fuel h rest, membersDecodeBinary]
  | .array t rest => by
      have harray : (fun n => (arrayProg t (typeProg fuel jump t) n).run) =
          arrayDecodeBinary t (typeDecodeBinary fuel d t) := funext (array_run (type_run fuel h t))
      rw [membersProg, run_map, run_both, run_andThen, harray, int32_run, members_run fuel h rest,
        membersDecodeBinary]

end

theorem decode_run (fuel : Nat) (t : DataType) : (decodeProg fuel t).run = decodeBinary fuel t := by
  induction fuel generalizing t with
  | zero => rfl
  | succ fuel ih => exact type_run (fuel + 1) ih t

theorem byteArray_run : byteArrayProg.run = byteArrayDecodeBinary := by
  have hitem : (map Val.simple byteProg : Prog (Val TypeTable.byte)).run =
      (Readers.map Val.simple byteDecodeBinary : Readers.DecM (Val TypeTable.byte)) :=
    (run_map _ _).trans (congrArg (Readers.map Val.simple) byte_run)
  have harray : (fun n => (arrayProg TypeTable.byte (map Val.simple byteProg) n).run) =
      arrayDecodeBinary TypeTable.byte (Readers.map Val.simple byteDecodeBinary) := funext (array_run hitem)
  rw [byteArrayProg, run_map, run_andThen, harray, int32_run, byteArrayDecodeBinary]

theorem uaDecode_run (fuel : Nat) (t : DataType) : (uaDecodeProg fuel t).run = uaDecodeBinary fuel t := by
  cases t with
  | simple typeId b =>
      cases b with
      | string | byteString | xmlElement =>
          simp only [uaDecodeProg, uaDecodeBinary, run_map, byteArray_run]
      | expandedNodeId =>
          simp only [uaDecodeProg, uaDecodeBinary, run_map, run_both, nodeId_run, string_run, uint32_run]
      | localizedText => simp only [uaDecodeProg, uaDecodeBinary, run_map, run_both, string_run]
      | _ => exact decode_run fuel _
  | _ => exact decode_run fuel _

end Runs

end OpcUa.DecoderPrograms
