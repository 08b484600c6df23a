import OpcUa.DataTypes
import OpcUa.Writers
import OpcUa.TypeTable
import OpcUa.Values

namespace OpcUa.ValueEncoding

open StatusCodes LittleEndian NodeIds DataTypes Writers Values

def byteEncodeBinary (x : UInt8) : EncM := emit [x]

def booleanEncodeBinary (x : UInt8) : EncM := emit [x]

def uint16EncodeBinary (x : UInt16) : EncM := emit (toBytes 2 x.toNat)

def uint32EncodeBinary (x : UInt32) : EncM := emit (toBytes 4 x.toNat)

def uint64EncodeBinary (x : UInt64) : EncM := emit (toBytes 8 x.toNat)

/-- `signed_length` as the bytes of a `UA_Int32`. -/
def lengthBytes (length : Nat) : List UInt8 := toBytes 4 length

def nullLengthBytes : List UInt8 := toBytes 4 4294967295

def stringEncodeBinary (src : UaString) : EncM := fun st =>
  if st.offset + src.length > st.data.length then (badEncodingError, st)
  else match src with
    | none => emit nullLengthBytes st
    | some [] => emit (lengthBytes 0) st
    | some bytes =>
        let r := emit (lengthBytes bytes.length) st
        (r.1, r.2.write bytes)

def guidEncodeBinary (src : Guid) : EncM :=
  orThen (uint32EncodeBinary src.data1) <| orThen (uint16EncodeBinary src.data2) <|
    orThen (uint16EncodeBinary src.data3) <| all (src.data4.map byteEncodeBinary)

/-- `UA_BYTE_MAX` as the source has it. -/
def byteMax : Nat := 256

def uint16Max : Nat := 65535

def nodeIdEncodeBinary (src : NodeId) : EncM :=
  match src.identifier with
  | .numeric numeric =>
      if numeric.toNat > uint16Max ∨ src.namespaceIndex.toNat > byteMax then
        orThen (byteEncodeBinary 2) <| orThen (uint16EncodeBinary src.namespaceIndex) <|
          uint32EncodeBinary numeric
      else if numeric.toNat > byteMax ∨ src.namespaceIndex.toNat > 0 then
        orThen (byteEncodeBinary 1) <| orThen (byteEncodeBinary src.namespaceIndex.toUInt8) <|
          uint16EncodeBinary numeric.toUInt16
      else orThen (byteEncodeBinary 0) <| byteEncodeBinary numeric.toUInt8
  | .string string =>
      orThen (byteEncodeBinary 3) <| orThen (uint16EncodeBinary src.namespaceIndex) <|
        stringEncodeBinary string
  | .guid guid =>
      orThen (byteEncodeBinary 4) <| orThen (uint16EncodeBinary src.namespaceIndex) <|
        guidEncodeBinary guid
  | .byteString byteString =>
      orThen (byteEncodeBinary 5) <| orThen (uint16EncodeBinary src.namespaceIndex) <|
        stringEncodeBinary byteString

def namespaceUriFlag : UInt8 := 0x80

def serverIndexFlag : UInt8 := 0x40

/-- `start` is the offset as `UA_UInt32`. -/
def expandedNodeIdEncodeBinary (src : ExpandedNodeId) : EncM := fun st =>
  let start := st.offset % 4294967296
  orThen (nodeIdEncodeBinary src.nodeId)
    (orThen
      (optionally (src.namespaceUri.length > 0)
        (orThen (stringEncodeBinary src.namespaceUri) (flagAt start namespaceUriFlag)))
      (optionally (src.serverIndex > 0)
        (orThen (uint32EncodeBinary src.serverIndex) (flagAt start serverIndexFlag)))) st

def localizedTextMask (src : LocalizedText) : UInt8 :=
  (if src.locale.isSome then 1 else 0) ||| (if src.text.isSome then 2 else 0)

def localizedTextEncodeBinary (src : LocalizedText) : EncM :=
  orThen (byteEncodeBinary (localizedTextMask src)) <|
    orThen (optionally (flagged (localizedTextMask src) 1) (stringEncodeBinary src.locale)) <|
      optionally (flagged (localizedTextMask src) 2) (stringEncodeBinary src.text)

def diagnosticFieldsEncodeBinary (src : DiagnosticFields) : EncM :=
  orThen (byteEncodeBinary src.mask) <|
    orThen (optionally (flagged src.mask 0x01) (uint32EncodeBinary src.symbolicId)) <|
    orThen (optionally (flagged src.mask 0x02) (uint32EncodeBinary src.namespaceUri)) <|
    orThen (optionally (flagged src.mask 0x04) (uint32EncodeBinary src.localizedText)) <|
    orThen (optionally (flagged src.mask 0x08) (uint32EncodeBinary src.locale)) <|
    orThen (optionally (flagged src.mask 0x10) (stringEncodeBinary src.additionalInfo)) <|
      optionally (flagged src.mask 0x20) (uint32EncodeBinary src.innerStatusCode)

def diagnosticInfoEncodeBinary : DiagnosticInfo → EncM
  | .plain fields _ => diagnosticFieldsEncodeBinary fields
  | .nested fields _ inner =>
      orThen (diagnosticFieldsEncodeBinary fields) (diagnosticInfoEncodeBinary inner)

/-- The entries of `encodeBinaryJumpTable` for the simple types. -/
def simpleEncodeBinary : (b : Builtin) → b.Carrier → EncM
  | .boolean, x => booleanEncodeBinary x
  | .sbyte, x | .byte, x => byteEncodeBinary x
  | .int16, x | .uint16, x => uint16EncodeBinary x
  | .int32, x | .uint32, x | .float, x | .statusCode, x => uint32EncodeBinary x
  | .int64, x | .uint64, x | .double, x | .dateTime, x => uint64EncodeBinary x
  | .string, x | .byteString, x | .xmlElement, x => stringEncodeBinary x
  | .guid, x => guidEncodeBinary x
  | .nodeId, x => nodeIdEncodeBinary x
  | .expandedNodeId, x => expandedNodeIdEncodeBinary x
  | .localizedText, x => localizedTextEncodeBinary x
  | .diagnosticInfo, x => diagnosticInfoEncodeBinary x

/-- `Array_encodeBinary`: `bytes` is the memory of the elements, which is
copied for a zero-copyable type, and `items` encodes them one by one. -/
def arrayEncodeBinary (type : DataType) (null : Bool) (length : Nat) (bytes : List UInt8)
    (items : List EncM) : EncM := fun st =>
  let r := emit (if length > 0 then lengthBytes length
    else if null then nullLengthBytes else lengthBytes 0) st
  if r.1 ≠ good then r
  else if zeroCopyable type then
    if r.2.data.length < r.2.offset + type.memSize * length then (badEncodingError, r.2)
    else (good, r.2.write bytes)
  else untilFailure items r.2

def encodingOffsetBinary : UInt32 := 2

/-- The type id on the wire of a binary encoded structure. -/
def binaryId (typeId : NodeId) : NodeId :=
  match typeId.identifier with
  | .numeric n => { typeId with identifier := .numeric (n + encodingOffsetBinary) }
  | _ => typeId

/-- A value as the body of an ExtensionObject. The length is filled in after
the content has been encoded. -/
def wrapEncodeBinary (typeId : NodeId) (content : EncM) : EncM := fun st =>
  let header := orThen (nodeIdEncodeBinary (binaryId typeId)) (byteEncodeBinary 1) st
  let oldOffset := header.2.offset
  let body := content { header.2 with offset := oldOffset + 4 }
  let length := body.2.offset - (oldOffset + 4)
  let patched := emitAt oldOffset (lengthBytes length) body.2
  (header.1 ||| body.1 ||| patched.1, patched.2)

def encodedEncodeBinary (typeId : NodeId) (encoding : BodyEncoding) (body : UaString) : EncM :=
  orThen (nodeIdEncodeBinary typeId) <| orThen (byteEncodeBinary encoding.byte) <|
    optionally (encoding != .nobody) (stringEncodeBinary body)

def decodedEncodeBinary (type : DataType) (content : EncM) : EncM :=
  if !type.typeId.identifier.isNumeric then fun st => (badEncodingError, st)
  else wrapEncodeBinary type.typeId content

def dimensionsEncodeBinary (dimensions : List UInt32) : EncM :=
  arrayEncodeBinary TypeTable.int32 false dimensions.length
    (dimensions.flatMap (fun d => toBytes 4 d.toNat)) (dimensions.map uint32EncodeBinary)

def variantMask (type : DataType) (array hasDimensions : Bool) : UInt8 :=
  (if array then 0x80 else 0) ||| (if array && hasDimensions then 0x40 else 0) |||
    (if type.builtin then 0x3f &&& UInt8.ofNat (type.typeIndex + 1) else 22)

/-- `Variant_encodeBinary` for a variant with a type. `length` is `none` for a
scalar, otherwise the bytes of the array length. -/
def variantEncodeBinary (type : DataType) (length : Option (List UInt8)) (items : List EncM)
    (dimensions : List UInt32) : EncM :=
  if !type.builtin && !type.typeId.identifier.isNumeric then fun st => (badInternalError, st)
  else
    let hasDimensions := length.isSome && dimensions.length > 0
    orThen (byteEncodeBinary (variantMask type length.isSome hasDimensions)) <|
      orThen (match length with
        | none => skip
        | some bytes => emit bytes) <|
      orThen (all (if type.builtin then items else items.map (wrapEncodeBinary type.typeId))) <|
        optionally hasDimensions (dimensionsEncodeBinary dimensions)

def dataValueEncodeBinary (fields : DataValueFields) (value : EncM) : EncM :=
  orThen (byteEncodeBinary fields.mask) <|
    orThen (optionally (flagged fields.mask 0x01) value) <|
    orThen (optionally (flagged fields.mask 0x02) (uint32EncodeBinary fields.status)) <|
    orThen (optionally (flagged fields.mask 0x04) (uint64EncodeBinary fields.sourceTimestamp)) <|
    orThen (optionally (flagged fields.mask 0x10) (uint16EncodeBinary fields.sourcePicoseconds)) <|
    orThen (optionally (flagged fields.mask 0x08) (uint64EncodeBinary fields.serverTimestamp)) <|
      optionally (flagged fields.mask 0x20) (uint16EncodeBinary fields.serverPicoseconds)

def arrayLengthBytes {t : DataType} : Arr t → List UInt8
  | .null => nullLengthBytes
  | .items vs => lengthBytes vs.length

mutual

/-- The jump table: the encoder of a value that is a member, an element or
the content of another one. -/
def encodeBinary : {t : DataType} → Val t → EncM
  | _, .simple (b := b) x => simpleEncodeBinary b x
  | _, .struct slots => encodeMembers slots
  | _, .encoded typeId encoding body => encodedEncodeBinary typeId encoding body
  | _, .decoded _ type data => decodedEncodeBinary type (encodeBinary data)
  | _, .emptyVariant => fun st => (badInternalError, st)
  | _, .scalarVariant type data => variantEncodeBinary type none [encodeBinary data] []
  | _, .arrayVariant type data dimensions =>
      variantEncodeBinary type (some (arrayLengthBytes data)) (encodeArr data) dimensions
  | _, .dataValue fields value => dataValueEncodeBinary fields (encodeBinary value)

def encodeArr : {t : DataType} → Arr t → List EncM
  | _, .null => []
  | _, .items vs => encodeVals vs

def encodeVals : {t : DataType} → Vals t → List EncM
  | _, .nil => []
  | _, .cons v vs => encodeBinary v :: encodeVals vs

def encodeMembers : {members : Members} → Slots members → EncM
  | _, .nil => skip
  | _, .scalar v slots => orThen (encodeBinary v) (encodeMembers slots)
  | _, .array (t := t) (.null) slots =>
      orThen (arrayEncodeBinary t true 0 [] []) (encodeMembers slots)
  | _, .array (t := t) (.items vs) slots =>
      orThen (arrayEncodeBinary t false vs.length (imageVals vs) (encodeVals vs))
        (encodeMembers slots)

end

/-- `UA_encodeBinary` goes through the members of the type. The builtin types
that are described by other members than themselves are encoded as these. -/
def uaEncodeBinary : {t : DataType} → Val t → EncM
  | _, .simple (b := .string) x | _, .simple (b := .byteString) x
  | _, .simple (b := .xmlElement) x =>
      arrayEncodeBinary TypeTable.byte x.isNone x.length x.bytes (x.bytes.map byteEncodeBinary)
  | _, .simple (b := .expandedNodeId) x =>
      orThen (nodeIdEncodeBinary x.nodeId) <| orThen (stringEncodeBinary x.namespaceUri) <|
        uint32EncodeBinary x.serverIndex
  | _, .simple (b := .localizedText) x =>
      orThen (stringEncodeBinary x.locale) (stringEncodeBinary x.text)
  | _, v => encodeBinary v

end OpcUa.ValueEncoding
