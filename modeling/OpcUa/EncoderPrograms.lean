import OpcUa.ValueEncoding
import OpcUa.WritePrograms

namespace OpcUa.EncoderPrograms

open StatusCodes LittleEndian NodeIds DataTypes Values Writers ValueEncoding WritePrograms

def plain (bytes : List UInt8) : Prog := .write (.plain bytes)

def stringProg : UaString → Prog
  | none => plain nullLengthBytes
  | some [] => plain (lengthBytes 0)
  | some bytes => .write (.text bytes)

def guidProg (g : Guid) : Prog :=
  .seq (plain (toBytes 4 g.data1.toNat)) <| .seq (plain (toBytes 2 g.data2.toNat)) <|
    .seq (plain (toBytes 2 g.data3.toNat)) <| .seqAll (g.data4.map (fun b => plain [b]))

def nodeIdProg (n : NodeId) : Prog :=
  match n.identifier with
  | .numeric i =>
      if i.toNat > uint16Max ∨ n.namespaceIndex.toNat > byteMax then
        .seq (plain [2]) <| .seq (plain (toBytes 2 n.namespaceIndex.toNat)) <|
          plain (toBytes 4 i.toNat)
      else if i.toNat > byteMax ∨ n.namespaceIndex.toNat > 0 then
        .seq (plain [1]) <| .seq (plain [n.namespaceIndex.toUInt8]) <|
          plain (toBytes 2 i.toUInt16.toNat)
      else .seq (plain [0]) <| plain [i.toUInt8]
  | .string s =>
      .seq (plain [3]) <| .seq (plain (toBytes 2 n.namespaceIndex.toNat)) <| stringProg s
  | .guid g =>
      .seq (plain [4]) <| .seq (plain (toBytes 2 n.namespaceIndex.toNat)) <| guidProg g
  | .byteString b =>
      .seq (plain [5]) <| .seq (plain (toBytes 2 n.namespaceIndex.toNat)) <| stringProg b

def expandedOptions (x : ExpandedNodeId) : List (Write × UInt8) :=
  (if x.namespaceUri.length > 0 then [(.text x.namespaceUri.bytes, namespaceUriFlag)] else []) ++
    (if x.serverIndex > 0 then [(.plain (toBytes 4 x.serverIndex.toNat), serverIndexFlag)] else [])

def expandedNodeIdProg (x : ExpandedNodeId) : Prog := .tagged (nodeIdProg x.nodeId) (expandedOptions x)

def localizedTextProg (x : LocalizedText) : Prog :=
  .seq (plain [localizedTextMask x]) <|
    .seq (.optionally (flagged (localizedTextMask x) 1) (stringProg x.locale)) <|
      .optionally (flagged (localizedTextMask x) 2) (stringProg x.text)

def diagnosticFieldsProg (x : DiagnosticFields) : Prog :=
  .seq (plain [x.mask]) <|
    .seq (.optionally (flagged x.mask 0x01) (plain (toBytes 4 x.symbolicId.toNat))) <|
    .seq (.optionally (flagged x.mask 0x02) (plain (toBytes 4 x.namespaceUri.toNat))) <|
    .seq (.optionally (flagged x.mask 0x04) (plain (toBytes 4 x.localizedText.toNat))) <|
    .seq (.optionally (flagged x.mask 0x08) (plain (toBytes 4 x.locale.toNat))) <|
    .seq (.optionally (flagged x.mask 0x10) (stringProg x.additionalInfo)) <|
      .optionally (flagged x.mask 0x20) (plain (toBytes 4 x.innerStatusCode.toNat))

def diagnosticInfoProg : DiagnosticInfo → Prog
  | .plain fields _ => diagnosticFieldsProg fields
  | .nested fields _ inner => .seq (diagnosticFieldsProg fields) (diagnosticInfoProg inner)

def simpleProg : (b : Builtin) → b.Carrier → Prog
  | .boolean, x | .sbyte, x | .byte, x => plain [x]
  | .int16, x | .uint16, x => plain (toBytes 2 x.toNat)
  | .int32, x | .uint32, x | .float, x | .statusCode, x => plain (toBytes 4 x.toNat)
  | .int64, x | .uint64, x | .double, x | .dateTime, x => plain (toBytes 8 x.toNat)
  | .string, x | .byteString, x | .xmlElement, x => stringProg x
  | .guid, x => guidProg x
  | .nodeId, x => nodeIdProg x
  | .expandedNodeId, x => expandedNodeIdProg x
  | .localizedText, x => localizedTextProg x
  | .diagnosticInfo, x => diagnosticInfoProg x

def arrayProg (type : DataType) (length : List UInt8) (bytes : List UInt8) (items : List Prog) : Prog :=
  .stop (plain length) (if zeroCopyable type then plain bytes else .stopAll items)

def wrapProg (typeId : NodeId) (content : Prog) : Prog :=
  .wrap (.seq (nodeIdProg (binaryId typeId)) (plain [1])) content

def encodedProg (typeId : NodeId) (encoding : BodyEncoding) (body : UaString) : Prog :=
  .seq (nodeIdProg typeId) <| .seq (plain [encoding.byte]) <|
    .optionally (encoding != .nobody) (stringProg body)

def decodedProg (type : DataType) (content : Prog) : Prog :=
  if !type.typeId.identifier.isNumeric then .fail badEncodingError
  else wrapProg type.typeId content

def dimensionsProg (dimensions : List UInt32) : Prog :=
  arrayProg TypeTable.int32 (lengthBytes dimensions.length)
    (dimensions.flatMap (fun d => toBytes 4 d.toNat))
    (dimensions.map (fun d => plain (toBytes 4 d.toNat)))

def variantProg (type : DataType) (length : Option (List UInt8)) (items : List Prog)
    (dimensions : List UInt32) : Prog :=
  if !type.builtin && !type.typeId.identifier.isNumeric then .fail badInternalError
  else
    let hasDimensions := length.isSome && dimensions.length > 0
    .seq (plain [variantMask type length.isSome hasDimensions]) <|
      .seq (match length with
        | none => .skip
        | some bytes => plain bytes) <|
      .seq (.seqAll (if type.builtin then items else items.map (wrapProg type.typeId))) <|
        .optionally hasDimensions (dimensionsProg dimensions)

def dataValueProg (fields : DataValueFields) (value : Prog) : Prog :=
  .seq (plain [fields.mask]) <|
    .seq (.optionally (flagged fields.mask 0x01) value) <|
    .seq (.optionally (flagged fields.mask 0x02) (plain (toBytes 4 fields.status.toNat))) <|
    .seq (.optionally (flagged fields.mask 0x04) (plain (toBytes 8 fields.sourceTimestamp.toNat))) <|
    .seq (.optionally (flagged fields.mask 0x10) (plain (toBytes 2 fields.sourcePicoseconds.toNat))) <|
    .seq (.optionally (flagged fields.mask 0x08) (plain (toBytes 8 fields.serverTimestamp.toNat))) <|
      .optionally (flagged fields.mask 0x20) (plain (toBytes 2 fields.serverPicoseconds.toNat))

mutual

def valProg : {t : DataType} → Val t → Prog
  | _, .simple (b := b) x => simpleProg b x
  | _, .struct slots => slotsProg slots
  | _, .encoded typeId encoding body => encodedProg typeId encoding body
  | _, .decoded _ type data => decodedProg type (valProg data)
  | _, .emptyVariant => .fail badInternalError
  | _, .scalarVariant type data => variantProg type none [valProg data] []
  | _, .arrayVariant type data dimensions =>
      variantProg type (some (arrayLengthBytes data)) (arrProgs data) dimensions
  | _, .dataValue fields value => dataValueProg fields (valProg value)

def arrProgs : {t : DataType} → Arr t → List Prog
  | _, .null => []
  | _, .items vs => valsProgs vs

def valsProgs : {t : DataType} → Vals t → List Prog
  | _, .nil => []
  | _, .cons v vs => valProg v :: valsProgs vs

def slotsProg : {members : Members} → Slots members → Prog
  | _, .nil => .skip
  | _, .scalar v slots => .seq (valProg v) (slotsProg slots)
  | _, .array (t := t) (.null) slots => .seq (arrayProg t nullLengthBytes [] []) (slotsProg slots)
  | _, .array (t := t) (.items vs) slots =>
      .seq (arrayProg t (lengthBytes vs.length) (imageVals vs) (valsProgs vs)) (slotsProg slots)

end

def wireOf {t : DataType} (v : Val t) : List UInt8 := wire (valProg v)

end OpcUa.EncoderPrograms
