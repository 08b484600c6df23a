import OpcUa.Decoding
import OpcUa.TypeTable
import OpcUa.Values

namespace OpcUa.ValueDecoding

open StatusCodes LittleEndian NodeIds DataTypes Values Readers Decoding

def maxArraySize : Nat := 104857600

def itemsDecodeBinary {t : DataType} (item : DecM (Val t)) : Nat → DecM (Vals t)
  | 0 => succeed .nil
  | n + 1 => andThen item (fun v => map (Vals.cons v) (itemsDecodeBinary item n))

def arrayDecodeBinary (t : DataType) (item : DecM (Val t)) (signedLength : Int) : DecM (Arr t) :=
  fun st =>
    let length := signedLength.toNat
    if signedLength ≤ 0 then some (.ok (if signedLength = 0 then .items .nil else .null), st)
    else if t.memSize * length > maxArraySize then some (.error badOutOfMemory, st)
    else if st.offset + t.memSize * length / 32 > st.data.length then
      some (.error badDecodingError, st)
    else andThen allocate (fun _ =>
      if zeroCopyable t then
        map (fun bytes => .items (ofImages t length bytes)) (take (t.memSize * length))
      else map Arr.items (itemsDecodeBinary item length)) st

/-- The type id of the content of an ExtensionObject on the wire. -/
def contentId (typeId : NodeId) : NodeId :=
  match typeId.identifier with
  | .numeric n => { typeId with identifier := .numeric (n - 2) }
  | _ => typeId

def unknownEncoding (st : Dec) : Bool := st.data.getD st.offset 0 > 5

/-- The type id and the encoding byte of an ExtensionObject. Other ids than
numeric ones of namespace 0 are refused; an id that cannot be decoded keeps
its own status only if it is of no known kind. -/
def headerDecodeBinary : DecM (NodeId × UInt8) := fun st =>
  match both nodeIdDecodeBinary byteDecodeBinary st with
  | none => none
  | some (.error code, st') =>
      some (.error (if unknownEncoding st then code else badDecodingError), st')
  | some (.ok (typeId, encoding), st') =>
      if typeId.namespaceIndex ≠ 0 ∨ typeId.identifier.isNumeric = false then
        some (.error badDecodingError, st')
      else some (.ok (typeId, encoding), st')

/-- The content is decoded by its type if that is known. It has to have the
announced length. -/
def contentDecodeBinary (jump : (t : DataType) → DecM (Val t)) (typeId : NodeId) :
    DecM (Val .extensionObject) := fun st =>
  let oldOffset := st.offset
  andThen int32DecodeBinary (fun length st =>
    match TypeTable.findDataType (contentId typeId) with
    | some type =>
        match andThen allocate (fun _ => jump type) st with
        | none => none
        | some (r, st) =>
            if (st.offset : Int) ≠ oldOffset + 4 + length then some (.error badDecodingError, st)
            else some (r.map (Val.decoded false type), st)
    | none =>
        map (fun body => .encoded (contentId typeId) .byteString body) stringDecodeBinary
          { st with offset := oldOffset }) st

def extensionObjectDecodeBinary (jump : (t : DataType) → DecM (Val t)) :
    DecM (Val .extensionObject) :=
  andThen headerDecodeBinary fun (typeId, encoding) =>
    if encoding = 0 then succeed (.encoded typeId .nobody none)
    else if encoding = 2 then map (fun body => .encoded typeId .xml body) stringDecodeBinary
    else contentDecodeBinary jump typeId

def int32s {typeId : NodeId} : Vals (.simple typeId .int32) → List UInt32
  | .nil => []
  | .cons (.simple x) vs => x :: int32s vs

def dimensionsOf : Arr TypeTable.int32 → List UInt32
  | .null => []
  | .items vs => int32s vs

def dimensionsDecodeBinary (jump : (t : DataType) → DecM (Val t)) (signedLength : Int) :
    DecM (List UInt32) :=
  map dimensionsOf (arrayDecodeBinary TypeTable.int32 (jump TypeTable.int32) signedLength)

def arrayVariantDecodeBinary (jump : (t : DataType) → DecM (Val t)) (type : DataType)
    (hasDimensions : Bool) : DecM (Val .variant) :=
  andThen int32DecodeBinary fun signedLength =>
    let array := arrayDecodeBinary type (jump type) signedLength
    if hasDimensions then
      andThen (both array int32DecodeBinary) fun (data, dimensions) =>
        map (fun ds => .arrayVariant type data ds) (dimensionsDecodeBinary jump dimensions)
    else map (fun data => .arrayVariant type data []) array

/-- A scalar is decoded as an array of one element, of which the length is
then set to 0. -/
def scalarOf {t : DataType} : Arr t → Val .variant
  | .items (.cons v _) => .scalarVariant t v
  | _ => .emptyVariant

/-- A scalar ExtensionObject is looked into with an offset of its own. If the
id as it stands on the wire is that of a known type, the value is decoded as
this type behind the encoding byte. -/
def objectVariantDecodeBinary (jump : (t : DataType) → DecM (Val t)) : DecM (Val .variant) := fun st =>
  match andThen nodeIdDecodeBinary (fun typeId => map (Prod.mk typeId) byteDecodeBinary) st with
  | none => none
  | some (.error code, st') => some (.error code, { st' with offset := st.offset })
  | some (.ok (typeId, encoding), st') =>
      match if typeId.namespaceIndex = 0 ∧ encoding = 1 then TypeTable.findDataType typeId
        else none with
      | some type => andThen allocate (fun _ => map (Val.scalarVariant type) (jump type)) st'
      | none =>
          andThen allocate (fun _ => map (Val.scalarVariant .extensionObject)
            (jump .extensionObject)) { st' with offset := st.offset }

def variantDecodeBinary (jump : (t : DataType) → DecM (Val t)) : DecM (Val .variant) :=
  andThen byteDecodeBinary fun encodingByte =>
    let index := (encodingByte &&& 0x3f).toNat
    if index = 0 ∨ index > 25 then fail badDecodingError
    else
      let type := TypeTable.uaTypes.getD (index - 1) .extensionObject
      if flagged encodingByte 0x80 then
        arrayVariantDecodeBinary jump type (flagged encodingByte 0x40)
      else if index - 1 ≠ 21 then map scalarOf (arrayDecodeBinary type (jump type) 1)
      else objectVariantDecodeBinary jump

def clampPicoseconds (x : UInt16) : UInt16 := if 999 < x ∧ x < 32768 then 999 else x

def dataValueDecodeBinary (variant : DecM (Val .variant)) : DecM (Val .dataValue) :=
  andThen byteDecodeBinary fun mask =>
    map (fun p => .dataValue ⟨mask, p.2.1, p.2.2.1, clampPicoseconds p.2.2.2.1, p.2.2.2.2.1,
        clampPicoseconds p.2.2.2.2.2⟩ p.1)
      (both (whenFlagged (flagged mask 0x01) .emptyVariant variant)
        (both (whenFlagged (flagged mask 0x02) 0 uint32DecodeBinary)
          (both (whenFlagged (flagged mask 0x04) 0 uint64DecodeBinary)
            (both (whenFlagged (flagged mask 0x10) 0 uint16DecodeBinary)
              (both (whenFlagged (flagged mask 0x08) 0 uint64DecodeBinary)
                (whenFlagged (flagged mask 0x20) 0 uint16DecodeBinary))))))

mutual

/-- `jump` decodes the values whose type is only known from the message. -/
def typeDecodeBinary (fuel : Nat) (jump : (t : DataType) → DecM (Val t)) :
    (t : DataType) → DecM (Val t)
  | .simple _ b => map Val.simple (simpleDecodeBinary fuel b)
  | .extensionObject => extensionObjectDecodeBinary jump
  | .dataValue => dataValueDecodeBinary (variantDecodeBinary jump)
  | .variant => variantDecodeBinary jump
  | .structure _ members => map Val.struct (membersDecodeBinary fuel jump members)

def membersDecodeBinary (fuel : Nat) (jump : (t : DataType) → DecM (Val t)) :
    (members : Members) → DecM (Slots members)
  | .nil => succeed .nil
  | .scalar t rest => map (fun p => .scalar p.1 p.2)
      (both (typeDecodeBinary fuel jump t) (membersDecodeBinary fuel jump rest))
  | .array t rest => map (fun p => .array p.1 p.2)
      (both (andThen int32DecodeBinary (arrayDecodeBinary t (typeDecodeBinary fuel jump t)))
        (membersDecodeBinary fuel jump rest))

end

/-- The jump table, for at most `fuel` nested values of dynamic type. -/
def decodeBinary : Nat → (t : DataType) → DecM (Val t)
  | 0, _ => fun _ => none
  | fuel + 1, t => typeDecodeBinary (fuel + 1) (decodeBinary fuel) t

def bytesOf {typeId : NodeId} : Vals (.simple typeId .byte) → List UInt8
  | .nil => []
  | .cons (.simple x) vs => x :: bytesOf vs

def stringOf : Arr TypeTable.byte → UaString
  | .null => none
  | .items vs => some (bytesOf vs)

def byteArrayDecodeBinary : DecM UaString :=
  map stringOf (andThen int32DecodeBinary
    (arrayDecodeBinary TypeTable.byte (map Val.simple byteDecodeBinary)))

/-- `UA_decodeBinary` goes through the members of the type. -/
def uaDecodeBinary (fuel : Nat) : (t : DataType) → DecM (Val t)
  | .simple _ .string | .simple _ .byteString | .simple _ .xmlElement =>
      map Val.simple byteArrayDecodeBinary
  | .simple _ .expandedNodeId =>
      map (fun p => .simple (b := .expandedNodeId) ⟨p.1, p.2.1, p.2.2⟩)
        (both nodeIdDecodeBinary (both stringDecodeBinary uint32DecodeBinary))
  | .simple _ .localizedText =>
      map (fun p => .simple (b := .localizedText) ⟨p.1, p.2⟩)
        (both stringDecodeBinary stringDecodeBinary)
  | t => decodeBinary fuel t

end OpcUa.ValueDecoding
