import OpcUa.DataTypes
import OpcUa.LittleEndian

namespace OpcUa.Values

open StatusCodes NodeIds DataTypes LittleEndian

/-- `UA_DataValue` apart from the variant. `mask` is the byte of the six bit
fields. -/
structure DataValueFields where
  mask : UInt8
  status : StatusCode
  sourceTimestamp : UInt64
  sourcePicoseconds : UInt16
  serverTimestamp : UInt64
  serverPicoseconds : UInt16
deriving DecidableEq, Repr

inductive BodyEncoding
  | nobody | byteString | xml
deriving DecidableEq, Repr

def BodyEncoding.byte : BodyEncoding → UInt8
  | .nobody => 0
  | .byteString => 1
  | .xml => 2

mutual

/-- The values of a type. Pointers and lengths that contradict each other, or
data that does not have the type it is said to have, cannot be expressed. -/
inductive Val : DataType → Type
  | simple {typeId : NodeId} {b : Builtin} (x : b.Carrier) : Val (.simple typeId b)
  | struct {info : StructInfo} {members : Members} (slots : Slots members) :
      Val (.structure info members)
  | encoded (typeId : NodeId) (encoding : BodyEncoding) (body : UaString) : Val .extensionObject
  | decoded (nodelete : Bool) (type : DataType) (data : Val type) : Val .extensionObject
  | emptyVariant : Val .variant
  | scalarVariant (type : DataType) (data : Val type) : Val .variant
  | arrayVariant (type : DataType) (data : Arr type) (dimensions : List UInt32) : Val .variant
  | dataValue (fields : DataValueFields) (value : Val .variant) : Val .dataValue

/-- `items .nil` is the pointer `UA_EMPTY_ARRAY_SENTINEL`. -/
inductive Arr : DataType → Type
  | null {t : DataType} : Arr t
  | items {t : DataType} (vs : Vals t) : Arr t

inductive Vals : DataType → Type
  | nil {t : DataType} : Vals t
  | cons {t : DataType} (v : Val t) (vs : Vals t) : Vals t

inductive Slots : Members → Type
  | nil : Slots .nil
  | scalar {t : DataType} {rest : Members} (v : Val t) (slots : Slots rest) : Slots (.scalar t rest)
  | array {t : DataType} {rest : Members} (a : Arr t) (slots : Slots rest) : Slots (.array t rest)

end

def Vals.length {t : DataType} : Vals t → Nat
  | .nil => 0
  | .cons _ vs => vs.length + 1

def Arr.length {t : DataType} : Arr t → Nat
  | .null => 0
  | .items vs => vs.length

/-- The bytes of a number in memory, for the types that are copied as they
are. -/
def simpleImage : (b : Builtin) → b.Carrier → List UInt8
  | .boolean, x | .sbyte, x | .byte, x => [x]
  | .int16, x | .uint16, x => toBytes 2 x.toNat
  | .int32, x | .uint32, x | .float, x | .statusCode, x => toBytes 4 x.toNat
  | .int64, x | .uint64, x | .double, x | .dateTime, x => toBytes 8 x.toNat
  | _, _ => []

mutual

def image : {t : DataType} → Val t → List UInt8
  | _, .simple (b := b) x => simpleImage b x
  | _, .struct slots => imageSlots slots
  | _, _ => []

def imageSlots : {members : Members} → Slots members → List UInt8
  | _, .nil => []
  | _, .scalar v slots => image v ++ imageSlots slots
  | _, .array _ slots => imageSlots slots

end

def imageVals {t : DataType} : Vals t → List UInt8
  | .nil => []
  | .cons v vs => image v ++ imageVals vs

def simpleOfImage : (b : Builtin) → List UInt8 → b.Carrier
  | .boolean, bytes | .sbyte, bytes | .byte, bytes => UInt8.ofNat (ofBytes (bytes.take 1))
  | .int16, bytes | .uint16, bytes => UInt16.ofNat (ofBytes (bytes.take 2))
  | .int32, bytes | .uint32, bytes | .float, bytes | .statusCode, bytes =>
      UInt32.ofNat (ofBytes (bytes.take 4))
  | .int64, bytes | .uint64, bytes | .double, bytes | .dateTime, bytes =>
      UInt64.ofNat (ofBytes (bytes.take 8))
  | .string, _ | .byteString, _ | .xmlElement, _ => none
  | .guid, _ => ⟨0, 0, 0, [0, 0, 0, 0, 0, 0, 0, 0], length_zeros⟩
  | .nodeId, _ => nullId
  | .expandedNodeId, _ => ⟨nullId, none, 0⟩
  | .localizedText, _ => ⟨none, none⟩
  | .diagnosticInfo, _ => .plain ⟨0, 0, 0, 0, 0, none, 0⟩ rfl

mutual

/-- The value that a piece of memory holds. The types that are never copied
as they are read as zeroed memory. -/
def ofImage : (t : DataType) → List UInt8 → Val t
  | .simple _ b, bytes => .simple (simpleOfImage b bytes)
  | .extensionObject, _ => .encoded nullId .nobody none
  | .dataValue, _ => .dataValue ⟨0, 0, 0, 0, 0, 0⟩ .emptyVariant
  | .variant, _ => .emptyVariant
  | .structure _ members, bytes => .struct (ofImageMembers members bytes)

def ofImageMembers : (members : Members) → List UInt8 → Slots members
  | .nil, _ => .nil
  | .scalar t rest, bytes => .scalar (ofImage t bytes) (ofImageMembers rest (bytes.drop t.memSize))
  | .array _ rest, bytes => .array .null (ofImageMembers rest bytes)

end

def ofImages (t : DataType) : Nat → List UInt8 → Vals t
  | 0, _ => .nil
  | n + 1, bytes => .cons (ofImage t bytes) (ofImages t n (bytes.drop t.memSize))

end OpcUa.Values
