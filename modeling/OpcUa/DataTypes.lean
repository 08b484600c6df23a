import OpcUa.NodeIds

namespace OpcUa.DataTypes

open StatusCodes NodeIds

structure ExpandedNodeId where
  nodeId : NodeId
  namespaceUri : UaString
  serverIndex : UInt32
deriving DecidableEq, Repr

structure LocalizedText where
  locale : UaString
  text : UaString
deriving DecidableEq, Repr

/-- The members of `UA_DiagnosticInfo` apart from the inner one. `mask` is the
byte of the seven bit fields. -/
structure DiagnosticFields where
  mask : UInt8
  symbolicId : UInt32
  namespaceUri : UInt32
  localizedText : UInt32
  locale : UInt32
  additionalInfo : UaString
  innerStatusCode : StatusCode
deriving DecidableEq, Repr

def flagged (mask bit : UInt8) : Bool := mask &&& bit != 0

def hasInner (mask : UInt8) : Bool := flagged mask 0x40

/-- The inner element is there exactly if its bit is set. -/
inductive DiagnosticInfo
  | plain (fields : DiagnosticFields) (h : hasInner fields.mask = false)
  | nested (fields : DiagnosticFields) (h : hasInner fields.mask = true) (inner : DiagnosticInfo)
deriving DecidableEq

/-- The builtin types that do not refer to other type descriptions. -/
inductive Builtin
  | boolean | sbyte | byte | int16 | uint16 | int32 | uint32 | int64 | uint64 | float | double
  | string | dateTime | guid | byteString | xmlElement | nodeId | expandedNodeId | statusCode
  | localizedText | diagnosticInfo
deriving DecidableEq, Repr

/-- The C type that holds a value. A `UA_Boolean` is the byte in memory. -/
@[reducible] def Builtin.Carrier : Builtin → Type
  | .boolean | .sbyte | .byte => UInt8
  | .int16 | .uint16 => UInt16
  | .int32 | .uint32 | .float | .statusCode => UInt32
  | .int64 | .uint64 | .double | .dateTime => UInt64
  | .string | .byteString | .xmlElement => UaString
  | .guid => Guid
  | .nodeId => NodeId
  | .expandedNodeId => ExpandedNodeId
  | .localizedText => LocalizedText
  | .diagnosticInfo => DiagnosticInfo

def Builtin.typeIndex : Builtin → Nat
  | .boolean => 0 | .sbyte => 1 | .byte => 2 | .int16 => 3 | .uint16 => 4 | .int32 => 5
  | .uint32 => 6 | .int64 => 7 | .uint64 => 8 | .float => 9 | .double => 10 | .string => 11
  | .dateTime => 12 | .guid => 13 | .byteString => 14 | .xmlElement => 15 | .nodeId => 16
  | .expandedNodeId => 17 | .statusCode => 18 | .localizedText => 20 | .diagnosticInfo => 24

/-- `sizeof` on a 64-bit platform. -/
def Builtin.memSize : Builtin → Nat
  | .boolean | .sbyte | .byte => 1
  | .int16 | .uint16 => 2
  | .int32 | .uint32 | .float | .statusCode => 4
  | .int64 | .uint64 | .double | .dateTime => 8
  | .string | .byteString | .xmlElement | .guid => 16
  | .nodeId => 24
  | .expandedNodeId => 48
  | .localizedText => 32
  | .diagnosticInfo => 56

def Builtin.align (b : Builtin) : Nat :=
  match b with
  | .guid => 4
  | b => min b.memSize 8

def Builtin.zeroCopyable : Builtin → Bool
  | .boolean | .sbyte | .byte | .int16 | .uint16 | .int32 | .uint32 | .int64 | .uint64
  | .float | .double | .dateTime | .statusCode => true
  | _ => false

/-- `builtin` is only set for QualifiedName, the one builtin type that goes
through its member descriptions. -/
structure StructInfo where
  typeId : NodeId
  builtin : Bool
  zeroCopyable : Bool
  memSize : Nat
deriving DecidableEq, Repr

mutual

/-- `UA_DataType`. Enumerations are `int32` under a type id of their own. -/
inductive DataType
  | simple (typeId : NodeId) (b : Builtin)
  | extensionObject
  | dataValue
  | variant
  | structure (info : StructInfo) (members : Members)

inductive Members
  | nil
  | scalar (memberType : DataType) (rest : Members)
  | array (memberType : DataType) (rest : Members)

end

namespace DataType

def typeId : DataType → NodeId
  | simple id _ => id
  | extensionObject => numericId 0 22
  | dataValue => numericId 0 23
  | variant => numericId 0 24
  | «structure» info _ => info.typeId

def memSize : DataType → Nat
  | simple _ b => b.memSize
  | extensionObject | variant => 48
  | dataValue => 96
  | «structure» info _ => info.memSize

def builtin : DataType → Bool
  | «structure» info _ => info.builtin
  | _ => true

def typeIndex : DataType → Nat
  | simple _ b => b.typeIndex
  | extensionObject => 21
  | dataValue => 22
  | variant => 23
  | «structure» _ _ => 19

end DataType

mutual

def align : DataType → Nat
  | .simple _ b => b.align
  | .structure _ members => alignMembers members
  | _ => 8

def alignMembers : Members → Nat
  | .nil => 1
  | .scalar t rest => max (align t) (alignMembers rest)
  | .array _ rest => max 8 (alignMembers rest)

end

def roundUp (n a : Nat) : Nat := (n + a - 1) / a * a

/-- The end of the last member when the first one starts at `offset`. -/
def layout : Nat → Members → Nat
  | offset, .nil => offset
  | offset, .scalar t rest => layout (roundUp offset (align t) + t.memSize) rest
  | offset, .array _ rest => layout (roundUp offset 8 + 16) rest

def Members.size (members : Members) : Nat := roundUp (layout 0 members) (alignMembers members)

mutual

/-- The memory of a value is its encoding: it holds plain numbers without gaps. -/
def flat : DataType → Bool
  | .simple _ b => b.zeroCopyable
  | .structure info members => flatMembers members && info.memSize == packedSize members
  | _ => false

def flatMembers : Members → Bool
  | .nil => true
  | .scalar t rest => flat t && flatMembers rest
  | .array _ _ => false

def packedSize : Members → Nat
  | .nil => 0
  | .scalar t rest => t.memSize + packedSize rest
  | .array _ rest => 16 + packedSize rest

end

/-- The generator sets the flag for structures of fixed size to
`sizeof(T) == n`, where `n` is the length of the encoding. -/
def zeroCopyable : DataType → Bool
  | .structure info members => info.zeroCopyable && flat (.structure info members)
  | t => flat t

end OpcUa.DataTypes
