import OpcUa.MemoryDecoding

namespace OpcUa.UnsetTypeIds

open StatusCodes NodeIds DataTypes Values Decoding ValueDecoding Ledgers DecodedMemory MemoryReaders MemoryDecoding
open Readers (Dec DecM)

section Variables

/-- `UA_NodeId` with whatever is found in it. `text` is the string and the byte
string, which lie over each other. -/
structure IdVariable where
  namespaceIndex : UInt16
  identifierType : UInt32
  numeric : UInt32
  text : Buffer
  guid : Guid

def numericType : UInt32 := 0
def stringType : UInt32 := 3
def guidType : UInt32 := 4
def byteStringType : UInt32 := 5

/-- `NodeId_deleteMembers`: what is freed. -/
def IdVariable.release (p : IdVariable) : List Release :=
  if p.identifierType = stringType ∨ p.identifierType = byteStringType then p.text.data.release else []

/-- `NodeId_deleteMembers`: what is left. -/
def IdVariable.deleted (p : IdVariable) : IdVariable :=
  if p.identifierType = stringType ∨ p.identifierType = byteStringType then { p with text := nullBuffer } else p

/-- `UA_NodeId_equal` with the id of a data type. All of these are numeric. -/
def IdVariable.equal (n1 : IdVariable) (n2 : NodeId) : Bool :=
  match n2.identifier with
  | .numeric identifier => n1.namespaceIndex == n2.namespaceIndex && n1.identifierType == numericType &&
      n1.numeric == identifier
  | _ => false

def IdVariable.findDataType (typeId : IdVariable) : Option DataType :=
  TypeTable.uaTypes.find? (fun t => typeId.equal t.typeId)

end Variables

section Destinations

variable {α : Type}

def assign (d : DecM α) (dst : α) : MemM Unit α := fun s =>
  match d s.dec with
  | none => none
  | some (.error code, dec) => some (.error code, dst, { s with dec := dec })
  | some (.ok a, dec) => some (.ok (), a, { s with dec := dec })

/-- `String_decodeBinary`. For an empty string the length is not assigned. -/
def stringInto (dst : Buffer) : MemM Unit Buffer :=
  after (plain (Readers.withError badInternalError int32DecodeBinary)) dst fun signedLength s =>
    if signedLength ≤ 0 then some (.ok (), { dst with data := if signedLength = 0 then .empty else .null }, s)
    else if s.dec.offset + signedLength.toNat > s.dec.data.length then some (.error badDecodingError, dst, s)
    else withBlock { dst with data := .null } (fun id =>
      place (fun _ => ()) (fun _ => ⟨.block id, signedLength.toNat⟩) (plain (Readers.take signedLength.toNat))) s

def textInto (identifierType : UInt32) (dst : IdVariable) : MemM Unit IdVariable :=
  place (fun _ => ())
    (fun x => { dst with identifierType := identifierType, namespaceIndex := x.1, text := x.2 })
    (both (assign uint16DecodeBinary dst.namespaceIndex) (stringInto dst.text))

/-- The cases of `NodeId_decodeBinary`. Of a guid that is cut off nothing is
kept, as nothing reads it. -/
def nodeIdBodyInto (encodingByte : UInt8) (dst : IdVariable) : MemM Unit IdVariable :=
  if encodingByte = 0 then
    place id (fun b => { dst with identifierType := numericType, numeric := b.toUInt32, namespaceIndex := 0 })
      (assign byteDecodeBinary 0)
  else if encodingByte = 1 then
    place (fun _ => ()) (fun x => { dst with
        identifierType := numericType, namespaceIndex := x.1.toUInt16, numeric := x.2.toUInt32 })
      (both (assign byteDecodeBinary 0) (assign uint16DecodeBinary 0))
  else if encodingByte = 2 then
    place (fun _ => ()) (fun x => { dst with
        identifierType := numericType, namespaceIndex := x.1, numeric := x.2 })
      (both (assign uint16DecodeBinary dst.namespaceIndex) (assign uint32DecodeBinary dst.numeric))
  else if encodingByte = 3 then textInto stringType dst
  else if encodingByte = 4 then
    place (fun _ => ()) (fun x => { dst with identifierType := guidType, namespaceIndex := x.1, guid := x.2 })
      (both (assign uint16DecodeBinary dst.namespaceIndex) (assign guidDecodeBinary dst.guid))
  else if encodingByte = 5 then textInto byteStringType dst
  else fail badInternalError dst

/-- `NodeId_decodeBinary` -/
def nodeIdInto (dst : IdVariable) : MemM Unit IdVariable :=
  after (plain byteDecodeBinary) dst fun encodingByte =>
    onError IdVariable.release IdVariable.deleted (nodeIdBodyInto encodingByte dst)

end Destinations

section Decoders

-- `contents`: what is found in the variable `typeId`, each time one comes to life
variable (contents : Nat → IdVariable) (jump : (t : DataType) → MemM (Val t) (Mem t))

/-- The type id and the encoding byte. The variable is deleted once it has
been read, and looked at before. -/
def typeIdFrom : MemM (IdVariable × UInt8) Unit := fun s =>
  match nodeIdInto (contents s.typeIds.length) { s with typeIds := s.dec :: s.typeIds } with
  | none => none
  | some (.error code, _, s) => some (.error code, (), s)
  | some (.ok (), typeId, s) =>
      discarded (fun _ => typeId.release) (place (Prod.mk typeId) id (plain byteDecodeBinary)) s

def objectVariantFrom : MemM (Val .variant) (Mem .variant) := fun s =>
  match typeIdFrom contents s with
  | none => none
  | some (.error code, _, s') => some (.error code, .noVariant, s'.seek s.dec.offset)
  | some (.ok (typeId, encoding), _, s') =>
      match if typeId.namespaceIndex = 0 ∧ encoding = 1 then typeId.findDataType else none with
      | some type => pointeeMem jump type s'
      | none => pointeeMem jump .extensionObject (s'.seek s.dec.offset)

/-- `Variant_decodeBinary` -/
def variantFrom : MemM (Val .variant) (Mem .variant) :=
  after (plain byteDecodeBinary) .noVariant fun encodingByte =>
    let index := (encodingByte &&& 0x3f).toNat
    if index = 0 ∨ index > 25 then fail badDecodingError .noVariant
    else
      let type := TypeTable.uaTypes.getD (index - 1) .extensionObject
      if flagged encodingByte 0x80 then arrayVariantMem jump type (flagged encodingByte 0x40)
      else if index - 1 ≠ 21 then
        onError release deleted
          (place scalarOf (fun x => .variant type x nullBuffer) (arrayMem type (jump type) 1))
      else objectVariantFrom contents jump

variable (fuel : Nat)

mutual

def typeFrom : (t : DataType) → MemM (Val t) (Mem t)
  | .simple _ b => place Val.simple Mem.simple (simpleMem fuel b)
  | .extensionObject => extensionObjectMem jump
  | .dataValue => dataValueMem (variantFrom contents jump)
  | .variant => variantFrom contents jump
  | .structure _ members => onError release deleted (place Val.struct Mem.struct (membersFrom members))

def membersFrom : (members : Members) → MemM (Slots members) (SlotsMem members)
  | .nil => succeed .nil .nil
  | .scalar t rest => place (fun p => .scalar p.1 p.2) (fun x => .scalar x.1 x.2)
      (both (typeFrom t) (membersFrom rest))
  | .array t rest => place (fun p => .array p.1 p.2) (fun x => .array x.1 x.2)
      (both (after (plain int32DecodeBinary) .null (arrayMem t (typeFrom t))) (membersFrom rest))

end

end Decoders

/-- The jump table, as `decodeMem`, with the contents of the variables. -/
def decodeFrom (contents : Nat → IdVariable) : Nat → (t : DataType) → MemM (Val t) (Mem t)
  | 0, _ => fun _ => none
  | fuel + 1, t => typeFrom contents (decodeFrom contents fuel) (fuel + 1) t

end OpcUa.UnsetTypeIds
