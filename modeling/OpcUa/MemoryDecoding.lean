import OpcUa.DecodedMemory
import OpcUa.MemoryReaders
import OpcUa.ValueDecoding

namespace OpcUa.MemoryDecoding

open StatusCodes NodeIds DataTypes Values Decoding ValueDecoding DecodedMemory MemoryReaders
open Readers (Dec DecM)

/-- `none` stands for a string that has not been assigned. A length that is not
assigned is never looked at: only bytes are freed by it. -/
def stringMem : MemM UaString (Option Buffer) :=
  after (plain (Readers.withError badInternalError int32DecodeBinary)) none fun signedLength s =>
    if signedLength ≤ 0 then
      some (.ok (if signedLength = 0 then some [] else none),
        some (if signedLength = 0 then ⟨.empty, 0⟩ else nullBuffer), s)
    else if s.dec.offset + signedLength.toNat > s.dec.data.length then
      some (.error badDecodingError, none, s)
    else withBlock (some nullBuffer) (fun id =>
      place some (fun _ => some ⟨.block id, signedLength.toNat⟩) (plain (Readers.take signedLength.toNat))) s

def bufferMem : MemM UaString Buffer := place id (·.getD nullBuffer) stringMem

def nodeIdBodyMem (encodingByte : UInt8) : MemM NodeId IdWrite :=
  if encodingByte = 3 then
    place (fun p => ⟨p.1, .string p.2⟩) (fun x => .text x.2) (both (plain uint16DecodeBinary) stringMem)
  else if encodingByte = 5 then
    place (fun p => ⟨p.1, .byteString p.2⟩) (fun x => .text x.2) (both (plain uint16DecodeBinary) stringMem)
  else if encodingByte > 5 then fail badInternalError .nothing
  else place id (fun _ => .plain) (plain (nodeIdBodyDecodeBinary encodingByte))

def nodeIdMem : MemM NodeId IdMem :=
  after (plain byteDecodeBinary) .plain fun encodingByte =>
    onError IdMem.release IdMem.deleted (place id IdWrite.zeroed (nodeIdBodyMem encodingByte))

/-- The same decoder on a variable that has not been set: after an error
`NodeId_deleteMembers` looks at what happens to be there. -/
def unsetNodeIdMem : MemM NodeId IdWrite := fun s =>
  after (plain byteDecodeBinary) .plain
    (fun encodingByte => onError IdWrite.release (fun _ => .plain) (nodeIdBodyMem encodingByte))
    { s with typeIds := s.dec :: s.typeIds }

def expandedNodeIdFieldsMem (encodingByte : UInt8) : MemM ExpandedNodeId (IdMem × Buffer) :=
  place (fun p => ⟨if flagged encodingByte 0x80 then { p.1 with namespaceIndex := 0 } else p.1, p.2.1, p.2.2⟩)
    (fun x => (x.1, x.2.1))
    (both nodeIdMem
      (both (whenFlagged (flagged encodingByte 0x80) none nullBuffer bufferMem)
        (whenFlagged (flagged encodingByte 0x40) 0 () (plain uint32DecodeBinary))))

/-- `UA_ExpandedNodeId_deleteMembers` -/
def deletedExpandedNodeId (x : IdMem × Buffer) : IdMem × Buffer := (x.1.deleted, nullBuffer)

def expandedNodeIdMem : MemM ExpandedNodeId (IdMem × Buffer) := fun s =>
  if s.dec.offset ≥ s.dec.data.length then some (.error badDecodingError, (.plain, nullBuffer), s)
  else
    let encodingByte := s.dec.data.getD s.dec.offset 0
    onError (SimpleMem.release .expandedNodeId) deletedExpandedNodeId (expandedNodeIdFieldsMem encodingByte)
      { s with dec := { s.dec with
          data := Buffers.overwrite s.dec.data s.dec.offset [encodingByte &&& 0x3f],
          reads := (s.dec.offset, 1) :: s.dec.reads } }

def localizedTextMem : MemM LocalizedText (Buffer × Buffer) :=
  after (plain byteDecodeBinary) (nullBuffer, nullBuffer) fun mask =>
    onError (SimpleMem.release .localizedText) (fun _ => (nullBuffer, nullBuffer))
      (place (fun p => ⟨p.1, p.2⟩) id
        (both (whenFlagged (flagged mask 1) none nullBuffer bufferMem)
          (whenFlagged (flagged mask 2) none nullBuffer bufferMem)))

def diagnosticFieldsMem (mask : UInt8) : MemM DiagnosticFields Buffer :=
  place (fun p => ⟨mask, p.1, p.2.1, p.2.2.1, p.2.2.2.1, p.2.2.2.2.1, p.2.2.2.2.2⟩) (fun x => x.2.2.2.2.1)
    (both (whenFlagged (flagged mask 0x01) 0 () (plain uint32DecodeBinary))
      (both (whenFlagged (flagged mask 0x02) 0 () (plain uint32DecodeBinary))
        (both (whenFlagged (flagged mask 0x04) 0 () (plain uint32DecodeBinary))
          (both (whenFlagged (flagged mask 0x08) 0 () (plain uint32DecodeBinary))
            (both (whenFlagged (flagged mask 0x10) none nullBuffer bufferMem)
              (whenFlagged (flagged mask 0x20) 0 () (plain uint32DecodeBinary)))))))

/-- Without memory for the inner info, its flag is cleared. -/
def infoOf (x : Buffer × Option (Nat × InfoMem)) : InfoMem :=
  match x.2 with
  | none => .plain x.1
  | some (id, inner) => .nested x.1 id inner

def deletedInfo (_ : InfoMem) : InfoMem := .plain nullBuffer

def diagnosticInfoMem : Nat → MemM DiagnosticInfo InfoMem
  | 0 => fun _ => none
  | fuel + 1 => after (plain byteDecodeBinary) (.plain nullBuffer) fun mask =>
      onError InfoMem.release deletedInfo <|
        if h : hasInner mask = true then
          place (fun p => .nested { p.1 with mask := mask } h p.2) infoOf
            (both (diagnosticFieldsMem mask)
              (withBlock none fun block => place id (fun inner => some (block, inner)) (diagnosticInfoMem fuel)))
        else
          place (fun fields => .plain { fields with mask := mask } (by simpa using h)) .plain
            (diagnosticFieldsMem mask)

/-- The entries of `decodeBinaryJumpTable` for the simple types. -/
def simpleMem (fuel : Nat) : (b : Builtin) → MemM b.Carrier (SimpleMem b)
  | .string | .byteString | .xmlElement => bufferMem
  | .nodeId => nodeIdMem
  | .expandedNodeId => expandedNodeIdMem
  | .localizedText => localizedTextMem
  | .diagnosticInfo => diagnosticInfoMem fuel
  | .boolean => plain (simpleDecodeBinary fuel .boolean)
  | .sbyte => plain (simpleDecodeBinary fuel .sbyte)
  | .byte => plain (simpleDecodeBinary fuel .byte)
  | .int16 => plain (simpleDecodeBinary fuel .int16)
  | .uint16 => plain (simpleDecodeBinary fuel .uint16)
  | .int32 => plain (simpleDecodeBinary fuel .int32)
  | .uint32 => plain (simpleDecodeBinary fuel .uint32)
  | .int64 => plain (simpleDecodeBinary fuel .int64)
  | .uint64 => plain (simpleDecodeBinary fuel .uint64)
  | .float => plain (simpleDecodeBinary fuel .float)
  | .double => plain (simpleDecodeBinary fuel .double)
  | .dateTime => plain (simpleDecodeBinary fuel .dateTime)
  | .guid => plain (simpleDecodeBinary fuel .guid)
  | .statusCode => plain (simpleDecodeBinary fuel .statusCode)

/-- The cells of the elements that have been decoded. The one that failed is
not among them. -/
def itemsMem {t : DataType} (item : MemM (Val t) (Mem t)) : Nat → MemM (Vals t) (Cells t)
  | 0 => succeed .nil .nil
  | n + 1 => fun s => match item s with
      | none => none
      | some (.error code, _, s) => some (.error code, .nil, s)
      | some (.ok v, m, s) => place (Vals.cons v) (Cells.cons m) (itemsMem item n) s

/-- Elements that cannot be copied leave their block, with a length of 0. After
an element that cannot be decoded the block is freed. -/
def arrayMem (t : DataType) (item : MemM (Val t) (Mem t)) (signedLength : Int) : MemM (Arr t) (ArrMem t) :=
  fun s =>
    let length := signedLength.toNat
    if signedLength ≤ 0 then
      some (.ok (if signedLength = 0 then .items .nil else .null), if signedLength = 0 then .empty else .null, s)
    else if t.memSize * length > maxArraySize then some (.error badOutOfMemory, .null, s)
    else if s.dec.offset + t.memSize * length / 32 > s.dec.data.length then
      some (.error badDecodingError, .null, s)
    else withBlock .null (fun id =>
      if zeroCopyable t then
        place (fun x => x) (.raw id) (after (plain (Readers.take (t.memSize * length))) 0 fun bytes =>
          succeed (.items (ofImages t length bytes)) length)
      else onError releaseArr (fun _ => .null) (place Arr.items (.cells id) (itemsMem item length))) s

/-- The type id is a variable of its own, zeroed. A numeric one needs no
memory. -/
def headerMem : MemM (NodeId × UInt8) Unit := fun s =>
  match both nodeIdMem (plain byteDecodeBinary) s with
  | none => none
  | some (.error code, x, s') =>
      some (.error (if unknownEncoding s.dec then code else badDecodingError), (), s'.free x.1.release)
  | some (.ok (typeId, encoding), x, s') =>
      if typeId.namespaceIndex ≠ 0 ∨ typeId.identifier.isNumeric = false then
        some (.error badDecodingError, (), s'.free x.1.release)
      else some (.ok (typeId, encoding), (), s')

def withLength {α μ : Type} (stop : Int) (m : MemM α μ) : MemM α μ := fun s =>
  match m s with
  | none => none
  | some (r, x, s) => if (s.dec.offset : Int) ≠ stop then some (.error badDecodingError, x, s) else some (r, x, s)

def contentMem (jump : (t : DataType) → MemM (Val t) (Mem t)) (typeId : NodeId) :
    MemM (Val .extensionObject) (Mem .extensionObject) := fun s =>
  let oldOffset := s.dec.offset
  after (plain int32DecodeBinary) (.encoded nullBuffer) (fun length =>
    onError release deleted <|
      match TypeTable.findDataType (contentId typeId) with
      | some type => withLength (oldOffset + 4 + length)
          (withBlock (.encoded nullBuffer) fun id => place (Val.decoded false type) (.decoded type id) (jump type))
      | none => atOffset oldOffset
          (place (fun body => .encoded (contentId typeId) .byteString body) .encoded bufferMem)) s

def extensionObjectMem (jump : (t : DataType) → MemM (Val t) (Mem t)) :
    MemM (Val .extensionObject) (Mem .extensionObject) :=
  after headerMem (.encoded nullBuffer) fun (typeId, encoding) =>
    if encoding = 0 then succeed (.encoded typeId .nobody none) (.encoded nullBuffer)
    else if encoding = 2 then
      onError release deleted (place (fun body => .encoded typeId .xml body) .encoded bufferMem)
    else contentMem jump typeId

/-- An array of numbers has no other block than its own. -/
def bufferOf {t : DataType} : ArrMem t → Buffer
  | .null => nullBuffer
  | .empty => ⟨.empty, 0⟩
  | .raw id length => ⟨.block id, length⟩
  | .cells id _ => ⟨.block id, 0⟩

def dimensionsMem (jump : (t : DataType) → MemM (Val t) (Mem t)) (signedLength : Int) :
    MemM (List UInt32) Buffer :=
  place dimensionsOf bufferOf (arrayMem TypeTable.int32 (jump TypeTable.int32) signedLength)

def arrayVariantMem (jump : (t : DataType) → MemM (Val t) (Mem t)) (type : DataType) (hasDimensions : Bool) :
    MemM (Val .variant) (Mem .variant) :=
  after (plain int32DecodeBinary) (.variant type .null nullBuffer) fun signedLength =>
    let array := arrayMem type (jump type) signedLength
    onError release deleted <|
      if hasDimensions then
        place id (fun x => .variant type x.1.1 x.2)
          (followed (both array (plain int32DecodeBinary)) nullBuffer fun (data, dimensions) =>
            place (fun ds => .arrayVariant type data ds) id (dimensionsMem jump dimensions))
      else place (fun data => .arrayVariant type data []) (fun x => .variant type x nullBuffer) array

/-- The value behind `data`: the block is freed here if it cannot be decoded. -/
def pointeeMem (jump : (t : DataType) → MemM (Val t) (Mem t)) (type : DataType) : MemM (Val .variant) (Mem .variant) :=
  onError release deleted <| withBlock (.variant type .null nullBuffer) fun block =>
    place id (fun x => .variant type x nullBuffer)
      (onError (fun _ => [.block block]) (fun _ => .null)
        (place (Val.scalarVariant type) (fun x => .cells block (.cons x .nil)) (jump type)))

/-- `typeId` is not initialised. If its decoder succeeds it is deleted in every
case that follows. -/
def typeIdMem : MemM (NodeId × UInt8) Unit := fun s =>
  match unsetNodeIdMem s with
  | none => none
  | some (.error code, _, s) => some (.error code, (), s)
  | some (.ok typeId, x, s) =>
      discarded (fun _ => x.release) (place (Prod.mk typeId) id (plain byteDecodeBinary)) s

def objectVariantMem (jump : (t : DataType) → MemM (Val t) (Mem t)) : MemM (Val .variant) (Mem .variant) := fun s =>
  match typeIdMem s with
  | none => none
  | some (.error code, _, s') => some (.error code, .noVariant, s'.seek s.dec.offset)
  | some (.ok (typeId, encoding), _, s') =>
      match if typeId.namespaceIndex = 0 ∧ encoding = 1 then TypeTable.findDataType typeId else none with
      | some type => pointeeMem jump type s'
      | none => pointeeMem jump .extensionObject (s'.seek s.dec.offset)

def variantMem (jump : (t : DataType) → MemM (Val t) (Mem t)) : MemM (Val .variant) (Mem .variant) :=
  after (plain byteDecodeBinary) .noVariant fun encodingByte =>
    let index := (encodingByte &&& 0x3f).toNat
    if index = 0 ∨ index > 25 then fail badDecodingError .noVariant
    else
      let type := TypeTable.uaTypes.getD (index - 1) .extensionObject
      if flagged encodingByte 0x80 then arrayVariantMem jump type (flagged encodingByte 0x40)
      else if index - 1 ≠ 21 then
        onError release deleted
          (place scalarOf (fun x => .variant type x nullBuffer) (arrayMem type (jump type) 1))
      else objectVariantMem jump

def dataValueMem (variant : MemM (Val .variant) (Mem .variant)) : MemM (Val .dataValue) (Mem .dataValue) :=
  after (plain byteDecodeBinary) (.dataValue .noVariant) fun mask =>
    onError release deleted <|
      place (fun p => .dataValue ⟨mask, p.2.1, p.2.2.1, clampPicoseconds p.2.2.2.1, p.2.2.2.2.1,
          clampPicoseconds p.2.2.2.2.2⟩ p.1)
        (fun x => .dataValue x.1)
        (both (whenFlagged (flagged mask 0x01) .emptyVariant .noVariant variant)
          (both (whenFlagged (flagged mask 0x02) 0 () (plain uint32DecodeBinary))
            (both (whenFlagged (flagged mask 0x04) 0 () (plain uint64DecodeBinary))
              (both (whenFlagged (flagged mask 0x10) 0 () (plain uint16DecodeBinary))
                (both (whenFlagged (flagged mask 0x08) 0 () (plain uint64DecodeBinary))
                  (whenFlagged (flagged mask 0x20) 0 () (plain uint16DecodeBinary)))))))

mutual

/-- `jump` decodes the values whose type is only known from the message. -/
def typeMem (fuel : Nat) (jump : (t : DataType) → MemM (Val t) (Mem t)) : (t : DataType) → MemM (Val t) (Mem t)
  | .simple _ b => place Val.simple Mem.simple (simpleMem fuel b)
  | .extensionObject => extensionObjectMem jump
  | .dataValue => dataValueMem (variantMem jump)
  | .variant => variantMem jump
  | .structure _ members => onError release deleted (place Val.struct Mem.struct (membersMem fuel jump members))

def membersMem (fuel : Nat) (jump : (t : DataType) → MemM (Val t) (Mem t)) :
    (members : Members) → MemM (Slots members) (SlotsMem members)
  | .nil => succeed .nil .nil
  | .scalar t rest => place (fun p => .scalar p.1 p.2) (fun x => .scalar x.1 x.2)
      (both (typeMem fuel jump t) (membersMem fuel jump rest))
  | .array t rest => place (fun p => .array p.1 p.2) (fun x => .array x.1 x.2)
      (both (after (plain int32DecodeBinary) .null (arrayMem t (typeMem fuel jump t))) (membersMem fuel jump rest))

end

/-- The jump table, for at most `fuel` nested values of dynamic type. -/
def decodeMem : Nat → (t : DataType) → MemM (Val t) (Mem t)
  | 0, _ => fun _ => none
  | fuel + 1, t => typeMem (fuel + 1) (decodeMem fuel) t

def byteArrayMem : MemM UaString Buffer :=
  place stringOf bufferOf (after (plain int32DecodeBinary) .null
    (arrayMem TypeTable.byte (place Val.simple Mem.simple (plain byteDecodeBinary))))

/-- `UA_decodeBinary` zeroes the destination and goes through the members of
the type. A builtin type is its own member, so that after an error
`UA_deleteMembers` runs once more. -/
def uaMem (fuel : Nat) : (t : DataType) → MemM (Val t) (Mem t)
  | .simple _ .string | .simple _ .byteString | .simple _ .xmlElement =>
      onError release deleted (place Val.simple Mem.simple byteArrayMem)
  | .simple _ .expandedNodeId =>
      onError release deleted (place (fun p => .simple (b := .expandedNodeId) ⟨p.1, p.2.1, p.2.2⟩)
        (fun x => .simple (b := .expandedNodeId) (x.1, x.2.1))
        (both nodeIdMem (both bufferMem (plain uint32DecodeBinary))))
  | .simple _ .localizedText =>
      onError release deleted (place (fun p => .simple (b := .localizedText) ⟨p.1, p.2⟩)
        (fun x => .simple (b := .localizedText) x) (both bufferMem bufferMem))
  | .structure info members => decodeMem fuel (.structure info members)
  | t => onError release deleted (decodeMem fuel t)

end OpcUa.MemoryDecoding
