import OpcUa.DataTypes
import OpcUa.Readers

namespace OpcUa.Decoding

open StatusCodes LittleEndian NodeIds DataTypes Buffers Readers

def byteDecodeBinary : DecM UInt8 := map (fun bs => UInt8.ofNat (ofBytes bs)) (take 1)

def booleanDecodeBinary : DecM UInt8 := map (fun b => if b > 0 then 1 else 0) byteDecodeBinary

def uint16DecodeBinary : DecM UInt16 := map (fun bs => UInt16.ofNat (ofBytes bs)) (take 2)

def uint32DecodeBinary : DecM UInt32 := map (fun bs => UInt32.ofNat (ofBytes bs)) (take 4)

def uint64DecodeBinary : DecM UInt64 := map (fun bs => UInt64.ofNat (ofBytes bs)) (take 8)

def int32DecodeBinary : DecM Int := map (fun x => toInt32 x.toNat) uint32DecodeBinary

def stringDecodeBinary : DecM UaString :=
  andThen (withError badInternalError int32DecodeBinary) fun signedLength st =>
    if signedLength ≤ 0 then some (.ok (if signedLength = 0 then some [] else none), st)
    else if st.offset + signedLength.toNat > st.data.length then
      some (.error badDecodingError, st)
    else andThen allocate (fun _ => map some (take signedLength.toNat)) st

def bytesDecodeBinary : Nat → DecM (List UInt8)
  | 0 => succeed []
  | n + 1 => map (fun p => p.1 :: p.2) (both byteDecodeBinary (bytesDecodeBinary n))

/-- The last field keeps the type's invariant; a list of another length is
not possible here. -/
def guidOf (p : UInt32 × UInt16 × UInt16 × List UInt8) : Guid :=
  if h : p.2.2.2.length = 8 then ⟨p.1, p.2.1, p.2.2.1, p.2.2.2, h⟩
  else ⟨p.1, p.2.1, p.2.2.1, [0, 0, 0, 0, 0, 0, 0, 0], rfl⟩

def guidDecodeBinary : DecM Guid :=
  map guidOf (both uint32DecodeBinary (both uint16DecodeBinary
    (both uint16DecodeBinary (bytesDecodeBinary 8))))

def nodeIdBodyDecodeBinary (encodingByte : UInt8) : DecM NodeId :=
  if encodingByte = 0 then map (fun b => numericId 0 b.toUInt32) byteDecodeBinary
  else if encodingByte = 1 then
    map (fun p => numericId p.1.toUInt16 p.2.toUInt32) (both byteDecodeBinary uint16DecodeBinary)
  else if encodingByte = 2 then
    map (fun p => numericId p.1 p.2) (both uint16DecodeBinary uint32DecodeBinary)
  else if encodingByte = 3 then
    map (fun p => ⟨p.1, .string p.2⟩) (both uint16DecodeBinary stringDecodeBinary)
  else if encodingByte = 4 then
    map (fun p => ⟨p.1, .guid p.2⟩) (both uint16DecodeBinary guidDecodeBinary)
  else if encodingByte = 5 then
    map (fun p => ⟨p.1, .byteString p.2⟩) (both uint16DecodeBinary stringDecodeBinary)
  else fail badInternalError

def nodeIdDecodeBinary : DecM NodeId := andThen byteDecodeBinary nodeIdBodyDecodeBinary

def expandedNodeIdFields (encodingByte : UInt8) : DecM ExpandedNodeId :=
  map (fun p => ⟨if flagged encodingByte 0x80 then { p.1 with namespaceIndex := 0 } else p.1,
      p.2.1, p.2.2⟩)
    (both nodeIdDecodeBinary
      (both (whenFlagged (flagged encodingByte 0x80) none stringDecodeBinary)
        (whenFlagged (flagged encodingByte 0x40) 0 uint32DecodeBinary)))

def expandedNodeIdDecodeBinary : DecM ExpandedNodeId := fun st =>
  if st.offset ≥ st.data.length then some (.error badDecodingError, st)
  else
    let encodingByte := st.data.getD st.offset 0
    expandedNodeIdFields encodingByte
      { st with
        data := overwrite st.data st.offset [encodingByte &&& 0x3f],
        reads := (st.offset, 1) :: st.reads }

/-- A mask that cannot be read counts as 0, so nothing more is decoded. -/
def localizedTextDecodeBinary : DecM LocalizedText :=
  andThen byteDecodeBinary fun mask =>
    map (fun p => ⟨p.1, p.2⟩)
      (both (whenFlagged (flagged mask 1) none stringDecodeBinary)
        (whenFlagged (flagged mask 2) none stringDecodeBinary))

def diagnosticFieldsDecodeBinary (mask : UInt8) : DecM DiagnosticFields :=
  map (fun p => ⟨mask, p.1, p.2.1, p.2.2.1, p.2.2.2.1, p.2.2.2.2.1, p.2.2.2.2.2⟩)
    (both (whenFlagged (flagged mask 0x01) 0 uint32DecodeBinary)
      (both (whenFlagged (flagged mask 0x02) 0 uint32DecodeBinary)
        (both (whenFlagged (flagged mask 0x04) 0 uint32DecodeBinary)
          (both (whenFlagged (flagged mask 0x08) 0 uint32DecodeBinary)
            (both (whenFlagged (flagged mask 0x10) none stringDecodeBinary)
              (whenFlagged (flagged mask 0x20) 0 uint32DecodeBinary))))))

def diagnosticInfoDecodeBinary : Nat → DecM DiagnosticInfo
  | 0 => fun _ => none
  | fuel + 1 => andThen byteDecodeBinary fun mask =>
      if h : hasInner mask = true then
        map (fun p => .nested { p.1 with mask := mask } h p.2)
          (both (diagnosticFieldsDecodeBinary mask)
            (andThen allocate (fun _ => diagnosticInfoDecodeBinary fuel)))
      else
        map (fun fields => .plain { fields with mask := mask } (by simpa using h))
          (diagnosticFieldsDecodeBinary mask)

/-- The entries of `decodeBinaryJumpTable` for the simple types. -/
def simpleDecodeBinary (fuel : Nat) : (b : Builtin) → DecM b.Carrier
  | .boolean => booleanDecodeBinary
  | .sbyte | .byte => byteDecodeBinary
  | .int16 | .uint16 => uint16DecodeBinary
  | .int32 | .uint32 | .float | .statusCode => uint32DecodeBinary
  | .int64 | .uint64 | .double | .dateTime => uint64DecodeBinary
  | .string | .byteString | .xmlElement => stringDecodeBinary
  | .guid => guidDecodeBinary
  | .nodeId => nodeIdDecodeBinary
  | .expandedNodeId => expandedNodeIdDecodeBinary
  | .localizedText => localizedTextDecodeBinary
  | .diagnosticInfo => diagnosticInfoDecodeBinary fuel

end OpcUa.Decoding
