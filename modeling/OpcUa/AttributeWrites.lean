import OpcUa.AttributeReads
import OpcUa.References

namespace OpcUa.AttributeWrites

open StatusCodes NodeIds DataTypes Values VariantRanges AddressSpaces References ValueRanges AttributeReads

/-- `UA_WriteValue`. If its value is an empty string with an ordinary pointer,
`pointed` is the byte that the pointer leads to. -/
structure WriteValue where
  nodeId : NodeId
  attributeId : UInt32
  indexRange : UaString
  value : DataValue
  pointed : Option UInt8

section Casts

inductive TypeEquivalence
  | distinct | enumeration | byteString
deriving DecidableEq

/-- The type has a single member. A member that is an array of `UA_Int32` is
taken for an enumeration, too. -/
def typeEquivalence : DataType → TypeEquivalence
  | .simple _ .int32 => .enumeration
  | .simple _ .string | .simple _ .byteString | .simple _ .xmlElement => .byteString
  | .structure _ (.scalar t .nil) => if t = TypeTable.int32 then .enumeration else .distinct
  | .structure _ (.array t .nil) =>
      if t = TypeTable.int32 then .enumeration else if t = TypeTable.byte then .byteString else .distinct
  | _ => .distinct

def byteArray : UaString → Arr TypeTable.byte
  | none => .null
  | some bytes => .items (listVals (bytes.map (fun x => .simple x)))

def arrayBytes : Arr TypeTable.byte → UaString
  | .null => none
  | .items vs => some ((valsList vs).map (fun | .simple x => x))

/-- The length and the pointer of a type that is a byte string. -/
def stringContent : (t : DataType) → Val t → Option UaString
  | .simple _ .string, .simple s | .simple _ .byteString, .simple s | .simple _ .xmlElement, .simple s => some s
  | .structure _ (.array t .nil), .struct (.array a .nil) =>
      if h : t = TypeTable.byte then some (arrayBytes (h ▸ a)) else none
  | _, _ => none

def ofStringContent : (t : DataType) → UaString → Option (Val t)
  | .simple _ .string, s | .simple _ .byteString, s | .simple _ .xmlElement, s => some (.simple s)
  | .structure _ (.array t .nil), s =>
      if h : t = TypeTable.byte then some (.struct (.array (h ▸ byteArray s) .nil)) else none
  | _, _ => none

/-- The memory of a value under an equivalent type, or `none` if it is not
what that type expects. -/
def retype {t : DataType} (t' : DataType) (data : Val t) : Option (Val t') :=
  match typeEquivalence t with
  | .distinct => none
  | .enumeration => if flat t && flat t' then some (ofImage t' (image data)) else none
  | .byteString => (stringContent t data).bind (ofStringContent t')

def retypeVariant (t' : DataType) : Val .variant → Option (Val .variant)
  | .emptyVariant => none
  | .scalarVariant _ data => (retype t' data).map (.scalarVariant t')
  | .arrayVariant _ .null dimensions => some (.arrayVariant t' .null dimensions)
  | .arrayVariant _ (.items vs) dimensions =>
      ((valsList vs).mapM (retype t')).map (fun elements => .arrayVariant t' (.items (listVals elements)) dimensions)

/-- The bytes of a string as the data of a variant. An ordinary pointer without
bytes makes it a scalar. -/
def bytesVariant (pointed : Option UInt8) (s : UaString) : Val .variant :=
  match s, pointed with
  | some [], some byte => byteVariant byte
  | s, _ => .arrayVariant TypeTable.byte (byteArray s) []

def stringElements (pointed : Option UInt8) : Val .variant → Option (Val .variant)
  | .scalarVariant t data => (stringContent t data).map (bytesVariant pointed)
  | _ => none

/-- The value as it is written over the old one: an enumeration may come as an
`Int32`, an opaque type as a byte string, and a byte string as an array of
bytes. `none` if one of them has no type. -/
def castValue (pointed : Option UInt8) (old new : Val .variant) : Option (Except StatusCode (Val .variant)) :=
  match typeOf old, typeOf new with
  | some t, some t' =>
      if nodeIdEqual t.typeId t'.typeId then some (.ok new)
      else if typeEquivalence t ≠ .distinct ∧ typeEquivalence t = typeEquivalence t' then
        (retypeVariant t new).map .ok
      else if t = TypeTable.byte ∧ isScalar old = false ∧ t' = TypeTable.byteString ∧ isScalar new = true then
        (stringElements pointed new).map .ok
      else some (.error badTypeMismatch)
  | _, _ => none

end Casts

section Copies

def hasData : Val .variant → Bool
  | .scalarVariant _ _ => true
  | .arrayVariant _ (.items (.cons _ _)) _ => true
  | _ => false

/-- What a copy of the value holds in the end. If there is no memory for the
dimensions, the data is deleted, but the type stays. -/
def copyOf (value : Val .variant) : VariantCopy → Val .variant
  | .complete => value
  | .noData => if hasData value then .emptyVariant else value
  | .noDimensions =>
      match value with
      | .arrayVariant t data (_ :: _) => .arrayVariant t (if hasData value then .null else data) []
      | value => value

end Copies

/-- What a callback of `UA_Server_editNode` leaves, with the calls it made. -/
structure Edit where
  retval : StatusCode
  members : NodeMembers
  calls : List ValueCall

section Values

variable (outside : Outside) (calls : List ValueCall) (nodeId : NodeId) (w : WriteValue)

/-- `CopyValueIntoNode`. The status of the copy is not looked at, and the
callback is called even if the range was refused. -/
def copyValueIntoNode (value : Val .variant) (onRead onWrite : Option Nat) :
    Option (StatusCode × ValueSource × List ValueCall) :=
  match parseIndexRange w.indexRange with
  | .error code => some (code, .variant value onRead onWrite, calls)
  | .ok range =>
      (castValue w.pointed value w.value.value).bind fun
        | .error code => some (code, .variant value onRead onWrite, calls)
        | .ok new =>
            let stored : Option (StatusCode × Val .variant) :=
              match range with
              | none => some (good, copyOf new (outside.copied new))
              | some range => setValueRange value new range
            stored.map (fun r =>
              (r.1, .variant r.2 onRead onWrite, calls ++ (onWrite.map (.onWrite · nodeId r.2 range)).toList))

/-- `Service_Write_single_ValueDataSource` -/
def writeDataSource (source : Nat) : StatusCode × List ValueCall :=
  match parseIndexRange w.indexRange with
  | .error code => (code, calls)
  | .ok range =>
      (outside.write calls source nodeId w.value.value range, calls ++ [.write source nodeId w.value.value range])

/-- The value is copied into the node or given to the data source. -/
def writeValue (members : ValueMembers) : Option (StatusCode × ValueMembers × List ValueCall) :=
  match members.value with
  | .variant value onRead onWrite =>
      (copyValueIntoNode outside calls nodeId w value onRead onWrite).map (fun r =>
        (r.1, { members with value := r.2.1 }, r.2.2))
  | .dataSource source =>
      let r := writeDataSource outside calls nodeId w source
      some (r.1, members, r.2)

end Values

section Members

/-- `CHECK_DATATYPE`: the value is a scalar of the type. -/
def checkDatatype (type : DataType) (v : DataValue) : Except StatusCode (Val type) :=
  match v.value with
  | .scalarVariant t data =>
      if h : t = type then (if v.hasValue then .ok (h ▸ data) else .error badTypeMismatch) else .error badTypeMismatch
  | _ => .error badTypeMismatch

def simpleData {typeId : NodeId} {b : Builtin} : Val (.simple typeId b) → b.Carrier
  | .simple x => x

def qualifiedNameData : Val TypeTable.qualifiedName → QualifiedName
  | .struct (.scalar (.simple namespaceIndex) (.scalar (.simple name) .nil)) => ⟨namespaceIndex, name⟩

variable (v : DataValue)

def checkBoolean : Except StatusCode UInt8 := (checkDatatype TypeTable.boolean v).map simpleData

def checkByte : Except StatusCode UInt8 := (checkDatatype TypeTable.byte v).map simpleData

def checkUInt32 : Except StatusCode UInt32 := (checkDatatype TypeTable.uint32 v).map simpleData

def checkDouble : Except StatusCode UInt64 := (checkDatatype TypeTable.double v).map simpleData

def checkLocalizedText : Except StatusCode LocalizedText := (checkDatatype TypeTable.localizedText v).map simpleData

def checkQualifiedName : Except StatusCode QualifiedName :=
  (checkDatatype TypeTable.qualifiedName v).map qualifiedNameData

def setLowByte (x : UInt32) (b : UInt8) : UInt32 := (x &&& 0xFFFFFF00) ||| b.toUInt32

/-- The attributes that belong to the class of the node. `isAbstract` is
written as the first member behind those that all nodes have. In a variable
type that is the value rank. -/
def bodyEdit (body : Body) : AttributeId → Except StatusCode Body
  | .isAbstract =>
      match body with
      | .objectType _ lifecycle => (checkBoolean v).map (.objectType · lifecycle)
      | .referenceType _ symmetric inverseName => (checkBoolean v).map (.referenceType · symmetric inverseName)
      | .variableType members isAbstract =>
          (checkBoolean v).map (fun x =>
            .variableType { members with valueRank := setLowByte members.valueRank x } isAbstract)
      | .dataType _ => (checkBoolean v).map .dataType
      | _ => .error badNodeClassInvalid
  | .symmetric =>
      match body with
      | .referenceType isAbstract _ inverseName => (checkBoolean v).map (.referenceType isAbstract · inverseName)
      | _ => .error badNodeClassInvalid
  | .inverseName =>
      match body with
      | .referenceType isAbstract symmetric _ => (checkLocalizedText v).map (.referenceType isAbstract symmetric)
      | _ => .error badNodeClassInvalid
  | .containsNoLoops =>
      match body with
      | .view eventNotifier _ => (checkBoolean v).map (.view eventNotifier)
      | _ => .error badNodeClassInvalid
  | .eventNotifier =>
      match body with
      | .view _ containsNoLoops => (checkByte v).map (.view · containsNoLoops)
      | .object _ instanceHandle => (checkByte v).map (.object · instanceHandle)
      | _ => .error badNodeClassInvalid
  | .accessLevel =>
      match body with
      | .variable members => (checkByte v).map (fun x => .variable { members with accessLevel := x })
      | _ => .error badNodeClassInvalid
  | .userAccessLevel =>
      match body with
      | .variable members => (checkByte v).map (fun x => .variable { members with userAccessLevel := x })
      | _ => .error badNodeClassInvalid
  | .minimumSamplingInterval =>
      match body with
      | .variable members => (checkDouble v).map (fun x => .variable { members with minimumSamplingInterval := x })
      | _ => .error badNodeClassInvalid
  | .historizing =>
      match body with
      | .variable members => (checkBoolean v).map (fun x => .variable { members with historizing := x })
      | _ => .error badNodeClassInvalid
  | .executable =>
      match body with
      | .method _ userExecutable attachedMethod methodHandle =>
          (checkBoolean v).map (.method · userExecutable attachedMethod methodHandle)
      | _ => .error badNodeClassInvalid
  | .userExecutable =>
      match body with
      | .method executable _ attachedMethod methodHandle =>
          (checkBoolean v).map (.method executable · attachedMethod methodHandle)
      | _ => .error badNodeClassInvalid
  | _ => .error badAttributeIdInvalid

/-- The attributes other than the value. Neither the value rank nor the array
dimensions can be written. -/
def membersEdit (n : NodeMembers) : AttributeId → Except StatusCode NodeMembers
  | .nodeId | .nodeClass | .dataType => .error badWriteNotSupported
  | .browseName => (checkQualifiedName v).map (fun x => { n with browseName := x })
  | .displayName => (checkLocalizedText v).map (fun x => { n with displayName := x })
  | .description => (checkLocalizedText v).map (fun x => { n with description := x })
  | .writeMask => (checkUInt32 v).map (fun x => { n with writeMask := x })
  | .userWriteMask => (checkUInt32 v).map (fun x => { n with userWriteMask := x })
  | a => (bodyEdit v n.body a).map (fun body => { n with body := body })

end Members

section Single

variable (outside : Outside) (calls : List ValueCall) (w : WriteValue)

/-- The node with the value in it, for the two classes that have one. -/
def valueEdit (n : Node) : Option Edit :=
  match n.body with
  | .variable members =>
      (writeValue outside calls n.nodeId w members.toValueMembers).map (fun r =>
        ⟨r.1, { n.toNodeMembers with body := .variable { members with toValueMembers := r.2.1 } }, r.2.2⟩)
  | .variableType members isAbstract =>
      (writeValue outside calls n.nodeId w members).map (fun r =>
        ⟨r.1, { n.toNodeMembers with body := .variableType r.2.1 isAbstract }, r.2.2⟩)
  | _ => some ⟨badNodeClassInvalid, n.toNodeMembers, calls⟩

def copyAttributeIntoNode (n : Node) : Option Edit :=
  if !w.value.hasValue then some ⟨badNoData, n.toNodeMembers, calls⟩
  else
    match attributeOf w.attributeId with
    | none => some ⟨badAttributeIdInvalid, n.toNodeMembers, calls⟩
    | some .value => valueEdit outside calls w n
    | some a =>
        match membersEdit w.value n.toNodeMembers a with
        | .error code => some ⟨code, n.toNodeMembers, calls⟩
        | .ok members => some ⟨good, members, calls⟩

/-- `Service_Write_single`. `none` if a value without a type is written or
overwritten, or if a range leaves its array. -/
def writeSingle (s : AddressSpace) : Option (StatusCode × AddressSpace × List ValueCall) :=
  match s.get w.nodeId with
  | none => some (badNodeIdUnknown, s, calls)
  | some n =>
      (copyAttributeIntoNode outside calls w n).map (fun edit =>
        let r := editNode s w.nodeId (fun _ => (edit.retval, edit.members))
        (r.1, r.2, edit.calls))

end Single

end OpcUa.AttributeWrites
