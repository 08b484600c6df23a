import OpcUa.AddressSpaces
import OpcUa.Sessions
import OpcUa.ValueRanges

namespace OpcUa.AttributeReads

open StatusCodes NodeIds DataTypes Values VariantRanges AddressSpaces ValueRanges
open NodeStores (NodeClass)
open Sessions (ascii)

inductive AttributeId
  | nodeId | nodeClass | browseName | displayName | description | writeMask | userWriteMask
  | isAbstract | symmetric | inverseName | containsNoLoops | eventNotifier
  | value | dataType | valueRank | arrayDimensions
  | accessLevel | userAccessLevel | minimumSamplingInterval | historizing
  | executable | userExecutable
deriving DecidableEq, Repr

namespace AttributeId

def all : List AttributeId :=
  [nodeId, nodeClass, browseName, displayName, description, writeMask, userWriteMask, isAbstract, symmetric,
    inverseName, containsNoLoops, eventNotifier, value, dataType, valueRank, arrayDimensions, accessLevel,
    userAccessLevel, minimumSamplingInterval, historizing, executable, userExecutable]

def number (a : AttributeId) : UInt32 := UInt32.ofNat (all.idxOf a + 1)

end AttributeId

def attributeOf (number : UInt32) : Option AttributeId := AttributeId.all.find? (·.number == number)

theorem attributeOf_number (a : AttributeId) : attributeOf a.number = some a := by cases a <;> rfl

inductive TimestampsToReturn
  | source | server | both | neither
deriving DecidableEq, Repr

structure DataValue where
  hasValue : Bool
  hasStatus : Bool
  hasSourceTimestamp : Bool
  hasServerTimestamp : Bool
  hasSourcePicoseconds : Bool
  hasServerPicoseconds : Bool
  value : Val .variant
  status : StatusCode
  sourceTimestamp : UInt64
  sourcePicoseconds : UInt16
  serverTimestamp : UInt64
  serverPicoseconds : UInt16

def DataValue.init : DataValue := ⟨false, false, false, false, false, false, .emptyVariant, good, 0, 0, 0, 0⟩

def DataValue.expected : DataValue := { DataValue.init with hasValue := true }

structure ReadValueId where
  nodeId : NodeId
  attributeId : UInt32
  indexRange : UaString
  dataEncoding : QualifiedName
deriving DecidableEq

/-- The calls into the callbacks of variables and into their data sources. -/
inductive ValueCall
  | onRead (callback : Nat) (nodeId : NodeId) (range : Option NumericRange)
  | onWrite (callback : Nat) (nodeId : NodeId) (value : Val .variant) (range : Option NumericRange)
  | read (source : Nat) (nodeId : NodeId) (sourceTimestamp : Bool) (range : Option NumericRange)
  | write (source : Nat) (nodeId : NodeId) (value : Val .variant) (range : Option NumericRange)

/-- How `UA_Variant_copy` ends: with the whole value, or without memory for
its data or for its dimensions. -/
inductive VariantCopy
  | complete | noData | noDimensions
deriving DecidableEq

/-- What a data source answers may depend on all calls so far. The callbacks
and data sources do not use the services themselves. The clock is read for
the two timestamps. A value that is written is copied. -/
structure Outside where
  read : List ValueCall → Nat → NodeId → Bool → Option NumericRange → DataValue → StatusCode × DataValue
  write : List ValueCall → Nat → NodeId → Val .variant → Option NumericRange → StatusCode
  sourceNow : UInt64
  serverNow : UInt64
  copied : Val .variant → VariantCopy

/-- The data sources have nothing to say, and there is memory. -/
def sampleOutside : Outside :=
  ⟨fun _ _ _ _ _ v => (good, v), fun _ _ _ _ _ => good, 0, 0, fun _ => .complete⟩

variable (outside : Outside)

def handleServerTimestamps (timestamps : TimestampsToReturn) (v : DataValue) : DataValue :=
  if timestamps = .server ∨ timestamps = .both then
    { v with hasServerTimestamp := true, serverTimestamp := outside.serverNow }
  else v

def handleSourceTimestamps (timestamps : TimestampsToReturn) (v : DataValue) : DataValue :=
  if timestamps = .source ∨ timestamps = .both then
    { v with hasSourceTimestamp := true, sourceTimestamp := outside.sourceNow }
  else v

section Variants

def booleanVariant (x : UInt8) : Val .variant := .scalarVariant TypeTable.boolean (.simple x)

def byteVariant (x : UInt8) : Val .variant := .scalarVariant TypeTable.byte (.simple x)

def int32Variant (x : UInt32) : Val .variant := .scalarVariant TypeTable.int32 (.simple x)

def uint32Variant (x : UInt32) : Val .variant := .scalarVariant TypeTable.uint32 (.simple x)

def doubleVariant (x : UInt64) : Val .variant := .scalarVariant TypeTable.double (.simple x)

def nodeIdVariant (x : NodeId) : Val .variant := .scalarVariant TypeTable.nodeId (.simple x)

def localizedTextVariant (x : LocalizedText) : Val .variant := .scalarVariant TypeTable.localizedText (.simple x)

def qualifiedNameVal (x : QualifiedName) : Val TypeTable.qualifiedName :=
  .struct (.scalar (.simple x.namespaceIndex) (.scalar (.simple x.name) .nil))

def qualifiedNameVariant (x : QualifiedName) : Val .variant :=
  .scalarVariant TypeTable.qualifiedName (qualifiedNameVal x)

/-- An array of `UA_Int32`. Without dimensions the pointer is NULL. -/
def dimensionsVariant (dimensions : List UInt32) : Val .variant :=
  .arrayVariant TypeTable.int32
    (if dimensions = [] then .null else .items (listVals (dimensions.map (fun x => .simple x)))) []

end Variants

/-- What is left when the attribute was read. -/
structure Reading where
  retval : StatusCode
  v : DataValue
  calls : List ValueCall

variable (calls : List ValueCall) (timestamps : TimestampsToReturn) (nodeId : NodeId) (v : DataValue)

/-- `none` if the range makes the copy leave the array. -/
def getVariableNodeValue (source : ValueSource) (indexRange : UaString) : Option Reading :=
  match parseIndexRange indexRange with
  | .error code => some ⟨code, v, calls⟩
  | .ok range =>
      match source with
      | .variant value onRead _ =>
          let calls := calls ++ (onRead.map (.onRead · nodeId range)).toList
          match range with
          | none => some ⟨good, handleSourceTimestamps outside timestamps { v with value := value }, calls⟩
          | some range =>
              (copyValueRange value range).map fun
                | .error code => ⟨code, v, calls⟩
                | .ok value => ⟨good, handleSourceTimestamps outside timestamps { v with value := value }, calls⟩
      | .dataSource source =>
          let sourceTimestamp : Bool := timestamps = .source ∨ timestamps = .both
          let answer := outside.read calls source nodeId sourceTimestamp range v
          some ⟨answer.1, answer.2, calls ++ [.read source nodeId sourceTimestamp range]⟩

/-- The data source is read for something that is derived from the value. -/
def readSource (source : Nat) (derive : Val .variant → Option (Val .variant)) : Option Reading :=
  let answer := outside.read calls source nodeId false none .init
  let calls := calls ++ [.read source nodeId false none]
  if answer.1 ≠ good then some ⟨answer.1, v, calls⟩
  else (derive answer.2.value).map (fun value => ⟨good, { v with value := value }, calls⟩)

def typeOf : Val .variant → Option DataType
  | .emptyVariant => none
  | .scalarVariant t _ | .arrayVariant t _ _ => some t

/-- The id is the first member of a type, so that without a type the pointer
to it is NULL. -/
def typeIdVariant (value : Val .variant) : Val .variant :=
  match typeOf value with
  | none => .arrayVariant TypeTable.nodeId .null []
  | some t => nodeIdVariant t.typeId

/-- The id of the type of a data source's value is copied, which needs a type. -/
def getVariableNodeDataType : ValueSource → Option Reading
  | .variant value _ _ => some ⟨good, { v with value := typeIdVariant value }, calls⟩
  | .dataSource source =>
      readSource outside calls nodeId v source (fun value => (typeOf value).map (fun t => nodeIdVariant t.typeId))

def dimensionsOf : Val .variant → List UInt32
  | .arrayVariant _ _ dimensions => dimensions
  | _ => []

def isScalar : Val .variant → Bool
  | .scalarVariant _ _ => true
  | _ => false

def getVariableNodeArrayDimensions : ValueSource → Option Reading
  | .variant value _ _ => some ⟨good, { v with value := dimensionsVariant (dimensionsOf value) }, calls⟩
  | .dataSource source =>
      readSource outside calls nodeId v source (fun value => some (dimensionsVariant (dimensionsOf value)))

/-- The members that a cast to `UA_VariableNode` finds in the two classes. -/
def valueMembers : Body → Option ValueMembers
  | .variable members => some members.toValueMembers
  | .variableType members _ => some members
  | _ => none

/-- The attributes that are read from a member of the node, or `none` if the
node has another class. `isAbstract` is read as the first member behind those
that all nodes have. In a variable type that is the value rank. -/
def memberVariant (n : Node) : AttributeId → Option (Val .variant)
  | .nodeId => some (nodeIdVariant n.nodeId)
  | .nodeClass => some (int32Variant (nodeClassValue n.nodeClass))
  | .browseName => some (qualifiedNameVariant n.browseName)
  | .displayName => some (localizedTextVariant n.displayName)
  | .description => some (localizedTextVariant n.description)
  | .writeMask => some (uint32Variant n.writeMask)
  | .userWriteMask => some (uint32Variant n.userWriteMask)
  | .isAbstract =>
      match n.body with
      | .referenceType isAbstract _ _ | .objectType isAbstract _ | .dataType isAbstract =>
          some (booleanVariant isAbstract)
      | .variableType members _ => some (booleanVariant members.valueRank.toUInt8)
      | _ => none
  | .symmetric =>
      match n.body with
      | .referenceType _ symmetric _ => some (booleanVariant symmetric)
      | _ => none
  | .inverseName =>
      match n.body with
      | .referenceType _ _ inverseName => some (localizedTextVariant inverseName)
      | _ => none
  | .containsNoLoops =>
      match n.body with
      | .view _ containsNoLoops => some (booleanVariant containsNoLoops)
      | _ => none
  | .eventNotifier =>
      match n.body with
      | .view eventNotifier _ | .object eventNotifier _ => some (byteVariant eventNotifier)
      | _ => none
  | .valueRank => (valueMembers n.body).map (fun members => int32Variant members.valueRank)
  | .accessLevel =>
      match n.body with
      | .variable members => some (byteVariant members.accessLevel)
      | _ => none
  | .userAccessLevel =>
      match n.body with
      | .variable members => some (byteVariant members.userAccessLevel)
      | _ => none
  | .minimumSamplingInterval =>
      match n.body with
      | .variable members => some (doubleVariant members.minimumSamplingInterval)
      | _ => none
  | .historizing =>
      match n.body with
      | .variable members => some (booleanVariant members.historizing)
      | _ => none
  | .executable =>
      match n.body with
      | .method executable _ _ _ => some (booleanVariant executable)
      | _ => none
  | .userExecutable =>
      match n.body with
      | .method _ userExecutable _ _ => some (booleanVariant userExecutable)
      | _ => none
  | .value | .dataType | .arrayDimensions => none

def readValue (n : Node) (read : ValueSource → Option Reading) : Option Reading :=
  match valueMembers n.body with
  | none => some ⟨badAttributeIdInvalid, v, calls⟩
  | some members => read members.value

def readAttribute (n : Node) (indexRange : UaString) (a : AttributeId) : Option Reading :=
  match a with
  | .value => readValue calls v n (getVariableNodeValue outside calls timestamps n.nodeId v · indexRange)
  | .dataType => readValue calls v n (getVariableNodeDataType outside calls n.nodeId v)
  | .arrayDimensions => readValue calls v n (getVariableNodeArrayDimensions outside calls n.nodeId v)
  | _ =>
      match memberVariant n a with
      | none => some ⟨badAttributeIdInvalid, v, calls⟩
      | some value => some ⟨good, { v with value := value }, calls⟩

def binEncoding : UaString := ascii "DefaultBinary"

def Reading.result (r : Reading) : DataValue :=
  if r.retval ≠ good then { r.v with hasValue := false, hasStatus := true, status := r.retval } else r.v

def refused (status : StatusCode) : DataValue := { DataValue.init with hasStatus := true, status := status }

def readSingle (s : AddressSpace) (id : ReadValueId) : Option (DataValue × List ValueCall) :=
  if id.dataEncoding.name.length > 0 ∧ stringEqual binEncoding id.dataEncoding.name = false then
    some (refused badDataEncodingInvalid, calls)
  else if id.indexRange.length > 0 ∧ id.attributeId ≠ AttributeId.value.number then
    some (refused badIndexRangeNoData, calls)
  else
    match s.get id.nodeId with
    | none => some (refused badNodeIdUnknown, calls)
    | some n =>
        let v := DataValue.expected
        let reading : Option Reading :=
          match attributeOf id.attributeId with
          | none => some ⟨badAttributeIdInvalid, v, calls⟩
          | some a => readAttribute outside calls timestamps v n id.indexRange a
        reading.map (fun r => (handleServerTimestamps outside timestamps r.result, r.calls))

section Plain

/-- A read of the whole attribute, in the default encoding. -/
def plainRead (id : NodeId) (a : AttributeId) : ReadValueId := ⟨id, a.number, none, ⟨0, none⟩⟩

def storedValue (n : Node) : Option (Val .variant) :=
  (valueMembers n.body).bind fun members =>
    match members.value with
    | .variant value _ _ => some value
    | .dataSource _ => none

/-- The attributes of a node that are not asked of a data source. -/
def attributeValue (n : Node) (a : AttributeId) : Option (Val .variant) :=
  match a with
  | .value => storedValue n
  | .dataType => (storedValue n).map typeIdVariant
  | .arrayDimensions => (storedValue n).map (fun value => dimensionsVariant (dimensionsOf value))
  | a => memberVariant n a

/-- Whatever the timestamps are, a plain read returns the value and no status. -/
def Reads (s : AddressSpace) (id : NodeId) (a : AttributeId) (value : Val .variant) : Prop :=
  ∀ outside calls timestamps, ∃ v calls',
    readSingle outside calls timestamps s (plainRead id a) = some (v, calls') ∧
      v.hasValue = true ∧ v.hasStatus = false ∧ v.value = value

variable {s : AddressSpace} {id : NodeId} {n : Node} {a : AttributeId} {value : Val .variant}

theorem storedValue_some (h : storedValue n = some value) :
    ∃ members onRead onWrite, valueMembers n.body = some members ∧ members.value = .variant value onRead onWrite := by
  obtain ⟨members, hmembers, hvalue⟩ := Option.bind_eq_some_iff.mp h
  cases hsource : members.value with
  | variant stored onRead onWrite =>
      rw [hsource] at hvalue
      cases hvalue
      exact ⟨members, onRead, onWrite, hmembers, hsource⟩
  | dataSource source =>
      rw [hsource] at hvalue
      cases hvalue

theorem readAttribute_plain (h : attributeValue n a = some value) :
    ∃ r, readAttribute outside calls timestamps v n none a = some r ∧ r.retval = good ∧ r.v.hasValue = v.hasValue ∧
      r.v.hasStatus = v.hasStatus ∧ r.v.value = value := by
  have hmember : ∀ {value}, memberVariant n a = some value →
      ∃ r, (match memberVariant n a with
        | none => some (⟨badAttributeIdInvalid, v, calls⟩ : Reading)
        | some value => some ⟨good, { v with value := value }, calls⟩) = some r ∧ r.retval = good ∧
        r.v.hasValue = v.hasValue ∧ r.v.hasStatus = v.hasStatus ∧ r.v.value = value := by
    intro value h
    rw [h]
    exact ⟨_, rfl, rfl, rfl, rfl, rfl⟩
  cases a with
  | value =>
      obtain ⟨members, onRead, onWrite, hmembers, hsource⟩ := storedValue_some h
      rw [readAttribute, readValue, hmembers]
      dsimp only
      rw [hsource]
      refine ⟨_, rfl, rfl, ?_⟩
      dsimp only
      rw [handleSourceTimestamps]
      split <;> exact ⟨rfl, rfl, rfl⟩
  | dataType =>
      obtain ⟨stored, hstored, rfl⟩ := Option.map_eq_some_iff.mp h
      obtain ⟨members, onRead, onWrite, hmembers, hsource⟩ := storedValue_some hstored
      rw [readAttribute, readValue, hmembers]
      dsimp only
      rw [hsource]
      exact ⟨_, rfl, rfl, rfl, rfl, rfl⟩
  | arrayDimensions =>
      obtain ⟨stored, hstored, rfl⟩ := Option.map_eq_some_iff.mp h
      obtain ⟨members, onRead, onWrite, hmembers, hsource⟩ := storedValue_some hstored
      rw [readAttribute, readValue, hmembers]
      dsimp only
      rw [hsource]
      exact ⟨_, rfl, rfl, rfl, rfl, rfl⟩
  | _ => exact hmember h

theorem reads_of_get (hn : s.get id = some n) (h : attributeValue n a = some value) : Reads s id a value := by
  intro outside calls timestamps
  obtain ⟨r, hr, hgood, hhas, hstatus, hvalue⟩ := readAttribute_plain outside calls timestamps .expected h
  have hsingle : readSingle outside calls timestamps s (plainRead id a) =
      some (handleServerTimestamps outside timestamps r.result, r.calls) := by
    have hempty : ¬ UaString.length none > 0 := Nat.lt_irrefl 0
    rw [readSingle, plainRead, if_neg (fun h => hempty h.1), if_neg (fun h => hempty h.1), hn]
    dsimp only
    rw [attributeOf_number]
    dsimp only
    rw [hr, Option.map_some]
  refine ⟨_, _, hsingle, ?_⟩
  have hresult : r.result = r.v := by rw [Reading.result, if_neg (not_not.mpr hgood)]
  rw [hresult, handleServerTimestamps]
  split <;> exact ⟨hhas, hstatus, hvalue⟩

theorem reads_unique {value' : Val .variant} (h : Reads s id a value) (h' : Reads s id a value') : value = value' := by
  obtain ⟨v, calls, hv, _, _, hvalue⟩ := h sampleOutside [] .neither
  obtain ⟨v', calls', hv', _, _, hvalue'⟩ := h' sampleOutside [] .neither
  rw [hv] at hv'
  cases hv'
  rw [← hvalue, hvalue']

end Plain

end OpcUa.AttributeReads
