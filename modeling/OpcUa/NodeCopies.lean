import OpcUa.References
import OpcUa.SubTypes

namespace OpcUa.NodeCopies

open StatusCodes NodeIds DataTypes Values AddressSpaces References
open SubTypes (plainNode)

section Values

def copyDiagnosticFields (src : DiagnosticFields) : DiagnosticFields :=
  { src with additionalInfo := if flagged src.mask 0x10 then src.additionalInfo else none }

/-- `DiagnosticInfo_copy` -/
def copyDiagnosticInfo : DiagnosticInfo → DiagnosticInfo
  | .plain fields h => .plain (copyDiagnosticFields fields) h
  | .nested fields h inner => .nested (copyDiagnosticFields fields) h (copyDiagnosticInfo inner)

def copySimple : (b : Builtin) → b.Carrier → b.Carrier
  | .diagnosticInfo, x => copyDiagnosticInfo x
  | _, x => x

mutual

/-- The jump table of `UA_copy`, with memory for everything. A copy deletes the
content of an extension object itself, whoever deletes the original. -/
def copyVal : {t : DataType} → Val t → Val t
  | _, .simple (b := b) x => .simple (copySimple b x)
  | _, .struct slots => .struct (copySlots slots)
  | _, .encoded typeId encoding body => .encoded typeId encoding body
  | _, .decoded _ type data => .decoded false type (copyVal data)
  | _, .emptyVariant => .emptyVariant
  | _, .scalarVariant type data => .scalarVariant type (copyVal data)
  | _, .arrayVariant type data dimensions => .arrayVariant type (copyArr data) dimensions
  | _, .dataValue fields value => .dataValue fields (copyVal value)

/-- `UA_Array_copy` -/
def copyArr : {t : DataType} → Arr t → Arr t
  | _, .null => .null
  | _, .items vs => .items (copyVals vs)

def copyVals : {t : DataType} → Vals t → Vals t
  | _, .nil => .nil
  | _, .cons v vs => .cons (copyVal v) (copyVals vs)

def copySlots : {members : Members} → Slots members → Slots members
  | _, .nil => .nil
  | _, .scalar v slots => .scalar (copyVal v) (copySlots slots)
  | _, .array a slots => .array (copyArr a) (copySlots slots)

end

def plainFields (fields : DiagnosticFields) : Bool := flagged fields.mask 0x10 || fields.additionalInfo.isNone

def plainDiagnosticInfo : DiagnosticInfo → Bool
  | .plain fields _ => plainFields fields
  | .nested fields _ inner => plainFields fields && plainDiagnosticInfo inner

def plainSimple : (b : Builtin) → b.Carrier → Bool
  | .diagnosticInfo, x => plainDiagnosticInfo x
  | _, _ => true

mutual

/-- No extension object in the value has content that someone else deletes, and
no diagnostic information has a text that is not announced. -/
def plainVal : {t : DataType} → Val t → Bool
  | _, .simple (b := b) x => plainSimple b x
  | _, .struct slots => plainSlots slots
  | _, .encoded _ _ _ => true
  | _, .decoded nodelete _ data => !nodelete && plainVal data
  | _, .emptyVariant => true
  | _, .scalarVariant _ data => plainVal data
  | _, .arrayVariant _ data _ => plainArr data
  | _, .dataValue _ value => plainVal value

def plainArr : {t : DataType} → Arr t → Bool
  | _, .null => true
  | _, .items vs => plainVals vs

def plainVals : {t : DataType} → Vals t → Bool
  | _, .nil => true
  | _, .cons v vs => plainVal v && plainVals vs

def plainSlots : {members : Members} → Slots members → Bool
  | _, .nil => true
  | _, .scalar v slots => plainVal v && plainSlots slots
  | _, .array a slots => plainArr a && plainSlots slots

end

theorem copyDiagnosticFields_eq_iff (fields : DiagnosticFields) :
    copyDiagnosticFields fields = fields ↔ plainFields fields = true := by
  obtain ⟨mask, symbolicId, namespaceUri, localizedText, locale, additionalInfo, innerStatusCode⟩ := fields
  rw [copyDiagnosticFields, plainFields]
  cases flagged mask 0x10 with
  | true => simp
  | false => cases additionalInfo <;> simp

theorem plain_congr {fields fields' : DiagnosticFields} (heq : fields = fields') (h : hasInner fields.mask = false)
    (h' : hasInner fields'.mask = false) : DiagnosticInfo.plain fields h = .plain fields' h' := by
  subst heq
  rfl

theorem nested_congr {fields fields' : DiagnosticFields} (heq : fields = fields') (h : hasInner fields.mask = true)
    (h' : hasInner fields'.mask = true) {inner inner' : DiagnosticInfo} (hinner : inner = inner') :
    DiagnosticInfo.nested fields h inner = .nested fields' h' inner' := by
  subst heq hinner
  rfl

theorem copyDiagnosticInfo_eq_iff (x : DiagnosticInfo) :
    copyDiagnosticInfo x = x ↔ plainDiagnosticInfo x = true := by
  induction x with
  | plain fields h =>
      refine Iff.trans ⟨fun heq => ?_, fun hplain => ?_⟩ (copyDiagnosticFields_eq_iff fields)
      · exact DiagnosticInfo.plain.inj heq
      · exact plain_congr hplain _ _
  | nested fields h inner ih =>
      rw [plainDiagnosticInfo, Bool.and_eq_true, ← copyDiagnosticFields_eq_iff, ← ih]
      constructor
      · intro heq
        exact DiagnosticInfo.nested.inj heq
      · rintro ⟨hfields, hinner⟩
        exact nested_congr hfields _ _ hinner

theorem copySimple_eq_iff (b : Builtin) (x : b.Carrier) : copySimple b x = x ↔ plainSimple b x = true := by
  cases b with
  | diagnosticInfo => exact copyDiagnosticInfo_eq_iff x
  | _ => exact iff_of_true rfl rfl

mutual

theorem copyVal_eq_iff : {t : DataType} → (v : Val t) → (copyVal v = v ↔ plainVal v = true)
  | _, .simple (b := b) x => by
      rw [copyVal, plainVal, Val.simple.injEq]
      exact copySimple_eq_iff b x
  | _, .struct slots => by rw [copyVal, plainVal, Val.struct.injEq, copySlots_eq_iff slots]
  | _, .encoded _ _ _ => by rw [copyVal, plainVal]; exact iff_of_true rfl rfl
  | _, .decoded nodelete type data => by
      rw [copyVal, plainVal, Bool.and_eq_true, Bool.not_eq_true', ← copyVal_eq_iff data, Val.decoded.injEq]
      simp [eq_comm]
  | _, .emptyVariant => by rw [copyVal, plainVal]; exact iff_of_true rfl rfl
  | _, .scalarVariant type data => by
      rw [copyVal, plainVal, ← copyVal_eq_iff data, Val.scalarVariant.injEq]
      simp
  | _, .arrayVariant type data dimensions => by
      rw [copyVal, plainVal, ← copyArr_eq_iff data, Val.arrayVariant.injEq]
      simp
  | _, .dataValue fields value => by
      rw [copyVal, plainVal, ← copyVal_eq_iff value, Val.dataValue.injEq]
      simp

theorem copyArr_eq_iff : {t : DataType} → (a : Arr t) → (copyArr a = a ↔ plainArr a = true)
  | _, .null => by rw [copyArr, plainArr]; exact iff_of_true rfl rfl
  | _, .items vs => by rw [copyArr, plainArr, Arr.items.injEq, copyVals_eq_iff vs]

theorem copyVals_eq_iff : {t : DataType} → (vs : Vals t) → (copyVals vs = vs ↔ plainVals vs = true)
  | _, .nil => by rw [copyVals, plainVals]; exact iff_of_true rfl rfl
  | _, .cons v vs => by
      rw [copyVals, plainVals, Vals.cons.injEq, copyVal_eq_iff v, copyVals_eq_iff vs, Bool.and_eq_true]

theorem copySlots_eq_iff : {members : Members} → (slots : Slots members) →
    (copySlots slots = slots ↔ plainSlots slots = true)
  | _, .nil => by rw [copySlots, plainSlots]; exact iff_of_true rfl rfl
  | _, .scalar v slots => by
      rw [copySlots, plainSlots, Slots.scalar.injEq, copyVal_eq_iff v, copySlots_eq_iff slots, Bool.and_eq_true]
  | _, .array a slots => by
      rw [copySlots, plainSlots, Slots.array.injEq, copyArr_eq_iff a, copySlots_eq_iff slots, Bool.and_eq_true]

end

end Values

section Nodes

variable (src : Node)

/-- `UA_Node_copy`, with memory for everything. The class comes with the
members that depend on it. -/
def nodeCopy (body : Body) : Node where
  nodeId := src.nodeId
  browseName := src.browseName
  displayName := src.displayName
  description := src.description
  writeMask := src.writeMask
  userWriteMask := src.userWriteMask
  references := src.references
  body := body

def objectNodeCopy (eventNotifier : UInt8) (instanceHandle : Nat) : Node :=
  nodeCopy src (.object eventNotifier instanceHandle)

def objectTypeNodeCopy (isAbstract : UInt8) (lifecycleManagement : Lifecycle) : Node :=
  nodeCopy src (.objectType isAbstract lifecycleManagement)

def copySource : ValueSource → ValueSource
  | .variant value onRead onWrite => .variant (copyVal value) onRead onWrite
  | .dataSource source => .dataSource source

/-- The access level of the user is set from the other one. -/
def variableNodeCopy (members : VariableMembers) : Node :=
  nodeCopy src (.variable
    { valueRank := members.valueRank
      value := copySource members.value
      accessLevel := members.accessLevel
      userAccessLevel := members.accessLevel
      minimumSamplingInterval := members.minimumSamplingInterval
      historizing := members.historizing })

def variableTypeNodeCopy (members : ValueMembers) (isAbstract : UInt8) : Node :=
  nodeCopy src (.variableType { valueRank := members.valueRank, value := copySource members.value } isAbstract)

def referenceTypeNodeCopy (isAbstract symmetric : UInt8) (inverseName : LocalizedText) : Node :=
  nodeCopy src (.referenceType isAbstract symmetric inverseName)

def methodNodeCopy (executable userExecutable : UInt8) (attachedMethod methodHandle : Nat) : Node :=
  nodeCopy src (.method executable userExecutable attachedMethod methodHandle)

def viewNodeCopy (eventNotifier containsNoLoops : UInt8) : Node :=
  nodeCopy src (.view eventNotifier containsNoLoops)

def dataTypeNodeCopy (isAbstract : UInt8) : Node := nodeCopy src (.dataType isAbstract)

def copyAnyNodeClass : Node :=
  match src.body with
  | .object eventNotifier instanceHandle => objectNodeCopy src eventNotifier instanceHandle
  | .variable members => variableNodeCopy src members
  | .method executable userExecutable attachedMethod methodHandle =>
      methodNodeCopy src executable userExecutable attachedMethod methodHandle
  | .objectType isAbstract lifecycleManagement => objectTypeNodeCopy src isAbstract lifecycleManagement
  | .variableType members isAbstract => variableTypeNodeCopy src members isAbstract
  | .referenceType isAbstract symmetric inverseName => referenceTypeNodeCopy src isAbstract symmetric inverseName
  | .dataType isAbstract => dataTypeNodeCopy src isAbstract
  | .view eventNotifier containsNoLoops => viewNodeCopy src eventNotifier containsNoLoops

def plainSource : ValueSource → Bool
  | .variant value _ _ => plainVal value
  | .dataSource _ => true

/-- The node is no variable with two different access levels, and its value is
a plain one. -/
def plainBody : Body → Bool
  | .variable members => members.userAccessLevel == members.accessLevel && plainSource members.value
  | .variableType members _ => plainSource members.value
  | _ => true

theorem copySource_eq_iff (source : ValueSource) : copySource source = source ↔ plainSource source = true := by
  cases source with
  | variant value onRead onWrite =>
      rw [copySource, plainSource, ← copyVal_eq_iff value, ValueSource.variant.injEq]
      simp
  | dataSource source => exact iff_of_true rfl rfl

theorem copyAnyNodeClass_eq_iff : copyAnyNodeClass src = src ↔ plainBody src.body = true := by
  obtain ⟨⟨browseName, displayName, description, writeMask, userWriteMask, references, body⟩, nodeId⟩ := src
  cases body with
  | «variable» members =>
      obtain ⟨⟨valueRank, value⟩, accessLevel, userAccessLevel, minimumSamplingInterval, historizing⟩ := members
      rw [plainBody, Bool.and_eq_true, beq_iff_eq, ← copySource_eq_iff]
      simp [copyAnyNodeClass, variableNodeCopy, nodeCopy, eq_comm, and_comm]
  | variableType members isAbstract =>
      obtain ⟨valueRank, value⟩ := members
      rw [plainBody, ← copySource_eq_iff]
      simp [copyAnyNodeClass, variableTypeNodeCopy, nodeCopy]
  | _ => exact iff_of_true rfl rfl

end Nodes

section Editing

/-- `UA_Server_editNode` in the multithreaded build, while nobody else replaces
the node: the copy is edited and takes the place of the original. -/
def editNodeCopying (s : AddressSpace) (id : NodeId) (callback : Node → StatusCode × NodeMembers) :
    StatusCode × AddressSpace :=
  match s.get id with
  | none => (badNodeIdUnknown, s)
  | some n =>
      let copy := copyAnyNodeClass n
      let r := callback copy
      if r.1 ≠ good then (r.1, s) else (good, s.edit copy.nodeId (fun _ => r.2))

def LeavesOnFailure (callback : Node → StatusCode × NodeMembers) : Prop :=
  ∀ n, (callback n).1 ≠ good → (callback n).2 = n.toNodeMembers

variable {s : AddressSpace} {n : Node} {id : NodeId} {callback : Node → StatusCode × NodeMembers}

theorem edit_congr {id' : NodeId} (h : nodeIdEqual id id' = true) (f : NodeMembers → NodeMembers) :
    s.edit id f = s.edit id' f := by
  have hsame : AddressSpace.editNode id f = AddressSpace.editNode id' f := by
    funext n
    rw [AddressSpace.editNode, AddressSpace.editNode, nodeIdEqual_congr_right h]
  simp only [AddressSpace.edit, hsame]

theorem copyAnyNodeClass_nodeId (n : Node) : (copyAnyNodeClass n).nodeId = n.nodeId := by
  rw [copyAnyNodeClass]
  cases n.body <;> rfl

theorem editNodeCopying_eq (hplain : ∀ n, s.get id = some n → plainBody n.body = true)
    (hcallback : LeavesOnFailure callback) : editNodeCopying s id callback = editNode s id callback := by
  cases hn : s.get id with
  | none => rw [editNodeCopying, hn, editNode_none hn]
  | some n =>
      have hcopy : copyAnyNodeClass n = n := (copyAnyNodeClass_eq_iff n).mpr (hplain n hn)
      rw [editNodeCopying, hn, editNode_some hn]
      dsimp only
      rw [hcopy]
      split
      · rename_i hbad
        rw [hcallback n hbad, edit_self hn]
      · rename_i hgood
        rw [not_not.mp hgood, edit_congr (get_nodeId hn)]

theorem plain_of_editNodeCopying (hn : s.get id = some n)
    (h : editNodeCopying s id (fun n => (good, n.toNodeMembers)) = editNode s id (fun n => (good, n.toNodeMembers))) :
    plainBody n.body = true := by
  rw [← copyAnyNodeClass_eq_iff]
  have hspace : s.edit id (fun _ => (copyAnyNodeClass n).toNodeMembers) = s := by
    rw [editNodeCopying, hn, editNode_some hn] at h
    dsimp only at h
    rw [if_neg (by decide), edit_self hn, copyAnyNodeClass_nodeId, edit_congr (get_nodeId hn)] at h
    exact (Prod.mk.inj h).2
  have hget := get_edit_self (f := fun _ => (copyAnyNodeClass n).toNodeMembers) hn
  rw [hspace, hn] at hget
  calc copyAnyNodeClass n
      = ⟨(copyAnyNodeClass n).toNodeMembers, (copyAnyNodeClass n).nodeId⟩ := rfl
    _ = ⟨(copyAnyNodeClass n).toNodeMembers, n.nodeId⟩ := by rw [copyAnyNodeClass_nodeId]
    _ = n := (Option.some.inj hget).symm

/-- The copy is the node itself, and an edit of the copy is an edit in place. -/
def Transparent (n : Node) : Prop :=
  copyAnyNodeClass n = n ∧
    ∀ s id callback, s.get id = some n → LeavesOnFailure callback →
      editNodeCopying s id callback = editNode s id callback

/-- Editing a copy is transparent unless the user has another access level to a
variable than the one it has, or the value is not copied as it is. -/
theorem transparent_iff (n : Node) : Transparent n ↔ plainBody n.body = true := by
  constructor
  · rintro ⟨hcopy, _⟩
    exact (copyAnyNodeClass_eq_iff n).mp hcopy
  · intro hplain
    refine ⟨(copyAnyNodeClass_eq_iff n).mpr hplain, ?_⟩
    intro s id callback hn hcallback
    refine editNodeCopying_eq ?_ hcallback
    intro m hm
    rw [hn] at hm
    cases hm
    exact hplain

end Editing

section Samples

def sampleVariable : Node :=
  plainNode (numericId 1 1)
    (.variable ⟨⟨0xFFFFFFFF, .variant (.scalarVariant TypeTable.int32 (.simple 5)) none none⟩, 3, 1, 0, 0⟩)

/-- The copy allows the user to write, and so does the node after an edit that
changes nothing. -/
theorem userAccessLevel_raised :
    ¬ Transparent sampleVariable ∧
      (∃ members, (copyAnyNodeClass sampleVariable).body = .variable members ∧ members.userAccessLevel = 3) ∧
      editNodeCopying ⟨[sampleVariable], by simp⟩ (numericId 1 1) (fun n => (good, n.toNodeMembers)) ≠
        editNode ⟨[sampleVariable], by simp⟩ (numericId 1 1) (fun n => (good, n.toNodeMembers)) := by
  have hplain : plainBody sampleVariable.body = false := rfl
  refine ⟨?_, ⟨_, rfl, rfl⟩, ?_⟩
  · rintro ⟨hcopy, _⟩
    rw [(copyAnyNodeClass_eq_iff sampleVariable).mp hcopy] at hplain
    cases hplain
  · intro h
    rw [plain_of_editNodeCopying (n := sampleVariable) rfl h] at hplain
    cases hplain

end Samples

end OpcUa.NodeCopies
