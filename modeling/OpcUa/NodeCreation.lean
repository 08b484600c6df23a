import OpcUa.NodeManagement
import OpcUa.Sessions

namespace OpcUa.NodeCreation

open StatusCodes NodeIds DataTypes Values AddressSpaces References SubTypes Browsing NodeManagement
open NodeStores (NodeClass)
open Sessions (ascii)

/-- The members of `UA_VariableAttributes` that are read. The type and the
array dimensions are taken from the value. -/
structure VariableAttributes extends StandardAttributes where
  value : Val .variant
  valueRank : UInt32
  accessLevel : UInt8
  userAccessLevel : UInt8
  minimumSamplingInterval : UInt64
  historizing : UInt8

/-- The members of `UA_VariableTypeAttributes` that are read. -/
structure VariableTypeAttributes extends StandardAttributes where
  value : Val .variant
  valueRank : UInt32
  isAbstract : UInt8

/-- The decoded attributes, with the type that is written beside them. -/
inductive Attributes
  | object (standard : StandardAttributes) (eventNotifier : UInt8)
  | variable (attr : VariableAttributes)
  | method (standard : StandardAttributes) (executable userExecutable : UInt8)
  | objectType (standard : StandardAttributes) (isAbstract : UInt8)
  | variableType (attr : VariableTypeAttributes)
  | referenceType (standard : StandardAttributes) (isAbstract symmetric : UInt8) (inverseName : LocalizedText)
  | dataType (standard : StandardAttributes) (isAbstract : UInt8)
  | view (standard : StandardAttributes) (containsNoLoops eventNotifier : UInt8)
  | other

/-- `UA_AddNodesItem`. The attributes are `none` unless they are decoded and
have a type. -/
structure AddNodesItem where
  parentNodeId : NodeId
  referenceTypeId : NodeId
  requestedNewNodeId : NodeId
  browseName : QualifiedName
  nodeClass : UInt32
  nodeAttributes : Option Attributes
  typeDefinition : NodeId

def copyStandardAttributes (item : AddNodesItem) (attr : StandardAttributes) (body : Body) : Node where
  nodeId := item.requestedNewNodeId
  browseName := item.browseName
  displayName := attr.displayName
  description := attr.description
  writeMask := attr.writeMask
  userWriteMask := attr.userWriteMask
  references := []
  body := body

def variableNodeFromAttributes (item : AddNodesItem) (attr : VariableAttributes) : Node :=
  copyStandardAttributes item attr.toStandardAttributes (.variable
    { valueRank := attr.valueRank
      value := .variant attr.value none none
      accessLevel := attr.accessLevel
      userAccessLevel := attr.userAccessLevel
      minimumSamplingInterval := attr.minimumSamplingInterval
      historizing := attr.historizing })

def objectNodeFromAttributes (item : AddNodesItem) (standard : StandardAttributes) (eventNotifier : UInt8) : Node :=
  copyStandardAttributes item standard (.object eventNotifier 0)

def referenceTypeNodeFromAttributes (item : AddNodesItem) (standard : StandardAttributes)
    (isAbstract symmetric : UInt8) (inverseName : LocalizedText) : Node :=
  copyStandardAttributes item standard (.referenceType isAbstract symmetric inverseName)

def objectTypeNodeFromAttributes (item : AddNodesItem) (standard : StandardAttributes) (isAbstract : UInt8) : Node :=
  copyStandardAttributes item standard (.objectType isAbstract ⟨none, none⟩)

def variableTypeNodeFromAttributes (item : AddNodesItem) (attr : VariableTypeAttributes) : Node :=
  copyStandardAttributes item attr.toStandardAttributes
    (.variableType ⟨attr.valueRank, .variant attr.value none none⟩ attr.isAbstract)

def viewNodeFromAttributes (item : AddNodesItem) (standard : StandardAttributes)
    (containsNoLoops eventNotifier : UInt8) : Node :=
  copyStandardAttributes item standard (.view eventNotifier containsNoLoops)

def dataTypeNodeFromAttributes (item : AddNodesItem) (standard : StandardAttributes) (isAbstract : UInt8) : Node :=
  copyStandardAttributes item standard (.dataType isAbstract)

/-- Object type attributes, read as variable type attributes. -/
def overrunAttributes (host : Host) (standard : StandardAttributes) (isAbstract : UInt8) : VariableTypeAttributes :=
  let behind := host.overrun isAbstract
  { standard with value := behind.1, valueRank := behind.2.1, isAbstract := behind.2.2 }

/-- The switch over the class of the node. A variable type asks for the
structure of object types. -/
def nodeFromItem (host : Host) (item : AddNodesItem) : Except StatusCode Node :=
  match item.nodeAttributes with
  | none => .error badNodeAttributesInvalid
  | some attributes =>
      if item.nodeClass = nodeClassValue .object then
        match attributes with
        | .object standard eventNotifier => .ok (objectNodeFromAttributes item standard eventNotifier)
        | _ => .error badNodeAttributesInvalid
      else if item.nodeClass = nodeClassValue .variable then
        match attributes with
        | .variable attr => .ok (variableNodeFromAttributes item attr)
        | _ => .error badNodeAttributesInvalid
      else if item.nodeClass = nodeClassValue .objectType then
        match attributes with
        | .objectType standard isAbstract => .ok (objectTypeNodeFromAttributes item standard isAbstract)
        | _ => .error badNodeAttributesInvalid
      else if item.nodeClass = nodeClassValue .variableType then
        match attributes with
        | .objectType standard isAbstract =>
            .ok (variableTypeNodeFromAttributes item (overrunAttributes host standard isAbstract))
        | _ => .error badNodeAttributesInvalid
      else if item.nodeClass = nodeClassValue .referenceType then
        match attributes with
        | .referenceType standard isAbstract symmetric inverseName =>
            .ok (referenceTypeNodeFromAttributes item standard isAbstract symmetric inverseName)
        | _ => .error badNodeAttributesInvalid
      else if item.nodeClass = nodeClassValue .dataType then
        match attributes with
        | .dataType standard isAbstract => .ok (dataTypeNodeFromAttributes item standard isAbstract)
        | _ => .error badNodeAttributesInvalid
      else if item.nodeClass = nodeClassValue .view then
        match attributes with
        | .view standard containsNoLoops eventNotifier =>
            .ok (viewNodeFromAttributes item standard containsNoLoops eventNotifier)
        | _ => .error badNodeAttributesInvalid
      else .error badNodeClassInvalid

/-- `Service_AddNodes_single` up to the instantiation. -/
def addNode (host : Host) (st : State) (item : AddNodesItem) : AddNodesResult × State :=
  match nodeFromItem host item with
  | .error status => (⟨status, nullId⟩, st)
  | .ok n => addExistingNode host st n item.parentNodeId item.referenceTypeId

section Instantiation

variable (host : Host)

def aggregates : UInt32 := 44

def hasProperty : UInt32 := 46

/-- The aggregates of an object type that are objects, variables or methods. -/
def childrenBrowse (typeId : NodeId) : BrowseDescription where
  nodeId := typeId
  browseDirection := browseForward
  referenceTypeId := numericId 0 aggregates
  includeSubtypes := true
  nodeClassMask := 7
  resultMask := 5

def propertiesBrowse (typeId : NodeId) : BrowseDescription where
  nodeId := typeId
  browseDirection := browseForward
  referenceTypeId := numericId 0 hasProperty
  includeSubtypes := true
  nodeClassMask := 2
  resultMask := 5

/-- A browse of at most a hundred references, for the session of the call. -/
def browseTypes (fuel : Nat) (st : State) (descr : BrowseDescription) :
    Option (List ReferenceDescription × State) :=
  (browseSingle fuel st.space (host.identifiers st.browses) st.session descr 100).map
    (fun r => (r.1.references, { st with session := r.2, browses := st.browses + 1 }))

def typeItem (nodeId typeId : NodeId) : AddReferencesItem where
  sourceNodeId := nodeId
  referenceTypeId := numericId 0 hasTypeDefinition
  isForward := true
  targetServerUri := none
  targetNodeId := ⟨typeId, none, 0⟩

def methodItem (nodeId : NodeId) (rd : ReferenceDescription) : AddReferencesItem where
  sourceNodeId := nodeId
  referenceTypeId := rd.referenceTypeId
  isForward := true
  targetServerUri := none
  targetNodeId := rd.nodeId

/-- The loop over the type definitions of a node, which is read anew in each
pass. -/
def eachTypeDefinition (instantiate : State → NodeId → Option State) (id : NodeId) :
    Nat → Nat → State → Option State
  | 0, _, _ => none
  | fuel + 1, i, st =>
      match (st.space.get id).bind (·.references[i]?) with
      | none => some st
      | some r =>
          if !r.isInverse && nodeIdEqual r.referenceTypeId (numericId 0 hasTypeDefinition) then
            (instantiate st r.targetId.nodeId).bind (eachTypeDefinition instantiate id fuel (i + 1))
          else eachTypeDefinition instantiate id fuel (i + 1) st

def variantOf : ValueSource → Val .variant
  | .variant value _ _ => value
  | .dataSource source => host.misread source

def variableCopy (node : Node) (members : VariableMembers) (referenceType parent : NodeId) : AddNodesItem where
  parentNodeId := parent
  referenceTypeId := referenceType
  requestedNewNodeId := nullId
  browseName := node.browseName
  nodeClass := nodeClassValue .variable
  nodeAttributes := some (.variable
    { displayName := node.displayName
      description := node.description
      writeMask := node.writeMask
      userWriteMask := node.userWriteMask
      value := variantOf host members.value
      valueRank := 0
      accessLevel := members.accessLevel
      userAccessLevel := members.userAccessLevel
      minimumSamplingInterval := members.minimumSamplingInterval
      historizing := members.historizing })
  typeDefinition := nullId

def objectCopy (node : Node) (eventNotifier : UInt8) (referenceType parent : NodeId) : AddNodesItem where
  parentNodeId := parent
  referenceTypeId := referenceType
  requestedNewNodeId := nullId
  browseName := node.browseName
  nodeClass := nodeClassValue .object
  nodeAttributes := some (.object
    ⟨node.displayName, node.description, node.writeMask, node.userWriteMask⟩ eventNotifier)
  typeDefinition := nullId

abbrev Instantiate := State → NodeId → NodeId → Option (StatusCode × State)

def copyExistingVariable (instantiate : Instantiate) (fuel : Nat) (st : State)
    (source referenceType parent : NodeId) : Option (StatusCode × State) :=
  match st.space.get source with
  | none => some (badNodeIdInvalid, st)
  | some node =>
      match node.body with
      | .variable members =>
          let added := addNode host st (variableCopy host node members referenceType parent)
          (eachTypeDefinition (fun st typeId => (instantiate st added.1.addedNodeId typeId).map (·.2)) source fuel 0
            added.2).map (fun st => (good, st))
      | _ => some (badNodeClassInvalid, st)

def copyExistingObject (instantiate : Instantiate) (fuel : Nat) (st : State)
    (source referenceType parent : NodeId) : Option (StatusCode × State) :=
  match st.space.get source with
  | none => some (badNodeIdInvalid, st)
  | some node =>
      match node.body with
      | .object eventNotifier _ =>
          let added := addNode host st (objectCopy node eventNotifier referenceType parent)
          (eachTypeDefinition (fun st typeId => (instantiate st added.1.addedNodeId typeId).map (·.2)) source fuel 0
            added.2).map (fun st => (good, st))
      | _ => some (badNodeClassInvalid, st)

def addTypeDefinition (st : State) (nodeId typeId : NodeId) : State :=
  { st with space := (addReferencesSingle st.space (typeItem nodeId typeId)).2 }

def instantiateVariableNode : Nat → Instantiate
  | 0, _, _, _ => none
  | fuel + 1, st, nodeId, typeId =>
      match st.space.get typeId with
      | none => some (badNodeIdInvalid, st)
      | some type =>
          if type.nodeClass ≠ .variableType then some (badNodeClassInvalid, st)
          else
            (browseTypes host fuel st (propertiesBrowse typeId)).bind fun r =>
              (r.1.foldlM (fun st rd =>
                (copyExistingVariable host (instantiateVariableNode fuel) fuel st rd.nodeId.nodeId rd.referenceTypeId
                  nodeId).map (·.2)) r.2).map (fun st => (good, addTypeDefinition st nodeId typeId))

def setObjectInstanceHandle (handle : Nat) (n : Node) : StatusCode × NodeMembers :=
  match n.body with
  | .object eventNotifier _ => (good, { n.toNodeMembers with body := .object eventNotifier handle })
  | _ => (badNodeClassInvalid, n.toNodeMembers)

def callConstructor (st : State) (nodeId : NodeId) (lifecycle : Lifecycle) : State :=
  match lifecycle.constructor with
  | none => st
  | some callback =>
      let handle := host.construct callback nodeId st.calls.length
      { st with
        space := (editNode st.space nodeId (setObjectInstanceHandle handle)).2
        calls := st.calls ++ [.constructor callback nodeId handle] }

def instantiateChild (instantiate instantiateVariable : Instantiate) (fuel : Nat) (nodeId : NodeId) (st : State)
    (rd : ReferenceDescription) : Option State :=
  if rd.nodeClass = nodeClassValue .method then
    some { st with space := (addReferencesSingle st.space (methodItem nodeId rd)).2 }
  else if rd.nodeClass = nodeClassValue .variable then
    (copyExistingVariable host instantiateVariable fuel st rd.nodeId.nodeId rd.referenceTypeId nodeId).map (·.2)
  else if rd.nodeClass = nodeClassValue .object then
    (copyExistingObject host instantiate fuel st rd.nodeId.nodeId rd.referenceTypeId nodeId).map (·.2)
  else some st

def instantiateObjectNode : Nat → Instantiate
  | 0, _, _, _ => none
  | fuel + 1, st, nodeId, typeId =>
      match st.space.get typeId with
      | none => some (badNodeIdInvalid, st)
      | some type =>
          match type.body with
          | .objectType _ lifecycle =>
              (browseTypes host fuel st (childrenBrowse typeId)).bind fun r =>
                (r.1.foldlM (instantiateChild host (instantiateObjectNode fuel) (instantiateVariableNode host fuel) fuel
                  nodeId) r.2).map
                  (fun st => (good, callConstructor host (addTypeDefinition st nodeId typeId) nodeId lifecycle))
          | _ => some (badNodeClassInvalid, st)

def instantiateNode (fuel : Nat) (st : State) (item : AddNodesItem) (id : NodeId) : Option (StatusCode × State) :=
  if isNull item.typeDefinition then some (good, st)
  else if item.nodeClass = nodeClassValue .object then instantiateObjectNode host fuel st id item.typeDefinition
  else if item.nodeClass = nodeClassValue .variable then instantiateVariableNode host fuel st id item.typeDefinition
  else some (good, st)

/-- `Service_AddNodes_single`. A node whose instantiation fails is removed. -/
def addNodesSingle (fuel : Nat) (st : State) (item : AddNodesItem) : Option (AddNodesResult × State) :=
  let added := addNode host st item
  if added.1.statusCode ≠ good then some added
  else
    (instantiateNode host fuel added.2 item added.1.addedNodeId).bind fun r =>
      if r.1 ≠ good then
        (deleteNodesSingle host fuel r.2 added.1.addedNodeId true).map
          (fun d => (⟨r.1, added.1.addedNodeId⟩, d.2))
      else some (added.1, r.2)

end Instantiation

def specialItem (requestedNewNodeId parentNodeId referenceTypeId : NodeId) (browseName : QualifiedName)
    (nodeClass : NodeStores.NodeClass) (typeDefinition : NodeId) : AddNodesItem where
  parentNodeId := parentNodeId
  referenceTypeId := referenceTypeId
  requestedNewNodeId := requestedNewNodeId
  browseName := browseName
  nodeClass := nodeClassValue nodeClass
  nodeAttributes := none
  typeDefinition := typeDefinition

/-- The members of `UA_MethodAttributes` that are read. -/
structure MethodAttributes extends StandardAttributes where
  executable : UInt8
  userExecutable : UInt8

/-- The variable with the arguments of a method. Its id is chosen by the node
store. -/
def argumentsNode (namespaceIndex : UInt16) (name : String) (arguments : Arr TypeTable.argument) : Node where
  nodeId := numericId namespaceIndex 0
  browseName := ⟨0, ascii name⟩
  displayName := ⟨ascii "en_US", ascii name⟩
  description := ⟨ascii "en_US", ascii name⟩
  writeMask := 0
  userWriteMask := 0
  references := []
  body := .variable
    { valueRank := 1
      value := .variant (.arrayVariant TypeTable.argument arguments []) none none
      accessLevel := 3
      userAccessLevel := 3
      minimumSamplingInterval := 0
      historizing := 0 }

def addArguments (host : Host) (id : NodeId) (st : State) (name : String) (arguments : Arr TypeTable.argument) :
    State :=
  (addExistingNode host st (argumentsNode id.namespaceIndex name arguments) id (numericId 0 hasProperty)).2

def methodNode (item : AddNodesItem) (attr : MethodAttributes) (method handle : Nat) : Node :=
  copyStandardAttributes item attr.toStandardAttributes (.method attr.executable attr.executable method handle)

/-- `UA_Server_addMethodNode`. The members of the item are deleted before the
ids of the parent and of the reference type in it are used. -/
def addMethodNode (host : Host) (st : State) (requestedNewNodeId parentNodeId referenceTypeId : NodeId)
    (browseName : QualifiedName) (attr : MethodAttributes) (method handle : Nat)
    (inputArguments outputArguments : Arr TypeTable.argument) : AddNodesResult × State :=
  let item := specialItem requestedNewNodeId parentNodeId referenceTypeId browseName .method nullId
  let added := addExistingNode host st (methodNode item attr method handle) (deleteIdMembers item.parentNodeId)
    (deleteIdMembers item.referenceTypeId)
  if added.1.statusCode ≠ good then added
  else
    let id := added.1.addedNodeId
    let st := addArguments host id added.2 "InputArguments" inputArguments
    (added.1, addArguments host id st "OutputArguments" outputArguments)

end OpcUa.NodeCreation
