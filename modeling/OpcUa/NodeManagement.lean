import OpcUa.Browsing

namespace OpcUa.NodeManagement

open StatusCodes NodeIds DataTypes Values AddressSpaces References SubTypes Browsing
open NodeStores (NodeClass hasNullIdentifier)

/-- The calls into the lifecycle management of the object types. -/
inductive Call
  | constructor (callback : Nat) (nodeId : NodeId) (handle : Nat)
  | destructor (callback : Nat) (nodeId : NodeId) (handle : Nat)
deriving DecidableEq

/-- `UA_NodeAttributes` without the mask of the specified ones, which nothing
reads. -/
structure StandardAttributes where
  displayName : LocalizedText
  description : LocalizedText
  writeMask : UInt32
  userWriteMask : UInt32
deriving DecidableEq

/-- What comes from outside the services: the number of namespaces, the random
identifiers of the continuation points, the numbers that the node store chooses
and the handles that constructors return. The last two members are memory that
is read as something else: what follows the object type attributes where variable
type attributes are expected, and a data source where a variant is. -/
structure Host where
  namespacesSize : Nat
  identifiers : Nat → List UInt8
  numbers : Nat → UInt32
  construct : Nat → NodeId → Nat → Nat
  overrun : UInt8 → Val .variant × UInt32 × UInt8
  misread : Nat → Val .variant

/-- The state that the services on nodes work on. -/
structure State where
  space : AddressSpace
  session : Continuations
  browses : Nat
  inserts : Nat
  calls : List Call

/-- The id under which a node is inserted. The store chooses a number where the
identifier is null. -/
def insertedId (host : Host) (st : State) (id : NodeId) : NodeId :=
  if hasNullIdentifier id then
    numericId (if id.namespaceIndex = 0 then 1 else id.namespaceIndex) (host.numbers st.inserts)
  else id

/-- `UA_NodeStore_insert` -/
def insertNode (host : Host) (st : State) (n : Node) : Option (NodeId × State) :=
  let id := insertedId host st n.nodeId
  if h : st.space.get id = none then
    some (id, { st with space := st.space.insert { n with nodeId := id } h, inserts := st.inserts + 1 })
  else none

structure AddNodesResult where
  statusCode : StatusCode
  addedNodeId : NodeId
deriving DecidableEq

def parentItem (id referenceTypeId parentNodeId : NodeId) : AddReferencesItem where
  sourceNodeId := id
  referenceTypeId := referenceTypeId
  isForward := false
  targetServerUri := none
  targetNodeId := ⟨parentNodeId, none, 0⟩

/-- `UA_NodeId_deleteMembers`. A number or a Guid stays. -/
def deleteIdMembers (id : NodeId) : NodeId :=
  match id.identifier with
  | .string _ => ⟨id.namespaceIndex, .string none⟩
  | .byteString _ => ⟨id.namespaceIndex, .byteString none⟩
  | _ => id

def notInserted (n : Node) : AddNodesResult :=
  if hasNullIdentifier n.nodeId then ⟨badOutOfMemory, nullId⟩ else ⟨badNodeIdExists, deleteIdMembers n.nodeId⟩

/-- `UA_Server_addExistingNode`. The status of the last call is ignored. -/
def addExistingNode (host : Host) (st : State) (n : Node) (parentNodeId referenceTypeId : NodeId) :
    AddNodesResult × State :=
  if n.nodeId.namespaceIndex.toNat ≥ host.namespacesSize then (⟨badNodeIdInvalid, nullId⟩, st)
  else
    match st.space.get parentNodeId with
    | none => (⟨badParentNodeIdInvalid, nullId⟩, st)
    | some _ =>
        match st.space.get referenceTypeId with
        | none => (⟨badReferenceTypeIdInvalid, nullId⟩, st)
        | some referenceType =>
            match referenceType.body with
            | .referenceType isAbstract _ _ =>
                if isAbstract == 1 then (⟨badReferenceNotAllowed, nullId⟩, st)
                else
                  match insertNode host st n with
                  | none => (notInserted n, st)
                  | some (id, st) =>
                      (⟨good, id⟩, { st with
                        space := (addReferencesSingle st.space (parentItem id referenceTypeId parentNodeId)).2 })
            | _ => (⟨badReferenceTypeIdInvalid, nullId⟩, st)

section Deletion

/-- The session of the server itself has no continuation points. -/
def adminSession : Continuations := ⟨[], 0⟩

/-- The item for the mirror of a reference. Its type stays null. -/
def mirrorItem (nodeId : NodeId) (r : ReferenceNode) : DeleteReferencesItem where
  sourceNodeId := r.targetId.nodeId
  referenceTypeId := nullId
  isForward := r.isInverse
  targetNodeId := ⟨nodeId, none, 0⟩
  deleteBidirectional := false

/-- The loop over the references of the node, which is read anew in each pass.
They never become more. -/
def deleteMirrors (nodeId : NodeId) : Nat → Nat → AddressSpace → AddressSpace
  | 0, _, s => s
  | passes + 1, i, s =>
      match (s.get nodeId).bind (·.references[i]?) with
      | none => s
      | some r => deleteMirrors nodeId passes (i + 1) (deleteReferencesSingle s (mirrorItem nodeId r)).2

def objectTypeBrowse (nodeId : NodeId) : BrowseDescription where
  nodeId := nodeId
  browseDirection := browseInverse
  referenceTypeId := numericId 0 hasSubtype
  includeSubtypes := true
  nodeClassMask := 8
  resultMask := 0

def destructorCall (s : AddressSpace) (nodeId : NodeId) (handle : Nat) (rd : ReferenceDescription) : Option Call :=
  match s.get rd.nodeId.nodeId with
  | none => none
  | some type =>
      match type.body with
      | .objectType _ lifecycle => lifecycle.destructor.map (.destructor · nodeId handle)
      | _ => none

/-- The destructors are called before an object is removed. -/
def destroyObject (host : Host) (fuel : Nat) (st : State) (nodeId : NodeId) (handle : Nat) : Option State :=
  (browseSingle fuel st.space (host.identifiers st.browses) adminSession (objectTypeBrowse nodeId) 0xFFFFFFFF).map
    (fun r =>
      { st with
        browses := st.browses + 1
        calls := st.calls ++ r.1.references.filterMap (destructorCall st.space nodeId handle) })

def destroyNode (host : Host) (fuel : Nat) (st : State) (nodeId : NodeId) (node : Node) : Option State :=
  match node.body with
  | .object _ handle => destroyObject host fuel st nodeId handle
  | _ => some st

/-- `Service_DeleteNodes_single`. `none` if the search for the object types
does not end within the fuel. -/
def deleteNodesSingle (host : Host) (fuel : Nat) (st : State) (nodeId : NodeId) (deleteReferences : Bool) :
    Option (StatusCode × State) :=
  match st.space.get nodeId with
  | none => some (badNodeIdInvalid, st)
  | some node =>
      let st := if deleteReferences then
          { st with space := deleteMirrors nodeId node.references.length 0 st.space }
        else st
      (destroyNode host fuel st nodeId node).map (fun st => (good, { st with space := st.space.remove nodeId }))

end Deletion

/-- A host with two namespaces, whose node store chooses the numbers from 100
on. -/
def sampleHost : Host where
  namespacesSize := 2
  identifiers _ := List.replicate 16 7
  numbers i := UInt32.ofNat (100 + i)
  construct _ _ calls := calls
  overrun isAbstract := (.emptyVariant, 0, isAbstract)
  misread _ := .emptyVariant

end OpcUa.NodeManagement
