import OpcUa.AttributeReads
import OpcUa.NodeCreation

namespace OpcUa.AddedNodes

open StatusCodes NodeIds DataTypes Values AddressSpaces References SubTypes Browsing NodeManagement NodeCreation
  AttributeReads
open NodeStores (NodeClass)
open Sessions (ascii)

section Additions

variable {host : Host} {st st' : State} {n m : Node} {id parentNodeId referenceTypeId : NodeId}

/-- What `UA_Server_addExistingNode` asks for. -/
structure Accepted (host : Host) (st : State) (n : Node) (parentNodeId referenceTypeId : NodeId) : Prop where
  namespaceIndex : n.nodeId.namespaceIndex.toNat < host.namespacesSize
  parent : ∃ parent, st.space.get parentNodeId = some parent
  referenceType : ∃ referenceType isAbstract symmetric inverseName, st.space.get referenceTypeId = some referenceType ∧
    referenceType.body = .referenceType isAbstract symmetric inverseName ∧ isAbstract ≠ 1
  free : st.space.get (insertedId host st n.nodeId) = none

theorem insertNode_free (h : st.space.get (insertedId host st n.nodeId) = none) :
    insertNode host st n = some (insertedId host st n.nodeId,
      { st with
        space := st.space.insert { n with nodeId := insertedId host st n.nodeId } h
        inserts := st.inserts + 1 }) := by
  rw [insertNode]
  exact dif_pos h

theorem notInserted_bad (n : Node) : (notInserted n).statusCode ≠ good := by
  rw [notInserted]
  split
  · exact (by decide : badOutOfMemory ≠ good)
  · exact (by decide : badNodeIdExists ≠ good)

theorem addExistingNode_accepted (h : Accepted host st n parentNodeId referenceTypeId) :
    addExistingNode host st n parentNodeId referenceTypeId =
      (⟨good, insertedId host st n.nodeId⟩,
        { st with
          space := (addReferencesSingle (st.space.insert { n with nodeId := insertedId host st n.nodeId } h.free)
            (parentItem (insertedId host st n.nodeId) referenceTypeId parentNodeId)).2
          inserts := st.inserts + 1 }) := by
  obtain ⟨parent, hparent⟩ := h.parent
  obtain ⟨referenceType, isAbstract, symmetric, inverseName, htype, hbody, habstract⟩ := h.referenceType
  rw [addExistingNode, if_neg (Nat.not_le.mpr h.namespaceIndex), hparent]
  dsimp only
  rw [htype]
  dsimp only
  rw [hbody]
  dsimp only
  rw [if_neg (by simpa using habstract), insertNode_free h.free]

theorem addExistingNode_refused (h : ¬ Accepted host st n parentNodeId referenceTypeId) :
    (addExistingNode host st n parentNodeId referenceTypeId).1.statusCode ≠ good ∧
      (addExistingNode host st n parentNodeId referenceTypeId).2 = st := by
  rw [addExistingNode]
  split
  · exact ⟨nofun, rfl⟩
  rename_i hindex
  split
  · exact ⟨nofun, rfl⟩
  rename_i parent hparent
  split
  · exact ⟨nofun, rfl⟩
  rename_i referenceType htype
  split
  · rename_i isAbstract symmetric inverseName hbody
    split
    · exact ⟨nofun, rfl⟩
    rename_i habstract
    have hused : ¬ st.space.get (insertedId host st n.nodeId) = none := by
      intro hfree
      exact h ⟨Nat.not_le.mp hindex, ⟨parent, hparent⟩,
        ⟨referenceType, isAbstract, symmetric, inverseName, htype, hbody, by simpa using habstract⟩, hfree⟩
    rw [insertNode, dif_neg hused]
    exact ⟨notInserted_bad n, rfl⟩
  · exact ⟨nofun, rfl⟩

theorem accepted_of_good (h : (addExistingNode host st n parentNodeId referenceTypeId).1.statusCode = good) :
    Accepted host st n parentNodeId referenceTypeId := by
  by_contra hrefused
  exact (addExistingNode_refused hrefused).1 h

theorem bare_added (h : Accepted host st n parentNodeId referenceTypeId) :
    ((addExistingNode host st n parentNodeId referenceTypeId).2.space.get (insertedId host st n.nodeId)).map bare =
      some (bare { n with nodeId := insertedId host st n.nodeId }) := by
  rw [addExistingNode_accepted h]
  dsimp only
  rw [bare_addReferences, get_insert, if_pos (nodeIdEqual_refl _), Option.map_some]

theorem bare_addExistingNode (hm : (st.space.get id).map bare = some m) :
    ((addExistingNode host st n parentNodeId referenceTypeId).2.space.get id).map bare = some m := by
  by_cases h : Accepted host st n parentNodeId referenceTypeId
  · rw [addExistingNode_accepted h]
    dsimp only
    rw [bare_addReferences, get_insert]
    split
    · rename_i hsame
      rw [← get_congr hsame, h.free] at hm
      cases hm
    · exact hm
  · rw [(addExistingNode_refused h).2]
    exact hm

end Additions

section ReadBack

def attributesClass : Attributes → Option NodeClass
  | .object _ _ => some .object
  | .variable _ => some .variable
  | .method _ _ _ => some .method
  | .objectType _ _ => some .objectType
  | .variableType _ => some .variableType
  | .referenceType _ _ _ _ => some .referenceType
  | .dataType _ _ => some .dataType
  | .view _ _ _ => some .view
  | .other => none

def standardAttribute (attr : StandardAttributes) : AttributeId → Option (Val .variant)
  | .displayName => some (localizedTextVariant attr.displayName)
  | .description => some (localizedTextVariant attr.description)
  | .writeMask => some (uint32Variant attr.writeMask)
  | .userWriteMask => some (uint32Variant attr.userWriteMask)
  | _ => none

/-- The attributes of a structure. The type and the dimensions are those of
the value. -/
def suppliedAttribute : Attributes → AttributeId → Option (Val .variant)
  | .object _ eventNotifier, .eventNotifier => some (byteVariant eventNotifier)
  | .variable attr, .value => some attr.value
  | .variable attr, .dataType => some (typeIdVariant attr.value)
  | .variable attr, .arrayDimensions => some (dimensionsVariant (dimensionsOf attr.value))
  | .variable attr, .valueRank => some (int32Variant attr.valueRank)
  | .variable attr, .accessLevel => some (byteVariant attr.accessLevel)
  | .variable attr, .userAccessLevel => some (byteVariant attr.userAccessLevel)
  | .variable attr, .minimumSamplingInterval => some (doubleVariant attr.minimumSamplingInterval)
  | .variable attr, .historizing => some (booleanVariant attr.historizing)
  | .method _ executable _, .executable => some (booleanVariant executable)
  | .method _ _ userExecutable, .userExecutable => some (booleanVariant userExecutable)
  | .objectType _ isAbstract, .isAbstract => some (booleanVariant isAbstract)
  | .variableType attr, .value => some attr.value
  | .variableType attr, .dataType => some (typeIdVariant attr.value)
  | .variableType attr, .arrayDimensions => some (dimensionsVariant (dimensionsOf attr.value))
  | .variableType attr, .valueRank => some (int32Variant attr.valueRank)
  | .variableType attr, .isAbstract => some (booleanVariant attr.isAbstract)
  | .referenceType _ isAbstract _ _, .isAbstract => some (booleanVariant isAbstract)
  | .referenceType _ _ symmetric _, .symmetric => some (booleanVariant symmetric)
  | .referenceType _ _ _ inverseName, .inverseName => some (localizedTextVariant inverseName)
  | .dataType _ isAbstract, .isAbstract => some (booleanVariant isAbstract)
  | .view _ containsNoLoops _, .containsNoLoops => some (booleanVariant containsNoLoops)
  | .view _ _ eventNotifier, .eventNotifier => some (byteVariant eventNotifier)
  | .object standard _, a | .method standard _ _, a | .objectType standard _, a | .referenceType standard _ _ _, a
  | .dataType standard _, a | .view standard _ _, a => standardAttribute standard a
  | .variable attr, a => standardAttribute attr.toStandardAttributes a
  | .variableType attr, a => standardAttribute attr.toStandardAttributes a
  | .other, _ => none

def itemAttribute (item : AddNodesItem) (id : NodeId) : AttributeId → Option (Val .variant)
  | .nodeId => some (nodeIdVariant id)
  | .nodeClass => some (int32Variant item.nodeClass)
  | .browseName => some (qualifiedNameVariant item.browseName)
  | _ => none

/-- What a request supplies for the node that gets the id. -/
def Supplied (item : AddNodesItem) (attributes : Attributes) (id : NodeId) (a : AttributeId) (value : Val .variant) :
    Prop :=
  itemAttribute item id a = some value ∨ suppliedAttribute attributes a = some value

/-- The node is added, and everything that was supplied can be read. -/
def AddedReadsBack (host : Host) (fuel : Nat) (st : State) (item : AddNodesItem) (attributes : Attributes) : Prop :=
  ∃ id st', addNodesSingle host fuel st item = some (⟨good, id⟩, st') ∧
    ∀ a value, Supplied item attributes id a value → Reads st'.space id a value

/-- A request with the structure of its own class, an existing parent, a type
of references that is not abstract, a free id and no type definition. -/
structure Requested (host : Host) (st : State) (item : AddNodesItem) (attributes : Attributes) (c : NodeClass) :
    Prop where
  nodeAttributes : item.nodeAttributes = some attributes
  nodeClass : item.nodeClass = nodeClassValue c
  own : attributesClass attributes = some c
  handled : c ≠ .method
  parent : ∃ parent, st.space.get item.parentNodeId = some parent
  referenceType : ∃ referenceType isAbstract symmetric inverseName,
    st.space.get item.referenceTypeId = some referenceType ∧
      referenceType.body = .referenceType isAbstract symmetric inverseName ∧ isAbstract ≠ 1
  free : st.space.get (insertedId host st item.requestedNewNodeId) = none
  typeDefinition : isNull item.typeDefinition = true

variable {host : Host} {fuel : Nat} {st st' : State} {item : AddNodesItem} {attributes : Attributes} {c : NodeClass}
  {n m : Node} {id : NodeId} {a : AttributeId} {value : Val .variant}

theorem attributeValue_bare (n : Node) (a : AttributeId) : attributeValue (bare n) a = attributeValue n a := by
  cases a <;> rfl

theorem reads_of_bare {s : AddressSpace} (hm : (s.get id).map bare = some (bare n))
    (h : attributeValue n a = some value) :
    Reads s id a value := by
  obtain ⟨m, hget, hbare⟩ := Option.map_eq_some_iff.mp hm
  refine reads_of_get hget ?_
  rw [← attributeValue_bare, hbare, attributeValue_bare]
  exact h

theorem copied_item {attr : StandardAttributes} {body : Body} (hclass : item.nodeClass = nodeClassValue body.nodeClass)
    (h : itemAttribute item id a = some value) :
    attributeValue { copyStandardAttributes item attr body with nodeId := id } a = some value := by
  cases a with
  | nodeId | browseName => exact h
  | nodeClass =>
      rw [itemAttribute, hclass] at h
      exact h
  | _ => cases h

/-- Every class but that of variable types gets a node with all that its
structure supplies. -/
theorem nodeFromItem_own (host : Host) (hattributes : item.nodeAttributes = some attributes)
    (hclass : item.nodeClass = nodeClassValue c) (hown : attributesClass attributes = some c) (hmethod : c ≠ .method)
    (hc : c ≠ .variableType) :
    ∃ attr body, nodeFromItem host item = .ok (copyStandardAttributes item attr body) ∧ body.nodeClass = c ∧
      ∀ id a value, suppliedAttribute attributes a = some value →
        attributeValue { copyStandardAttributes item attr body with nodeId := id } a = some value := by
  rw [nodeFromItem, hattributes]
  dsimp only
  rw [hclass]
  cases attributes with
  | method | variableType =>
      cases hown
      contradiction
  | other => cases hown
  | _ =>
      cases hown
      refine ⟨_, _, rfl, rfl, ?_⟩
      intro id a value h
      cases a <;> first | exact h | cases h

theorem addNodesSingle_untyped (h : isNull item.typeDefinition = true) :
    addNodesSingle host fuel st item = some (addNode host st item) := by
  rw [addNodesSingle]
  split
  · rfl
  · rw [instantiateNode, if_pos h, Option.bind_some, if_neg (fun hgood => hgood rfl)]

theorem requested_accepted (attr : StandardAttributes) (body : Body) (h : Requested host st item attributes c)
    (hindex : item.requestedNewNodeId.namespaceIndex.toNat < host.namespacesSize) :
    Accepted host st (copyStandardAttributes item attr body) item.parentNodeId item.referenceTypeId :=
  ⟨hindex, h.parent, h.referenceType, h.free⟩

theorem readsBack_of_requested (h : Requested host st item attributes c) (hc : c ≠ .variableType)
    (hindex : item.requestedNewNodeId.namespaceIndex.toNat < host.namespacesSize) :
    AddedReadsBack host fuel st item attributes := by
  obtain ⟨attr, body, hnode, hbody, hsupplied⟩ := nodeFromItem_own host h.nodeAttributes h.nodeClass h.own h.handled hc
  have haccepted := requested_accepted attr body h hindex
  have hstored := bare_added haccepted
  have hadd := addExistingNode_accepted haccepted
  refine ⟨insertedId host st item.requestedNewNodeId, (addNode host st item).2, ?_, ?_⟩
  · rw [addNodesSingle_untyped h.typeDefinition, addNode, hnode]
    dsimp only
    rw [hadd]
    rfl
  · intro a value hvalue
    rw [addNode, hnode]
    refine reads_of_bare hstored ?_
    rcases hvalue with hitem | hattribute
    · exact copied_item (by rw [h.nodeClass, hbody]) hitem
    · exact hsupplied _ a value hattribute

theorem addNode_variableType (h : Requested host st item attributes .variableType) :
    (addNode host st item).1.statusCode = badNodeAttributesInvalid := by
  have hnode : nodeFromItem host item = .error badNodeAttributesInvalid := by
    rw [nodeFromItem, h.nodeAttributes]
    dsimp only
    rw [h.nodeClass]
    have hown := h.own
    cases attributes with
    | variableType attr => rfl
    | _ => cases hown
  rw [addNode, hnode]

theorem readsBack_iff (h : Requested host st item attributes c) :
    AddedReadsBack host fuel st item attributes ↔
      c ≠ .variableType ∧ item.requestedNewNodeId.namespaceIndex.toNat < host.namespacesSize := by
  constructor
  · rintro ⟨id, st', hadd, _⟩
    rw [addNodesSingle_untyped h.typeDefinition] at hadd
    have hgood : (addNode host st item).1.statusCode = good := by rw [Option.some.inj hadd]
    have hc : c ≠ .variableType := by
      rintro rfl
      rw [addNode_variableType h] at hgood
      cases hgood
    obtain ⟨attr, body, hnode, _⟩ := nodeFromItem_own host h.nodeAttributes h.nodeClass h.own h.handled hc
    rw [addNode, hnode] at hgood
    exact ⟨hc, (accepted_of_good hgood).namespaceIndex⟩
  · rintro ⟨hc, hindex⟩
    exact readsBack_of_requested h hc hindex

end ReadBack

section Methods

variable {host : Host} {st : State} {requestedNewNodeId parentNodeId referenceTypeId : NodeId}
  {browseName : QualifiedName} {attr : MethodAttributes} {method handle : Nat}
  {inputArguments outputArguments : Arr TypeTable.argument}

def methodAttributes (attr : MethodAttributes) : Attributes :=
  .method attr.toStandardAttributes attr.executable attr.userExecutable

/-- Everything that was supplied for the method can be read. -/
def MethodReadsBack (added : AddNodesResult × State) (item : AddNodesItem) (attr : MethodAttributes) : Prop :=
  ∀ a value, Supplied item (methodAttributes attr) added.1.addedNodeId a value →
    Reads added.2.space added.1.addedNodeId a value

theorem addMethodNode_stored (h : (addMethodNode host st requestedNewNodeId parentNodeId referenceTypeId browseName attr
      method handle inputArguments outputArguments).1.statusCode = good) :
    let added := addMethodNode host st requestedNewNodeId parentNodeId referenceTypeId browseName attr method handle
      inputArguments outputArguments
    let item := specialItem requestedNewNodeId parentNodeId referenceTypeId browseName .method nullId
    (added.2.space.get added.1.addedNodeId).map bare =
      some (bare { methodNode item attr method handle with nodeId := added.1.addedNodeId }) := by
  intro added item
  have hadded : added = addMethodNode host st requestedNewNodeId parentNodeId referenceTypeId browseName attr method
    handle inputArguments outputArguments := rfl
  rw [← hadded] at h
  rw [addMethodNode] at hadded
  dsimp only at hadded
  split at hadded
  · rename_i hbad
    rw [hadded] at h
    exact absurd h hbad
  · rename_i hgood
    have haccepted := accepted_of_good (not_not.mp hgood)
    rw [hadded]
    refine bare_addExistingNode (bare_addExistingNode ?_)
    have hstored := bare_added haccepted
    rw [addExistingNode_accepted haccepted] at hstored ⊢
    exact hstored

theorem booleanVariant_inj {x y : UInt8} (h : booleanVariant x = booleanVariant y) : x = y := by
  cases h
  rfl

theorem methodReadsBack_iff (h : (addMethodNode host st requestedNewNodeId parentNodeId referenceTypeId browseName attr
      method handle inputArguments outputArguments).1.statusCode = good) :
    MethodReadsBack (addMethodNode host st requestedNewNodeId parentNodeId referenceTypeId browseName attr method handle
        inputArguments outputArguments)
      (specialItem requestedNewNodeId parentNodeId referenceTypeId browseName .method nullId) attr ↔
        attr.userExecutable = attr.executable := by
  have hstored := addMethodNode_stored h
  constructor
  · intro hreads
    have hsupplied := hreads .userExecutable (booleanVariant attr.userExecutable) (.inr rfl)
    have hstored : Reads _ _ .userExecutable (booleanVariant attr.executable) := reads_of_bare hstored rfl
    exact booleanVariant_inj (reads_unique hsupplied hstored)
  · intro heq a value hvalue
    refine reads_of_bare hstored ?_
    rcases hvalue with hitem | hattribute
    · exact copied_item rfl hitem
    · rw [methodAttributes, heq] at hattribute
      cases a <;> first | exact hattribute | cases hattribute

end Methods

/-- A node reads back as it was requested unless it is a variable type, whose
structure is refused, or has an id in a namespace that the server does not
have. A method reads back if both flags are equal. -/
theorem added_readsBack_iff (host : Host) (fuel : Nat) (st : State) :
    (∀ (item : AddNodesItem) (attributes : Attributes) (c : NodeClass), Requested host st item attributes c →
      (AddedReadsBack host fuel st item attributes ↔
        c ≠ .variableType ∧ item.requestedNewNodeId.namespaceIndex.toNat < host.namespacesSize)) ∧
    ∀ (requestedNewNodeId parentNodeId referenceTypeId : NodeId) (browseName : QualifiedName)
      (attr : MethodAttributes) (method handle : Nat) (inputArguments outputArguments : Arr TypeTable.argument),
      (addMethodNode host st requestedNewNodeId parentNodeId referenceTypeId browseName attr
        method handle inputArguments
        outputArguments).1.statusCode = good →
        (MethodReadsBack (addMethodNode host st requestedNewNodeId parentNodeId referenceTypeId browseName attr method
            handle inputArguments outputArguments)
          (specialItem requestedNewNodeId parentNodeId referenceTypeId browseName .method nullId) attr ↔
            attr.userExecutable = attr.executable) := by
  constructor
  · intro item attributes c h
    exact readsBack_iff h
  · intro requestedNewNodeId parentNodeId referenceTypeId browseName attr method handle inputArguments outputArguments h
    exact methodReadsBack_iff h

section Samples

def sampleState : State where
  space :=
    { nodes := [plainReferenceType (numericId 0 35), plainReferenceType (numericId 0 hasProperty),
        plainObject (numericId 1 1) []]
      distinct := by decide }
  session := ⟨[], 5⟩
  browses := 0
  inserts := 0
  calls := []

def sampleStandard : StandardAttributes := ⟨⟨none, ascii "name"⟩, ⟨none, none⟩, 1, 2⟩

def sampleItem (nodeClass : NodeClass) (attributes : Attributes) : AddNodesItem where
  parentNodeId := numericId 1 1
  referenceTypeId := numericId 0 35
  requestedNewNodeId := numericId 1 20
  browseName := ⟨1, ascii "name"⟩
  nodeClass := nodeClassValue nodeClass
  nodeAttributes := some attributes
  typeDefinition := nullId

theorem requested_sampleItem {nodeClass : NodeClass} {attributes : Attributes}
    (hown : attributesClass attributes = some nodeClass) (hmethod : nodeClass ≠ .method) :
    Requested sampleHost sampleState (sampleItem nodeClass attributes) attributes nodeClass where
  nodeAttributes := rfl
  nodeClass := rfl
  own := hown
  handled := hmethod
  parent := ⟨_, rfl⟩
  referenceType := ⟨_, _, _, _, rfl, rfl, by decide⟩
  free := rfl
  typeDefinition := rfl

def sampleMethod (userExecutable : UInt8) : AddNodesResult × State :=
  addMethodNode sampleHost sampleState (numericId 1 20) (numericId 1 1) (numericId 0 35) ⟨1, ascii "name"⟩
    ⟨sampleStandard, 1, userExecutable⟩ 0 0 .null .null

theorem added_readsBack_sampleItem :
    AddedReadsBack sampleHost 0 sampleState (sampleItem .view (.view sampleStandard 1 2)) (.view sampleStandard 1 2) ∧
      MethodReadsBack (sampleMethod 1)
        (specialItem (numericId 1 20) (numericId 1 1) (numericId 0 35) ⟨1, ascii "name"⟩ .method nullId)
        ⟨sampleStandard, 1, 1⟩ := by
  constructor
  · refine ((added_readsBack_iff sampleHost 0 sampleState).1 _ _ .view (requested_sampleItem rfl (by decide))).mpr ?_
    exact ⟨by decide, by decide⟩
  · refine ((added_readsBack_iff sampleHost 0 sampleState).2 _ _ _ _ ⟨sampleStandard, 1, 1⟩ 0 0 .null .null rfl).mpr ?_
    rfl

def sampleVariableType : Attributes :=
  .variableType { sampleStandard with value := .emptyVariant, valueRank := 0xFFFFFFFF, isAbstract := 0 }

/-- The variable type is refused, and the method reads as executable by the
user although it was not added so. -/
theorem added_unread :
    Requested sampleHost sampleState (sampleItem .variableType sampleVariableType) sampleVariableType .variableType ∧
      ¬ AddedReadsBack sampleHost 0 sampleState (sampleItem .variableType sampleVariableType) sampleVariableType ∧
      (sampleMethod 0).1.statusCode = good ∧
      ¬ MethodReadsBack (sampleMethod 0)
        (specialItem (numericId 1 20) (numericId 1 1) (numericId 0 35) ⟨1, ascii "name"⟩ .method nullId)
        ⟨sampleStandard, 1, 0⟩ := by
  refine ⟨requested_sampleItem rfl (by decide), ?_, rfl, ?_⟩
  · rintro ⟨id, st', hadd, _⟩
    cases hadd
  · intro hreads
    have hsupplied := hreads .userExecutable (booleanVariant 0) (.inr rfl)
    have hstored : Reads (sampleMethod 0).2.space (sampleMethod 0).1.addedNodeId .userExecutable (booleanVariant 1) :=
      reads_of_get rfl rfl
    have heq := booleanVariant_inj (reads_unique hsupplied hstored)
    cases heq

end Samples

end OpcUa.AddedNodes
