import OpcUa.InstanceCopies

namespace OpcUa.InstanceRuns

open StatusCodes NodeIds DataTypes AddressSpaces References SubTypes Browsing NodeManagement NodeCreation
  MirroredReferences AddedNodes NodeAdditions Instantiations TypeContainment InstantiationLoops InstantiationEnds
  CopyDemands Relation
open NodeStores (NodeClass)
open InstanceCopies (typesFrom typesFrom_cons typesFrom_skip isConcrete_step)

variable {host : Host} {base st st' mid : State} {s s' types : AddressSpace} {id a b typeId : NodeId} {c : NodeClass}
  {rd : ReferenceDescription} {rds : List ReferenceDescription} {links links' : List ReferenceNode}

section Observations

def isTyping (types : AddressSpace) (r : ReferenceNode) : Bool :=
  definesType r &&
    (classAt types r.targetId.nodeId == some .objectType || classAt types r.targetId.nodeId == some .variableType)

/-- A forward reference that does not lead to a type of the node. -/
def isLink (types : AddressSpace) (r : ReferenceNode) : Bool := !r.isInverse && !isTyping types r

def linksAt (types s : AddressSpace) (a : NodeId) : List ReferenceNode := (refsAt s a).filter (isLink types)

abbrev Shared := NodeClass × QualifiedName × LocalizedText × LocalizedText × UInt32 × UInt32

def shared (n : Node) : Shared :=
  (n.nodeClass, n.browseName, n.displayName, n.description, n.writeMask, n.userWriteMask)

def sharedAt (s : AddressSpace) (a : NodeId) : Option Shared := (s.get a).map shared

/-- The reference from an instance to a method of its type. -/
def methodReference (rd : ReferenceDescription) : ReferenceNode := ⟨rd.referenceTypeId, false, rd.nodeId⟩

/-- The id that the node store chooses for an insertion. -/
def chosenId (host : Host) (i : Nat) : NodeId := numericId 1 (host.numbers i)

theorem stored_iff_shared : Stored s a ↔ ∃ x, sharedAt s a = some x := by
  rw [Stored, sharedAt]
  cases s.get a <;> simp

theorem sharedAt_of_bare (h : (s'.get a).map bare = (s.get a).map bare) : sharedAt s' a = sharedAt s a := by
  have hshared : ∀ s : AddressSpace, sharedAt s a = ((s.get a).map bare).map shared := by
    intro s
    rw [sharedAt, Option.map_map]
    rfl
  rw [hshared, hshared, h]

theorem sharedAt_callConstructor {lifecycle : Lifecycle} {nodeId : NodeId} :
    sharedAt (callConstructor host st nodeId lifecycle).space a = sharedAt st.space a := by
  rw [callConstructor]
  split
  · rfl
  · apply map_editNode
    intro n
    rw [setObjectInstanceHandle, shared, shared]
    cases hbody : n.body with
    | object eventNotifier handle =>
        rw [Node.nodeClass, Node.nodeClass, hbody]
        rfl
    | _ => rfl

theorem sharedAt_step {parents completed : NodeId → Prop} (h : Step host parents completed st st')
    (ha : Stored st.space a) :
    sharedAt st'.space a = sharedAt st.space a := by
  cases h with
  | browsed session browses => rfl
  | copied item hid hclass hparent =>
      rcases addNode_cases host st item with ⟨_, hsame⟩ | ⟨n, hn, haccepted⟩
      · rw [hsame]
      · apply sharedAt_of_bare
        rw [addNode_accepted hn, bare_of_addExistingNode haccepted, ne_insertedId haccepted ha,
          if_neg Bool.false_ne_true]
  | linked item hforward huri hlink => exact sharedAt_of_bare (bare_addReferences item)
  | constructed nodeId lifecycle hdone => exact sharedAt_callConstructor

end Observations

section Changes

/-- A state with more links at a node, and no other nodes. -/
structure Linked (types : AddressSpace) (st st' : State) (a : NodeId) (links : List ReferenceNode) : Prop where
  session : st'.session = st.session
  inserts : st'.inserts = st.inserts
  stored : ∀ b, Stored st'.space b ↔ Stored st.space b
  shared : ∀ b, sharedAt st'.space b = sharedAt st.space b
  links : ∀ b, linksAt types st'.space b = linksAt types st.space b ++ if nodeIdEqual a b then links else []

/-- A state with a copy of a child below a node. -/
structure Copied (host : Host) (base st st' : State) (a : NodeId) (rd : ReferenceDescription) : Prop where
  parent : Stored st.space a
  concrete : Concrete base.space rd.referenceTypeId
  free : ¬ Stored st.space (chosenId host st.inserts)
  session : st'.session = st.session
  inserts : st'.inserts = st.inserts + 1
  stored : ∀ b, Stored st'.space b ↔ nodeIdEqual (chosenId host st.inserts) b = true ∨ Stored st.space b
  shared : ∀ b, Stored st.space b → sharedAt st'.space b = sharedAt st.space b
  copy : sharedAt st'.space (chosenId host st.inserts) = sharedAt base.space rd.nodeId.nodeId
  links : ∀ b, linksAt base.space st'.space b = linksAt base.space st.space b ++
    if nodeIdEqual a b then [childReference rd.referenceTypeId (chosenId host st.inserts)] else []

/-- A browse that has found so many children leaves the continuation points as
they are, or takes one of those that are available. -/
structure Browsed (st st' : State) (children : Nat) : Prop where
  space : st'.space = st.space
  inserts : st'.inserts = st.inserts
  session : st'.session = st.session ∧ (children < 100 ∨ st.session.availableContinuationPoints = 0) ∨
    100 ≤ children ∧ st'.session.availableContinuationPoints.toNat < st.session.availableContinuationPoints.toNat

theorem filter_ite {α : Type} (p : α → Bool) (x : Bool) (a : α) :
    (if x then [a] else []).filter p = if x then [a].filter p else [] := by
  cases x <;> rfl

theorem not_link_of_inverse {r : ReferenceNode} (h : r.isInverse = true) : isLink types r = false := by
  rw [isLink, h]
  rfl

theorem linksAt_addReferences {item : AddReferencesItem} (huri : item.targetServerUri = none)
    (hforward : item.isForward = true) (hsource : Stored s item.sourceNodeId)
    (htarget : Stored s item.targetNodeId.nodeId) :
    linksAt types (addReferencesSingle s item).2 b = linksAt types s b ++
      if nodeIdEqual item.sourceNodeId b then [added item].filter (isLink types) else [] := by
  have hnouri : ¬ item.targetServerUri.length > 0 := by
    rw [huri]
    exact lt_irrefl _
  have hinverse : isLink types (added item.second) = false := by
    refine not_link_of_inverse ?_
    change (!(!item.isForward)) = true
    rw [hforward]
    rfl
  have hsecond : [added item.second].filter (isLink types) = [] := List.filter_singleton.trans (by rw [hinverse]; rfl)
  rw [linksAt, refsAt_addReferences hnouri hsource htarget, List.filter_append, List.filter_append,
    filter_ite, filter_ite,
    hsecond, ite_self, List.append_nil]
  rfl

theorem stored_addReferences_iff {item : AddReferencesItem} : Stored (addReferencesSingle s item).2 b ↔ Stored s b := by
  rw [stored_iff_bare, stored_iff_bare, bare_addReferences]

theorem linked_addReferences {item : AddReferencesItem} (huri : item.targetServerUri = none)
    (hforward : item.isForward = true) (htarget : Stored st.space item.targetNodeId.nodeId)
    (hlinks : Stored st.space item.sourceNodeId ∧ links = [added item].filter (isLink types) ∨
      ¬ Stored st.space item.sourceNodeId ∧ links = []) :
    Linked types st { st with space := (addReferencesSingle st.space item).2 } item.sourceNodeId links := by
  refine ⟨rfl, rfl, fun b => stored_addReferences_iff, fun b => sharedAt_of_bare (bare_addReferences item), fun b => ?_⟩
  rcases hlinks with ⟨hsource, rfl⟩ | ⟨hsource, rfl⟩
  · exact linksAt_addReferences huri hforward hsource htarget
  · dsimp only
    rw [addReferences_unstored hsource, ite_self, List.append_nil]

theorem Linked.trans (h : Linked types st mid a links) (h' : Linked types mid st' a links') :
    Linked types st st' a (links ++ links') where
  session := h'.session.trans h.session
  inserts := h'.inserts.trans h.inserts
  stored b := (h'.stored b).trans (h.stored b)
  shared b := (h'.shared b).trans (h.shared b)
  links b := by
    rw [h'.links, h.links, List.append_assoc]
    split <;> rfl

theorem linked_typeDefinition (hclass : classAt base.space typeId = some c) (hc : c = .objectType ∨ c = .variableType)
    (htype : Stored st.space typeId) : Linked base.space st (addTypeDefinition st a typeId) a [] := by
  have htyping : isLink base.space (added (typeItem a typeId)) = false := by
    have hdefines : definesType (added (typeItem a typeId)) = true := by
      change (true && nodeIdEqual (numericId 0 hasTypeDefinition) (numericId 0 hasTypeDefinition)) = true
      rw [nodeIdEqual_refl]
      rfl
    have htarget : (added (typeItem a typeId)).targetId.nodeId = typeId := rfl
    rw [isLink, isTyping, hdefines, htarget, hclass]
    rcases hc with rfl | rfl <;> rfl
  refine linked_addReferences rfl rfl htype ?_
  by_cases ha : Stored st.space a
  · refine .inl ⟨ha, ?_⟩
    rw [List.filter_singleton, htyping]
    rfl
  · exact .inr ⟨ha, rfl⟩

theorem linked_constructor {lifecycle : Lifecycle} : Linked types st (callConstructor host st a lifecycle) a [] where
  session := by
    rw [callConstructor]
    split <;> rfl
  inserts := by
    rw [callConstructor]
    split <;> rfl
  stored b := by rw [stored_iff_shared, stored_iff_shared, sharedAt_callConstructor]
  shared b := sharedAt_callConstructor
  links b := by rw [linksAt, refsAt_callConstructor, ite_self, List.append_nil, linksAt]

theorem linked_method (hmethod : classAt base.space rd.nodeId.nodeId = some .method)
    (htarget : Stored st.space rd.nodeId.nodeId) :
    ∃ links, (links = [methodReference rd] ∨ ¬ Stored st.space a ∧ links = []) ∧
      Linked base.space st { st with space := (addReferencesSingle st.space (methodItem a rd)).2 } a links := by
  have hlink : isLink base.space (methodReference rd) = true := by
    rw [isLink, isTyping, show (methodReference rd).targetId.nodeId = rd.nodeId.nodeId from rfl, hmethod]
    exact congrArg not (Bool.and_false _)
  by_cases ha : Stored st.space a
  · refine ⟨[methodReference rd], .inl rfl, linked_addReferences rfl rfl htarget (.inl ⟨ha, ?_⟩)⟩
    change [methodReference rd] = [methodReference rd].filter (isLink base.space)
    rw [List.filter_singleton, hlink]
    rfl
  · exact ⟨[], .inr ⟨ha, rfl⟩, linked_addReferences rfl rfl htarget (.inr ⟨ha, rfl⟩)⟩

structure IsCopyOf (host : Host) (s : AddressSpace) (rd : ReferenceDescription) (parent : NodeId)
    (item : AddNodesItem) : Prop
    extends IsCopy parent item where
  referenceType : item.referenceTypeId = rd.referenceTypeId
  shared : ∃ n, nodeFromItem host item = .ok n ∧ sharedAt s rd.nodeId.nodeId = some (shared n)

theorem isCopyOf_variable {item : AddNodesItem}
    (h : variableItem host s rd.nodeId.nodeId rd.referenceTypeId a = .ok item) :
    IsCopyOf host s rd a item := by
  have hcopy := isCopy_variableItem h
  rw [variableItem] at h
  split at h
  · cases h
  rename_i node hnode
  split at h
  · rename_i members hbody
    cases h
    refine ⟨hcopy, rfl, _, rfl, ?_⟩
    rw [sharedAt, hnode, Option.map_some, InstanceRuns.shared, Node.nodeClass, hbody]
    rfl
  · cases h

theorem isCopyOf_object {item : AddNodesItem} (h : objectItem s rd.nodeId.nodeId rd.referenceTypeId a = .ok item) :
    IsCopyOf host s rd a item := by
  have hcopy := isCopy_objectItem h
  rw [objectItem] at h
  split at h
  · cases h
  rename_i node hnode
  split at h
  · rename_i eventNotifier handle hbody
    cases h
    refine ⟨hcopy, rfl, _, rfl, ?_⟩
    rw [sharedAt, hnode, Option.map_some, InstanceRuns.shared, Node.nodeClass, hbody]
    rfl
  · cases h

theorem addExistingNode_null {n : Node} {parent referenceType : NodeId} (hid : n.nodeId = nullId)
    (hrefused : ¬ Accepted host st n parent referenceType) :
    (addExistingNode host st n parent referenceType).1.addedNodeId = nullId := by
  rw [addExistingNode]
  split
  · rfl
  rename_i hindex
  split
  · rfl
  rename_i p hparent
  split
  · rfl
  rename_i type htype
  split
  · rename_i isAbstract symmetric inverseName hbody
    split
    · rfl
    rename_i habstract
    split
    · exact InstanceCopies.notInserted_null hid
    · rename_i hinsert
      rw [insertNode] at hinsert
      split at hinsert
      · rename_i hfree
        exact absurd ⟨Nat.lt_of_not_le hindex, ⟨p, hparent⟩, ⟨type, isAbstract, symmetric, inverseName, htype, hbody,
          fun h => habstract (beq_iff_eq.mpr h)⟩, hfree⟩ hrefused
      · cases hinsert
  · rfl

theorem copied_addNode {item : AddNodesItem} {n : Node} (hitem : IsCopyOf host st.space rd a item)
    (hn : nodeFromItem host item = .ok n) (haccepted : Accepted host st n item.parentNodeId item.referenceTypeId)
    (hold : ∀ b, Stored base.space b → Stored st.space b)
    (hshared : sharedAt st.space rd.nodeId.nodeId = sharedAt base.space rd.nodeId.nodeId)
    (hconcrete : Concrete st.space rd.referenceTypeId ↔ Concrete base.space rd.referenceTypeId) :
    Copied host base st (addNode host st item).2 a rd ∧ (addNode host st item).1.addedNodeId =
      chosenId host st.inserts := by
  have hid : n.nodeId = nullId := (nodeFromItem_nodeId hn).trans hitem.id
  have hinserted : insertedId host st n.nodeId = chosenId host st.inserts := by
    rw [hid]
    rfl
  have hadded := addExistingNode_accepted haccepted
  have hfree : ¬ Stored st.space (chosenId host st.inserts) := by
    rw [← hinserted]
    exact not_stored_iff.mpr haccepted.free
  have hlink : isLink base.space (childReference rd.referenceTypeId (chosenId host st.inserts)) = true := by
    have hnone : classAt base.space (chosenId host st.inserts) = none := by
      rw [Option.eq_none_iff_forall_ne_some]
      exact fun c hc => hfree (hold _ (stored_of_classAt hc))
    rw [isLink, isTyping, show (childReference rd.referenceTypeId (chosenId host st.inserts)).targetId.nodeId =
      chosenId host st.inserts from rfl,
      hnone]
    exact congrArg not (Bool.and_false _)
  have hparentLink : isLink base.space (parentReference item.referenceTypeId item.parentNodeId) = false :=
    not_link_of_inverse rfl
  rw [addNode_accepted hn]
  have hbare := fun b => bare_of_addExistingNode haccepted b
  rw [hinserted] at hbare
  refine ⟨⟨?_, ?_, hfree, ?_, ?_, ?_, ?_, ?_, ?_⟩, ?_⟩
  · have hparent := haccepted.parent
    rw [hitem.parent] at hparent
    exact hparent
  · have htype := haccepted.referenceType
    rw [hitem.referenceType] at htype
    exact hconcrete.mp htype
  · rw [hadded]
  · rw [hadded]
  · intro b
    rw [stored_addExistingNode haccepted, hinserted]
  · intro b hb
    apply sharedAt_of_bare
    rw [hbare, ← hinserted, ne_insertedId haccepted hb, if_neg Bool.false_ne_true]
  · obtain ⟨m, hm, hsource⟩ := hitem.shared
    obtain rfl := Except.ok.inj (hn.symm.trans hm)
    rw [← hshared, hsource]
    have hnew := hbare (chosenId host st.inserts)
    rw [if_pos (nodeIdEqual_refl _)] at hnew
    have hmap := congrArg (Option.map InstanceRuns.shared) hnew
    rw [Option.map_map] at hmap
    exact hmap
  · intro b
    rw [linksAt, refsAt_addExistingNode haccepted (nodeFromItem_references hn), hinserted,
      hitem.parent, hitem.referenceType,
      List.filter_append, List.filter_append, filter_ite, filter_ite, List.filter_singleton,
        List.filter_singleton, hlink]
    rw [hitem.parent, hitem.referenceType] at hparentLink
    rw [hparentLink, cond_false, ite_self, List.append_nil]
    rfl
  · rw [hadded]
    exact hinserted

theorem refused_addNode {item : AddNodesItem} {n : Node} (hitem : IsCopyOf host st.space rd a item)
    (hn : nodeFromItem host item = .ok n) (hrefused : ¬ Accepted host st n item.parentNodeId item.referenceTypeId)
    (hconcrete : Concrete st.space rd.referenceTypeId ↔ Concrete base.space rd.referenceTypeId) :
    (addNode host st item).2 = st ∧ (addNode host st item).1.addedNodeId = nullId ∧
      (0 < host.namespacesSize → Stored st.space a → Concrete base.space rd.referenceTypeId →
        Stored st.space (chosenId host st.inserts)) := by
  have hid : n.nodeId = nullId := (nodeFromItem_nodeId hn).trans hitem.id
  rw [addNode_accepted hn]
  refine ⟨(addExistingNode_refused hrefused).2, addExistingNode_null hid hrefused, fun hnamespaces ha htype => ?_⟩
  by_contra hfree
  refine hrefused ⟨?_, ?_, ?_, ?_⟩
  · rw [hid]
    exact hnamespaces
  · rw [hitem.parent]
    exact ha
  · rw [hitem.referenceType]
    exact hconcrete.mpr htype
  · rw [hid]
    exact not_stored_iff.mp hfree

end Changes

section Runs

/-- What is done with a node: a child of a type is copied below it or linked to
it, or it is instantiated with a type if that is of the class. -/
inductive Job
  | child (rd : ReferenceDescription)
  | type (c : NodeClass) (typeId : NodeId)

/-- A copy is instantiated with each type of the original. -/
def typeJobs (s : AddressSpace) (c : NodeClass) (rd : ReferenceDescription) : List Job :=
  (typesFrom s rd.nodeId.nodeId 0).map (fun r => .type c r.targetId.nodeId)

/-- The instantiation of a node in the course of that of a new one. The types
are those of the state at the start, and a type that is instantiated gives away
no more than a hundred of its children. -/
inductive Ran (host : Host) (base : State) : List Job → NodeId → State → State → List ReferenceNode → Prop
  | nil {a : NodeId} {st : State} : Ran host base [] a st st []
  | method {rd : ReferenceDescription} {jobs : List Job} {a : NodeId} {st mid st' : State}
      {links links' : List ReferenceNode} (hmethod : rd.nodeClass = nodeClassValue .method)
      (hlinks : links = [methodReference rd] ∨ ¬ Stored st.space a ∧ links = [])
      (hlinked : Linked base.space st mid a links) (hrest : Ran host base jobs a mid st' links') :
      Ran host base (.child rd :: jobs) a st st' (links ++ links')
  | copied {rd : ReferenceDescription} {c : NodeClass} {jobs : List Job} {a : NodeId} {st mid last st' : State}
      {links links' : List ReferenceNode} (hclass : HasTypesOf rd.nodeClass c) (hcopied : Copied host base st mid a rd)
      (htyped : Ran host base (typeJobs base.space c rd) (chosenId host st.inserts) mid last links)
      (hrest : Ran host base jobs a last st' links') :
      Ran host base (.child rd :: jobs) a st st'
        (childReference rd.referenceTypeId (chosenId host st.inserts) :: links')
  | refused {rd : ReferenceDescription} {c : NodeClass} {jobs : List Job} {a : NodeId} {st last st' : State}
      {links links' : List ReferenceNode} (hclass : HasTypesOf rd.nodeClass c)
      (htaken : 0 < host.namespacesSize → Stored st.space a → Concrete base.space rd.referenceTypeId →
        Stored st.space (chosenId host st.inserts))
      (htyped : Ran host base (typeJobs base.space c rd) nullId st last links)
      (hrest : Ran host base jobs a last st' links') :
      Ran host base (.child rd :: jobs) a st st' links'
  | other {c : NodeClass} {typeId a : NodeId} {jobs : List Job} {st st' : State} {links : List ReferenceNode}
      (hother : classAt base.space typeId ≠ some c) (hrest : Ran host base jobs a st st' links) :
      Ran host base (.type c typeId :: jobs) a st st' links
  | typed {c : NodeClass} {typeId a : NodeId} {fuel : Nat} {outcome : Except StatusCode RelevantTypes} {jobs : List Job}
      {st mid last done st' : State} {links links' : List ReferenceNode} (hclass : classAt base.space typeId = some c)
      (houtcome : relevantTypes fuel base.space (typeBrowse base.space typeId) = some outcome)
      (hbrowsed : Browsed st mid (found base.space (typeBrowse base.space typeId) outcome).length)
      (hchildren : Ran host base (((found base.space (typeBrowse base.space typeId) outcome).take 100).map .child) a
        mid last
        links) (hlinked : Linked base.space last done a []) (hrest : Ran host base jobs a done st' links') :
      Ran host base (.type c typeId :: jobs) a st st' (links ++ links')

variable {jobs jobs' : List Job} {fuel : Nat} {descr : BrowseDescription} {outcome : Except StatusCode RelevantTypes}

theorem Ran.append (h : Ran host base jobs a st mid links) (h' : Ran host base jobs' a mid st' links') :
    Ran host base (jobs ++ jobs') a st st' (links ++ links') := by
  induction h with
  | nil => exact h'
  | method hmethod hlinks hlinked hrest ih =>
      rw [List.append_assoc]
      exact .method hmethod hlinks hlinked (ih h')
  | copied hclass hcopied htyped hrest _ ih => exact .copied hclass hcopied htyped (ih h')
  | refused hclass htaken htyped hrest _ ih => exact .refused hclass htaken htyped (ih h')
  | other hother hrest ih => exact .other hother (ih h')
  | typed hclass houtcome hbrowsed hchildren hlinked hrest _ ih =>
      rw [List.append_assoc]
      exact .typed hclass houtcome hbrowsed hchildren hlinked (ih h')

theorem browseSingle_session {identifier : List UInt8} {session session' : Continuations} {result : BrowseResult}
    (h : browseSingle fuel s identifier session descr 100 = some (result, session')) :
    session' = session ∧ (result.references.length < 100 ∨ session.availableContinuationPoints = 0) ∨
      100 ≤ result.references.length ∧
        session'.availableContinuationPoints.toNat < session.availableContinuationPoints.toNat := by
  obtain ⟨collected, _, hcollected⟩ := Option.map_eq_some_iff.mp h
  cases collected with
  | returned status =>
      cases hcollected
      exact .inl ⟨rfl, .inl (Nat.zero_lt_succ 99)⟩
  | collected references index size =>
      dsimp only at hcollected
      rw [createCp] at hcollected
      split at hcollected
      · rename_i hfull
        rw [Bool.and_eq_true, decide_eq_true_eq] at hfull
        split at hcollected
        · rename_i hnone
          cases hcollected
          exact .inl ⟨rfl, .inr (beq_iff_eq.mp hnone)⟩
        · rename_i hsome
          cases hcollected
          refine .inr ⟨hfull.2, ?_⟩
          have hpositive : session.availableContinuationPoints ≠ 0 := fun h => hsome (beq_iff_eq.mpr h)
          have hone : (1 : UInt16) ≤ session.availableContinuationPoints := by
            rw [UInt16.le_iff_toNat_le]
            have hnat : session.availableContinuationPoints.toNat ≠ 0 := fun h => hpositive (UInt16.toNat_inj.mp h)
            exact Nat.one_le_iff_ne_zero.mpr hnat
          dsimp only
          rw [UInt16.toNat_sub_of_le _ _ hone]
          exact Nat.sub_lt (Nat.lt_of_lt_of_le Nat.zero_lt_one (UInt16.le_iff_toNat_le.mp hone)) Nat.zero_lt_one
      · rename_i hfull
        cases hcollected
        refine .inl ⟨rfl, .inl ?_⟩
        rw [Bool.and_eq_true, decide_eq_true_eq] at hfull
        exact Nat.lt_of_not_le (fun h => hfull ⟨by decide, h⟩)

theorem browsed_browseTypes {references : List ReferenceDescription} (hforward : descr.browseDirection = browseForward)
    (houtcome : relevantTypes fuel st.space descr = some outcome)
    (h : browseTypes host fuel st descr = some (references, st')) :
    Browsed st st' (found st.space descr outcome).length := by
  obtain ⟨outcome', houtcome', hreferences⟩ := found_of_browseTypes hforward h
  obtain rfl := Option.some.inj (houtcome.symm.trans houtcome')
  obtain ⟨⟨result, session⟩, hbrowse, heq⟩ := Option.map_eq_some_iff.mp h
  cases heq
  refine ⟨rfl, rfl, ?_⟩
  have hsession := browseSingle_session hbrowse
  dsimp only at hreferences
  rw [hreferences, List.length_take, min_lt_iff, or_iff_right (Nat.lt_irrefl 100), le_min_iff,
    and_iff_right (Nat.le_refl 100)] at hsession
  exact hsession

theorem class_of_child (hclass : classAt s typeId = some .objectType) (h : rd ∈ found s (typeBrowse s typeId) outcome) :
    rd.nodeClass = nodeClassValue .method ∨ rd.nodeClass = nodeClassValue .variable ∨
      rd.nodeClass = nodeClassValue .object := by
  have hbrowse : typeBrowse s typeId = childrenBrowse typeId := by
    rw [typeBrowse, hclass]
    rfl
  obtain ⟨class', _, hrd⟩ := stored_child h
  rw [hbrowse] at h
  have hmask : (rd.nodeClass &&& 7 == 0) = false :=
    mask_of_found (show wants 5 4 = true by decide) (show ((7 : UInt32) != 0) = true by decide) h
  rw [hrd] at hmask ⊢
  revert hmask
  cases class' <;> decide

end Runs

section Executions

/-- A state in the course of the instantiation of a new node. -/
abbrev Reached (host : Host) (id : NodeId) (base st : State) : Prop := Steps host (worked id base) (copied base) base st

variable {jobs : List Job} {fuel passes i : Nat} {source : NodeId} {outcome : Except StatusCode RelevantTypes}

theorem Reached.shared (h : Reached host id base st) (ha : Stored base.space a) :
    sharedAt st.space a = sharedAt base.space a := by
  induction h with
  | refl => rfl
  | tail hsteps hstep ih => exact (sharedAt_step hstep (Steps.stored hsteps ha)).trans ih

def RunsFor (host : Host) (id : NodeId) (base : State) (instantiate : Instantiate) (c : NodeClass) : Prop :=
  ∀ st a typeId r, Reached host id base st → worked id base a → instantiate st a typeId = some r →
    ∃ links, Ran host base [.type c typeId] a st r.2 links

variable (hstart : Started host id base)
include hstart

theorem Reached.along (h : Reached host id base st) : InstanceCopies.Along host id base ⟨st, ⟨0, 0, 0⟩⟩ :=
  InstanceCopies.along_steps hstart (InstanceCopies.along_start hstart ⟨0, 0, 0⟩) h _

theorem Reached.grown (h : Reached host id base st) : Grown host id base st := (h.along hstart).grown

theorem Reached.concrete (h : Reached host id base st) : Concrete st.space a ↔ Concrete base.space a := by
  rw [← isConcrete_iff, ← isConcrete_iff]
  exact Bool.eq_iff_iff.mp ((h.along hstart).concrete a)

theorem steps_reached (h : Reached host id base st)
    (hsteps : Admits (worked id base) st.space → Admits (copied base) st.space →
      Steps host (worked id base) (copied base) st st') : Reached host id base st' :=
  h.trans (hsteps (admits_worked hstart (h.grown hstart)) (admits_copied hstart (h.grown hstart)))

theorem typesFrom_end (h : Grown host id base st) (hsource : Stored base.space source)
    (hend : (refsAt st.space source)[i]? = none) : typesFrom base.space source i = [] := by
  refine List.filter_eq_nil_iff.mpr (fun r hr hdefines => ?_)
  obtain ⟨k, hk⟩ := List.mem_iff_getElem?.mp hr
  rw [List.getElem?_drop] at hk
  have hkept := getElem_kept hstart h hsource hk hdefines
  have hlong := (List.getElem?_eq_some_iff.mp hkept).1
  have hshort := List.getElem?_eq_none_iff.mp hend
  omega

section Copies

variable {instantiate : Nat → Instantiate} (hinstantiate : Instantiates host id base instantiate c)
  (hruns : RunsFor host id base (instantiate fuel) c)
include hinstantiate hruns

/-- The loop over the types of a node goes through those that it had before, by
induction on the passes. -/
theorem ran_typeLoop (hsource : Stored base.space source) (ha : copied base a) (h : Reached host id base st)
    (hloop : typeLoop instantiate a source fuel passes i st = some st') :
    Reached host id base st' ∧
      ∃ links, Ran host base ((typesFrom base.space source i).map
        (fun r => .type c r.targetId.nodeId)) a st st' links := by
  induction passes generalizing st i with
  | zero => cases hloop
  | succ passes ih =>
      have hgrown := h.grown hstart
      have hinst : ∀ {typeId : NodeId} {r : StatusCode × State}, instantiate fuel st a typeId = some r →
          Reached host id base r.2 := fun {typeId r} hr =>
        steps_reached hstart h (fun hworked hcopied =>
          hinstantiate.steps fuel a typeId (.inr ha) ha st r.2 hworked hcopied (congrArg (Option.map (·.2)) hr))
      rw [typeLoop, eachTypeDefinition_succ] at hloop
      cases hr : (refsAt st.space source)[i]? with
      | none =>
          rw [hr] at hloop
          cases hloop
          rw [typesFrom_end hstart hgrown hsource hr]
          exact ⟨h, [], .nil⟩
      | some r =>
          rw [hr, Option.elim_some] at hloop
          by_cases hdefined : ∃ r', (refsAt base.space source)[i]? = some r' ∧ definesType r' = true
          · obtain ⟨r', hr', hdefines⟩ := hdefined
            obtain rfl := Option.some.inj (hr.symm.trans (getElem_kept hstart hgrown hsource hr' hdefines))
            rw [if_pos hdefines] at hloop
            obtain ⟨mid, hmid, hrest⟩ := Option.bind_eq_some_iff.mp hloop
            obtain ⟨result, hresult, rfl⟩ := Option.map_eq_some_iff.mp hmid
            obtain ⟨links, hfirst⟩ := hruns st a r.targetId.nodeId result h (.inr ha) hresult
            obtain ⟨hlast, links', hmore⟩ := ih (hinst hresult) hrest
            rw [typesFrom_cons hr' hdefines]
            exact ⟨hlast, _, hfirst.append hmore⟩
          · have hskip : typesFrom base.space source i = typesFrom base.space source (i + 1) := by
              refine typesFrom_skip (fun r' hr' => ?_)
              rw [← Bool.not_eq_true]
              exact fun hdefines => hdefined ⟨r', hr', hdefines⟩
            rw [hskip]
            split at hloop
            · rename_i hdefines
              -- a type definition that was not there before defines no type
              rcases getElem_grown hgrown hsource hr hdefines with hold | hnoType
              · exact absurd ⟨r, hold, hdefines⟩ hdefined
              obtain ⟨mid, hmid, hrest⟩ := Option.bind_eq_some_iff.mp hloop
              obtain ⟨result, hresult, rfl⟩ := Option.map_eq_some_iff.mp hmid
              have hmore := hinstantiate.mono fuel 1 st a r.targetId.nodeId result hresult
              obtain ⟨status, hstatus⟩ := other_of_noType hinstantiate hnoType fuel a
              obtain rfl := Option.some.inj (hstatus.symm.trans hmore)
              exact ih h hrest
            · exact ih h hloop

theorem ran_copyExisting {item : AddNodesItem} (hclass : HasTypesOf rd.nodeClass c)
    (hsource : Stored base.space rd.nodeId.nodeId)
    (ha : worked id base a) (h : Reached host id base st) (hitem : IsCopyOf host st.space rd a item)
    (hcopied : copyExisting host (instantiate fuel) fuel rd.nodeId.nodeId st (.ok item) = some st') :
    Reached host id base st' ∧ ∃ links, Ran host base [.child rd] a st st' links := by
  have hgrown := h.grown hstart
  have hstep : Step host (worked id base) (copied base) st (addNode host st item).2 :=
    .copied st item hitem.id hitem.nodeClass (by rw [hitem.parent]; exact ha)
  obtain ⟨n, hn, _⟩ := hitem.shared
  by_cases haccepted : Accepted host st n item.parentNodeId item.referenceTypeId
  · obtain ⟨hadded, hid⟩ := copied_addNode hitem hn haccepted (fun _ hb => hgrown.stored hb) (h.shared hsource)
      (h.concrete hstart)
    have hnew : copied base (addNode host st item).1.addedNodeId :=
      admitted_copy (admits_copied hstart hgrown) hitem.id
    obtain ⟨hlast, links, htyped⟩ := ran_typeLoop hstart hinstantiate hruns hsource hnew (h.tail hstep) hcopied
    rw [hid] at htyped
    exact ⟨hlast, _, .copied hclass hadded htyped .nil⟩
  · obtain ⟨hsame, hid, htaken⟩ := refused_addNode hitem hn haccepted (h.concrete hstart)
    rw [copyExisting, hsame, hid] at hcopied
    obtain ⟨hlast, links, htyped⟩ := ran_typeLoop hstart hinstantiate hruns hsource hstart.null h hcopied
    exact ⟨hlast, _, .refused hclass htaken htyped .nil⟩

end Copies

omit hstart in
theorem ran_foldlM {f : State → ReferenceDescription → Option State} {references : List ReferenceDescription}
    (hf : ∀ rd ∈ references, ∀ st st', Reached host id base st → f st rd = some st' →
      Reached host id base st' ∧ ∃ links, Ran host base [.child rd] a st st' links)
    (h : Reached host id base st) (hloop : references.foldlM f st = some st') :
    Reached host id base st' ∧ ∃ links, Ran host base (references.map .child) a st st' links := by
  induction references generalizing st with
  | nil =>
      cases hloop
      exact ⟨h, [], .nil⟩
  | cons rd references ih =>
      rw [List.foldlM_cons] at hloop
      obtain ⟨mid, hmid, hrest⟩ := Option.bind_eq_some_iff.mp hloop
      obtain ⟨hreached, links, hfirst⟩ := hf rd List.mem_cons_self st mid h hmid
      obtain ⟨hlast, links', hmore⟩ := ih (fun rd hrd => hf rd (List.mem_cons_of_mem _ hrd)) hreached hrest
      exact ⟨hlast, _, hfirst.append hmore⟩

omit hstart in
theorem nothing_typed (hother : classAt base.space typeId ≠ some c) :
    ∃ links, Ran host base [.type c typeId] a st st links :=
  ⟨[], .other hother .nil⟩

theorem type_reached {type : Node} (h : Reached host id base st) (htype : st.space.get typeId = some type)
    (hc : c = .objectType ∨ c = .variableType) : type.nodeClass = c ↔ classAt base.space typeId = some c := by
  rw [← InstanceCopies.classAt_along (h.along hstart) hc, classAt_eq, htype, Option.map_some, Option.some.injEq]

theorem unstored_reached (h : Reached host id base st) (hnone : st.space.get typeId = none) :
    classAt base.space typeId ≠ some c := by
  intro hclass
  exact not_stored_iff.mpr hnone ((h.grown hstart).stored (stored_of_classAt hclass))

theorem ran_children {f : State → ReferenceDescription → Option State} {references : List ReferenceDescription}
    {last done : State} (hclass : classAt base.space typeId = some c) (hc : c = .objectType ∨ c = .variableType)
    (h : Reached host id base st)
    (hbrowse : browseTypes host fuel st (typeBrowse base.space typeId) = some (references, mid))
    (hf : ∀ outcome, ∀ rd ∈ found base.space (typeBrowse base.space typeId) outcome, ∀ st st', Reached host id base st →
      f st rd = some st' → Reached host id base st' ∧ ∃ links, Ran host base [.child rd] a st st' links)
    (hloop : references.foldlM f mid = some last)
    (hlinked : Stored last.space typeId → Linked base.space last done a []) :
    ∃ links, Ran host base [.type c typeId] a st done links := by
  have htypes : classAt base.space typeId = some .objectType ∨ classAt base.space typeId = some .variableType := by
    rcases hc with rfl | rfl
    · exact .inl hclass
    · exact .inr hclass
  have hforward : (typeBrowse base.space typeId).browseDirection = browseForward := by
    rw [typeBrowse]
    split <;> rfl
  have hgrown := h.grown hstart
  obtain ⟨outcome, houtcome, rfl, _⟩ := searched_of_browse hstart hgrown htypes hbrowse
  have hnow : relevantTypes fuel st.space (typeBrowse base.space typeId) = some outcome := by
    rw [relevantTypes_grown hstart hgrown, houtcome]
  have hbrowsed := browsed_browseTypes hforward hnow hbrowse
  rw [found_grown hstart hgrown htypes] at hbrowsed
  have hmid : Reached host id base mid := steps_reached hstart h (fun _ _ => (step_browseTypes hbrowse).1)
  obtain ⟨hlast, links, hchildren⟩ := ran_foldlM (fun rd hrd => hf outcome rd (List.mem_of_mem_take hrd)) hmid hloop
  have hdone := hlinked ((hlast.grown hstart).stored (stored_of_classAt hclass))
  exact ⟨_, .typed hclass houtcome hbrowsed hchildren hdone .nil⟩

theorem ran_variableChild (hruns : RunsFor host id base (instantiateVariableNode host fuel) .variableType)
    (ha : worked id base a) (hrd : rd ∈ found base.space (typeBrowse base.space typeId) outcome)
    (hvariable : rd.nodeClass = nodeClassValue .variable) (h : Reached host id base st)
    (hpass : copyProperty host a fuel st rd = some st') :
    Reached host id base st' ∧ ∃ links, Ran host base [.child rd] a st st' links := by
  obtain ⟨class', hkind, hclass⟩ := stored_child hrd
  obtain rfl := nodeClassValue_inj (hclass.symm.trans hvariable)
  have hsource : Stored base.space rd.nodeId.nodeId := stored_iff_kindAt.mpr ⟨_, hkind⟩
  obtain ⟨item, hitem⟩ : ∃ item, variableItem host st.space rd.nodeId.nodeId rd.referenceTypeId a = .ok item := by
    refine variableItem_ok ?_
    rw [(h.grown hstart).classAt hsource, classAt, hkind]
    rfl
  rw [copyProperty, copyExistingVariable_eq, hitem] at hpass
  exact ran_copyExisting hstart instantiates_variableType hruns (.inr ⟨hvariable, rfl⟩) hsource ha h
    (isCopyOf_variable hitem) hpass

theorem ran_objectChild (hruns : RunsFor host id base (instantiateObjectNode host fuel) .objectType)
    (ha : worked id base a) (hrd : rd ∈ found base.space (typeBrowse base.space typeId) outcome)
    (hobject : rd.nodeClass = nodeClassValue .object) (h : Reached host id base st)
    (hpass : (copyExistingObject host (instantiateObjectNode host fuel) fuel st rd.nodeId.nodeId
    rd.referenceTypeId a).map
      (·.2) = some st') :
    Reached host id base st' ∧ ∃ links, Ran host base [.child rd] a st st' links := by
  obtain ⟨class', hkind, hclass⟩ := stored_child hrd
  obtain rfl := nodeClassValue_inj (hclass.symm.trans hobject)
  have hsource : Stored base.space rd.nodeId.nodeId := stored_iff_kindAt.mpr ⟨_, hkind⟩
  obtain ⟨item, hitem⟩ : ∃ item, objectItem st.space rd.nodeId.nodeId rd.referenceTypeId a = .ok item := by
    refine objectItem_ok ?_
    rw [(h.grown hstart).classAt hsource, classAt, hkind]
    rfl
  rw [copyExistingObject_eq, hitem] at hpass
  exact ran_copyExisting hstart instantiates_objectType hruns (.inl ⟨hobject, rfl⟩) hsource ha h
    (isCopyOf_object hitem) hpass

/-- By induction on the fuel: the properties are copied by the instantiation
with less of it. -/
theorem runs_instantiateVariableNode (fuel : Nat) :
    RunsFor host id base (instantiateVariableNode host fuel) .variableType := by
  induction fuel with
  | zero =>
      intro st a typeId r _ _ hr
      cases hr
  | succ fuel ih =>
      intro st a typeId r h ha hr
      rw [instantiateVariableNode] at hr
      split at hr
      · rename_i hnone
        cases hr
        exact nothing_typed (unstored_reached hstart h hnone)
      rename_i type htype
      have hclass : type.nodeClass = .variableType ↔ _ := type_reached hstart h htype (.inr rfl)
      split at hr
      · rename_i hother
        cases hr
        exact nothing_typed (fun hbase => hother (hclass.mpr hbase))
      rename_i hvariable
      have hbase := hclass.mp (not_not.mp hvariable)
      have hsame : typeBrowse base.space typeId = propertiesBrowse typeId := by
        rw [typeBrowse, hbase]
        rfl
      obtain ⟨⟨references, mid⟩, hbrowse, hrest⟩ := Option.bind_eq_some_iff.mp hr
      obtain ⟨last, hloop, rfl⟩ := Option.map_eq_some_iff.mp hrest
      rw [← hsame] at hbrowse
      refine ran_children hstart hbase (.inr rfl) h hbrowse ?_ hloop (linked_typeDefinition hbase (.inr rfl))
      intro outcome rd hrd st st' hst hpass
      exact ran_variableChild hstart ih ha hrd (class_of_property (by rw [← hsame]; exact hrd)) hst hpass

theorem ran_child (hruns : RunsFor host id base (instantiateObjectNode host fuel) .objectType) (ha : worked id base a)
    (hclass : classAt base.space typeId = some .objectType)
    (hrd : rd ∈ found base.space (typeBrowse base.space typeId) outcome) (h : Reached host id base st)
    (hpass : copyChild host a fuel st rd = some st') :
    Reached host id base st' ∧ ∃ links, Ran host base [.child rd] a st st' links := by
  rw [copyChild, instantiateChild] at hpass
  split at hpass
  · rename_i hmethod
    cases hpass
    obtain ⟨class', hkind, hrdClass⟩ := stored_child hrd
    obtain rfl := nodeClassValue_inj (hrdClass.symm.trans hmethod)
    have hbase : classAt base.space rd.nodeId.nodeId = some .method := by
      rw [classAt, hkind]
      rfl
    have hgrown := h.grown hstart
    have htarget := hgrown.stored (stored_of_classAt hbase)
    have hstep : Step host (worked id base) (copied base) st
        { st with space := (addReferencesSingle st.space (methodItem a rd)).2 } :=
      .linked st (methodItem a rd) rfl rfl (.inr ⟨ha, (hgrown.classAt (stored_of_classAt hbase)).trans hbase⟩)
    obtain ⟨links, hlinks, hlinked⟩ := linked_method (a := a) hbase htarget
    exact ⟨h.tail hstep, _, .method hmethod hlinks hlinked .nil⟩
  split at hpass
  · rename_i hvariable
    exact ran_variableChild hstart (runs_instantiateVariableNode hstart fuel) ha hrd hvariable h hpass
  split at hpass
  · rename_i hobject
    exact ran_objectChild hstart hruns ha hrd hobject h hpass
  · rename_i hmethod hvariable hobject
    exact absurd (class_of_child hclass hrd) (by simp [hmethod, hvariable, hobject])

theorem runs_instantiateObjectNode (fuel : Nat) :
    RunsFor host id base (instantiateObjectNode host fuel) .objectType := by
  induction fuel with
  | zero =>
      intro st a typeId r _ _ hr
      cases hr
  | succ fuel ih =>
      intro st a typeId r h ha hr
      rw [instantiateObjectNode] at hr
      split at hr
      · rename_i hnone
        cases hr
        exact nothing_typed (unstored_reached hstart h hnone)
      rename_i type htype
      have hclass : type.nodeClass = .objectType ↔ _ := type_reached hstart h htype (.inl rfl)
      split at hr
      · rename_i isAbstract lifecycle hbody
        have hbase := hclass.mp (by rw [Node.nodeClass, hbody]; rfl)
        have hsame : typeBrowse base.space typeId = childrenBrowse typeId := by
          rw [typeBrowse, hbase]
          rfl
        obtain ⟨⟨references, mid⟩, hbrowse, hrest⟩ := Option.bind_eq_some_iff.mp hr
        obtain ⟨last, hloop, rfl⟩ := Option.map_eq_some_iff.mp hrest
        rw [← hsame] at hbrowse
        refine ran_children hstart hbase (.inl rfl) h hbrowse ?_ hloop
          (fun hstored => (linked_typeDefinition hbase (.inl rfl) hstored).trans linked_constructor)
        intro outcome rd hrd st st' hst hpass
        exact ran_child hstart ih ha hbase hrd hst hpass
      · rename_i hother
        cases hr
        refine nothing_typed (fun hbase => ?_)
        have hobject := hclass.mpr hbase
        rw [Node.nodeClass] at hobject
        cases hbody : type.body with
        | objectType isAbstract lifecycle => exact hother isAbstract lifecycle hbody
        | _ =>
            rw [hbody] at hobject
            cases hobject

end Executions

end OpcUa.InstanceRuns
