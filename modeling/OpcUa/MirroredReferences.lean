import OpcUa.NodeCreation

namespace OpcUa.MirroredReferences

open StatusCodes NodeIds DataTypes Values AddressSpaces References SubTypes Browsing NodeManagement NodeCreation
  Batches
open NodeStores (NodeClass hasNullIdentifier)

def refsAt (s : AddressSpace) (id : NodeId) : List ReferenceNode := (s.get id).elim [] (·.references)

def links (inverse : Bool) (target referenceType : NodeId) (r : ReferenceNode) : Bool :=
  r.isInverse == inverse && nodeIdEqual r.targetId.nodeId target && nodeIdEqual r.referenceTypeId referenceType

/-- The number of references of a type from one node to another, in one
direction. -/
def count (s : AddressSpace) (inverse : Bool) (a b referenceType : NodeId) : Nat :=
  (refsAt s a).countP (links inverse b referenceType)

/-- Every reference has its mirror: for all ids, there are as many forward
references from the first to the second as inverse ones at the second to the
first. An id without a node has no references. -/
def Mirrored (s : AddressSpace) : Prop :=
  ∀ a b referenceType, count s false a b referenceType = count s true b a referenceType

def Stored (s : AddressSpace) (id : NodeId) : Prop := ∃ n, s.get id = some n

structure Extends (s s' : AddressSpace) : Prop where
  mirrored : Mirrored s → Mirrored s'
  stored : ∀ id, Stored s id → Stored s' id

variable {s s' s'' : AddressSpace} {n : Node} {id : NodeId} {item : AddReferencesItem}

theorem Extends.refl (s : AddressSpace) : Extends s s := ⟨id, fun _ => id⟩

theorem Extends.trans (h : Extends s s') (h' : Extends s' s'') : Extends s s'' where
  mirrored hs := h'.mirrored (h.mirrored hs)
  stored id hid := h'.stored id (h.stored id hid)

theorem mirrored_congr (h : ∀ id, refsAt s' id = refsAt s id) (hs : Mirrored s) : Mirrored s' := by
  intro a b referenceType
  rw [count, count, h, h]
  exact hs a b referenceType

theorem mirrored_of_no_references (h : ∀ n ∈ s.nodes, n.references = []) : Mirrored s := by
  have hnone : ∀ id, refsAt s id = [] := by
    intro id
    rw [refsAt]
    cases hn : s.get id with
    | none => rfl
    | some n => exact h n (get_eq_some.mp hn).1
  intro a b referenceType
  rw [count, count, hnone, hnone]
  rfl

section Insertion

theorem refsAt_insert {h : s.get n.nodeId = none} (hnew : n.references = []) (id : NodeId) :
    refsAt (s.insert n h) id = refsAt s id := by
  rw [refsAt, refsAt, get_insert]
  split
  · rename_i hid
    rw [← get_congr hid, h]
    exact hnew
  · rfl

theorem extends_insert (h : s.get n.nodeId = none) (hnew : n.references = []) : Extends s (s.insert n h) where
  mirrored := mirrored_congr (refsAt_insert hnew)
  stored := by
    rintro id ⟨m, hm⟩
    rw [Stored, get_insert]
    split
    · exact ⟨n, rfl⟩
    · exact ⟨m, hm⟩

end Insertion

section Adding

theorem refsAt_editNode {callback : Node → StatusCode × NodeMembers} (hn : s.get id = some n) (a : NodeId) :
    refsAt (editNode s id callback).2 a = if nodeIdEqual id a then (callback n).2.references else refsAt s a := by
  rw [editNode_some hn, refsAt]
  dsimp only
  cases hsame : nodeIdEqual id a with
  | true =>
      rw [← get_congr hsame, get_edit_self hn, if_pos rfl]
      rfl
  | false =>
      rw [nodeIdEqual_comm] at hsame
      rw [get_edit_of_ne hsame, if_neg Bool.false_ne_true]
      rfl

theorem refsAt_of_get (hn : s.get id = some n) : refsAt s id = n.references := by rw [refsAt, hn]; rfl

theorem refsAt_congr {a : NodeId} (h : nodeIdEqual id a = true) : refsAt s id = refsAt s a := by
  rw [refsAt, refsAt, get_congr h]

/-- The reference that `addOneWayReference` appends. -/
def added (item : AddReferencesItem) : ReferenceNode := ⟨item.referenceTypeId, !item.isForward, item.targetNodeId⟩

theorem refsAt_addOneWay (hid : Stored s id) (a : NodeId) :
    refsAt (editNode s id (addOneWayReference item)).2 a =
      refsAt s a ++ if nodeIdEqual id a then [added item] else [] := by
  obtain ⟨n, hn⟩ := hid
  rw [refsAt_editNode hn]
  split
  · rename_i hsame
    rw [← refsAt_congr hsame, refsAt_of_get hn]
    rfl
  · rw [List.append_nil]

theorem stored_editNode {callback : Node → StatusCode × NodeMembers} (id' : NodeId) :
    Stored (editNode s id callback).2 id' ↔ Stored s id' := by
  have hsame : ((editNode s id callback).2.get id').map (·.nodeId) = (s.get id').map (·.nodeId) := get_editNode id'
  rw [Stored, Stored]
  cases h : s.get id' with
  | none =>
      rw [h, Option.map_none, Option.map_eq_none_iff] at hsame
      simp [hsame]
  | some n =>
      rw [h, Option.map_some] at hsame
      obtain ⟨m, hm, _⟩ := Option.map_eq_some_iff.mp hsame
      simp [hm]

theorem countP_ite (p : ReferenceNode → Bool) (c : Bool) (r : ReferenceNode) :
    (if c then [r] else []).countP p = if c && p r then 1 else 0 := by
  cases c <;> cases h : p r <;> simp [h]

theorem refsAt_addReferences (huri : ¬ item.targetServerUri.length > 0) (hsource : Stored s item.sourceNodeId)
    (htarget : Stored s item.targetNodeId.nodeId) (a : NodeId) :
    refsAt (addReferencesSingle s item).2 a =
      refsAt s a ++ (if nodeIdEqual item.sourceNodeId a then [added item] else []) ++
        if nodeIdEqual item.targetNodeId.nodeId a then [added item.second] else [] := by
  have hfirst : (editNode s item.sourceNodeId (addOneWayReference item)).1 = good := by
    obtain ⟨n, hn⟩ := hsource
    rw [editNode_some hn]
    rfl
  have hstored : Stored (editNode s item.sourceNodeId (addOneWayReference item)).2 item.second.sourceNodeId :=
    (stored_editNode _).mpr htarget
  rw [addReferencesSingle, if_neg huri]
  dsimp only
  rw [if_neg (not_not.mpr hfirst), refsAt_addOneWay hstored, refsAt_addOneWay hsource]
  rfl

theorem count_addReferences (huri : ¬ item.targetServerUri.length > 0) (hsource : Stored s item.sourceNodeId)
    (htarget : Stored s item.targetNodeId.nodeId) (inverse : Bool) (a b referenceType : NodeId) :
    count (addReferencesSingle s item).2 inverse a b referenceType =
      count s inverse a b referenceType +
        (if nodeIdEqual item.sourceNodeId a && links inverse b referenceType (added item) then 1 else 0) +
        (if nodeIdEqual item.targetNodeId.nodeId a && links inverse b referenceType (added item.second) then 1
          else 0) := by
  rw [count, refsAt_addReferences huri hsource htarget, List.countP_append, List.countP_append, countP_ite, countP_ite]
  rfl

theorem mirrored_addReferences (hsource : Stored s item.sourceNodeId) (htarget : Stored s item.targetNodeId.nodeId)
    (hs : Mirrored s) : Mirrored (addReferencesSingle s item).2 := by
  by_cases huri : item.targetServerUri.length > 0
  · rw [addReferencesSingle, if_pos huri]
    exact hs
  intro a b referenceType
  rw [count_addReferences huri hsource htarget, count_addReferences huri hsource htarget, hs a b referenceType]
  -- what the first edit adds to one side, the second one adds to the other
  have hcross : ∀ inverse a b, (nodeIdEqual item.sourceNodeId a && links inverse b referenceType (added item)) =
      (nodeIdEqual item.targetNodeId.nodeId b && links (!inverse) a referenceType (added item.second)) := by
    intro inverse a b
    simp only [links, added, AddReferencesItem.second]
    cases inverse <;> cases item.isForward <;> simp [Bool.and_comm, Bool.and_assoc]
  rw [hcross false a b, hcross true b a]
  simp only [Bool.not_false, Bool.not_true]
  omega

theorem extends_addReferences (htarget : Stored s item.targetNodeId.nodeId) :
    Extends s (addReferencesSingle s item).2 := by
  by_cases hsource : Stored s item.sourceNodeId
  · refine ⟨mirrored_addReferences hsource htarget, ?_⟩
    intro id hid
    rw [addReferencesSingle]
    split
    · exact hid
    · dsimp only
      split
      · exact (stored_editNode id).mpr hid
      · exact (stored_editNode id).mpr ((stored_editNode id).mpr hid)
  · have hnone : s.get item.sourceNodeId = none := by
      cases h : s.get item.sourceNodeId with
      | none => rfl
      | some n => exact absurd ⟨n, h⟩ hsource
    rw [addReferencesSingle, editNode_none hnone]
    split
    · exact .refl s
    · exact .refl s

theorem extends_editNode {callback : Node → StatusCode × NodeMembers}
    (h : ∀ n, (callback n).2.references = n.references) : Extends s (editNode s id callback).2 where
  mirrored := by
    refine mirrored_congr ?_
    intro a
    cases hn : s.get id with
    | none => rw [editNode_none hn]
    | some n =>
        rw [refsAt_editNode hn]
        split
        · rename_i hsame
          rw [h n, ← refsAt_congr hsame, refsAt_of_get hn]
        · rfl
  stored _ hid := (stored_editNode _).mpr hid

theorem stored_of_editNode {callback : Node → StatusCode × NodeMembers} (h : (editNode s id callback).1 = good) :
    Stored s id := by
  cases hn : s.get id with
  | none =>
      rw [editNode_none hn] at h
      cases h
  | some n => exact ⟨n, hn⟩

theorem stored_of_addReferences (h : (addReferencesSingle s item).1 = good) :
    Stored s item.targetNodeId.nodeId := by
  rw [addReferencesSingle] at h
  split at h
  · cases h
  · dsimp only at h
    split at h
    · rename_i hbad
      exact absurd h hbad
    · exact (stored_editNode _).mp (stored_of_editNode h)

end Adding

section Creation

variable {host : Host} {st st' : State} {fuel : Nat} {parentNodeId referenceTypeId nodeId typeId : NodeId}

theorem extends_insertNode (hnew : n.references = []) (h : insertNode host st n = some (id, st')) :
    Extends st.space st'.space := by
  rw [insertNode] at h
  split at h
  · rename_i hfree
    cases h
    exact extends_insert hfree hnew
  · cases h

/-- A node without references is added, and both directions of the reference
to its parent. -/
theorem extends_addExistingNode (hnew : n.references = []) :
    Extends st.space (addExistingNode host st n parentNodeId referenceTypeId).2.space := by
  unfold addExistingNode
  split
  · exact .refl _
  split
  · exact .refl _
  rename_i parent hparent
  split
  · exact .refl _
  split
  · split
    · exact .refl _
    split
    · exact .refl _
    · rename_i id st' hinsert
      have hextends := extends_insertNode hnew hinsert
      exact hextends.trans (extends_addReferences (hextends.stored parentNodeId ⟨parent, hparent⟩))
  · exact .refl _

theorem nodeFromItem_references {item : AddNodesItem} (h : nodeFromItem host item = .ok n) : n.references = [] := by
  unfold nodeFromItem at h
  repeat' split at h
  all_goals cases h
  all_goals rfl

theorem extends_addNode (item : AddNodesItem) : Extends st.space (addNode host st item).2.space := by
  rw [addNode]
  split
  · exact .refl _
  · rename_i n hn
    exact extends_addExistingNode (nodeFromItem_references hn)

theorem stored_of_browse {identifier : List UInt8} {session session' : Continuations} {descr : BrowseDescription}
    {maxrefs : UInt32} {result : BrowseResult}
    (h : browseSingle fuel s identifier session descr maxrefs = some (result, session')) :
    ∀ rd ∈ result.references, Stored s rd.nodeId.nodeId := by
  obtain ⟨collected, hcollected, hresult⟩ := Option.map_eq_some_iff.mp h
  cases collected with
  | returned status =>
      cases hresult
      intro rd hrd
      cases hrd
  | collected references index size =>
      dsimp only at hresult
      have hreferences : result.references = references := by
        rw [← createCp_references references, hresult]
      rw [hreferences]
      intro rd hrd
      exact get_of_collected hcollected hrd

theorem browseTypes_spec {descr : BrowseDescription} {references : List ReferenceDescription}
    (h : browseTypes host fuel st descr = some (references, st')) :
    st'.space = st.space ∧ ∀ rd ∈ references, Stored st.space rd.nodeId.nodeId := by
  obtain ⟨⟨result, session⟩, hbrowse, heq⟩ := Option.map_eq_some_iff.mp h
  cases heq
  exact ⟨rfl, stored_of_browse hbrowse⟩

def Keeps (f : State → Option State) : Prop := ∀ st st', f st = some st' → Extends st.space st'.space

theorem keeps_eachTypeDefinition {instantiate : State → NodeId → Option State}
    (hinstantiate : ∀ typeId, Keeps (instantiate · typeId)) (id : NodeId) (fuel i : Nat) :
    Keeps (eachTypeDefinition instantiate id fuel i) := by
  induction fuel generalizing i with
  | zero =>
      intro st st' h
      cases h
  | succ fuel ih =>
      intro st st' h
      rw [eachTypeDefinition] at h
      split at h
      · cases h
        exact .refl _
      · rename_i r _
        split at h
        · obtain ⟨mid, hmid, hrest⟩ := Option.bind_eq_some_iff.mp h
          exact (hinstantiate r.targetId.nodeId st mid hmid).trans (ih (i + 1) mid st' hrest)
        · exact ih (i + 1) st st' h

theorem extends_foldlM {f : State → ReferenceDescription → Option State} {references : List ReferenceDescription}
    (hf : ∀ st rd st', Stored st.space rd.nodeId.nodeId → f st rd = some st' → Extends st.space st'.space)
    (hstored : ∀ rd ∈ references, Stored st.space rd.nodeId.nodeId) (h : references.foldlM f st = some st') :
    Extends st.space st'.space := by
  induction references generalizing st with
  | nil =>
      cases h
      exact .refl _
  | cons rd references ih =>
      rw [List.foldlM_cons] at h
      obtain ⟨mid, hmid, hrest⟩ := Option.bind_eq_some_iff.mp h
      have hfirst := hf st rd mid (hstored rd List.mem_cons_self) hmid
      refine hfirst.trans (ih ?_ hrest)
      exact fun rd' hrd' => hfirst.stored _ (hstored rd' (List.mem_cons_of_mem _ hrd'))

/-- An instantiation that only extends the address space. -/
def InstantiateKeeps (instantiate : Instantiate) : Prop :=
  ∀ nodeId typeId, Keeps (fun st => (instantiate st nodeId typeId).map (·.2))

theorem extends_copied {instantiate : Instantiate} (h : InstantiateKeeps instantiate) {item : AddNodesItem}
    {id source : NodeId} {i : Nat} {r : StatusCode × State}
    (hcopy : (eachTypeDefinition (fun st typeId => (instantiate st id typeId).map (·.2)) source fuel i
      (addNode host st item).2).map (fun st => (good, st)) = some r) : Extends st.space r.2.space := by
  obtain ⟨last, hlast, rfl⟩ := Option.map_eq_some_iff.mp hcopy
  exact (extends_addNode item).trans (keeps_eachTypeDefinition (fun typeId => h id typeId) _ _ _ _ _ hlast)

theorem keeps_copyExistingVariable {instantiate : Instantiate} (h : InstantiateKeeps instantiate)
    (source referenceType parent : NodeId) :
    Keeps (fun st => (copyExistingVariable host instantiate fuel st source referenceType parent).map (·.2)) := by
  intro st st' hcopy
  obtain ⟨r, hr, rfl⟩ := Option.map_eq_some_iff.mp hcopy
  rw [copyExistingVariable] at hr
  split at hr
  · cases hr
    exact .refl _
  split at hr
  · exact extends_copied h hr
  · cases hr
    exact .refl _

theorem keeps_copyExistingObject {instantiate : Instantiate} (h : InstantiateKeeps instantiate)
    (source referenceType parent : NodeId) :
    Keeps (fun st => (copyExistingObject host instantiate fuel st source referenceType parent).map (·.2)) := by
  intro st st' hcopy
  obtain ⟨r, hr, rfl⟩ := Option.map_eq_some_iff.mp hcopy
  rw [copyExistingObject] at hr
  split at hr
  · cases hr
    exact .refl _
  split at hr
  · exact extends_copied h hr
  · cases hr
    exact .refl _

theorem extends_addTypeDefinition (h : Stored st.space typeId) :
    Extends st.space (addTypeDefinition st nodeId typeId).space := extends_addReferences h

/-- By induction on the fuel: the properties are copied by the instantiation
with less of it. -/
theorem keeps_instantiateVariableNode (fuel : Nat) : InstantiateKeeps (instantiateVariableNode host fuel) := by
  induction fuel with
  | zero =>
      intro nodeId typeId st st' h
      cases h
  | succ fuel ih =>
      intro nodeId typeId st st' h
      dsimp only at h
      rw [instantiateVariableNode] at h
      split at h
      · cases h
        exact .refl _
      rename_i type htype
      split at h
      · cases h
        exact .refl _
      · obtain ⟨r, hr, rfl⟩ := Option.map_eq_some_iff.mp h
        obtain ⟨⟨references, st₁⟩, hbrowse, hloop⟩ := Option.bind_eq_some_iff.mp hr
        obtain ⟨hspace, hstored⟩ := browseTypes_spec hbrowse
        obtain ⟨last, hlast, rfl⟩ := Option.map_eq_some_iff.mp hloop
        have hextends : Extends st.space last.space := by
          rw [← hspace] at hstored ⊢
          refine extends_foldlM ?_ hstored hlast
          intro st rd st' _ hcopy
          exact keeps_copyExistingVariable ih _ _ _ st st' hcopy
        exact hextends.trans (extends_addTypeDefinition (hextends.stored typeId ⟨type, htype⟩))

theorem extends_callConstructor (lifecycle : Lifecycle) :
    Extends st.space (callConstructor host st nodeId lifecycle).space := by
  rw [callConstructor]
  split
  · exact .refl _
  · refine extends_editNode ?_
    intro n
    rw [setObjectInstanceHandle]
    split <;> rfl

theorem extends_instantiateChild {instantiate instantiateVariable : Instantiate} (h : InstantiateKeeps instantiate)
    (hvariable : InstantiateKeeps instantiateVariable) {rd : ReferenceDescription}
    (hrd : Stored st.space rd.nodeId.nodeId)
    (hchild : instantiateChild host instantiate instantiateVariable fuel nodeId st rd = some st') :
    Extends st.space st'.space := by
  rw [instantiateChild] at hchild
  split at hchild
  · cases hchild
    exact extends_addReferences hrd
  split at hchild
  · exact keeps_copyExistingVariable hvariable _ _ _ st st' hchild
  split at hchild
  · exact keeps_copyExistingObject h _ _ _ st st' hchild
  · cases hchild
    exact .refl _

theorem keeps_instantiateObjectNode (fuel : Nat) : InstantiateKeeps (instantiateObjectNode host fuel) := by
  induction fuel with
  | zero =>
      intro nodeId typeId st st' h
      cases h
  | succ fuel ih =>
      intro nodeId typeId st st' h
      dsimp only at h
      rw [instantiateObjectNode] at h
      split at h
      · cases h
        exact .refl _
      rename_i type htype
      split at h
      · rename_i lifecycle _
        obtain ⟨r, hr, rfl⟩ := Option.map_eq_some_iff.mp h
        obtain ⟨⟨references, st₁⟩, hbrowse, hloop⟩ := Option.bind_eq_some_iff.mp hr
        obtain ⟨hspace, hstored⟩ := browseTypes_spec hbrowse
        obtain ⟨last, hlast, rfl⟩ := Option.map_eq_some_iff.mp hloop
        have hextends : Extends st.space last.space := by
          rw [← hspace] at hstored ⊢
          refine extends_foldlM ?_ hstored hlast
          intro st rd st' hrd hchild
          exact extends_instantiateChild ih (keeps_instantiateVariableNode fuel) hrd hchild
        have hdefined : Extends last.space (addTypeDefinition last nodeId typeId).space :=
          extends_addTypeDefinition (hextends.stored typeId ⟨type, htype⟩)
        exact hextends.trans (hdefined.trans (extends_callConstructor lifecycle))
      · cases h
        exact .refl _

end Creation

section Runs

variable {host : Host} {st st' : State} {fuel : Nat}

/-- The calls that add something. A node that is handed to
`UA_Server_addExistingNode` is fresh from its constructor. -/
inductive Request
  | addNodes (item : AddNodesItem)
  | addExistingNode (n : Node) (hnew : n.references = []) (parentNodeId referenceTypeId : NodeId)
  | addReferences (item : AddReferencesItem)

def perform (host : Host) (fuel : Nat) (st : State) : Request → Option (StatusCode × State)
  | .addNodes item => (addNodesSingle host fuel st item).map (fun r => (r.1.statusCode, r.2))
  | .addExistingNode n _ parentNodeId referenceTypeId =>
      let r := addExistingNode host st n parentNodeId referenceTypeId
      some (r.1.statusCode, r.2)
  | .addReferences item =>
      let r := addReferencesSingle st.space item
      some (r.1, { st with space := r.2 })

theorem extends_instantiateNode {item : AddNodesItem} {id : NodeId} {r : StatusCode × State}
    (h : instantiateNode host fuel st item id = some r) : Extends st.space r.2.space := by
  rw [instantiateNode] at h
  split at h
  · cases h
    exact .refl _
  split at h
  · exact keeps_instantiateObjectNode fuel id item.typeDefinition st r.2 (congrArg (Option.map (·.2)) h)
  split at h
  · exact keeps_instantiateVariableNode fuel id item.typeDefinition st r.2 (congrArg (Option.map (·.2)) h)
  · cases h
    exact .refl _

theorem extends_addNodesSingle {item : AddNodesItem} {result : AddNodesResult}
    (h : addNodesSingle host fuel st item = some (result, st')) (hgood : result.statusCode = good) :
    Extends st.space st'.space := by
  rw [addNodesSingle] at h
  split at h
  · rw [← show (addNode host st item).2 = st' from congrArg Prod.snd (Option.some.inj h)]
    exact extends_addNode item
  · obtain ⟨r, hr, hrest⟩ := Option.bind_eq_some_iff.mp h
    split at hrest
    · rename_i hbad
      obtain ⟨d, _, heq⟩ := Option.map_eq_some_iff.mp hrest
      cases heq
      exact absurd hgood hbad
    · cases hrest
      exact (extends_addNode item).trans (extends_instantiateNode hr)

theorem extends_perform {request : Request} {status : StatusCode}
    (h : perform host fuel st request = some (status, st'))
    (hgood : status = good) : Extends st.space st'.space := by
  cases request with
  | addNodes item =>
      obtain ⟨⟨result, st₁⟩, hadd, heq⟩ := Option.map_eq_some_iff.mp h
      cases heq
      exact extends_addNodesSingle hadd hgood
  | addExistingNode n hnew parentNodeId referenceTypeId =>
      cases h
      exact extends_addExistingNode hnew
  | addReferences item =>
      cases h
      exact extends_addReferences (stored_of_addReferences hgood)

/-- Calls that all report GOOD keep every reference with its mirror. -/
theorem mirrored_run (host : Host) (fuel : Nat) (st st' : State) (requests : List Request)
    (statuses : List StatusCode) (hrun : batch (perform host fuel) st requests = some (statuses, st'))
    (hgood : ∀ status ∈ statuses, status = good) (hmirrored : Mirrored st.space) : Mirrored st'.space := by
  have hstep : ∀ st request status st', perform host fuel st request = some (status, st') → status = good →
      Mirrored st.space → Mirrored st'.space :=
    fun _ _ _ _ h hstatus hs => (extends_perform h hstatus).mirrored hs
  exact batch_keeps (P := fun st => Mirrored st.space) hstep hrun hgood hmirrored

/-- A reference type, a parent, and an object type for which nothing has been
added yet. -/
def sampleTypeSpace : AddressSpace where
  nodes := [plainReferenceType (numericId 0 aggregates), plainObject (numericId 1 1) [],
    plainNode (numericId 1 10) (.objectType 0 ⟨some 1, none⟩), plainNode (numericId 1 11) (.method 1 1 0 0),
    plainObject (numericId 1 12) []]
  distinct := by decide

/-- A reference from the object type to one of its children. -/
def childItem (child : NodeId) : AddReferencesItem :=
  ⟨numericId 1 10, numericId 0 aggregates, true, none, ⟨child, none, 0⟩⟩

def sampleInstance : AddNodesItem where
  parentNodeId := numericId 1 1
  referenceTypeId := numericId 0 aggregates
  requestedNewNodeId := numericId 1 20
  browseName := ⟨0, none⟩
  nodeClass := 1
  nodeAttributes := some (.object ⟨⟨none, none⟩, ⟨none, none⟩, 0, 0⟩ 0)
  typeDefinition := numericId 1 10

def sampleRequests : List Request :=
  [.addReferences (childItem (numericId 1 11)), .addReferences (childItem (numericId 1 12)), .addNodes sampleInstance]

theorem mirrored_sampleRequests :
    ∃ st', batch (perform sampleHost 9) ⟨sampleTypeSpace, ⟨[], 5⟩, 0, 0, []⟩ sampleRequests =
        some ([good, good, good], st') ∧ Mirrored st'.space := by
  obtain ⟨st', hrun⟩ : ∃ st', batch (perform sampleHost 9) ⟨sampleTypeSpace, ⟨[], 5⟩, 0, 0, []⟩ sampleRequests =
      some ([good, good, good], st') := ⟨_, rfl⟩
  refine ⟨st', hrun, mirrored_run sampleHost 9 _ st' sampleRequests _ hrun (by simp) ?_⟩
  refine mirrored_of_no_references ?_
  simp [sampleTypeSpace, plainReferenceType, plainObject, plainNode]

end Runs

end OpcUa.MirroredReferences
