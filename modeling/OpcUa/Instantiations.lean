import OpcUa.NodeAdditions

namespace OpcUa.Instantiations

open StatusCodes NodeIds DataTypes AddressSpaces References SubTypes Browsing NodeManagement NodeCreation
  MirroredReferences AddedNodes NodeAdditions Relation
open NodeStores (NodeClass hasNullIdentifier)

def kind (n : Node) : NodeId × NodeClass := (n.nodeId, n.nodeClass)

def kindAt (s : AddressSpace) (id : NodeId) : Option (NodeId × NodeClass) := (s.get id).map kind

def classAt (s : AddressSpace) (id : NodeId) : Option NodeClass := (kindAt s id).map (·.2)

/-- What an instantiation does to the state, one change after the other. Copies
are added below the nodes that it works on and get ids from the store, and
references to methods start at these nodes. Some of them are completed: they get
their type, and a constructor is called. -/
inductive Step (host : Host) (parents completed : NodeId → Prop) : State → State → Prop
  | browsed (st : State) (session : Continuations) (browses : Nat) :
      Step host parents completed st { st with session := session, browses := browses }
  | copied (st : State) (item : AddNodesItem) (hid : item.requestedNewNodeId = nullId)
      (hclass : item.nodeClass = nodeClassValue .variable ∨ item.nodeClass = nodeClassValue .object)
      (hparent : parents item.parentNodeId) : Step host parents completed st (addNode host st item).2
  | linked (st : State) (item : AddReferencesItem) (hforward : item.isForward = true)
    (huri : item.targetServerUri = none)
      (hlink : completed item.sourceNodeId ∧ Stored st.space item.targetNodeId.nodeId ∨
        parents item.sourceNodeId ∧ classAt st.space item.targetNodeId.nodeId = some .method) :
      Step host parents completed st { st with space := (addReferencesSingle st.space item).2 }
  | constructed (st : State) (id : NodeId) (lifecycle : Lifecycle) (hid : completed id) :
      Step host parents completed st (callConstructor host st id lifecycle)

abbrev Steps (host : Host) (parents completed : NodeId → Prop) : State → State → Prop :=
  ReflTransGen (Step host parents completed)

/-- Ids that are not in use are admitted, and the id of a copy that fails. -/
structure Admits (allowed : NodeId → Prop) (s : AddressSpace) : Prop where
  free : ∀ id, s.get id = none → allowed id
  null : allowed nullId

variable {host : Host} {parents completed allowed : NodeId → Prop} {st st' : State} {s s' : AddressSpace} {fuel : Nat}
  {item : AddNodesItem} {n : Node} {id source referenceType typeId : NodeId}

section Storing

theorem Admits.mono (h : Admits allowed s) (hstored : ∀ id, Stored s id → Stored s' id) : Admits allowed s' where
  free id hnone := h.free id (not_stored_iff.mp (fun hs => not_stored_iff.mpr hnone (hstored id hs)))
  null := h.null

theorem stored_addReferences {item : AddReferencesItem} (h : Stored s id) :
    Stored (addReferencesSingle s item).2 id := by
  rw [stored_iff_bare, bare_addReferences, ← stored_iff_bare]
  exact h

theorem stored_addNode (h : Stored st.space id) : Stored (addNode host st item).2.space id := by
  rcases addNode_cases host st item with ⟨_, hsame⟩ | ⟨n, hn, haccepted⟩
  · rw [hsame]
    exact h
  · rw [addNode_accepted hn, stored_addExistingNode haccepted]
    exact .inr h

theorem stored_callConstructor {lifecycle : Lifecycle} {nodeId : NodeId} (h : Stored st.space id) :
    Stored (callConstructor host st nodeId lifecycle).space id := by
  rw [callConstructor]
  split
  · exact h
  · exact (stored_editNode id).mpr h

theorem Step.stored (h : Step host parents completed st st') (hid : Stored st.space id) : Stored st'.space id := by
  cases h with
  | browsed session browses => exact hid
  | copied item hnull hclass hparent => exact stored_addNode hid
  | linked item hforward huri hlink => exact stored_addReferences hid
  | constructed nodeId lifecycle hdone => exact stored_callConstructor hid

theorem kindAt_of_bare (h : (s'.get id).map bare = (s.get id).map bare) : kindAt s' id = kindAt s id := by
  have hkind : ∀ s, kindAt s id = ((s.get id).map bare).map kind := by
    intro s
    rw [kindAt, Option.map_map]
    rfl
  rw [hkind, hkind, h]

theorem stored_iff_kindAt : Stored s id ↔ ∃ k, kindAt s id = some k := by
  rw [Stored, kindAt]
  cases s.get id <;> simp

theorem classAt_eq : classAt s id = (s.get id).map (·.nodeClass) := by
  rw [classAt, kindAt, Option.map_map]
  rfl

theorem stored_of_classAt {c : NodeClass} (h : classAt s id = some c) : Stored s id := by
  obtain ⟨k, hk, _⟩ := Option.map_eq_some_iff.mp h
  exact stored_iff_kindAt.mpr ⟨k, hk⟩

theorem kindAt_congr (h : nodeIdEqual id source = true) : kindAt s id = kindAt s source := by
  rw [kindAt, kindAt, get_congr h]

theorem kindAt_callConstructor {lifecycle : Lifecycle} {nodeId : NodeId} :
    kindAt (callConstructor host st nodeId lifecycle).space id = kindAt st.space id := by
  rw [callConstructor]
  split
  · rfl
  · refine map_editNode ?_
    intro n
    rw [kind, kind, setObjectInstanceHandle]
    cases hbody : n.body with
    | object eventNotifier handle =>
        rw [Node.nodeClass, Node.nodeClass, hbody]
        rfl
    | _ => rfl

theorem Step.kindAt (h : Step host parents completed st st') (hid : Stored st.space id) :
    kindAt st'.space id = kindAt st.space id := by
  cases h with
  | browsed session browses => rfl
  | copied item hnull hclass hparent =>
      rcases addNode_cases host st item with ⟨_, hsame⟩ | ⟨n, hn, haccepted⟩
      · rw [hsame]
      · refine kindAt_of_bare ?_
        rw [addNode_accepted hn, bare_of_addExistingNode haccepted, ne_insertedId haccepted hid,
          if_neg Bool.false_ne_true]
  | linked item hforward huri hlink => exact kindAt_of_bare (bare_addReferences item)
  | constructed nodeId lifecycle hdone => exact kindAt_callConstructor

theorem refsAt_callConstructor {lifecycle : Lifecycle} {nodeId : NodeId} :
    refsAt (callConstructor host st nodeId lifecycle).space id = refsAt st.space id := by
  rw [callConstructor]
  split
  · rfl
  · rename_i callback _
    have hsame : ((editNode st.space nodeId
      (setObjectInstanceHandle (host.construct callback nodeId st.calls.length))).2.get
        id).map (·.references) = (st.space.get id).map (·.references) := by
      refine map_editNode ?_
      intro n
      rw [setObjectInstanceHandle]
      cases n.body <;> rfl
    have helim : ∀ s, refsAt s id = ((s.get id).map (·.references)).elim [] (fun l => l) := by
      intro s
      rw [refsAt]
      cases s.get id <;> rfl
    rw [helim, helim st.space, ← hsame]

theorem insertedId_null (host : Host) (st : State) : insertedId host st nullId = numericId 1
    (host.numbers st.inserts) := rfl

theorem nodeFromItem_nodeId (h : nodeFromItem host item = .ok n) : n.nodeId = item.requestedNewNodeId := by
  unfold nodeFromItem at h
  repeat' split at h
  all_goals cases h
  all_goals rfl

theorem nodeClassValue_inj {c c' : NodeClass} (h : nodeClassValue c = nodeClassValue c') : c = c' := by
  revert h
  cases c <;> cases c' <;> decide

/-- A node that was not there is an object or a variable with an id from the
store. -/
theorem Step.new (h : Step host parents completed st st') {c : NodeClass} (hc : classAt st'.space id = some c) :
    classAt st.space id = some c ∨ (c = .object ∨ c = .variable) ∧ ¬ Stored st.space id ∧
      nodeIdEqual (numericId 1 (host.numbers st.inserts)) id = true := by
  cases h with
  | browsed session browses => exact .inl hc
  | copied item hid hclass hparent =>
      rcases addNode_cases host st item with ⟨_, hsame⟩ | ⟨n, hn, haccepted⟩
      · rw [hsame] at hc
        exact .inl hc
      have hnode := nodeClass_addExistingNode haccepted id
      have hinserted : insertedId host st n.nodeId = numericId 1 (host.numbers st.inserts) := by
        rw [nodeFromItem_nodeId hn, hid, insertedId_null]
      rw [addNode_accepted hn] at hc
      by_cases hnew : nodeIdEqual (insertedId host st n.nodeId) id = true
      · refine .inr ⟨?_, not_stored_iff.mpr (by rw [← get_congr hnew, haccepted.free]), by rw [← hinserted, hnew]⟩
        rw [if_pos hnew, ← classAt_eq] at hnode
        obtain rfl : n.nodeClass = c := Option.some.inj (hnode.symm.trans hc)
        rcases hclass with hclass | hclass
        · exact .inr (nodeClassValue_inj ((nodeFromItem_class hn).symm.trans hclass))
        · exact .inl (nodeClassValue_inj ((nodeFromItem_class hn).symm.trans hclass))
      · rw [if_neg hnew, ← classAt_eq, ← classAt_eq] at hnode
        exact .inl (hnode.symm.trans hc)
  | linked item hforward huri hlink =>
      rw [Instantiations.classAt, kindAt_of_bare (bare_addReferences item)] at hc
      exact .inl hc
  | constructed nodeId lifecycle hdone =>
      rw [Instantiations.classAt, kindAt_callConstructor] at hc
      exact .inl hc

theorem Step.inserts (h : Step host parents completed st st') : st.inserts ≤ st'.inserts := by
  cases h with
  | browsed session browses => exact Nat.le_refl _
  | copied item hid hclass hparent =>
      rcases addNode_cases host st item with ⟨_, hsame⟩ | ⟨n, hn, haccepted⟩
      · rw [hsame]
      · rw [addNode_accepted hn, addExistingNode_accepted haccepted]
        exact Nat.le_succ _
  | linked item hforward huri hlink => exact Nat.le_refl _
  | constructed nodeId lifecycle hdone =>
      rw [callConstructor]
      split <;> exact Nat.le_refl _

theorem Steps.stored (h : Steps host parents completed st st') (hid : Stored st.space id) : Stored st'.space id := by
  induction h with
  | refl => exact hid
  | tail _ hstep ih => exact hstep.stored ih

theorem Steps.kindAt (h : Steps host parents completed st st') (hid : Stored st.space id) :
    kindAt st'.space id = kindAt st.space id := by
  induction h with
  | refl => rfl
  | tail hsteps hstep ih => exact (hstep.kindAt (Steps.stored hsteps hid)).trans ih

theorem Steps.classAt (h : Steps host parents completed st st') {c : NodeClass} (hid : classAt st.space id = some c) :
    classAt st'.space id = some c := by
  obtain ⟨k, hk, hc⟩ := Option.map_eq_some_iff.mp hid
  rw [Instantiations.classAt, Steps.kindAt h (stored_iff_kindAt.mpr ⟨k, hk⟩)]
  exact hid

theorem Admits.steps (h : Admits allowed st.space) (hsteps : Steps host parents completed st st') :
    Admits allowed st'.space := h.mono (fun _ hid => hsteps.stored hid)

end Storing

section Copies

theorem admitted_copy (h : Admits allowed st.space) (hid : item.requestedNewNodeId = nullId) :
    allowed (addNode host st item).1.addedNodeId := by
  rw [addNode]
  split
  · exact h.null
  rename_i n hn
  have hnode : n.nodeId = nullId := (nodeFromItem_nodeId hn).trans hid
  rw [addExistingNode]
  split
  · exact h.null
  split
  · exact h.null
  split
  · exact h.null
  split
  · split
    · exact h.null
    split
    · rw [notInserted, hnode]
      exact h.null
    · rename_i hinsert
      rw [insertNode] at hinsert
      split at hinsert
      · rename_i hfree
        cases hinsert
        exact h.free _ hfree
      · cases hinsert
  · exact h.null

structure IsCopy (parent : NodeId) (item : AddNodesItem) : Prop where
  id : item.requestedNewNodeId = nullId
  nodeClass : item.nodeClass = nodeClassValue .variable ∨ item.nodeClass = nodeClassValue .object
  parent : item.parentNodeId = parent

def variableItem (host : Host) (s : AddressSpace) (source referenceType parent : NodeId) :
    Except StatusCode AddNodesItem :=
  match s.get source with
  | none => .error badNodeIdInvalid
  | some node =>
      match node.body with
      | .variable members => .ok (variableCopy host node members referenceType parent)
      | _ => .error badNodeClassInvalid

def objectItem (s : AddressSpace) (source referenceType parent : NodeId) : Except StatusCode AddNodesItem :=
  match s.get source with
  | none => .error badNodeIdInvalid
  | some node =>
      match node.body with
      | .object eventNotifier _ => .ok (objectCopy node eventNotifier referenceType parent)
      | _ => .error badNodeClassInvalid

def copyExisting (host : Host) (instantiate : Instantiate) (fuel : Nat) (source : NodeId) (st : State) :
    Except StatusCode AddNodesItem → Option State
  | .error _ => some st
  | .ok item =>
      eachTypeDefinition (fun st' typeId => (instantiate st' (addNode host st item).1.addedNodeId typeId).map
        (·.2)) source
        fuel 0 (addNode host st item).2

variable {instantiate : Instantiate} {parent : NodeId}

theorem copyExistingVariable_eq :
    (copyExistingVariable host instantiate fuel st source referenceType parent).map (·.2) =
    copyExisting host instantiate fuel source st (variableItem host st.space source referenceType parent) := by
  rw [copyExistingVariable, variableItem]
  cases st.space.get source with
  | none => rfl
  | some node =>
      dsimp only
      cases node.body with
      | «variable» members =>
          change Option.map (fun r : StatusCode × State => r.2) (Option.map _ _) = eachTypeDefinition _ _ _ _ _
          rw [Option.map_map]
          exact Option.map_id'
      | _ => rfl

theorem copyExistingObject_eq : (copyExistingObject host instantiate fuel st source referenceType parent).map (·.2) =
    copyExisting host instantiate fuel source st (objectItem st.space source referenceType parent) := by
  rw [copyExistingObject, objectItem]
  cases st.space.get source with
  | none => rfl
  | some node =>
      dsimp only
      cases node.body with
      | object eventNotifier handle =>
          change Option.map (fun r : StatusCode × State => r.2) (Option.map _ _) = eachTypeDefinition _ _ _ _ _
          rw [Option.map_map]
          exact Option.map_id'
      | _ => rfl

theorem isCopy_variableItem (h : variableItem host s source referenceType parent = .ok item) : IsCopy parent item := by
  rw [variableItem] at h
  repeat' split at h
  all_goals cases h
  exact ⟨rfl, .inl rfl, rfl⟩

theorem isCopy_objectItem (h : objectItem s source referenceType parent = .ok item) : IsCopy parent item := by
  rw [objectItem] at h
  repeat' split at h
  all_goals cases h
  exact ⟨rfl, .inr rfl, rfl⟩

end Copies

section Children

variable {descr : BrowseDescription} {references : List ReferenceDescription} {rd : ReferenceDescription}
  {outcome : Except StatusCode RelevantTypes}

/-- What a browse without a limit finds, once it has searched for the types. -/
def found (s : AddressSpace) (descr : BrowseDescription) : Except StatusCode RelevantTypes → List ReferenceDescription
  | .error _ => []
  | .ok types => (refsAt s descr.nodeId).filterMap (describe s descr types)

theorem take_realMaxrefs {α : Type} {maxrefs : UInt32} {size : Nat} {l : List α} (hmaxrefs : maxrefs ≠ 0)
    (hl : l.length ≤ size) : l.take (realMaxrefs maxrefs size).toNat = l.take maxrefs.toNat := by
  rw [realMaxrefs_of_ne hmaxrefs, List.take_eq_take_iff]
  omega

theorem browseSingle_references {identifier : List UInt8} {session : Continuations} {maxrefs : UInt32}
    (hmaxrefs : maxrefs ≠ 0)
    (hdirection : descr.browseDirection = browseForward ∨ descr.browseDirection = browseInverse)
    (hroom : ∀ n, s.get descr.nodeId = some n → exceedsArray (realMaxrefs maxrefs n.references.length) = false) :
    (browseSingle fuel s identifier session descr maxrefs).map (·.1.references) =
      (relevantTypes fuel s descr).map (fun outcome => (found s descr outcome).take maxrefs.toNat) := by
  have hvalid : (descr.browseDirection != browseBoth && descr.browseDirection != browseForward &&
      descr.browseDirection != browseInverse) = false := by
    rcases hdirection with h | h <;> rw [h] <;> rfl
  rw [browseSingle, collectReferences, hvalid, if_neg Bool.false_ne_true]
  cases relevantTypes fuel s descr with
  | none => rfl
  | some outcome =>
      cases outcome with
      | error status =>
          change some [] = some (List.take _ [])
          rw [List.take_nil]
      | ok types =>
          rw [Option.map_some, found]
          cases hn : s.get descr.nodeId with
          | none =>
              rw [refsAt, hn, Option.elim_none, List.filterMap_nil, List.take_nil]
              rfl
          | some n =>
              rw [refsAt_of_get hn]
              dsimp only
              by_cases hempty : n.references.length = 0
              · rw [if_pos hempty, List.length_eq_zero_iff.mp hempty, List.filterMap_nil, List.take_nil]
                rfl
              · rw [if_neg hempty, hroom n hn, if_neg Bool.false_ne_true]
                dsimp only [Option.map_some]
                rw [createCp_references, browseLoop, Paging.collect_start]
                change some (List.take _ ((n.references.filterMap _).drop 0)) = _
                rw [List.drop_zero, take_realMaxrefs hmaxrefs (List.length_filterMap_le _ _)]

theorem browseTypes_references (hforward : descr.browseDirection = browseForward) :
    (browseTypes host fuel st descr).map (·.1) =
      (relevantTypes fuel st.space descr).map (fun outcome => (found st.space descr outcome).take 100) := by
  rw [browseTypes, Option.map_map]
  exact browseSingle_references (by decide) (.inl hforward) (fun _ _ => exceedsArray_of_limit (by decide) (by decide) _)

theorem found_of_browseTypes (hforward : descr.browseDirection = browseForward)
    (h : browseTypes host fuel st descr = some (references, st')) :
    ∃ outcome, relevantTypes fuel st.space descr = some outcome ∧
      references = (found st.space descr outcome).take 100 := by
  have hfound : (browseTypes host fuel st descr).map (·.1) = _ := browseTypes_references hforward
  rw [h] at hfound
  obtain ⟨outcome, houtcome, heq⟩ := Option.map_eq_some_iff.mp hfound.symm
  exact ⟨outcome, houtcome, heq.symm⟩

theorem kindAt_of_found (hmask : wants descr.resultMask 4 = true) (h : rd ∈ found s descr outcome) :
    ∃ c, kindAt s rd.nodeId.nodeId = some (rd.nodeId.nodeId, c) ∧ rd.nodeClass = nodeClassValue c := by
  cases outcome with
  | error status => cases h
  | ok types =>
      obtain ⟨r, _, hr⟩ := List.mem_filterMap.mp h
      obtain ⟨curr, hcurr, rfl⟩ := Option.map_eq_some_iff.mp hr
      have hstored : s.get curr.nodeId = some curr :=
        get_eq_some.mpr ⟨(get_eq_some.mp (get_of_returnRelevantNode hcurr)).1, nodeIdEqual_refl _⟩
      refine ⟨curr.nodeClass, ?_, ?_⟩
      · change (s.get curr.nodeId).map kind = _
        rw [hstored]
        rfl
      · change (if wants descr.resultMask 4 = true then _ else _) = _
        rw [if_pos hmask]

def Described (s : AddressSpace) (rd : ReferenceDescription) : Prop :=
  rd.nodeClass = nodeClassValue .method → classAt s rd.nodeId.nodeId = some .method

theorem described_of_browseTypes (hforward : descr.browseDirection = browseForward)
    (hmask : wants descr.resultMask 4 = true) (h : browseTypes host fuel st descr = some (references, st')) :
    ∀ rd ∈ references, Described st.space rd := by
  intro rd hrd hmethod
  obtain ⟨outcome, _, rfl⟩ := found_of_browseTypes hforward h
  obtain ⟨c, hkind, hclass⟩ := kindAt_of_found hmask (List.mem_of_mem_take hrd)
  obtain rfl := nodeClassValue_inj (hmethod.symm.trans hclass)
  rw [classAt, hkind]
  rfl

theorem Described.steps {rd : ReferenceDescription} (h : Described st.space rd)
    (hsteps : Steps host parents completed st st') : Described st'.space rd := fun hmethod => hsteps.classAt (h hmethod)

end Children

section Loops

variable {rd : ReferenceDescription}

/-- An operation that consists of steps, as long as the ids that it meets are
admitted. -/
def ConsistsOfSteps (host : Host) (parents completed : NodeId → Prop) (f : State → Option State) : Prop :=
  ∀ st st', Admits parents st.space → Admits completed st.space → f st = some st' → Steps host parents completed st st'

def InstantiatesInSteps (host : Host) (parents completed : NodeId → Prop) (instantiate : Instantiate) : Prop :=
  ∀ id typeId, parents id → completed id →
    ConsistsOfSteps host parents completed (fun st => (instantiate st id typeId).map (·.2))

theorem steps_eachTypeDefinition {instantiate : State → NodeId → Option State}
    (h : ∀ typeId, ConsistsOfSteps host parents completed (instantiate · typeId)) (id : NodeId) (fuel i : Nat) :
    ConsistsOfSteps host parents completed (eachTypeDefinition instantiate id fuel i) := by
  induction fuel generalizing i with
  | zero =>
      intro st st' _ _ hloop
      cases hloop
  | succ fuel ih =>
      intro st st' hparents hcompleted hloop
      rw [eachTypeDefinition] at hloop
      split at hloop
      · cases hloop
        exact .refl
      · rename_i r _
        split at hloop
        · obtain ⟨mid, hmid, hrest⟩ := Option.bind_eq_some_iff.mp hloop
          have hfirst := h r.targetId.nodeId st mid hparents hcompleted hmid
          exact hfirst.trans (ih (i + 1) mid st' (hparents.steps hfirst) (hcompleted.steps hfirst) hrest)
        · exact ih (i + 1) st st' hparents hcompleted hloop

theorem steps_copyExisting {instantiate : Instantiate} (h : InstantiatesInSteps host parents completed instantiate)
    {parent : NodeId} (hparent : parents parent) {copy : Except StatusCode AddNodesItem}
    (hcopy : ∀ item, copy = .ok item → IsCopy parent item) :
    ConsistsOfSteps host parents completed (copyExisting host instantiate fuel source · copy) := by
  intro st st' hparents hcompleted hcopied
  cases copy with
  | error status =>
    cases hcopied
    exact .refl
  | ok item =>
    have hitem := hcopy item rfl
    have hsteps : Steps host parents completed st (addNode host st item).2 :=
      .single (.copied st item hitem.id hitem.nodeClass (by rw [hitem.parent]; exact hparent))
    refine hsteps.trans (steps_eachTypeDefinition ?_ source fuel 0 _ _ (hparents.steps hsteps) (hcompleted.steps hsteps)
      hcopied)
    exact fun typeId => h _ typeId (admitted_copy hparents hitem.id) (admitted_copy hcompleted hitem.id)

theorem steps_foldlM {f : State → ReferenceDescription → Option State}
    (hf : ∀ rd st st', Described st.space rd → Admits parents st.space →
    Admits completed st.space → f st rd = some st' →
      Steps host parents completed st st') {references : List ReferenceDescription}
    (hreferences : ∀ rd ∈ references, Described st.space rd) (hparents : Admits parents st.space)
    (hcompleted : Admits completed st.space) (h : references.foldlM f st = some st') :
    Steps host parents completed st st' := by
  induction references generalizing st with
  | nil =>
      cases h
      exact .refl
  | cons rd references ih =>
      rw [List.foldlM_cons] at h
      obtain ⟨mid, hmid, hrest⟩ := Option.bind_eq_some_iff.mp h
      have hfirst := hf rd st mid (hreferences rd List.mem_cons_self) hparents hcompleted hmid
      refine hfirst.trans (ih ?_ (hparents.steps hfirst) (hcompleted.steps hfirst) hrest)
      intro rd hrd
      exact (hreferences rd (List.mem_cons_of_mem _ hrd)).steps hfirst

theorem step_browseTypes {descr : BrowseDescription} {references : List ReferenceDescription}
    (h : browseTypes host fuel st descr = some (references, st')) :
    Steps host parents completed st st' ∧ st'.space = st.space := by
  obtain ⟨⟨result, session⟩, _, heq⟩ := Option.map_eq_some_iff.mp h
  cases heq
  exact ⟨.single (.browsed st session (st.browses + 1)), rfl⟩

theorem step_addTypeDefinition (hid : completed id) (htype : Stored st.space typeId) :
    Steps host parents completed st (addTypeDefinition st id typeId) :=
  .single (.linked st (typeItem id typeId) rfl rfl (.inl ⟨hid, htype⟩))

end Loops

section Instantiating

theorem steps_properties (h : InstantiatesInSteps host parents completed (instantiateVariableNode host fuel))
    (hid : parents id) (hparents : Admits parents st.space) (hcompleted : Admits completed st.space)
    {references : List ReferenceDescription} {mid last : State}
    (hbrowse : browseTypes host fuel st (propertiesBrowse typeId) = some (references, mid))
    (hlast : references.foldlM (fun st rd => (copyExistingVariable host (instantiateVariableNode host fuel) fuel st
      rd.nodeId.nodeId rd.referenceTypeId id).map (·.2)) mid = some last) : Steps host parents completed st last := by
  obtain ⟨hbrowsed, hspace⟩ := step_browseTypes hbrowse
  refine hbrowsed.trans (steps_foldlM ?_ ?_ (hparents.steps hbrowsed) (hcompleted.steps hbrowsed) hlast)
  · intro rd st st' _ hparents hcompleted hcopy
    rw [copyExistingVariable_eq] at hcopy
    exact steps_copyExisting h hid (fun _ => isCopy_variableItem) st st' hparents hcompleted hcopy
  · rw [hspace]
    exact described_of_browseTypes rfl (show wants 5 4 = true by decide) hbrowse

/-- By induction on the fuel: the properties are copied by the instantiation
with less of it. -/
theorem steps_instantiateVariableNode (fuel : Nat) :
    InstantiatesInSteps host parents completed (instantiateVariableNode host fuel) := by
  induction fuel with
  | zero =>
      intro id typeId _ _ st st' _ _ h
      cases h
  | succ fuel ih =>
      intro id typeId hid hdone st st' hparents hcompleted h
      dsimp only at h
      rw [instantiateVariableNode] at h
      split at h
      · cases h
        exact .refl
      rename_i type htype
      split at h
      · cases h
        exact .refl
      · obtain ⟨r, hr, rfl⟩ := Option.map_eq_some_iff.mp h
        obtain ⟨⟨references, st₁⟩, hbrowse, hloop⟩ := Option.bind_eq_some_iff.mp hr
        obtain ⟨last, hlast, rfl⟩ := Option.map_eq_some_iff.mp hloop
        have hproperties := steps_properties ih hid hparents hcompleted hbrowse hlast
        exact hproperties.trans (step_addTypeDefinition hdone (hproperties.stored ⟨type, htype⟩))

theorem steps_instantiateChild {instantiate instantiateVariable : Instantiate}
    (h : InstantiatesInSteps host parents completed instantiate)
    (hvariable : InstantiatesInSteps host parents completed instantiateVariable) (hid : parents id)
    (rd : ReferenceDescription) (st st' : State) (hmethod : Described st.space rd) (hparents : Admits parents st.space)
    (hcompleted : Admits completed st.space)
    (hchild : instantiateChild host instantiate instantiateVariable fuel id st rd = some st') :
    Steps host parents completed st st' := by
  rw [instantiateChild] at hchild
  split at hchild
  · rename_i hclass
    cases hchild
    exact .single (.linked st (methodItem id rd) rfl rfl (.inr ⟨hid, hmethod hclass⟩))
  split at hchild
  · rw [copyExistingVariable_eq] at hchild
    exact steps_copyExisting hvariable hid (fun _ => isCopy_variableItem) st st' hparents hcompleted hchild
  split at hchild
  · rw [copyExistingObject_eq] at hchild
    exact steps_copyExisting h hid (fun _ => isCopy_objectItem) st st' hparents hcompleted hchild
  · cases hchild
    exact .refl

/-- The children of the type, before the type definition is added and the
constructor is called. -/
theorem steps_children (h : InstantiatesInSteps host parents completed (instantiateObjectNode host fuel))
    (hid : parents id)
    (hparents : Admits parents st.space) (hcompleted : Admits completed st.space)
    {references : List ReferenceDescription}
    {mid last : State} (hbrowse : browseTypes host fuel st (childrenBrowse typeId) = some (references, mid))
    (hlast : references.foldlM (instantiateChild host (instantiateObjectNode host fuel)
    (instantiateVariableNode host fuel)
      fuel id) mid = some last) : Steps host parents completed st last := by
  obtain ⟨hbrowsed, hspace⟩ := step_browseTypes hbrowse
  refine hbrowsed.trans (steps_foldlM (steps_instantiateChild h (steps_instantiateVariableNode fuel) hid) ?_
    (hparents.steps hbrowsed) (hcompleted.steps hbrowsed) hlast)
  rw [hspace]
  exact described_of_browseTypes rfl (show wants 5 4 = true by decide) hbrowse

theorem steps_instantiateObjectNode (fuel : Nat) :
    InstantiatesInSteps host parents completed (instantiateObjectNode host fuel) := by
  induction fuel with
  | zero =>
      intro id typeId _ _ st st' _ _ h
      cases h
  | succ fuel ih =>
      intro id typeId hid hdone st st' hparents hcompleted h
      dsimp only at h
      rw [instantiateObjectNode] at h
      split at h
      · cases h
        exact .refl
      rename_i type htype
      split at h
      · rename_i lifecycle _
        obtain ⟨r, hr, rfl⟩ := Option.map_eq_some_iff.mp h
        obtain ⟨⟨references, st₁⟩, hbrowse, hloop⟩ := Option.bind_eq_some_iff.mp hr
        obtain ⟨last, hlast, rfl⟩ := Option.map_eq_some_iff.mp hloop
        have hchildren := steps_children ih hid hparents hcompleted hbrowse hlast
        have htyped := hchildren.trans (step_addTypeDefinition hdone (hchildren.stored ⟨type, htype⟩))
        exact htyped.tail (.constructed _ id lifecycle hdone)
      · cases h
        exact .refl

/-- The instantiation of an object of a type, with the constructor at its
end. -/
theorem instantiateObjectNode_typed {type : Node} {isAbstract : UInt8} {lifecycle : Lifecycle} {status : StatusCode}
    (htype : st.space.get typeId = some type) (hbody : type.body = .objectType isAbstract lifecycle)
    (h : instantiateObjectNode host fuel st id typeId = some (status, st')) (hid : parents id)
    (hparents : Admits parents st.space) (hcompleted : Admits completed st.space) :
    ∃ last, Steps host parents completed st last ∧
      st' = callConstructor host (addTypeDefinition last id typeId) id lifecycle := by
  cases fuel with
  | zero => cases h
  | succ fuel =>
      rw [instantiateObjectNode, htype] at h
      dsimp only at h
      rw [hbody] at h
      obtain ⟨⟨references, st₁⟩, hbrowse, hloop⟩ := Option.bind_eq_some_iff.mp h
      obtain ⟨last, hlast, heq⟩ := Option.map_eq_some_iff.mp hloop
      cases heq
      exact ⟨last, steps_children (steps_instantiateObjectNode fuel) hid hparents hcompleted hbrowse hlast, rfl⟩

end Instantiating

end OpcUa.Instantiations
