import OpcUa.BidirectionalDeletion
import OpcUa.FailedNodes
import OpcUa.Instantiations

namespace OpcUa.Lifecycles

open StatusCodes NodeIds DataTypes Values AddressSpaces References SubTypes Browsing NodeManagement NodeCreation
  MirroredReferences NodeDeletion BidirectionalDeletion AddedNodes NodeAdditions FailedNodes Instantiations Batches
  Paging Relation
open NodeStores (NodeClass)

def calledNode : Call → NodeId
  | .constructor _ nodeId _ => nodeId
  | .destructor _ nodeId _ => nodeId

/-- The constructors that are called for a node, with the handles that they
return. -/
def constructions (id : NodeId) (calls : List Call) : List (Nat × Nat) :=
  calls.filterMap fun
    | .constructor callback nodeId handle => if nodeIdEqual nodeId id then some (callback, handle) else none
    | .destructor _ _ _ => none

/-- The destructors that are called for a node, with the handles that they
get. -/
def destructions (id : NodeId) (calls : List Call) : List (Nat × Nat) :=
  calls.filterMap fun
    | .constructor _ _ _ => none
    | .destructor callback nodeId handle => if nodeIdEqual nodeId id then some (callback, handle) else none

/-- One constructor is called for the node, and the destructor once, with the
handle that the constructor has returned. -/
def Paired (constructor destructor : Nat) (id : NodeId) (st st' : State) : Prop :=
  ∃ new handle, st'.calls = st.calls ++ new ∧ constructions id new = [(constructor, handle)] ∧
    (destructions id new).filter (fun p => p.1 == destructor) = [(destructor, handle)]

def handle? : Body → Option Nat
  | .object _ handle => some handle
  | _ => none

def handleAt (s : AddressSpace) (id : NodeId) : Option Nat := (s.get id).bind (fun n => handle? n.body)

section Requests

/-- A callback for `UA_Server_editNode` that keeps the handles of objects. -/
structure Edit where
  callback : Node → StatusCode × NodeMembers
  keeps : ∀ n handle, handle? n.body = some handle → handle? (callback n).2.body = some handle

def setObjectTypeLifecycleManagement (olm : Lifecycle) (n : Node) : StatusCode × NodeMembers :=
  match n.body with
  | .objectType isAbstract _ => (good, { n.toNodeMembers with body := .objectType isAbstract olm })
  | _ => (badNodeClassInvalid, n.toNodeMembers)

def Edit.lifecycle (olm : Lifecycle) : Edit where
  callback := setObjectTypeLifecycleManagement olm
  keeps n handle h := by
    rw [setObjectTypeLifecycleManagement]
    cases hbody : n.body with
    | objectType isAbstract lifecycle =>
        rw [hbody] at h
        cases h
    | _ =>
        rw [hbody] at h
        exact congrArg handle? hbody |>.trans h

/-- What may happen between the creation of an object and its removal. -/
inductive Request
  | add (request : MirroredReferences.Request)
  | deleteReferences (item : DeleteReferencesItem)
  | deleteNodes (nodeId : NodeId) (deleteReferences : Bool)
  | editNode (nodeId : NodeId) (edit : Edit)
  | changeSession (session : Continuations)

def perform (host : Host) (fuel : Nat) (st : State) : Request → Option (StatusCode × State)
  | .add request => MirroredReferences.perform host fuel st request
  | .deleteReferences item =>
      let r := deleteReferencesSingle st.space item
      some (r.1, { st with space := r.2 })
  | .deleteNodes nodeId deleteReferences => deleteNodesSingle host fuel st nodeId deleteReferences
  | .editNode nodeId edit =>
      let r := References.editNode st.space nodeId edit.callback
      some (r.1, { st with space := r.2 })
  | .changeSession session => some (good, { st with session := session })

def Removes (id : NodeId) : Request → Prop
  | .deleteNodes nodeId _ => nodeIdEqual nodeId id = true
  | _ => False

end Requests

section Removal

/-- The types that `Service_DeleteNodes_single` finds for an object: its inverse
references to object types whose type is among the given ones. -/
def objectTypes (s : AddressSpace) (types : List NodeId) (id : NodeId) : List Node :=
  (refsAt s id).filterMap (returnRelevantNode s (objectTypeBrowse id) (some types))

def destructor? (n : Node) : Option Nat :=
  match n.body with
  | .objectType _ lifecycle => lifecycle.destructor
  | _ => none

def browsedSpace (s : AddressSpace) (id : NodeId) (deleteReferences : Bool) : AddressSpace :=
  if deleteReferences then deleteMirrors id ((s.get id).elim 0 (·.references.length)) 0 s else s

/-- Exactly one inverse reference of the type HasSubtype, or of a subtype of
it, leads to an object type with the destructor, and the references of the
object fit into an array. -/
def FindsDestructor (s : AddressSpace) (id : NodeId) (destructor : Nat) : Prop :=
  (refsAt s id).length ≤ mostReferences ∧ ∃ fuel types,
    findSubTypes fuel s (numericId 0 hasSubtype) = some (.ok types) ∧
      ((objectTypes s types id).filterMap destructor?).count destructor = 1

end Removal

variable {host : Host} {parents : NodeId → Prop} {st st' st'' : State} {s s' : AddressSpace} {fuel : Nat} {n : Node}
  {id id' parentNodeId referenceTypeId : NodeId} {handle : Nat}

section Sparing

/-- The object keeps its handle, and no callback is called for it. -/
structure Spares (id : NodeId) (st st' : State) : Prop where
  handle : ∀ handle, handleAt st.space id = some handle → handleAt st'.space id = some handle
  calls : ∃ new, st'.calls = st.calls ++ new ∧ ∀ call ∈ new, nodeIdEqual (calledNode call) id = false

theorem Spares.refl (id : NodeId) (st : State) : Spares id st st := ⟨fun _ h => h, [], by simp⟩

theorem Spares.trans (h : Spares id st st') (h' : Spares id st' st'') : Spares id st st'' := by
  obtain ⟨new, hnew, hothers⟩ := h.calls
  obtain ⟨new', hnew', hothers'⟩ := h'.calls
  refine ⟨fun handle hhandle => h'.handle handle (h.handle handle hhandle), new ++ new', ?_, ?_⟩
  · rw [hnew', hnew, List.append_assoc]
  · intro call hcall
    rcases List.mem_append.mp hcall with hcall | hcall
    · exact hothers call hcall
    · exact hothers' call hcall

theorem handleAt_of_bare (h : (s'.get id).map bare = (s.get id).map bare) : handleAt s' id = handleAt s id := by
  have hhandle : ∀ s, handleAt s id = ((s.get id).map bare).bind (fun n => handle? n.body) := by
    intro s
    rw [handleAt]
    cases s.get id <;> rfl
  rw [hhandle, hhandle, h]

theorem spares_of_bare (h : (st'.space.get id).map bare = (st.space.get id).map bare) (hcalls : st'.calls = st.calls) :
    Spares id st st' :=
  ⟨fun _ hhandle => (handleAt_of_bare h).trans hhandle, [], by simp [hcalls]⟩

theorem stored_of_handleAt (h : handleAt s id = some handle) : Stored s id := by
  obtain ⟨n, hn, _⟩ := Option.bind_eq_some_iff.mp h
  exact ⟨n, hn⟩

theorem handleAt_congr (h : nodeIdEqual id id' = true) : handleAt s id = handleAt s id' := by
  rw [handleAt, handleAt, get_congr h]

theorem calls_addExistingNode :
    (addExistingNode host st n parentNodeId referenceTypeId).2.calls = st.calls := by
  by_cases h : Accepted host st n parentNodeId referenceTypeId
  · rw [addExistingNode_accepted h]
  · rw [(addExistingNode_refused h).2]

theorem spares_addExistingNode (hid : Stored st.space id) :
    Spares id st (addExistingNode host st n parentNodeId referenceTypeId).2 := by
  refine spares_of_bare ?_ calls_addExistingNode
  obtain ⟨m, hm⟩ := stored_iff_bare.mp hid
  rw [hm]
  exact bare_addExistingNode hm

theorem spares_addNode {item : AddNodesItem} (hid : Stored st.space id) : Spares id st (addNode host st item).2 := by
  rw [addNode]
  split
  · exact .refl id st
  · exact spares_addExistingNode hid

theorem spares_addReferences (item : AddReferencesItem) :
    Spares id st { st with space := (addReferencesSingle st.space item).2 } :=
  spares_of_bare (bare_addReferences item) rfl

theorem handleAt_editNode {callback : Node → StatusCode × NodeMembers}
    (h : ∀ n handle, s.get id = some n → handle? n.body = some handle → nodeIdEqual id' id = true →
      handle? (callback n).2.body = some handle) (hhandle : handleAt s id = some handle) :
    handleAt (References.editNode s id' callback).2 id = some handle := by
  cases hn : s.get id' with
  | none =>
      rw [editNode_none hn]
      exact hhandle
  | some n =>
      rw [editNode_some hn]
      dsimp only
      obtain ⟨m, hm, hbody⟩ := Option.bind_eq_some_iff.mp hhandle
      cases hsame : nodeIdEqual id' id with
      | true =>
          obtain rfl : n = m := Option.some.inj (hn.symm.trans ((get_congr hsame).trans hm))
          rw [← handleAt_congr hsame, handleAt, get_edit_self hn]
          exact h n handle hm hbody hsame
      | false =>
          rw [nodeIdEqual_comm] at hsame
          rw [handleAt, get_edit_of_ne hsame]
          exact hhandle

theorem spares_callConstructor {lifecycle : Lifecycle} (hother : nodeIdEqual id' id = false) :
    Spares id st (callConstructor host st id' lifecycle) := by
  rw [callConstructor]
  split
  · exact .refl id st
  · rename_i callback _
    refine ⟨?_, [.constructor callback id' (host.construct callback id' st.calls.length)], rfl, ?_⟩
    · intro handle
      refine handleAt_editNode ?_
      intro _ _ _ _ hsame
      rw [hother] at hsame
      cases hsame
    · intro call hcall
      obtain rfl := List.mem_singleton.mp hcall
      exact hother

def others (id : NodeId) : NodeId → Prop := fun other => nodeIdEqual other id = false

theorem admits_others (hid : Stored s id) (hnull : nodeIdEqual nullId id = false) : Admits (others id) s where
  free other hnone := by
    rw [others, ← Bool.not_eq_true]
    intro hsame
    rw [get_congr hsame] at hnone
    obtain ⟨n, hn⟩ := hid
    rw [hn] at hnone
    cases hnone
  null := hnull

theorem admits_any : Admits (fun _ => True) s := ⟨fun _ _ => trivial, trivial⟩

theorem spares_step (h : Step host parents (others id) st st') (hid : Stored st.space id) : Spares id st st' := by
  cases h with
  | browsed session browses => exact spares_of_bare rfl rfl
  | copied item hnull hclass hparent => exact spares_addNode hid
  | linked item hforward hsource => exact spares_addReferences item
  | constructed id' lifecycle hobject => exact spares_callConstructor hobject

theorem spares_steps (h : Steps host parents (others id) st st') (hid : Stored st.space id) : Spares id st st' := by
  induction h with
  | refl => exact .refl id st
  | tail hsteps hstep ih => exact ih.trans (spares_step hstep (Steps.stored hsteps hid))

end Sparing

section Runs

theorem calls_destroyNode (h : destroyNode host fuel st id' n = some st') :
    ∃ new, st'.calls = st.calls ++ new ∧ ∀ call ∈ new, calledNode call = id' := by
  rw [destroyNode] at h
  split at h
  · rename_i eventNotifier handle _
    obtain ⟨r, _, rfl⟩ := Option.map_eq_some_iff.mp h
    refine ⟨_, rfl, ?_⟩
    intro call hcall
    obtain ⟨rd, _, hrd⟩ := List.mem_filterMap.mp hcall
    rw [destructorCall] at hrd
    repeat' split at hrd
    · cases hrd
    · obtain ⟨callback, _, rfl⟩ := Option.map_eq_some_iff.mp hrd
      rfl
    · cases hrd
  · cases h
    exact ⟨[], by simp⟩

theorem spares_deleteNodesSingle {deleteReferences : Bool} {r : StatusCode × State}
    (h : deleteNodesSingle host fuel st id' deleteReferences = some r) (hother : nodeIdEqual id' id = false) :
    Spares id st r.2 := by
  rw [deleteNodesSingle] at h
  cases hn : st.space.get id' with
  | none =>
      rw [hn] at h
      cases h
      exact .refl id st
  | some n =>
      rw [hn] at h
      dsimp only at h
      obtain ⟨destroyed, hdestroyed, rfl⟩ := Option.map_eq_some_iff.mp h
      obtain ⟨new, hcalls, hnew⟩ := calls_destroyNode hdestroyed
      have hspace := space_of_destroyNode hdestroyed
      refine ⟨?_, new, ?_, fun call hcall => by rw [hnew call hcall]; exact hother⟩
      · intro handle hhandle
        dsimp only
        rw [handleAt, get_remove, hother, if_neg Bool.false_ne_true, hspace]
        change handleAt _ id = some handle
        refine (handleAt_of_bare ?_).trans hhandle
        split
        · exact get_deleteMirrors _ _ _
        · rfl
      · rw [hcalls]
        split <;> rfl

theorem spares_instantiateNode {item : AddNodesItem} {r : StatusCode × State} (hid : Stored st.space id)
    (hnull : nodeIdEqual nullId id = false) (hother : nodeIdEqual id' id = false)
    (h : instantiateNode host fuel st item id' = some r) : Spares id st r.2 := by
  have hobjects := admits_others hid hnull
  rw [instantiateNode] at h
  split at h
  · cases h
    exact .refl id st
  split at h
  · have hsteps : Steps host (fun _ => True) (others id) st r.2 :=
      steps_instantiateObjectNode fuel id' item.typeDefinition trivial hother st r.2 admits_any hobjects
        (congrArg (Option.map (·.2)) h)
    exact spares_steps hsteps hid
  split at h
  · have hsteps : Steps host (fun _ => True) (others id) st r.2 :=
      steps_instantiateVariableNode fuel id' item.typeDefinition trivial hother st r.2 admits_any hobjects
        (congrArg (Option.map (·.2)) h)
    exact spares_steps hsteps hid
  · cases h
    exact .refl id st

theorem spares_addNodesSingle {item : AddNodesItem} {r : AddNodesResult × State} (hid : Stored st.space id)
    (hnull : nodeIdEqual nullId id = false) (h : addNodesSingle host fuel st item = some r) : Spares id st r.2 := by
  rw [addNodesSingle] at h
  split at h
  · cases h
    exact spares_addNode hid
  rename_i hgood
  have hother : nodeIdEqual (addNode host st item).1.addedNodeId id = false := by
    rcases addNode_cases host st item with ⟨hbad, _⟩ | ⟨n, hn, haccepted⟩
    · exact absurd hbad hgood
    · rw [addNode_accepted hn, addExistingNode_accepted haccepted]
      exact ne_insertedId haccepted hid
  obtain ⟨⟨status, mid⟩, hmid, hrest⟩ := Option.bind_eq_some_iff.mp h
  have hadded : Spares id st (addNode host st item).2 := spares_addNode hid
  have hinstantiated := hadded.trans (spares_instantiateNode (stored_addNode hid) hnull hother hmid)
  dsimp only at hrest
  split at hrest
  · obtain ⟨d, hdelete, rfl⟩ := Option.map_eq_some_iff.mp hrest
    exact hinstantiated.trans (spares_deleteNodesSingle hdelete hother)
  · cases hrest
    exact hinstantiated

theorem spares_perform {request : Request} {r : StatusCode × State} (hhandle : handleAt st.space id = some handle)
    (hnull : nodeIdEqual nullId id = false) (hkept : ¬ Removes id request) (h : perform host fuel st request = some r) :
    Spares id st r.2 := by
  have hid := stored_of_handleAt hhandle
  cases request with
  | add request =>
      cases request with
      | addNodes item =>
          obtain ⟨added, hadd, rfl⟩ := Option.map_eq_some_iff.mp h
          exact spares_addNodesSingle hid hnull hadd
      | addExistingNode n hnew parentNodeId referenceTypeId =>
          cases h
          exact spares_addExistingNode hid
      | addReferences item =>
          cases h
          exact spares_addReferences item
  | deleteReferences item =>
      cases h
      exact spares_of_bare (get_deleteBoth id) rfl
  | deleteNodes nodeId deleteReferences =>
      exact spares_deleteNodesSingle h (by simpa [Removes] using hkept)
  | editNode nodeId edit =>
      cases h
      refine ⟨fun handle hhandle => handleAt_editNode ?_ hhandle, [], by simp⟩
      exact fun n handle _ hbody _ => edit.keeps n handle hbody
  | changeSession session =>
      cases h
      exact spares_of_bare rfl rfl

/-- Over a run that does not remove the object, its handle stays and nothing is
called for it. -/
theorem spares_run {requests : List Request} {statuses : List StatusCode} (hhandle : handleAt st.space id = some handle)
    (hnull : nodeIdEqual nullId id = false) (hkept : ∀ request ∈ requests, ¬ Removes id request)
    (h : batch (perform host fuel) st requests = some (statuses, st')) : Spares id st st' := by
  let R : State → State → Prop := fun st st' => handleAt st.space id = some handle → Spares id st st'
  have hrelated : R st st' := by
    refine batch_relates (fun st _ => .refl id st) ?_ ?_ h
    · intro st₁ st₂ st₃ h₁ h₂ hfirst
      have hspares := h₁ hfirst
      exact hspares.trans (h₂ (hspares.handle handle hfirst))
    · intro request hrequest st status st' hperform hfirst
      exact spares_perform hfirst hnull (hkept request hrequest) hperform
  exact hrelated hhandle

end Runs

section Creation

theorem handleAt_setHandle {h : Nat} (hhandle : handleAt s id = some h) :
    handleAt (References.editNode s id (setObjectInstanceHandle handle)).2 id = some handle := by
  obtain ⟨n, hn, hbody⟩ := Option.bind_eq_some_iff.mp hhandle
  rw [editNode_some hn, handleAt, get_edit_self hn, Option.bind_some, setObjectInstanceHandle]
  cases hcase : n.body with
  | object eventNotifier old => rfl
  | _ =>
      rw [hcase] at hbody
      cases hbody

theorem handleAt_added (h : Accepted host st n parentNodeId referenceTypeId) (hobject : n.nodeClass = .object) :
    ∃ handle, handleAt (addExistingNode host st n parentNodeId referenceTypeId).2.space (insertedId host st n.nodeId) =
      some handle := by
  obtain ⟨m, hm, hbare⟩ := Option.map_eq_some_iff.mp (bare_added h)
  have hbody : m.body = n.body := congrArg (fun n => n.body) hbare
  rw [Node.nodeClass] at hobject
  rw [handleAt, hm, Option.bind_some, hbody]
  cases hcase : n.body with
  | object eventNotifier handle => exact ⟨handle, rfl⟩
  | _ =>
      rw [hcase] at hobject
      cases hobject

theorem body_addExistingNode {type : Node} (h : Accepted host st n parentNodeId referenceTypeId)
    (htype : st.space.get id = some type) :
    ∃ type', (addExistingNode host st n parentNodeId referenceTypeId).2.space.get id = some type' ∧
      type'.body = type.body := by
  have hbare := bare_of_addExistingNode h id
  rw [ne_insertedId h ⟨type, htype⟩, if_neg Bool.false_ne_true, htype] at hbare
  obtain ⟨type', htype', heq⟩ := Option.map_eq_some_iff.mp hbare
  exact ⟨type', htype', congrArg (fun n => n.body) heq⟩

/-- Exactly one constructor is called for a new object of a type, and the object
gets the handle that it returns. -/
theorem created {item : AddNodesItem} {type : Node} {isAbstract : UInt8} {lifecycle : Lifecycle} {constructor : Nat}
    (hobject : item.nodeClass = nodeClassValue .object) (hdefined : isNull item.typeDefinition = false)
    (htype : st.space.get item.typeDefinition = some type) (hbody : type.body = .objectType isAbstract lifecycle)
    (hconstructor : lifecycle.constructor = some constructor)
    (h : addNodesSingle host fuel st item = some (⟨good, id⟩, st')) :
    nodeIdEqual nullId id = false ∧ ∃ new handle, handleAt st'.space id = some handle ∧
      st'.calls = st.calls ++ new ++ [.constructor constructor id handle] ∧
      ∀ call ∈ new, nodeIdEqual (calledNode call) id = false := by
  obtain ⟨n, hn, haccepted, rfl, hmid⟩ := addNodesSingle_good h
  have hnull := insertedId_ne_null host st n.nodeId
  have hclass : n.nodeClass = .object := by
    have hvalue := (nodeFromItem_class hn).symm.trans hobject
    revert hvalue
    cases n.nodeClass <;> decide
  obtain ⟨old, hold⟩ := handleAt_added haccepted hclass
  obtain ⟨type', htype', hbody'⟩ := body_addExistingNode haccepted htype
  rw [instantiateNode, hdefined, if_neg Bool.false_ne_true, if_pos hobject] at hmid
  obtain ⟨last, hsteps, rfl⟩ : ∃ last, Steps host (fun _ => True) (others (insertedId host st n.nodeId)) _ last ∧
    st' = _ :=
    instantiateObjectNode_typed htype' (hbody'.trans hbody) hmid trivial admits_any
      (admits_others (stored_of_handleAt hold) hnull)
  have hspares := (spares_steps hsteps (stored_of_handleAt hold)).trans
    (spares_addReferences (typeItem (insertedId host st n.nodeId) item.typeDefinition))
  obtain ⟨new, hcalls, hothers⟩ := hspares.calls
  rw [calls_addExistingNode] at hcalls
  refine ⟨hnull, new, host.construct constructor (insertedId host st n.nodeId) (st.calls ++ new).length, ?_, ?_,
    hothers⟩
  · rw [callConstructor, hconstructor]
    dsimp only
    refine (handleAt_setHandle (hspares.handle old hold)).trans ?_
    rw [← hcalls]
    rfl
  · rw [callConstructor, hconstructor]
    dsimp only
    rw [← hcalls]
    rfl

end Creation

section Destruction

variable {types : List NodeId} {identifier : List UInt8} {r : BrowseResult × Continuations}

theorem findSubTypes_unique {fuel' : Nat} {root : NodeId} {outcome outcome' : Except StatusCode (List NodeId)}
    (h : findSubTypes fuel s root = some outcome) (h' : findSubTypes fuel' s root = some outcome') :
    outcome = outcome' := by
  have hmore := findSubTypes_mono h fuel'
  have hmore' := findSubTypes_mono h' fuel
  rw [Nat.add_comm] at hmore'
  exact Option.some.inj (hmore.symm.trans hmore')

theorem relevantTypes_objectType : relevantTypes fuel s (objectTypeBrowse id) =
    (findSubTypes fuel s (numericId 0 hasSubtype)).map (·.map some) := rfl

theorem browse_objectTypes (hfew : (refsAt s id).length ≤ mostReferences)
    (hfound : findSubTypes fuel s (numericId 0 hasSubtype) = some (.ok types))
    (h : browseSingle fuel s identifier adminSession (objectTypeBrowse id) 0xFFFFFFFF = some r) :
    r.1.references.map (·.nodeId.nodeId) = (objectTypes s types id).map (·.nodeId) := by
  have hroom : ∀ n, s.get (objectTypeBrowse id).nodeId = some n →
      exceedsArray (realMaxrefs 0xFFFFFFFF n.references.length) = false := by
    intro n hn
    have hrefs : refsAt s id = n.references := refsAt_of_get hn
    exact exceedsArray_of_few (hrefs ▸ hfew) _
  have hbrowse : (browseSingle fuel s identifier adminSession (objectTypeBrowse id) 0xFFFFFFFF).map (·.1.references) =
      (relevantTypes fuel s (objectTypeBrowse id)).map
        (fun outcome => (found s (objectTypeBrowse id) outcome).take (4294967295 : UInt32).toNat) :=
    browseSingle_references (by decide) (.inr rfl) hroom
  rw [h, relevantTypes_objectType, hfound] at hbrowse
  have hall : (found s (objectTypeBrowse id) (.ok (some types))).length ≤ (4294967295 : UInt32).toNat := by
    have hfilter : (found s (objectTypeBrowse id) (.ok (some types))).length ≤ (refsAt s id).length :=
      List.length_filterMap_le _ _
    exact (hfilter.trans hfew).trans (by decide)
  have hreferences : r.1.references = found s (objectTypeBrowse id) (.ok (some types)) :=
    (Option.some.inj hbrowse).trans (List.take_of_length_le hall)
  rw [hreferences, objectTypes, found, List.map_filterMap, List.map_filterMap]
  refine List.filterMap_congr ?_
  intro x _
  rw [describe, Option.map_map]
  rfl

/-- Where the references do not fit into an array, none is returned. -/
theorem browse_crowded (hmany : mostReferences < (refsAt s id).length)
    (h : browseSingle fuel s identifier adminSession (objectTypeBrowse id) 0xFFFFFFFF = some r) :
    r.1.references = [] := by
  have hlarge : exceedsArray (realMaxrefs 0xFFFFFFFF (refsAt s id).length) = true := by
    rw [exceedsArray_iff, realMaxrefs_of_ne (by decide)]
    exact Nat.lt_min.mpr ⟨by decide, hmany⟩
  obtain ⟨collected, hcollected, rfl⟩ := Option.map_eq_some_iff.mp h
  rcases collectReferences_cases fuel s (objectTypeBrowse id) with hnone | ⟨status, hstatus⟩ | ⟨n, _, hn, hcollect⟩
  · cases (hnone _ _).symm.trans hcollected
  · cases (hstatus _ _).symm.trans hcollected
    rfl
  · have hrefs : refsAt s id = n.references := refsAt_of_get hn
    rw [hcollect, ← hrefs, hlarge, if_pos rfl] at hcollected
    cases hcollected
    rfl

theorem get_of_objectTypes (h : n ∈ objectTypes s types id) : s.get n.nodeId = some n := by
  obtain ⟨x, _, hx⟩ := List.mem_filterMap.mp h
  exact get_eq_some.mpr ⟨(get_eq_some.mp (get_of_returnRelevantNode hx)).1, nodeIdEqual_refl _⟩

theorem destructorCalls (h : r.1.references.map (·.nodeId.nodeId) = (objectTypes s types id).map (·.nodeId)) :
    r.1.references.filterMap (destructorCall s id handle) =
      ((objectTypes s types id).filterMap destructor?).map (.destructor · id handle) := by
  let call : NodeId → Option Call := fun typeId =>
    (s.get typeId).bind (fun type => (destructor? type).map (.destructor · id handle))
  have hcall : ∀ rd, destructorCall s id handle rd = call rd.nodeId.nodeId := by
    intro rd
    rw [destructorCall]
    simp only [call]
    cases s.get rd.nodeId.nodeId with
    | none => rfl
    | some type =>
        rw [Option.bind_some, destructor?]
        dsimp only
        cases type.body <;> rfl
  calc r.1.references.filterMap (destructorCall s id handle)
      _ = r.1.references.filterMap (fun rd => call rd.nodeId.nodeId) := List.filterMap_congr (fun rd _ => hcall rd)
      _ = (r.1.references.map (·.nodeId.nodeId)).filterMap call := by rw [List.filterMap_map]; rfl
      _ = ((objectTypes s types id).map (·.nodeId)).filterMap call := by rw [h]
      _ = (objectTypes s types id).filterMap (fun n => call n.nodeId) := by rw [List.filterMap_map]; rfl
      _ = (objectTypes s types id).filterMap (fun n => (destructor? n).map (.destructor · id handle)) := by
        refine List.filterMap_congr ?_
        intro n hn
        simp only [call]
        rw [get_of_objectTypes hn, Option.bind_some]
      _ = ((objectTypes s types id).filterMap destructor?).map (.destructor · id handle) := (List.map_filterMap ..).symm

theorem removed {deleteReferences : Bool} {status : StatusCode} (hhandle : handleAt st.space id = some handle)
    (h : deleteNodesSingle host fuel st id deleteReferences = some (status, st')) :
    ∃ found : List Nat, st'.calls = st.calls ++ found.map (.destructor · id handle) ∧
      ∀ destructor, found.count destructor = 1 ↔
        FindsDestructor (browsedSpace st.space id deleteReferences) id destructor := by
  obtain ⟨n, hn, hbody⟩ := Option.bind_eq_some_iff.mp hhandle
  rw [deleteNodesSingle, hn] at h
  dsimp only at h
  obtain ⟨destroyed, hdestroyed, heq⟩ := Option.map_eq_some_iff.mp h
  cases heq
  dsimp only
  set browsed := browsedSpace st.space id deleteReferences with hbrowsed
  have hstate : (if deleteReferences = true then
      { st with space := deleteMirrors id n.references.length 0 st.space } else st) = { st with space := browsed } := by
    rw [hbrowsed, browsedSpace, hn]
    cases deleteReferences <;> rfl
  rw [hstate, destroyNode] at hdestroyed
  cases hcase : n.body with
  | object eventNotifier old =>
      rw [hcase] at hdestroyed hbody
      obtain rfl := Option.some.inj hbody
      dsimp only at hdestroyed
      obtain ⟨r, hbrowse, rfl⟩ := Option.map_eq_some_iff.mp hdestroyed
      cases hfound : findSubTypes fuel browsed (numericId 0 hasSubtype) with
      | none =>
          have hnone : browseSingle fuel browsed (host.identifiers st.browses) adminSession
            (objectTypeBrowse id) 0xFFFFFFFF =
              none := by
            have htypes : relevantTypes fuel browsed (objectTypeBrowse id) = none := by
              change (findSubTypes fuel browsed (numericId 0 hasSubtype)).map (·.map some) = _
              rw [hfound]
              rfl
            rw [browseSingle, collectReferences, htypes]
            rfl
          cases hnone.symm.trans hbrowse
      | some outcome =>
          cases outcome with
          | error code =>
              have hnothing : r.1.references = [] := by
                have htypes : relevantTypes fuel browsed (objectTypeBrowse id) = some (.error code) := by
                  change (findSubTypes fuel browsed (numericId 0 hasSubtype)).map (·.map some) = _
                  rw [hfound]
                  rfl
                rw [browseSingle, collectReferences, htypes] at hbrowse
                cases hbrowse
                rfl
              refine ⟨[], by rw [hnothing]; rfl, fun destructor => ?_⟩
              refine iff_of_false (by simp) ?_
              rintro ⟨_, fuel', types, hfound', _⟩
              cases findSubTypes_unique hfound hfound'
          | ok types =>
              by_cases hfew : (refsAt browsed id).length ≤ mostReferences
              · refine ⟨(objectTypes browsed types id).filterMap destructor?, ?_, fun destructor => ?_⟩
                · rw [← destructorCalls (browse_objectTypes hfew hfound hbrowse)]
                · constructor
                  · exact fun hcount => ⟨hfew, fuel, types, hfound, hcount⟩
                  · rintro ⟨_, fuel', types', hfound', hcount⟩
                    cases findSubTypes_unique hfound hfound'
                    exact hcount
              · refine ⟨[], by rw [browse_crowded (Nat.not_le.mp hfew) hbrowse]; rfl, fun destructor => ?_⟩
                exact iff_of_false (by simp) (fun hfinds => hfew hfinds.1)
  | _ =>
      rw [hcase] at hbody
      cases hbody

end Destruction

section Pairing

theorem constructions_append (l l' : List Call) : constructions id (l ++ l') = constructions id l ++
    constructions id l' :=
  List.filterMap_append

theorem destructions_append (l l' : List Call) : destructions id (l ++ l') = destructions id l ++ destructions id l' :=
  List.filterMap_append

theorem constructions_others {calls : List Call} (h : ∀ call ∈ calls, nodeIdEqual (calledNode call) id = false) :
    constructions id calls = [] := by
  rw [constructions, List.filterMap_eq_nil_iff]
  intro call hcall
  have hother := h call hcall
  cases call with
  | constructor callback nodeId handle =>
      exact if_neg (by rw [show nodeIdEqual nodeId id = false from hother]; exact Bool.false_ne_true)
  | destructor callback nodeId handle => rfl

theorem destructions_others {calls : List Call} (h : ∀ call ∈ calls, nodeIdEqual (calledNode call) id = false) :
    destructions id calls = [] := by
  rw [destructions, List.filterMap_eq_nil_iff]
  intro call hcall
  have hother := h call hcall
  cases call with
  | constructor callback nodeId handle => rfl
  | destructor callback nodeId handle =>
      exact if_neg (by rw [show nodeIdEqual nodeId id = false from hother]; exact Bool.false_ne_true)

theorem constructions_removal (found : List Nat) : constructions id (found.map (.destructor · id handle)) = [] := by
  rw [constructions, List.filterMap_map, List.filterMap_eq_nil_iff]
  exact fun _ _ => rfl

theorem destructions_removal (found : List Nat) :
    destructions id (found.map (.destructor · id handle)) = found.map (·, handle) := by
  rw [destructions, List.filterMap_map, ← List.filterMap_eq_map]
  refine List.filterMap_congr ?_
  intro callback _
  exact if_pos (nodeIdEqual_refl id)

theorem filter_removal_iff {found : List Nat} {destructor handle' : Nat} :
    (found.map (·, handle)).filter (fun p => p.1 == destructor) = [(destructor, handle')] ↔
      found.count destructor = 1 ∧ handle' = handle := by
  have hfilter : (found.map (·, handle)).filter (fun p => p.1 == destructor) =
      List.replicate (found.count destructor) (destructor, handle) := by
    rw [List.filter_map]
    change (found.filter (· == destructor)).map _ = _
    rw [List.filter_beq, List.map_replicate]
  rw [hfilter]
  constructor
  · intro h
    have hlength := congrArg List.length h
    rw [List.length_replicate, List.length_singleton] at hlength
    rw [hlength] at h
    cases h
    exact ⟨hlength, rfl⟩
  · rintro ⟨hcount, rfl⟩
    rw [hcount]
    rfl

/-- The constructor is called once for an object of a type, and its destructor
is called once at the end if and only if the object then has exactly one inverse
reference to a type with this destructor. -/
theorem lifecycle_paired_iff (host : Host) (created fuel deleted : Nat) (st st₁ st₂ st₃ : State) (item : AddNodesItem)
    (id : NodeId) (type : Node) (isAbstract : UInt8) (constructor destructor : Nat) (requests : List Request)
    (statuses : List StatusCode) (deleteReferences : Bool) (status : StatusCode)
    (hobject : item.nodeClass = nodeClassValue .object) (hdefined : isNull item.typeDefinition = false)
    (htype : st.space.get item.typeDefinition = some type)
    (hbody : type.body = .objectType isAbstract ⟨some constructor, some destructor⟩)
    (hcreated : addNodesSingle host created st item = some (⟨good, id⟩, st₁))
    (hrun : batch (perform host fuel) st₁ requests = some (statuses, st₂))
    (hkept : ∀ request ∈ requests, ¬ Removes id request)
    (hremoved : deleteNodesSingle host deleted st₂ id deleteReferences = some (status, st₃)) :
    Paired constructor destructor id st st₃ ↔
      FindsDestructor (browsedSpace st₂.space id deleteReferences) id destructor := by
  obtain ⟨hnull, before, handle, hhandle, hcalls₁, hbefore⟩ :=
    Lifecycles.created hobject hdefined htype hbody rfl hcreated
  have hspares := spares_run hhandle hnull hkept hrun
  obtain ⟨between, hcalls₂, hbetween⟩ := hspares.calls
  obtain ⟨found, hcalls₃, hfound⟩ := removed (hspares.handle handle hhandle) hremoved
  have hnew : st₃.calls = st.calls ++
      (before ++ [.constructor constructor id handle] ++ between ++ found.map (.destructor · id handle)) := by
    rw [hcalls₃, hcalls₂, hcalls₁]
    simp only [List.append_assoc]
  have hself : constructions id [.constructor constructor id handle] = [(constructor, handle)] := by
    simp [constructions, nodeIdEqual_refl]
  rw [← hfound]
  constructor
  · rintro ⟨new, handle', hnew', _, hdestructions⟩
    obtain rfl := List.append_cancel_left (hnew.symm.trans hnew')
    rw [destructions_append, destructions_append, destructions_append, destructions_others hbefore,
      destructions_others hbetween, destructions_removal] at hdestructions
    exact (filter_removal_iff.mp hdestructions).1
  · intro hcount
    refine ⟨_, handle, hnew, ?_, ?_⟩
    · rw [constructions_append, constructions_append, constructions_append, constructions_others hbefore,
        constructions_others hbetween, constructions_removal, hself]
      rfl
    · rw [destructions_append, destructions_append, destructions_append, destructions_others hbefore,
        destructions_others hbetween, destructions_removal]
      exact filter_removal_iff.mpr ⟨hcount, rfl⟩

def sampleLifecycles : State where
  space := {
    nodes := [plainReferenceType (numericId 0 aggregates), plainReferenceType (numericId 0 hasSubtype),
      plainObject (numericId 1 1) [], plainNode (numericId 1 10) (.objectType 0 ⟨some 1, some 2⟩)]
    distinct := by decide }
  session := ⟨[], 5⟩
  browses := 0
  inserts := 0
  calls := []

def sampleChanges : List Request :=
  [.editNode (numericId 1 10) (Edit.lifecycle ⟨some 1, some 2⟩),
    .add (.addReferences ⟨numericId 1 20, numericId 0 hasSubtype, false, none, ⟨numericId 1 10, none, 0⟩⟩)]

theorem lifecycle_paired_sampleChanges :
    ∃ st₁ st₂ st₃, addNodesSingle sampleHost 9 sampleLifecycles sampleInstance = some (⟨good, numericId 1 20⟩, st₁) ∧
      batch (perform sampleHost 9) st₁ sampleChanges = some ([good, good], st₂) ∧
      deleteNodesSingle sampleHost 9 st₂ (numericId 1 20) false = some (good, st₃) ∧
      Paired 1 2 (numericId 1 20) sampleLifecycles st₃ := by
  refine ⟨_, _, _, rfl, rfl, rfl, ?_⟩
  refine (lifecycle_paired_iff sampleHost 9 9 9 sampleLifecycles _ _ _ sampleInstance (numericId 1 20)
    (plainNode (numericId 1 10) (.objectType 0 ⟨some 1, some 2⟩)) 0 1 2 sampleChanges
    [good, good] false good rfl rfl rfl rfl
    rfl rfl ?_ rfl).mpr ⟨by decide, 9, _, rfl, rfl⟩
  simp [sampleChanges, Removes]

/-- No destructor is called for an object that is removed right after its
creation. -/
theorem lifecycle_misses_destructor :
    ∃ st₁ st₂, addNodesSingle sampleHost 9 sampleLifecycles sampleInstance = some (⟨good, numericId 1 20⟩, st₁) ∧
      deleteNodesSingle sampleHost 9 st₁ (numericId 1 20) true = some (good, st₂) ∧
      st₂.calls = [.constructor 1 (numericId 1 20) 0] ∧ ¬ Paired 1 2 (numericId 1 20) sampleLifecycles st₂ := by
  obtain ⟨st₁, st₂, hcreated, hremoved, hcalls⟩ : ∃ st₁ st₂,
      addNodesSingle sampleHost 9 sampleLifecycles sampleInstance = some (⟨good, numericId 1 20⟩, st₁) ∧
        deleteNodesSingle sampleHost 9 st₁ (numericId 1 20) true = some (good, st₂) ∧
        st₂.calls = [.constructor 1 (numericId 1 20) 0] := ⟨_, _, rfl, rfl, rfl⟩
  refine ⟨st₁, st₂, hcreated, hremoved, hcalls, ?_⟩
  rintro ⟨new, handle, hnew, _, hdestroyed⟩
  obtain rfl : [.constructor 1 (numericId 1 20) 0] = new := hcalls.symm.trans hnew
  cases hdestroyed

end Pairing

end OpcUa.Lifecycles
