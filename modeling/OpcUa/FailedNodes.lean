import OpcUa.NodeAdditions
import OpcUa.NodeDeletion

namespace OpcUa.FailedNodes

open StatusCodes NodeIds DataTypes AddressSpaces References SubTypes Browsing NodeManagement NodeCreation
  MirroredReferences NodeDeletion AddedNodes NodeAdditions Worklists
open NodeStores (NodeClass)

/-- A request that ends with another status than GOOD leaves every node as it
was. -/
def Atomic (host : Host) (st : State) (item : AddNodesItem) : Prop :=
  ∀ fuel result st', addNodesSingle host fuel st item = some (result, st') → result.statusCode ≠ good →
    ∀ id, st'.space.get id = st.space.get id

/-- The class of the type that the instantiation asks for. -/
def typeClass (item : AddNodesItem) : Option NodeClass :=
  if item.nodeClass = nodeClassValue .object then some .objectType
  else if item.nodeClass = nodeClassValue .variable then some .variableType
  else none

/-- There is a type definition, and no type of the right class under it. -/
def Untyped (s : AddressSpace) (item : AddNodesItem) : Prop :=
  isNull item.typeDefinition = false ∧
    ∃ c, typeClass item = some c ∧ (s.get item.typeDefinition).map (·.nodeClass) ≠ some c

/-- The node is added and cannot be instantiated, and if it is an object the
deletion ends. -/
def Doomed (host : Host) (st : State) (item : AddNodesItem) : Prop :=
  (∃ n, nodeFromItem host item = .ok n ∧ Accepted host st n item.parentNodeId item.referenceTypeId) ∧
    Untyped st.space item ∧ (item.nodeClass = nodeClassValue .object → SearchEnds st.space)

variable {host : Host} {fuel : Nat} {st st' : State} {s : AddressSpace} {item : AddNodesItem} {n : Node}
  {id a parentNodeId referenceTypeId : NodeId}

section Instantiation

theorem instantiateVariableNode_bad {typeId : NodeId} {status : StatusCode}
    (h : instantiateVariableNode host fuel st id typeId = some (status, st')) (hbad : status ≠ good) :
    st' = st ∧ (st.space.get typeId).map (·.nodeClass) ≠ some .variableType := by
  cases fuel with
  | zero => cases h
  | succ fuel =>
      rw [instantiateVariableNode] at h
      cases htype : st.space.get typeId with
      | none =>
          rw [htype] at h
          cases h
          exact ⟨rfl, by rintro ⟨⟩⟩
      | some type =>
          rw [htype] at h
          dsimp only at h
          by_cases hclass : type.nodeClass ≠ .variableType
          · rw [if_pos hclass] at h
            cases h
            exact ⟨rfl, fun heq => hclass (Option.some.inj heq)⟩
          · rw [if_neg hclass] at h
            obtain ⟨r, _, hrest⟩ := Option.bind_eq_some_iff.mp h
            obtain ⟨last, _, heq⟩ := Option.map_eq_some_iff.mp hrest
            cases heq
            exact absurd rfl hbad

theorem instantiateObjectNode_bad {typeId : NodeId} {status : StatusCode}
    (h : instantiateObjectNode host fuel st id typeId = some (status, st')) (hbad : status ≠ good) :
    st' = st ∧ (st.space.get typeId).map (·.nodeClass) ≠ some .objectType := by
  cases fuel with
  | zero => cases h
  | succ fuel =>
      rw [instantiateObjectNode] at h
      cases htype : st.space.get typeId with
      | none =>
          rw [htype] at h
          cases h
          exact ⟨rfl, by rintro ⟨⟩⟩
      | some type =>
          rw [htype] at h
          dsimp only at h
          rw [Option.map_some, Node.nodeClass]
          cases hbody : type.body with
          | objectType isAbstract lifecycle =>
              rw [hbody] at h
              obtain ⟨r, _, hrest⟩ := Option.bind_eq_some_iff.mp h
              obtain ⟨last, _, heq⟩ := Option.map_eq_some_iff.mp hrest
              cases heq
              exact absurd rfl hbad
          | _ =>
              rw [hbody] at h
              cases h
              exact ⟨rfl, by rintro ⟨⟩⟩

theorem instantiateNode_bad {status : StatusCode} (h : instantiateNode host fuel st item id = some (status, st'))
    (hbad : status ≠ good) : st' = st ∧ Untyped st.space item := by
  rw [instantiateNode] at h
  by_cases hnull : isNull item.typeDefinition = true
  · rw [if_pos hnull] at h
    cases h
    exact absurd rfl hbad
  rw [if_neg hnull] at h
  rw [Bool.not_eq_true] at hnull
  by_cases hobject : item.nodeClass = nodeClassValue .object
  · rw [if_pos hobject] at h
    obtain ⟨hst, hclass⟩ := instantiateObjectNode_bad h hbad
    exact ⟨hst, hnull, .objectType, by rw [typeClass, if_pos hobject], hclass⟩
  rw [if_neg hobject] at h
  by_cases hvariable : item.nodeClass = nodeClassValue .variable
  · rw [if_pos hvariable] at h
    obtain ⟨hst, hclass⟩ := instantiateVariableNode_bad h hbad
    exact ⟨hst, hnull, .variableType, by rw [typeClass, if_neg hobject, if_pos hvariable], hclass⟩
  · rw [if_neg hvariable] at h
    cases h
    exact absurd rfl hbad

theorem instantiateVariableNode_untyped {typeId : NodeId}
    (h : (st.space.get typeId).map (·.nodeClass) ≠ some .variableType) :
    ∃ status, status ≠ good ∧ instantiateVariableNode host (fuel + 1) st id typeId = some (status, st) := by
  rw [instantiateVariableNode]
  cases htype : st.space.get typeId with
  | none => exact ⟨badNodeIdInvalid, by decide, rfl⟩
  | some type =>
      rw [htype] at h
      exact ⟨badNodeClassInvalid, by decide, if_pos (fun hclass => h (congrArg some hclass))⟩

theorem instantiateObjectNode_untyped {typeId : NodeId}
    (h : (st.space.get typeId).map (·.nodeClass) ≠ some .objectType) :
    ∃ status, status ≠ good ∧ instantiateObjectNode host (fuel + 1) st id typeId = some (status, st) := by
  rw [instantiateObjectNode]
  cases htype : st.space.get typeId with
  | none => exact ⟨badNodeIdInvalid, by decide, rfl⟩
  | some type =>
      rw [htype, Option.map_some, Node.nodeClass] at h
      refine ⟨badNodeClassInvalid, by decide, ?_⟩
      dsimp only
      cases hbody : type.body with
      | objectType isAbstract lifecycle =>
          rw [hbody] at h
          exact absurd rfl h
      | _ => rfl

theorem instantiateNode_untyped (h : Untyped st.space item) :
    ∃ status, status ≠ good ∧ instantiateNode host (fuel + 1) st item id = some (status, st) := by
  obtain ⟨hnull, c, hc, hclass⟩ := h
  rw [instantiateNode, hnull, if_neg Bool.false_ne_true]
  rw [typeClass] at hc
  by_cases hobject : item.nodeClass = nodeClassValue .object
  · rw [if_pos hobject] at hc ⊢
    cases hc
    exact instantiateObjectNode_untyped hclass
  rw [if_neg hobject] at hc ⊢
  by_cases hvariable : item.nodeClass = nodeClassValue .variable
  · rw [if_pos hvariable] at hc ⊢
    cases hc
    exact instantiateVariableNode_untyped hclass
  · rw [if_neg hvariable] at hc
    cases hc

end Instantiation

section Rollback

/-- The space after the node has been added and deleted again. -/
def rolledBack (id : NodeId) (s : AddressSpace) : AddressSpace :=
  (deleteMirrors id ((s.get id).elim 0 (·.references.length)) 0 s).remove id

theorem refsAt_rolledBack (h : Accepted host st n parentNodeId referenceTypeId) (hnew : n.references = [])
    (ha : nodeIdEqual (insertedId host st n.nodeId) a = false) :
    refsAt (rolledBack (insertedId host st n.nodeId)
      (addExistingNode host st n parentNodeId referenceTypeId).2.space) a =
      if nodeIdEqual parentNodeId a then
        deleteFrom (mirrorItem (insertedId host st n.nodeId) (parentReference referenceTypeId parentNodeId))
          (refsAt st.space a ++ [childReference referenceTypeId (insertedId host st n.nodeId)])
      else refsAt st.space a := by
  have hother : nodeIdEqual parentNodeId (insertedId host st n.nodeId) = false := by
    rw [nodeIdEqual_comm]
    exact ne_insertedId h h.parent
  obtain ⟨m, hm⟩ : Stored (addExistingNode host st n parentNodeId referenceTypeId).2.space
    (insertedId host st n.nodeId) := by
    obtain ⟨m, hm, _⟩ := Option.map_eq_some_iff.mp (bare_added h)
    exact ⟨m, hm⟩
  have hreferences := refsAt_new h hnew
  rw [refsAt_of_get hm] at hreferences
  rw [rolledBack, hm]
  dsimp only [Option.elim]
  rw [refsAt_deleted hm ha, hreferences, refsAt_addExistingNode h hnew, ha, if_neg Bool.false_ne_true, List.append_nil]
  -- the array of the new node is not touched, since its parent is another one
  change clear _ _ [parentReference referenceTypeId parentNodeId] _ = _
  rw [clear, List.foldl_cons, List.foldl_nil]
  change (if nodeIdEqual parentNodeId a = true then _ else _) = _
  split
  · rfl
  · rw [List.append_nil]

theorem bare_rolledBack (h : Accepted host st n parentNodeId referenceTypeId)
    (ha : nodeIdEqual (insertedId host st n.nodeId) a = false) :
    ((rolledBack (insertedId host st n.nodeId)
      (addExistingNode host st n parentNodeId referenceTypeId).2.space).get a).map bare =
        (st.space.get a).map bare := by
  rw [rolledBack, get_remove, ha, if_neg Bool.false_ne_true]
  refine (get_deleteMirrors _ _ _).trans ?_
  refine (bare_of_addExistingNode h a).trans ?_
  rw [ha, if_neg Bool.false_ne_true]

theorem matches_child : (mirrorItem id (parentReference referenceTypeId parentNodeId)).matches
    (childReference referenceTypeId id) = nodeIdEqual referenceTypeId nullId := by
  rw [mirrorItem_matches, links, parentReference, childReference, nodeIdEqual_refl]
  simp

theorem rolledBack_same_iff (h : Accepted host st n parentNodeId referenceTypeId) (hnew : n.references = []) :
    (∀ a, (rolledBack (insertedId host st n.nodeId)
      (addExistingNode host st n parentNodeId referenceTypeId).2.space).get a = st.space.get a) ↔
        nodeIdEqual referenceTypeId nullId = true := by
  have hparent := ne_insertedId h h.parent
  constructor
  · intro hsame
    have hreferences := (get_eq_iff.mp (hsame parentNodeId)).2
    rw [refsAt_rolledBack h hnew hparent, if_pos (nodeIdEqual_refl _)] at hreferences
    rw [← Bool.not_eq_false]
    intro hnull
    exact deleteFrom_concat_ne (matches_child.trans hnull) hreferences
  · intro hnull a
    cases ha : nodeIdEqual (insertedId host st n.nodeId) a with
    | true => rw [rolledBack, get_remove, ha, if_pos rfl, ← get_congr ha, h.free]
    | false =>
        rw [get_eq_iff]
        refine ⟨bare_rolledBack h ha, ?_⟩
        rw [refsAt_rolledBack h hnew ha]
        split
        · exact deleteFrom_concat (matches_child.trans hnull)
        · rfl

end Rollback

section Search

theorem searchEnds_addExistingNode (h : Accepted host st n parentNodeId referenceTypeId) (hnew : n.references = [])
    (hclass : n.nodeClass ≠ .referenceType) :
    SearchEnds (addExistingNode host st n parentNodeId referenceTypeId).2.space ↔ SearchEnds st.space := by
  set s' := (addExistingNode host st n parentNodeId referenceTypeId).2.space
  have hclasses : ∀ a, (s'.get a).map (·.nodeClass) = some .referenceType ↔
      (st.space.get a).map (·.nodeClass) = some .referenceType := by
    intro a
    rw [nodeClass_addExistingNode h]
    split
    · rename_i ha
      rw [← get_congr ha, h.free]
      simp [hclass]
    · exact .rfl
  have hmore : ∀ a b, Follows st.space a b → Follows s' a b := by
    intro a b hab
    obtain ⟨ha, r, hr, htarget⟩ := follows_iff_refsAt.mp hab
    refine follows_iff_refsAt.mpr ⟨(hclasses a).mpr ha, r, ?_, htarget⟩
    rw [refsAt_addExistingNode h hnew, List.filter_append, List.filter_append]
    exact List.mem_append_left _ (List.mem_append_left _ hr)
  have hleaf : ∀ a b, Follows s' a b → Follows st.space a b ∨ ∀ c, ¬ Follows s' b c := by
    intro a b hab
    obtain ⟨ha, r, hr, htarget⟩ := follows_iff_refsAt.mp hab
    rw [refsAt_addExistingNode h hnew, List.filter_append, List.filter_append, List.mem_append, List.mem_append] at hr
    rcases hr with (hr | hr) | hr
    · exact .inl (follows_iff_refsAt.mpr ⟨(hclasses a).mp ha, r, hr, htarget⟩)
    · -- the reference to the parent is an inverse one
      obtain ⟨hr, hmatches⟩ := List.mem_filter.mp hr
      split at hr
      · obtain rfl := List.mem_singleton.mp hr
        simp [matchesSubtype, parentReference] at hmatches
      · cases hr
    · obtain ⟨hr, _⟩ := List.mem_filter.mp hr
      split at hr
      · obtain rfl := List.mem_singleton.mp hr
        refine .inr ?_
        intro c hbc
        obtain ⟨hb, _⟩ := follows_iff_refsAt.mp hbc
        rw [← htarget, nodeClass_addExistingNode h, childReference, if_pos (nodeIdEqual_refl _)] at hb
        exact hclass (Option.some.inj hb)
      · cases hr
  rw [searchEnds_iff, searchEnds_iff, hclasses]
  refine imp_congr_right fun _ => ⟨?_, ?_⟩
  · exact acc_of_leaves (fun a b hab => .inl (hmore a b hab))
  · exact acc_of_leaves hleaf

end Search

section Requests

theorem untyped_added_iff (hn : nodeFromItem host item = .ok n)
    (h : Accepted host st n item.parentNodeId item.referenceTypeId) :
    Untyped (addNode host st item).2.space item ↔ Untyped st.space item := by
  have hclass := nodeFromItem_class hn
  rw [addNode_accepted hn]
  refine and_congr_right fun _ => exists_congr fun c => and_congr_right fun hc => ?_
  rw [nodeClass_addExistingNode h]
  split
  · rename_i hsame
    rw [← get_congr hsame, h.free]
    refine iff_of_true ?_ nofun
    rintro heq
    rw [typeClass, hclass] at hc
    cases heq
    revert hc
    cases n.nodeClass <;> decide
  · exact .rfl

theorem addNodes_failed_iff (hn : nodeFromItem host item = .ok n)
    (h : Accepted host st n item.parentNodeId item.referenceTypeId) {result : AddNodesResult} :
    (addNodesSingle host fuel st item = some (result, st') ∧ result.statusCode ≠ good) ↔
      ∃ status, status ≠ good ∧ result = ⟨status, insertedId host st n.nodeId⟩ ∧
        instantiateNode host fuel (addNode host st item).2 item (insertedId host st n.nodeId) =
          some (status, (addNode host st item).2) ∧
        ∃ deleted, deleteNodesSingle host fuel (addNode host st item).2 (insertedId host st n.nodeId) true =
          some (deleted, st') := by
  rw [addNodesSingle_accepted hn h]
  constructor
  · rintro ⟨hadd, hbad⟩
    obtain ⟨⟨status, st₁⟩, hinstantiate, hrest⟩ := Option.bind_eq_some_iff.mp hadd
    dsimp only at hrest
    by_cases hstatus : status ≠ good
    · rw [if_pos hstatus] at hrest
      obtain ⟨⟨deleted, st₂⟩, hdelete, heq⟩ := Option.map_eq_some_iff.mp hrest
      cases heq
      obtain ⟨rfl, _⟩ := instantiateNode_bad hinstantiate hstatus
      exact ⟨status, hstatus, rfl, hinstantiate, deleted, hdelete⟩
    · rw [if_neg hstatus] at hrest
      cases hrest
      exact absurd rfl hbad
  · rintro ⟨status, hstatus, rfl, hinstantiate, deleted, hdelete⟩
    rw [hinstantiate, Option.bind_some, if_pos hstatus, hdelete]
    exact ⟨rfl, hstatus⟩

theorem get_added (hn : nodeFromItem host item = .ok n)
    (h : Accepted host st n item.parentNodeId item.referenceTypeId) :
    ∃ m, (addNode host st item).2.space.get (insertedId host st n.nodeId) = some m ∧ m.nodeClass = n.nodeClass := by
  have hclass := nodeClass_addExistingNode h (insertedId host st n.nodeId)
  rw [if_pos (nodeIdEqual_refl _), ← addNode_accepted hn] at hclass
  exact Option.map_eq_some_iff.mp hclass

theorem deletion_ends_iff (hn : nodeFromItem host item = .ok n)
    (h : Accepted host st n item.parentNodeId item.referenceTypeId) :
    (∃ fuel r, deleteNodesSingle host fuel (addNode host st item).2 (insertedId host st n.nodeId) true = some r) ↔
      (item.nodeClass = nodeClassValue .object → SearchEnds st.space) := by
  obtain ⟨m, hm, hclass⟩ := get_added hn h
  rw [deleteNodesSingle_ends_iff hm, hclass, addNode_accepted hn, nodeFromItem_class hn]
  by_cases hobject : n.nodeClass = .object
  · rw [searchEnds_addExistingNode h (nodeFromItem_references hn) (by rw [hobject]; decide), hobject]
    exact imp_congr_left (iff_of_true rfl rfl)
  · refine iff_of_true (fun h => absurd h hobject) (fun h => absurd ?_ hobject)
    revert h
    cases n.nodeClass <;> decide

/-- A failed request leaves every node as it was if and only if its node can be
instantiated, or the reference to its parent has no type. -/
theorem addNodes_atomic_iff (host : Host) (st : State) (item : AddNodesItem) :
    Atomic host st item ↔ (Doomed host st item → nodeIdEqual item.referenceTypeId nullId = true) := by
  rcases addNode_cases host st item with ⟨hbad, hsame⟩ | ⟨n, hn, haccepted⟩
  · refine iff_of_true ?_ ?_
    · intro fuel result st' h _ id
      rw [addNodesSingle, if_pos hbad] at h
      rw [← show (addNode host st item).2 = st' from congrArg Prod.snd (Option.some.inj h), hsame]
    · rintro ⟨⟨n, hn, haccepted⟩, _⟩
      rw [addNode_accepted hn, addExistingNode_accepted haccepted] at hbad
      exact absurd rfl hbad
  have hnew := nodeFromItem_references hn
  obtain ⟨m, hm, _⟩ := get_added hn haccepted
  have hends := deletion_ends_iff hn haccepted
  have hspace : ∀ {fuel deleted st'}, deleteNodesSingle host fuel (addNode host st item).2
      (insertedId host st n.nodeId) true = some (deleted, st') →
        st'.space = rolledBack (insertedId host st n.nodeId) (addNode host st item).2.space := by
    intro fuel deleted st' hdelete
    rw [space_of_deleteNodesSingle hm hdelete, rolledBack, hm]
    rfl
  rw [← rolledBack_same_iff haccepted hnew, ← addNode_accepted hn]
  constructor
  · rintro hatomic ⟨_, huntyped, hsearch⟩
    obtain ⟨fuel, ⟨deleted, st'⟩, hdelete⟩ := hends.mpr hsearch
    obtain ⟨status, hstatus, hinstantiate⟩ : ∃ status, status ≠ good ∧ instantiateNode host (fuel + 1)
        (addNode host st item).2 item (insertedId host st n.nodeId) = some (status, (addNode host st item).2) :=
      instantiateNode_untyped ((untyped_added_iff hn haccepted).mpr huntyped)
    obtain ⟨hadd, hbad⟩ := (addNodes_failed_iff hn haccepted).mpr
      ⟨status, hstatus, rfl, hinstantiate, deleted, deleteNodesSingle_mono hdelete 1⟩
    rw [← hspace hdelete]
    exact hatomic (fuel + 1) _ st' hadd hbad
  · intro hsame fuel result st' hadd hbad
    obtain ⟨status, hstatus, _, hinstantiate, deleted, hdelete⟩ :=
      (addNodes_failed_iff hn haccepted).mp ⟨hadd, hbad⟩
    have huntyped := (untyped_added_iff hn haccepted).mp (instantiateNode_bad hinstantiate hstatus).2
    rw [hspace hdelete]
    exact hsame ⟨⟨n, hn, haccepted⟩, huntyped, hends.mp ⟨fuel, _, hdelete⟩⟩

/-- The type HasComponent and two objects. -/
def sampleComponents : State :=
  ⟨⟨[plainReferenceType (numericId 0 47), plainObject (numericId 1 1) [], plainObject (numericId 1 12) []], by decide⟩,
    ⟨[], 5⟩, 0, 0, []⟩

/-- A component of the first object with the second one for its type. -/
def mistypedItem : AddNodesItem :=
  { sampleInstance with referenceTypeId := numericId 0 47, typeDefinition := numericId 1 12 }

/-- An object whose type definition is another object is not added, and its
parent keeps the reference to it. -/
theorem addNodes_leaves_reference : ¬ Atomic sampleHost sampleComponents mistypedItem := by
  intro hatomic
  obtain ⟨st', hadd, hreferences⟩ : ∃ st', addNodesSingle sampleHost 9 sampleComponents mistypedItem =
      some (⟨badNodeClassInvalid, numericId 1 20⟩, st') ∧
        refsAt st'.space (numericId 1 1) = [childReference (numericId 0 47) (numericId 1 20)] := ⟨_, rfl, rfl⟩
  have hsame := hatomic 9 _ st' hadd nofun (numericId 1 1)
  rw [refsAt, hsame] at hreferences
  cases hreferences

end Requests

end OpcUa.FailedNodes
