import OpcUa.AddedNodes
import OpcUa.MirroredReferences

namespace OpcUa.NodeAdditions

open StatusCodes NodeIds DataTypes AddressSpaces References NodeManagement NodeCreation MirroredReferences AddedNodes
open NodeStores (NodeClass hasNullIdentifier)

variable {host : Host} {st : State} {item : AddNodesItem} {n : Node} {id a parentNodeId referenceTypeId : NodeId}

/-- A new node has the reference to its parent, and the parent the one back. -/
def parentReference (referenceTypeId parentNodeId : NodeId) : ReferenceNode :=
  ⟨referenceTypeId, true, ⟨parentNodeId, none, 0⟩⟩

def childReference (referenceTypeId id : NodeId) : ReferenceNode := ⟨referenceTypeId, false, ⟨id, none, 0⟩⟩

theorem ne_insertedId (h : Accepted host st n parentNodeId referenceTypeId) (hid : Stored st.space id) :
    nodeIdEqual (insertedId host st n.nodeId) id = false := by
  rw [← Bool.not_eq_true]
  intro hsame
  obtain ⟨m, hm⟩ := hid
  rw [← get_congr hsame, h.free] at hm
  cases hm

theorem insertedId_ne_null (host : Host) (st : State) (id : NodeId) :
    nodeIdEqual nullId (insertedId host st id) = false := by
  rw [← Bool.not_eq_true, nodeIdEqual_iff, insertedId]
  split
  · rintro ⟨hindex, _⟩
    change (0 : UInt16) = if id.namespaceIndex = 0 then 1 else id.namespaceIndex at hindex
    split at hindex
    · cases hindex
    · rename_i hne
      exact hne hindex.symm
  · rename_i hnull
    rintro ⟨_, hcontent⟩
    refine hnull ?_
    rw [hasNullIdentifier, isNull]
    cases hid : id.identifier with
    | numeric i =>
        rw [hid] at hcontent
        have hzero : i = 0 := UInt32.toNat_inj.mp (congrArg (fun x => x.2.1) hcontent).symm
        rw [hzero]
        rfl
    | _ =>
        rw [hid] at hcontent
        cases congrArg Prod.fst hcontent

theorem refsAt_addExistingNode (h : Accepted host st n parentNodeId referenceTypeId) (hnew : n.references = [])
    (a : NodeId) :
    refsAt (addExistingNode host st n parentNodeId referenceTypeId).2.space a =
      refsAt st.space a ++
          (if nodeIdEqual (insertedId host st n.nodeId) a then
            [parentReference referenceTypeId parentNodeId] else []) ++
        if nodeIdEqual parentNodeId a then [childReference referenceTypeId (insertedId host st n.nodeId)] else [] := by
  have hextends := extends_insert (n := { n with nodeId := insertedId host st n.nodeId }) h.free hnew
  have hsource : Stored (st.space.insert { n with nodeId := insertedId host st n.nodeId } h.free)
      (insertedId host st n.nodeId) := ⟨_, by rw [get_insert, if_pos (nodeIdEqual_refl _)]⟩
  have hinsert := refsAt_insert (n := { n with nodeId := insertedId host st n.nodeId }) (h := h.free) hnew a
  rw [addExistingNode_accepted h]
  dsimp only
  have huri : ¬ (parentItem (insertedId host st n.nodeId) referenceTypeId parentNodeId).targetServerUri.length > 0 :=
    lt_irrefl _
  rw [refsAt_addReferences huri hsource (hextends.stored _ h.parent), hinsert]
  rfl

theorem refsAt_new (h : Accepted host st n parentNodeId referenceTypeId) (hnew : n.references = []) :
    refsAt (addExistingNode host st n parentNodeId referenceTypeId).2.space (insertedId host st n.nodeId) =
      [parentReference referenceTypeId parentNodeId] := by
  have hother : nodeIdEqual parentNodeId (insertedId host st n.nodeId) = false := by
    rw [nodeIdEqual_comm]
    exact ne_insertedId h h.parent
  have hnone : refsAt st.space (insertedId host st n.nodeId) = [] := by
    rw [refsAt, h.free]
    rfl
  rw [refsAt_addExistingNode h hnew, hnone, if_pos (nodeIdEqual_refl _), hother, if_neg Bool.false_ne_true]
  rfl

theorem bare_of_addExistingNode (h : Accepted host st n parentNodeId referenceTypeId) (a : NodeId) :
    ((addExistingNode host st n parentNodeId referenceTypeId).2.space.get a).map bare =
      if nodeIdEqual (insertedId host st n.nodeId) a then some (bare { n with nodeId := insertedId host st n.nodeId })
      else (st.space.get a).map bare := by
  rw [addExistingNode_accepted h]
  dsimp only
  rw [bare_addReferences, get_insert]
  split <;> rfl

theorem nodeClass_addExistingNode (h : Accepted host st n parentNodeId referenceTypeId) (a : NodeId) :
    ((addExistingNode host st n parentNodeId referenceTypeId).2.space.get a).map (·.nodeClass) =
      if nodeIdEqual (insertedId host st n.nodeId) a then some n.nodeClass else (st.space.get a).map (·.nodeClass) := by
  have hclass := congrArg (Option.map (·.nodeClass)) (bare_of_addExistingNode h a)
  rw [Option.map_map] at hclass
  refine Eq.trans hclass ?_
  split
  · rfl
  · rw [Option.map_map]
    rfl

section Parts

theorem eq_of_parts {m : Node} (hbare : bare n = bare m) (hreferences : n.references = m.references) : n = m := by
  obtain ⟨⟨browseName, displayName, description, writeMask, userWriteMask, references, body⟩, nodeId⟩ := n
  obtain ⟨⟨browseName', displayName', description', writeMask', userWriteMask', references', body'⟩, nodeId'⟩ := m
  cases hreferences
  cases hbare
  rfl

theorem get_eq_iff {s s' : AddressSpace} : s'.get a = s.get a ↔
    (s'.get a).map bare = (s.get a).map bare ∧ refsAt s' a = refsAt s a := by
  constructor
  · intro h
    rw [refsAt, refsAt, h]
    exact ⟨rfl, rfl⟩
  · rintro ⟨hbare, hreferences⟩
    cases hn : s.get a with
    | none =>
        rw [hn, Option.map_none, Option.map_eq_none_iff] at hbare
        exact hbare
    | some n =>
        rw [hn, Option.map_some] at hbare
        obtain ⟨m, hm, hmn⟩ := Option.map_eq_some_iff.mp hbare
        rw [refsAt_of_get hn, refsAt_of_get hm] at hreferences
        rw [hm, eq_of_parts hmn hreferences]

end Parts

section Types

/-- A type of references that new nodes can be added with. -/
def Concrete (s : AddressSpace) (referenceTypeId : NodeId) : Prop :=
  ∃ referenceType isAbstract symmetric inverseName, s.get referenceTypeId = some referenceType ∧
    referenceType.body = .referenceType isAbstract symmetric inverseName ∧ isAbstract ≠ 1

theorem concrete_iff_bare {s : AddressSpace} : Concrete s a ↔
    ∃ m isAbstract symmetric inverseName, (s.get a).map bare = some m ∧
      m.body = .referenceType isAbstract symmetric inverseName ∧ isAbstract ≠ 1 := by
  constructor
  · rintro ⟨m, isAbstract, symmetric, inverseName, hm, hbody, habstract⟩
    exact ⟨bare m, isAbstract, symmetric, inverseName, by rw [hm]; rfl, hbody, habstract⟩
  · rintro ⟨_, isAbstract, symmetric, inverseName, hbare, hbody, habstract⟩
    obtain ⟨m, hm, rfl⟩ := Option.map_eq_some_iff.mp hbare
    exact ⟨m, isAbstract, symmetric, inverseName, hm, hbody, habstract⟩

theorem stored_congr {s : AddressSpace} {b : NodeId} (h : nodeIdEqual a b = true) : Stored s a ↔ Stored s b := by
  rw [Stored, Stored, get_congr h]

theorem stored_iff_bare {s : AddressSpace} : Stored s a ↔ ∃ m, (s.get a).map bare = some m := by
  rw [Stored]
  cases s.get a <;> simp

theorem concrete_addExistingNode (h : Accepted host st n parentNodeId referenceTypeId)
    (hclass : n.nodeClass ≠ .referenceType) :
    Concrete (addExistingNode host st n parentNodeId referenceTypeId).2.space a ↔ Concrete st.space a := by
  rw [concrete_iff_bare, concrete_iff_bare, bare_of_addExistingNode h]
  split
  · rename_i hsame
    rw [← get_congr hsame, h.free]
    refine iff_of_false ?_ ?_
    · rintro ⟨_, _, _, _, hm, hbody, _⟩
      cases hm
      exact hclass (congrArg Body.nodeClass hbody)
    · rintro ⟨_, _, _, _, hm, _⟩
      cases hm
  · exact .rfl

theorem stored_addExistingNode (h : Accepted host st n parentNodeId referenceTypeId) :
    Stored (addExistingNode host st n parentNodeId referenceTypeId).2.space a ↔
      nodeIdEqual (insertedId host st n.nodeId) a = true ∨ Stored st.space a := by
  rw [stored_iff_bare, stored_iff_bare, bare_of_addExistingNode h]
  split
  · rename_i hsame
    exact iff_of_true ⟨_, rfl⟩ (.inl hsame)
  · rename_i hother
    exact (or_iff_right hother).symm

theorem not_stored_iff {s : AddressSpace} : ¬ Stored s a ↔ s.get a = none := by
  rw [Stored]
  cases s.get a <;> simp

end Types

section Requests

theorem nodeFromItem_class (h : nodeFromItem host item = .ok n) :
    item.nodeClass = nodeClassValue n.nodeClass := by
  unfold nodeFromItem at h
  repeat' split at h
  all_goals cases h
  all_goals assumption

theorem addNode_accepted (hn : nodeFromItem host item = .ok n) :
    addNode host st item = addExistingNode host st n item.parentNodeId item.referenceTypeId := by
  rw [addNode, hn]

theorem added_accepted (hn : nodeFromItem host item = .ok n)
    (h : Accepted host st n item.parentNodeId item.referenceTypeId) :
    (addNode host st item).1 = ⟨good, insertedId host st n.nodeId⟩ := by
  rw [addNode_accepted hn, addExistingNode_accepted h]

/-- The node of an accepted request is instantiated, and removed again if that
fails. -/
theorem addNodesSingle_accepted (hn : nodeFromItem host item = .ok n)
    (h : Accepted host st n item.parentNodeId item.referenceTypeId) (fuel : Nat) :
    addNodesSingle host fuel st item =
      (instantiateNode host fuel (addNode host st item).2 item (insertedId host st n.nodeId)).bind fun r =>
        if r.1 ≠ good then
          (deleteNodesSingle host fuel r.2 (insertedId host st n.nodeId) true).map
            (fun d => (⟨r.1, insertedId host st n.nodeId⟩, d.2))
        else some (⟨good, insertedId host st n.nodeId⟩, r.2) := by
  rw [addNodesSingle, added_accepted hn h]
  exact if_neg (not_not.mpr rfl)

theorem addNode_cases (host : Host) (st : State) (item : AddNodesItem) :
    ((addNode host st item).1.statusCode ≠ good ∧ (addNode host st item).2 = st) ∨
      ∃ n, nodeFromItem host item = .ok n ∧ Accepted host st n item.parentNodeId item.referenceTypeId := by
  cases hn : nodeFromItem host item with
  | error status =>
      refine .inl ?_
      have hbad : status ≠ good := by
        unfold nodeFromItem at hn
        repeat' split at hn
        all_goals cases hn
        all_goals decide
      rw [addNode, hn]
      exact ⟨hbad, rfl⟩
  | ok n =>
      rw [addNode_accepted hn]
      by_cases haccepted : Accepted host st n item.parentNodeId item.referenceTypeId
      · exact .inr ⟨n, rfl, haccepted⟩
      · exact .inl (addExistingNode_refused haccepted)

theorem addNodesSingle_good {fuel : Nat} {st' : State} (h : addNodesSingle host fuel st item = some (⟨good, id⟩, st')) :
    ∃ n, nodeFromItem host item = .ok n ∧ Accepted host st n item.parentNodeId item.referenceTypeId ∧
      id = insertedId host st n.nodeId ∧ instantiateNode host fuel
        (addExistingNode host st n item.parentNodeId item.referenceTypeId).2 item id = some (good, st') := by
  rcases addNode_cases host st item with ⟨hbad, _⟩ | ⟨n, hn, haccepted⟩
  · rw [addNodesSingle, if_pos hbad] at h
    rw [Option.some.inj h] at hbad
    exact absurd rfl hbad
  rw [addNodesSingle_accepted hn haccepted, addNode_accepted hn] at h
  obtain ⟨⟨status, mid⟩, hmid, hrest⟩ := Option.bind_eq_some_iff.mp h
  dsimp only at hrest
  by_cases hbad : status ≠ good
  · rw [if_pos hbad] at hrest
    obtain ⟨d, _, heq⟩ := Option.map_eq_some_iff.mp hrest
    cases heq
    exact absurd rfl hbad
  · rw [if_neg hbad] at hrest
    obtain rfl := not_not.mp hbad
    cases hrest
    exact ⟨n, hn, haccepted, rfl, hmid⟩

end Requests

end OpcUa.NodeAdditions
