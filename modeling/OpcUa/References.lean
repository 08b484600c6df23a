import OpcUa.AddressSpaces

namespace OpcUa.References

open StatusCodes NodeIds DataTypes AddressSpaces

/-- `UA_Server_editNode` in the single-threaded build. -/
def editNode (s : AddressSpace) (id : NodeId) (callback : Node → StatusCode × NodeMembers) :
    StatusCode × AddressSpace :=
  match s.get id with
  | none => (badNodeIdUnknown, s)
  | some n => ((callback n).1, s.edit id (fun _ => (callback n).2))

/-- `UA_AddReferencesItem` without the class of the target, which nothing
reads. -/
structure AddReferencesItem where
  sourceNodeId : NodeId
  referenceTypeId : NodeId
  isForward : Bool
  targetServerUri : UaString
  targetNodeId : ExpandedNodeId
deriving DecidableEq, Repr

def addOneWayReference (item : AddReferencesItem) (n : Node) : StatusCode × NodeMembers :=
  (good,
    { n.toNodeMembers with
      references := n.references ++ [⟨item.referenceTypeId, !item.isForward, item.targetNodeId⟩] })

def AddReferencesItem.second (item : AddReferencesItem) : AddReferencesItem :=
  { item with
    targetNodeId := { item.targetNodeId with nodeId := item.sourceNodeId }
    sourceNodeId := item.targetNodeId.nodeId
    isForward := !item.isForward }

def addReferencesSingle (s : AddressSpace) (item : AddReferencesItem) : StatusCode × AddressSpace :=
  if item.targetServerUri.length > 0 then (badNotImplemented, s)
  else
    let r := editNode s item.sourceNodeId (addOneWayReference item)
    if r.1 ≠ good then r
    else editNode r.2 item.second.sourceNodeId (addOneWayReference item.second)

structure DeleteReferencesItem where
  sourceNodeId : NodeId
  referenceTypeId : NodeId
  isForward : Bool
  targetNodeId : ExpandedNodeId
  deleteBidirectional : Bool
deriving DecidableEq, Repr

def DeleteReferencesItem.matches (item : DeleteReferencesItem) (r : ReferenceNode) : Bool :=
  nodeIdEqual item.targetNodeId.nodeId r.targetId.nodeId &&
    nodeIdEqual item.referenceTypeId r.referenceTypeId && item.isForward != r.isInverse

def overrideWithLast (references : List ReferenceNode) (i : Nat) : List ReferenceNode :=
  match references.getLast? with
  | none => references
  | some last => (references.set i last).dropLast

/-- The position of the last reference that matches; the loop runs downwards. -/
def lastMatch (p : ReferenceNode → Bool) (references : List ReferenceNode) : Option Nat :=
  (references.reverse.findIdx? p).map (fun i => references.length - 1 - i)

/-- The index, a `UA_Int32`, reaches every reference of a node that has at
most 2³¹ of them. -/
def deleteOneWayReference (item : DeleteReferencesItem) (n : Node) : StatusCode × NodeMembers :=
  match lastMatch item.matches n.references with
  | none => (uncertainReferenceNotDeleted, n.toNodeMembers)
  | some i => (good, { n.toNodeMembers with references := overrideWithLast n.references i })

def DeleteReferencesItem.second (item : DeleteReferencesItem) : DeleteReferencesItem where
  sourceNodeId := item.targetNodeId.nodeId
  referenceTypeId := nullId
  isForward := !item.isForward
  targetNodeId := ⟨item.sourceNodeId, none, 0⟩
  deleteBidirectional := false

def deleteReferencesSingle (s : AddressSpace) (item : DeleteReferencesItem) : StatusCode × AddressSpace :=
  let r := editNode s item.sourceNodeId (deleteOneWayReference item)
  if !item.deleteBidirectional || item.targetNodeId.serverIndex != 0 then r
  else editNode r.2 item.second.sourceNodeId (deleteOneWayReference item.second)

variable {s : AddressSpace} {n : Node} {id id' : NodeId}

section Editing

variable {callback : Node → StatusCode × NodeMembers}

theorem editNode_none (h : s.get id = none) : editNode s id callback = (badNodeIdUnknown, s) := by
  rw [editNode, h]

theorem editNode_some (h : s.get id = some n) :
    editNode s id callback = ((callback n).1, s.edit id (fun _ => (callback n).2)) := by
  rw [editNode, h]

theorem get_editNode (id' : NodeId) :
    ((editNode s id callback).2.get id').map (·.nodeId) = (s.get id').map (·.nodeId) := by
  cases h : s.get id with
  | none => rw [editNode_none h]
  | some n =>
      rw [editNode_some h, get_edit, Option.map_map]
      congr 1
      funext m
      exact AddressSpace.editNode_nodeId id _ m

end Editing

section Deleting

variable {p : ReferenceNode → Bool} {references : List ReferenceNode} {i : Nat}

theorem lastMatch_some (h : lastMatch p references = some i) :
    ∃ r, references[i]? = some r ∧ p r = true := by
  obtain ⟨j, hj, rfl⟩ := Option.map_eq_some_iff.mp h
  obtain ⟨hlt, hp, _⟩ := List.findIdx?_eq_some_iff_getElem.mp hj
  rw [List.length_reverse] at hlt
  rw [List.getElem_reverse] at hp
  exact ⟨_, List.getElem?_eq_getElem (by omega), hp⟩

theorem lastMatch_none : lastMatch p references = none ↔ ∀ r ∈ references, p r = false := by
  rw [lastMatch, Option.map_eq_none_iff, List.findIdx?_eq_none_iff]
  simp

theorem overrideWithLast_concat {l : List ReferenceNode} {last : ReferenceNode} :
    overrideWithLast (l ++ [last]) i = if i < l.length then l.set i last else l := by
  rw [overrideWithLast, List.getLast?_concat]
  dsimp only
  split
  · rename_i hi
    rw [List.set_append_left _ _ hi, List.dropLast_concat]
  · rename_i hi
    rw [List.set_append_right _ _ (Nat.not_lt.mp hi)]
    cases i - l.length <;> simp

theorem overrideWithLast_perm {r : ReferenceNode} (hr : references[i]? = some r) :
    (r :: overrideWithLast references i).Perm references := by
  induction references using List.reverseRecOn with
  | nil => cases hr
  | append_singleton l last _ =>
      rw [overrideWithLast_concat]
      split
      · rename_i hi
        rw [List.getElem?_append_left hi] at hr
        obtain ⟨_, rfl⟩ := List.getElem?_eq_some_iff.mp hr
        have hset : l.set i last = l.take i ++ last :: l.drop (i + 1) := by
          rw [List.set_eq_take_append_cons_drop, if_pos hi]
        have hsplit : l = l.take i ++ l[i] :: l.drop (i + 1) := by
          rw [← List.drop_eq_getElem_cons hi, List.take_append_drop]
        calc l[i] :: l.set i last
            _ = l[i] :: (l.take i ++ last :: l.drop (i + 1)) := by rw [hset]
            _ |>.Perm (l[i] :: last :: (l.take i ++ l.drop (i + 1))) := List.perm_middle.cons _
            _ |>.Perm (last :: l[i] :: (l.take i ++ l.drop (i + 1))) := .swap ..
            _ |>.Perm (last :: (l.take i ++ l[i] :: l.drop (i + 1))) := List.perm_middle.symm.cons _
            _ = last :: l := by rw [← hsplit]
            _ |>.Perm (l ++ [last]) := (List.perm_append_singleton last l).symm
      · rename_i hi
        rw [List.getElem?_append_right (Nat.not_lt.mp hi)] at hr
        have hlast : r = last := by
          cases hindex : i - l.length with
          | zero =>
              rw [hindex] at hr
              exact (Option.some.inj hr).symm
          | succ k =>
              rw [hindex] at hr
              cases hr
        rw [hlast]
        exact (List.perm_append_singleton last l).symm

end Deleting

section Frames

def bare (n : Node) : Node := { n with references := [] }

theorem map_editNode {α : Type} {part : Node → α} {callback : Node → StatusCode × NodeMembers}
    (h : ∀ n, part { n with toNodeMembers := (callback n).2 } = part n) :
    ((editNode s id callback).2.get id').map part = (s.get id').map part := by
  cases hn : s.get id with
  | none => rw [editNode_none hn]
  | some n =>
      rw [editNode_some hn]
      dsimp only
      cases hsame : nodeIdEqual id id' with
      | true =>
          rw [← get_congr hsame, ← get_congr hsame, get_edit_self hn, hn, Option.map_some, Option.map_some]
          exact congrArg some (h n)
      | false =>
          rw [nodeIdEqual_comm] at hsame
          rw [get_edit_of_ne hsame]

theorem bare_editNode {callback : Node → StatusCode × NodeMembers}
    (h : ∀ n, bare { n with toNodeMembers := (callback n).2 } = bare n) :
    ((editNode s id callback).2.get id').map bare = (s.get id').map bare := map_editNode h

theorem bare_addReferences (item : AddReferencesItem) :
    ((addReferencesSingle s item).2.get id').map bare = (s.get id').map bare := by
  rw [addReferencesSingle]
  split
  · rfl
  · dsimp only
    split
    · exact bare_editNode (fun _ => rfl)
    · rw [bare_editNode (fun _ => rfl), bare_editNode (fun _ => rfl)]

end Frames

end OpcUa.References
