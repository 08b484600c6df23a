import OpcUa.ReferenceArrays

namespace OpcUa.FailedReferences

open StatusCodes NodeIds DataTypes AddressSpaces References SubTypes Browsing MirroredReferences NodeDeletion
open ReferenceArrays (Memory addStatus workingMemory)

/-- One direction, with the answers of the memory management to it. -/
def addOneWayReference (memory : Memory) (item : AddReferencesItem) (n : Node) : StatusCode × NodeMembers :=
  let status := addStatus memory n.references.length
  (status, if status = good then (References.addOneWayReference item n).2 else n.toNodeMembers)

/-- `Service_AddReferences_single`, where memory can be short in both
directions. -/
def addReferencesSingle (first second : Memory) (s : AddressSpace) (item : AddReferencesItem) :
    StatusCode × AddressSpace :=
  if item.targetServerUri.length > 0 then (badNotImplemented, s)
  else
    let r := editNode s item.sourceNodeId (addOneWayReference first item)
    if r.1 ≠ good then r
    else editNode r.2 item.second.sourceNodeId (addOneWayReference second item.second)

/-- A request that fails leaves the references of every node as they are. -/
def Atomic (s : AddressSpace) (result : StatusCode × AddressSpace) : Prop :=
  result.1 ≠ good → ∀ a, refsAt result.2 a = refsAt s a

variable {s : AddressSpace} {item : AddReferencesItem} {memory first second : Memory} {n : Node} {id a : NodeId}

/-- The references that the second direction finds at the target. -/
def targetSize (s : AddressSpace) (item : AddReferencesItem) : Nat :=
  (refsAt s item.targetNodeId.nodeId ++
    if nodeIdEqual item.sourceNodeId item.targetNodeId.nodeId then [added item] else []).length

/-- The request is refused, or nothing is added at the source, or the target
takes the other direction. -/
def Completes (first second : Memory) (s : AddressSpace) (item : AddReferencesItem) : Prop :=
  item.targetServerUri.length > 0 ∨
    (∀ n, s.get item.sourceNodeId = some n → addStatus first n.references.length ≠ good) ∨
    (∃ n, s.get item.targetNodeId.nodeId = some n) ∧ addStatus second (targetSize s item) = good

theorem addOneWayReference_of_good (h : addStatus memory n.references.length = good) :
    addOneWayReference memory item n = References.addOneWayReference item n := by
  rw [addOneWayReference, h]
  rfl

theorem addOneWayReference_of_bad (h : addStatus memory n.references.length ≠ good) :
    addOneWayReference memory item n = (addStatus memory n.references.length, n.toNodeMembers) := by
  rw [addOneWayReference, if_neg h]

theorem status_addOneWay : (editNode s id (addOneWayReference memory item)).1 = good ↔
    ∃ n, s.get id = some n ∧ addStatus memory n.references.length = good := by
  cases hn : s.get id with
  | none =>
      rw [editNode_none hn]
      refine iff_of_false (by decide : badNodeIdUnknown ≠ good) ?_
      rintro ⟨n, hsome, _⟩
      cases hsome
  | some n =>
      rw [editNode_some hn]
      constructor
      · exact fun h => ⟨n, rfl, h⟩
      · rintro ⟨n', heq, h⟩
        cases heq
        exact h

theorem edit_of_good (hn : s.get id = some n) (h : addStatus memory n.references.length = good) :
    (editNode s id (addOneWayReference memory item)).2 = (editNode s id (References.addOneWayReference item)).2 := by
  rw [editNode_some hn, editNode_some hn, addOneWayReference_of_good h]

theorem refsAt_of_bad (h : (editNode s id (addOneWayReference memory item)).1 ≠ good) (a : NodeId) :
    refsAt (editNode s id (addOneWayReference memory item)).2 a = refsAt s a := by
  cases hn : s.get id with
  | none => rw [editNode_none hn]
  | some n =>
      rw [editNode_some hn] at h
      rw [refsAt_editNode hn, addOneWayReference_of_bad h]
      split
      · rename_i hsame
        rw [← refsAt_congr hsame, refsAt_of_get hn]
      · rfl

theorem refsAt_first (hn : s.get item.sourceNodeId = some n) (h : addStatus first n.references.length = good)
    (a : NodeId) : refsAt (editNode s item.sourceNodeId (addOneWayReference first item)).2 a =
      refsAt s a ++ if nodeIdEqual item.sourceNodeId a then [added item] else [] := by
  rw [edit_of_good hn h]
  exact refsAt_addOneWay ⟨n, hn⟩ a

/-- The second direction needs the target and memory for one more reference
there. -/
theorem status_second (hn : s.get item.sourceNodeId = some n) (h : addStatus first n.references.length = good) :
    (editNode (editNode s item.sourceNodeId (addOneWayReference first item)).2 item.second.sourceNodeId
      (addOneWayReference second item.second)).1 = good ↔
      (∃ m, s.get item.targetNodeId.nodeId = some m) ∧ addStatus second (targetSize s item) = good := by
  have hsize := congrArg List.length (refsAt_first hn h item.targetNodeId.nodeId)
  change (editNode _ item.targetNodeId.nodeId _).1 = good ↔ _
  rw [status_addOneWay]
  constructor
  · rintro ⟨m, hm, hgood⟩
    rw [refsAt_of_get hm] at hsize
    rw [targetSize, ← hsize]
    exact ⟨(stored_editNode _).mp ⟨m, hm⟩, hgood⟩
  · rintro ⟨hstored, hgood⟩
    obtain ⟨m, hm⟩ := (stored_editNode _).mpr hstored
    rw [refsAt_of_get hm] at hsize
    rw [targetSize, ← hsize] at hgood
    exact ⟨m, hm, hgood⟩

theorem addReferences_agrees (hfirst : ∀ n, s.get item.sourceNodeId = some n →
    addStatus first n.references.length = good)
    (hsecond : addStatus second (targetSize s item) = good) :
    addReferencesSingle first second s item = References.addReferencesSingle s item := by
  rw [addReferencesSingle, References.addReferencesSingle]
  by_cases huri : item.targetServerUri.length > 0
  · rw [if_pos huri, if_pos huri]
  rw [if_neg huri, if_neg huri]
  cases hn : s.get item.sourceNodeId with
  | none =>
      rw [editNode_none hn, editNode_none hn]
      rfl
  | some n =>
      have hsize := congrArg List.length (refsAt_first hn (hfirst n hn) item.targetNodeId.nodeId)
      have hedit : editNode s item.sourceNodeId (addOneWayReference first item) =
          editNode s item.sourceNodeId (References.addOneWayReference item) := by
        rw [editNode_some hn, editNode_some hn, addOneWayReference_of_good (hfirst n hn)]
      rw [hedit] at hsize ⊢
      have hgood : (editNode s item.sourceNodeId (References.addOneWayReference item)).1 = good := by
        rw [editNode_some hn]
        rfl
      dsimp only
      rw [if_neg (not_not.mpr hgood), if_neg (not_not.mpr hgood)]
      change editNode _ item.targetNodeId.nodeId _ = editNode _ item.targetNodeId.nodeId _
      cases hm : (editNode s item.sourceNodeId (References.addOneWayReference item)).2.get item.targetNodeId.nodeId with
      | none => rw [editNode_none hm, editNode_none hm]
      | some m =>
          rw [refsAt_of_get hm] at hsize
          rw [targetSize, ← hsize] at hsecond
          rw [editNode_some hm, editNode_some hm, addOneWayReference_of_good hsecond]

/-- A failed request changes no references if and only if it does not fail in
the second direction. -/
theorem addReferences_atomic_iff (first second : Memory) (s : AddressSpace) (item : AddReferencesItem) :
    Atomic s (addReferencesSingle first second s item) ↔ Completes first second s item := by
  rw [addReferencesSingle]
  by_cases huri : item.targetServerUri.length > 0
  · rw [if_pos huri]
    exact iff_of_true (fun _ _ => rfl) (.inl huri)
  rw [if_neg huri]
  dsimp only
  by_cases hfirst : (editNode s item.sourceNodeId (addOneWayReference first item)).1 = good
  · rw [if_neg (not_not.mpr hfirst)]
    obtain ⟨n, hn, hstatus⟩ := status_addOneWay.mp hfirst
    by_cases hsecond : (editNode (editNode s item.sourceNodeId (addOneWayReference first item)).2
        item.second.sourceNodeId (addOneWayReference second item.second)).1 = good
    · exact iff_of_true (fun hbad => absurd hsecond hbad) (.inr (.inr ((status_second hn hstatus).mp hsecond)))
    · refine iff_of_false ?_ ?_
      · intro hatomic
        have hsame := hatomic hsecond item.sourceNodeId
        rw [refsAt_of_bad hsecond, refsAt_first hn hstatus, if_pos (nodeIdEqual_refl _)] at hsame
        have hlength := congrArg List.length hsame
        rw [List.length_append, List.length_singleton] at hlength
        omega
      · rintro (h | h | h)
        · exact huri h
        · exact h n hn hstatus
        · exact hsecond ((status_second hn hstatus).mpr h)
  · rw [if_pos hfirst]
    refine iff_of_true (fun _ a => refsAt_of_bad hfirst a) (.inr (.inl ?_))
    exact fun n hn hgood => hfirst (status_addOneWay.mpr ⟨n, hn, hgood⟩)

/-- The target is unknown, and the source has the reference to it. -/
theorem addReferences_half :
    ¬ Atomic (sampleFolder []) (addReferencesSingle workingMemory workingMemory (sampleFolder [])
      ⟨numericId 1 1, numericId 0 35, true, none, ⟨numericId 1 9, none, 0⟩⟩) := by
  intro hatomic
  have hsame := hatomic (by decide) (numericId 1 1)
  revert hsame
  decide

end OpcUa.FailedReferences
