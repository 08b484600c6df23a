import OpcUa.NodeAdditions
import OpcUa.NodePointers

namespace OpcUa.TableRoom

open StatusCodes NodeIds DataTypes AddressSpaces References NodeManagement NodeCreation StoreTables MirroredReferences
  AddedNodes NodeAdditions
open NodePointers (Access Pointer World)
open NodeStores (NodeClass hasNullIdentifier)

variable {host : Host} {memory : Nat → Bool} {w w' : World} {t : Table} {item : AddNodesItem} {n : Node}
  {id a parentNodeId referenceTypeId : NodeId}

section Reading

theorem get_eq_some {p : Pointer} :
    w.get id = some p ↔ (∃ n, w.state.space.get id = some n) ∧ p = ⟨id, w.table.block⟩ := by
  rw [World.get, Option.map_eq_some_iff]
  constructor
  · rintro ⟨n, hn, rfl⟩
    exact ⟨⟨n, hn⟩, rfl⟩
  · rintro ⟨⟨n, hn⟩, rfl⟩
    exact ⟨n, hn, rfl⟩

theorem get_of_stored (hn : w.state.space.get id = some n) : w.get id = some ⟨id, w.table.block⟩ :=
  get_eq_some.mpr ⟨⟨n, hn⟩, rfl⟩

theorem get_of_none (hn : w.state.space.get id = none) : w.get id = none := by
  rw [World.get, hn]
  rfl

theorem read_of_stored {p : Pointer} (hblock : p.block = w.table.block) (hn : w.state.space.get p.nodeId = some n) :
    w.read p = .done n := by
  rw [World.read, if_pos hblock, hn]
  rfl

theorem read_moved {p : Pointer} (hblock : p.block ≠ w.table.block) : w.read p = .dangling := if_neg hblock

end Reading

section Attempts

/-- What is checked before a node is inserted. -/
structure Admitted (host : Host) (s : AddressSpace) (n : Node) (parentNodeId referenceTypeId : NodeId) : Prop where
  namespaceIndex : n.nodeId.namespaceIndex.toNat < host.namespacesSize
  parent : Stored s parentNodeId
  referenceType : Concrete s referenceTypeId

theorem Admitted.accepted (h : Admitted host w.state.space n parentNodeId referenceTypeId)
    (hfree : w.state.space.get (insertedId host w.state n.nodeId) = none) :
    Accepted host w.state n parentNodeId referenceTypeId := ⟨h.namespaceIndex, h.parent, h.referenceType, hfree⟩

theorem admitted_of_accepted (h : Accepted host w.state n parentNodeId referenceTypeId) :
    Admitted host w.state.space n parentNodeId referenceTypeId := ⟨h.namespaceIndex, h.parent, h.referenceType⟩

/-- What comes of the request for a new node. -/
inductive Attempt (host : Host) (memory : Nat → Bool) (w : World) (item : AddNodesItem) : AddNodesResult → World → Prop
  | refused {r : AddNodesResult} (hbad : r.statusCode ≠ good) (hid : r.addedNodeId = nullId)
      (hnot : ∀ n, nodeFromItem host item = .ok n →
        ¬ Admitted host w.state.space n item.parentNodeId item.referenceTypeId) : Attempt host memory w item r w
  | noMemory {n : Node} (hn : nodeFromItem host item = .ok n)
      (hadmitted : Admitted host w.state.space n item.parentNodeId item.referenceTypeId)
      (hreserve : w.table.reserve memory = none) : Attempt host memory w item (notInserted n) w
  | taken {n : Node} {t : Table} (hn : nodeFromItem host item = .ok n)
      (hadmitted : Admitted host w.state.space n item.parentNodeId item.referenceTypeId)
      (hreserve : w.table.reserve memory = some t) (hused : Stored w.state.space (insertedId host w.state n.nodeId)) :
      Attempt host memory w item (notInserted n) ⟨w.state, t⟩
  | inserted {n : Node} {t : Table} (hn : nodeFromItem host item = .ok n)
      (haccepted : Accepted host w.state n item.parentNodeId item.referenceTypeId)
      (hreserve : w.table.reserve memory = some t) :
      Attempt host memory w item ⟨good, insertedId host w.state n.nodeId⟩
        ⟨(NodeCreation.addNode host w.state item).2, t.counted⟩

theorem insertNode_free (hreserve : w.table.reserve memory = some t)
    (hfree : w.state.space.get (insertedId host w.state n.nodeId) = none) :
    NodePointers.insertNode host memory w n = (some ⟨insertedId host w.state n.nodeId, t.block⟩,
      ⟨{ w.state with
          space := w.state.space.insert { n with nodeId := insertedId host w.state n.nodeId } hfree
          inserts := w.state.inserts + 1 }, t.counted⟩) := by
  rw [NodePointers.insertNode, hreserve]
  dsimp only
  rw [AddedNodes.insertNode_free hfree]

theorem insertNode_taken (hreserve : w.table.reserve memory = some t)
    (hused : Stored w.state.space (insertedId host w.state n.nodeId)) :
    NodePointers.insertNode host memory w n = (none, ⟨w.state, t⟩) := by
  have hnot : ¬ w.state.space.get (insertedId host w.state n.nodeId) = none := fun hnone =>
    not_stored_iff.mpr hnone hused
  rw [NodePointers.insertNode, hreserve]
  dsimp only
  rw [NodeManagement.insertNode, dif_neg hnot]

theorem addExistingNode_refused (h : ¬ Admitted host w.state.space n parentNodeId referenceTypeId) :
    ∃ status, status ≠ good ∧
      NodePointers.addExistingNode host memory w n parentNodeId referenceTypeId = .done (⟨status, nullId⟩, w) := by
  rw [NodePointers.addExistingNode]
  split
  · exact ⟨badNodeIdInvalid, by decide, rfl⟩
  next hindex =>
  cases hparent : w.state.space.get parentNodeId with
  | none =>
      rw [get_of_none hparent]
      exact ⟨badParentNodeIdInvalid, by decide, rfl⟩
  | some parent =>
      rw [get_of_stored hparent]
      dsimp only
      cases htype : w.state.space.get referenceTypeId with
      | none =>
          rw [get_of_none htype]
          exact ⟨badReferenceTypeIdInvalid, by decide, rfl⟩
      | some type =>
          rw [get_of_stored htype]
          dsimp only
          rw [read_of_stored rfl htype, Access.done_bind]
          split
          · next isAbstract symmetric inverseName hbody =>
            split
            · exact ⟨badReferenceNotAllowed, by decide, rfl⟩
            · next habstract =>
              have hconcrete : Concrete w.state.space referenceTypeId :=
                ⟨type, isAbstract, symmetric, inverseName, htype, hbody, by simpa using habstract⟩
              exact absurd ⟨Nat.not_le.mp hindex, ⟨parent, hparent⟩, hconcrete⟩ h
          · exact ⟨badReferenceTypeIdInvalid, by decide, rfl⟩

theorem addExistingNode_admitted (h : Admitted host w.state.space n parentNodeId referenceTypeId) :
    NodePointers.addExistingNode host memory w n parentNodeId referenceTypeId =
      NodePointers.linkToParent n parentNodeId referenceTypeId (NodePointers.insertNode host memory w n) := by
  obtain ⟨parent, hparent⟩ := h.parent
  obtain ⟨type, isAbstract, symmetric, inverseName, htype, hbody, habstract⟩ := h.referenceType
  rw [NodePointers.addExistingNode, if_neg (Nat.not_le.mpr h.namespaceIndex), get_of_stored hparent]
  dsimp only
  rw [get_of_stored htype]
  dsimp only
  rw [read_of_stored rfl htype, Access.done_bind, hbody]
  dsimp only
  rw [if_neg (by simpa using habstract)]

theorem addNode_attempt (host : Host) (memory : Nat → Bool) (w : World) (item : AddNodesItem) :
    ∃ r w', NodePointers.addNode host memory w item = .done (r, w') ∧ Attempt host memory w item r w' := by
  rw [NodePointers.addNode]
  cases hn : nodeFromItem host item with
  | error status =>
      have hbad : status ≠ good := by
        unfold nodeFromItem at hn
        repeat' split at hn
        all_goals cases hn
        all_goals decide
      exact ⟨_, w, rfl, .refused hbad rfl (fun n hok => nomatch hn.symm.trans hok)⟩
  | ok n =>
      dsimp only
      by_cases hadmitted : Admitted host w.state.space n item.parentNodeId item.referenceTypeId
      · rw [addExistingNode_admitted hadmitted]
        cases hreserve : w.table.reserve memory with
        | none =>
            rw [NodePointers.insertNode, hreserve]
            exact ⟨_, w, rfl, .noMemory hn hadmitted hreserve⟩
        | some t =>
            cases hfree : w.state.space.get (insertedId host w.state n.nodeId) with
            | some m =>
                rw [insertNode_taken hreserve ⟨m, hfree⟩]
                exact ⟨_, _, rfl, .taken hn hadmitted hreserve ⟨m, hfree⟩⟩
            | none =>
                have haccepted := hadmitted.accepted hfree
                have hadded := addExistingNode_accepted haccepted
                rw [← addNode_accepted hn] at hadded
                refine ⟨_, _, ?_, .inserted hn haccepted hreserve⟩
                rw [insertNode_free hreserve hfree, hadded, NodePointers.linkToParent]
                rw [read_of_stored (n := { n with nodeId := insertedId host w.state n.nodeId }) rfl]
                · rfl
                · rw [get_insert, if_pos (nodeIdEqual_refl _)]
      · obtain ⟨status, hbad, hrun⟩ := addExistingNode_refused hadmitted
        refine ⟨_, w, hrun, .refused hbad rfl (fun m hm => ?_)⟩
        obtain rfl := Except.ok.inj (hn.symm.trans hm)
        exact hadmitted

end Attempts

section Room

/-- Further nodes can be inserted without the entries being moved. The store
never chooses a number that is taken; if it did, nothing more would come in. -/
def takes (host : Host) (memory : Nat → Bool) : Nat → (NodeId → Bool) → Nat → Table → Bool
  | 0, _, _, _ => true
  | more + 1, taken, inserts, t =>
      match t.reserve memory with
      | none => true
      | some t' =>
          if t'.block ≠ t.block then false
          else
            let id := numericId 1 (host.numbers inserts)
            taken id || takes host memory more (fun a => nodeIdEqual id a || taken a) (inserts + 1) t.counted

def room (host : Host) (memory : Nat → Bool) (w : World) (copies : Nat) : Bool :=
  takes host memory copies (fun a => (w.state.space.get a).isSome) w.state.inserts w.table

theorem takes_mono {taken : NodeId → Bool} {inserts copies more : Nat} (h : copies ≤ more)
    (hmore : takes host memory more taken inserts t = true) : takes host memory copies taken inserts t = true := by
  induction copies generalizing more taken inserts t with
  | zero => rfl
  | succ copies ih =>
      obtain ⟨more, rfl⟩ := Nat.exists_eq_add_of_le' (Nat.lt_of_lt_of_le (Nat.succ_pos copies) h)
      rw [takes] at hmore ⊢
      split
      · rfl
      · next t' hreserve =>
        rw [hreserve] at hmore
        dsimp only at hmore
        split
        · next hmoved =>
          rw [if_pos hmoved] at hmore
          cases hmore
        · next hkept =>
          rw [if_neg hkept, Bool.or_eq_true] at hmore
          rw [Bool.or_eq_true]
          exact hmore.imp_right (ih (Nat.le_of_succ_le_succ h))

theorem room_mono {copies more : Nat} (h : copies ≤ more) (hmore : room host memory w more = true) :
    room host memory w copies = true := takes_mono h hmore

theorem room_zero : room host memory w 0 = true := rfl

theorem room_congr (htable : w'.table = w.table) (hinserts : w'.state.inserts = w.state.inserts)
    (hstored : ∀ a, Stored w'.state.space a ↔ Stored w.state.space a) (copies : Nat) :
    room host memory w' copies = room host memory w copies := by
  rw [room, room, htable, hinserts]
  congr 1
  funext a
  rw [Bool.eq_iff_iff, Option.isSome_iff_exists, Option.isSome_iff_exists]
  exact hstored a

theorem room_of_noMemory (h : w.table.reserve memory = none) (copies : Nat) : room host memory w copies = true := by
  cases copies with
  | zero => rfl
  | succ copies => rw [room, takes, h]

variable (hid : n.nodeId = nullId)
include hid

theorem insertedId_copy : insertedId host w.state n.nodeId = numericId 1 (host.numbers w.state.inserts) := by
  rw [hid]
  rfl

theorem room_of_taken (h : w.table.reserve memory = some t) (hblock : t.block = w.table.block)
    (hused : Stored w.state.space (insertedId host w.state n.nodeId)) (copies : Nat) :
    room host memory w copies = true := by
  cases copies with
  | zero => rfl
  | succ copies =>
      rw [insertedId_copy hid] at hused
      rw [room, takes, h]
      dsimp only
      rw [if_neg (not_not.mpr hblock), Bool.or_eq_true]
      exact .inl (Option.isSome_iff_exists.mpr hused)

omit hid in
theorem no_room_of_moved (h : w.table.reserve memory = some t) (hblock : t.block ≠ w.table.block) (copies : Nat) :
    room host memory w (copies + 1) = false := by
  rw [room, takes, h]
  dsimp only
  rw [if_pos hblock]

theorem room_inserted (hn : nodeFromItem host item = .ok n)
    (haccepted : Accepted host w.state n item.parentNodeId item.referenceTypeId)
    (h : w.table.reserve memory = some t) (hblock : t.block = w.table.block) (copies : Nat) :
    room host memory ⟨(NodeCreation.addNode host w.state item).2, t.counted⟩ copies =
      room host memory w (copies + 1) := by
  have hfree := haccepted.free
  have hadded := addExistingNode_accepted haccepted
  rw [← addNode_accepted hn] at hadded
  have hinserts : (NodeCreation.addNode host w.state item).2.inserts = w.state.inserts + 1 := by rw [hadded]
  have htaken : (fun a => ((NodeCreation.addNode host w.state item).2.space.get a).isSome) =
      fun a => nodeIdEqual (numericId 1 (host.numbers w.state.inserts)) a || (w.state.space.get a).isSome := by
    funext a
    have hstored := stored_addExistingNode haccepted (a := a)
    rw [insertedId_copy hid, ← addNode_accepted hn] at hstored
    rw [Bool.eq_iff_iff, Bool.or_eq_true, Option.isSome_iff_exists, Option.isSome_iff_exists]
    exact hstored
  rw [insertedId_copy hid] at hfree
  rw [room, room, takes, h]
  dsimp only
  rw [if_neg (not_not.mpr hblock), htaken, hinserts, eq_of_reserve h hblock, hfree]
  rfl

end Room

end OpcUa.TableRoom
