import OpcUa.CyclicTypes
import OpcUa.NodePointers
import OpcUa.TypeCopies

namespace OpcUa.PointerSurvival

open StatusCodes NodeIds DataTypes AddressSpaces References SubTypes Browsing NodeManagement NodeCreation StoreTables
  MirroredReferences AddedNodes NodeAdditions FailedNodes Instantiations TypeContainment CyclicTypes TableRoom
  CopyDemands InstanceCopies TypeCopies NodePointers
open NodePointers (Access Pointer World)
open NodeStores (NodeClass)

variable {host : Host} {memory : Nat → Bool} {base : State} {w w' : World} {id a : NodeId} {item : AddNodesItem}
  {c : NodeClass} {depth : Nat}

section Deletion

theorem map_dangling_iff {α β : Type} {x : Access α} (f : α → β) : x.map f = .dangling ↔ x = .dangling := by
  cases x with
  | dangling => exact ⟨fun _ => rfl, fun _ => rfl⟩
  | _ => exact ⟨nofun, nofun⟩

theorem deleteMirrors_done {node : Pointer} (hblock : node.block = w.table.block)
    (hnode : Stored w.state.space node.nodeId)
    (passes i : Nat) : ∃ w', NodePointers.deleteMirrors node passes i w = .done w' ∧ w'.table = w.table ∧
      Stored w'.state.space node.nodeId := by
  induction passes generalizing i w with
  | zero => exact ⟨w, rfl, rfl, hnode⟩
  | succ passes ih =>
      obtain ⟨n, hn⟩ := hnode
      rw [NodePointers.deleteMirrors, read_of_stored hblock hn, Access.done_bind]
      cases n.references[i]? with
      | none => exact ⟨w, rfl, rfl, ⟨n, hn⟩⟩
      | some r =>
          have hstored : Stored (deleteReferencesSingle w.state.space (mirrorItem node.nodeId r)).2 node.nodeId :=
            (stored_editNode node.nodeId).mpr ⟨n, hn⟩
          exact ih (w := w.withSpace (deleteReferencesSingle w.state.space (mirrorItem node.nodeId r)).2) hblock hstored
            (i + 1)

theorem deleteNodesSingle_safe (host : Host) (memory : Nat → Bool) (passes : Nat) (w : World) (nodeId : NodeId)
    (deleteReferences : Bool) :
    NodePointers.deleteNodesSingle host memory passes w nodeId deleteReferences ≠ .dangling := by
  rw [NodePointers.deleteNodesSingle]
  cases hn : w.state.space.get nodeId with
  | none =>
      rw [get_of_none hn]
      exact nofun
  | some n =>
      rw [get_of_stored hn]
      dsimp only
      rw [read_of_stored rfl hn, Access.done_bind]
      obtain ⟨w', hw', htable, m, hm⟩ : ∃ w', (if deleteReferences = true then NodePointers.deleteMirrors
          ⟨nodeId, w.table.block⟩ n.references.length 0 w else .done w) = .done w' ∧ w'.table = w.table ∧
            Stored w'.state.space nodeId := by
        split
        · exact deleteMirrors_done rfl ⟨n, hn⟩ n.references.length 0
        · exact ⟨w, rfl, rfl, n, hn⟩
      rw [hw', Access.done_bind, ne_eq, map_dangling_iff, NodePointers.destroyNode,
        read_of_stored (congrArg Table.block htable).symm hm, Access.done_bind, map_dangling_iff]
      cases NodeManagement.destroyNode host passes w'.state nodeId m <;> exact nofun

end Deletion

section Instances

variable (hstart : Started host id base)
include hstart

theorem instance_follows (memory : Nat → Bool) (t : Table) (hdefined : isNull item.typeDefinition = false)
    (hc : typeClass item = some c) (depth : Nat) : Settles host memory (fun _ => True) ⟨base, t⟩
      (fun p => demand host base.space p depth c true item.typeDefinition)
      (fun p => (NodePointers.instantiateNode host memory p depth ⟨base, t⟩ item id).map (·.2)) := by
  have h : Along host id base ⟨base, t⟩ := along_start hstart t
  have hheld : Holds host memory ⟨base, t⟩ id true := holds_stored hstart.stored
  have hid : worked id base id := .inl (nodeIdEqual_refl id)
  rcases hasTypesOf_typeClass hc with ⟨hobject, rfl⟩ | ⟨hvariable, rfl⟩
  · have hrun : ∀ p, NodePointers.instantiateNode host memory p depth ⟨base, t⟩ item id =
        NodePointers.instantiateObjectNode host memory p depth ⟨base, t⟩ id item.typeDefinition := by
      intro p
      rw [NodePointers.instantiateNode, hdefined, if_neg Bool.false_ne_true, if_pos hobject]
    refine Settles.congr ?_ 0 (fun _ _ => rfl) (fun p _ => congrArg (Access.map (·.2)) (hrun p))
    by_cases htype : classAt base.space item.typeDefinition = some .objectType
    · cases depth with
      | zero =>
          refine Settles.forget (Along host id base) ?_
          exact shallow_follows (NodePointers.instantiateObjectNode host memory · 0)
            (fun _ _ _ _ => rfl) (.inl rfl) htype h
      | succ depth =>
          exact objectType_follows hstart (meets_objectType hstart depth)
            (meets_variableType hstart depth) htype h hheld hid
            (fun _ _ _ => trivial)
    · exact (untyped_follows (meets_objectType hstart depth).other (.inl rfl) htype h).imp (fun _ _ _ _ => trivial)
  · have hother : item.nodeClass ≠ nodeClassValue .object := by
      rw [hvariable]
      decide
    have hrun : ∀ p, NodePointers.instantiateNode host memory p depth ⟨base, t⟩ item id =
        NodePointers.instantiateVariableNode host memory p depth ⟨base, t⟩ id item.typeDefinition := by
      intro p
      rw [NodePointers.instantiateNode, hdefined, if_neg Bool.false_ne_true, if_neg hother, if_pos hvariable]
    refine Settles.congr ?_ 0 (fun _ _ => rfl) (fun p _ => congrArg (Access.map (·.2)) (hrun p))
    by_cases htype : classAt base.space item.typeDefinition = some .variableType
    · cases depth with
      | zero =>
          refine Settles.forget (Along host id base) ?_
          exact shallow_follows (NodePointers.instantiateVariableNode host memory · 0)
            (fun _ _ _ _ => rfl) (.inr rfl) htype h
      | succ depth =>
          exact variableType_follows hstart (meets_variableType hstart depth) htype h hheld hid (fun _ _ => trivial)
    · exact (untyped_follows (meets_variableType hstart depth).other (.inr rfl) htype h).imp (fun _ _ _ _ => trivial)

/-- A node is read when it is gone if and only if the copies need more room
than there is. -/
theorem instance_dangling_iff (t : Table) (hdefined : isNull item.typeDefinition = false)
    (hc : typeClass item = some c) :
    (∃ passes depth, NodePointers.instantiateNode host memory passes depth ⟨base, t⟩ item id = .dangling) ↔
      ∃ passes depth,
        room host memory ⟨base, t⟩ (demand host base.space passes depth c true item.typeDefinition).copies = false := by
  constructor
  · rintro ⟨passes, depth, hrun⟩
    obtain ⟨outcome, enough, houtcome⟩ := instance_follows hstart memory t hdefined hc depth
    obtain ⟨hsettled, hfollows⟩ := houtcome (passes + enough) (Nat.le_add_left enough passes)
    have hlater : NodePointers.instantiateNode host memory (passes + enough) depth ⟨base, t⟩ item id = .dangling :=
      (below_instantiateNode item).dangling hrun
    dsimp only at hsettled
    rw [hlater] at hsettled
    subst hsettled
    cases hfollows with
    | dangling hroom => exact ⟨passes + enough, depth, hroom⟩
  · rintro ⟨passes, depth, hroom⟩
    obtain ⟨outcome, enough, houtcome⟩ := instance_follows hstart memory t hdefined hc depth
    obtain ⟨hsettled, hfollows⟩ := houtcome (passes + enough) (Nat.le_add_left enough passes)
    have hgrows : Grows (demand host base.space passes depth c true item.typeDefinition)
        (demand host base.space (passes + enough) depth c true item.typeDefinition) :=
      grows_demand passes enough depth c true _
    have hnoRoom : room host memory ⟨base, t⟩
        (demand host base.space (passes + enough) depth c true item.typeDefinition).copies ≠ true := by
      intro hmore
      rw [room_mono hgrows.copies hmore] at hroom
      cases hroom
    cases hfollows with
    | dangling _ => exact ⟨passes + enough, depth, (map_dangling_iff _).mp hsettled⟩
    | endless hmore _ => exact absurd hmore hnoRoom
    | done hmore _ _ _ => exact absurd hmore hnoRoom

end Instances

section Services

/-- Neither service reads a node where there is none any more. -/
def PointersSurvive (host : Host) (memory : Nat → Bool) (w : World) (item : AddNodesItem) (nodeId : NodeId)
    (deleteReferences : Bool) : Prop :=
  (∀ passes depth, NodePointers.addNodesSingle host memory passes depth w item ≠ .dangling) ∧
    ∀ passes, NodePointers.deleteNodesSingle host memory passes w nodeId deleteReferences ≠ .dangling

/-- If the node is added, the table takes all copies that its type asks for
without being moved. -/
def HasRoom (host : Host) (memory : Nat → Bool) (w : World) (item : AddNodesItem) : Prop :=
  ∀ r w', NodePointers.addNode host memory w item = .done (r, w') → r.statusCode = good →
    isNull item.typeDefinition = false → ∀ c, typeClass item = some c → ∀ passes depth,
      room host memory w' (demand host w'.state.space passes depth c true item.typeDefinition).copies = true

theorem instantiateNode_nothing (h : isNull item.typeDefinition = true ∨ typeClass item = none) (passes depth : Nat) :
    NodePointers.instantiateNode host memory passes depth w item id = .done (good, w) := by
  rw [NodePointers.instantiateNode]
  rcases h with hnull | hc
  · rw [if_pos hnull]
  · rw [typeClass] at hc
    split at hc
    · cases hc
    next hobject =>
    split at hc
    · cases hc
    next hvariable =>
    rw [if_neg hobject, if_neg hvariable]
    split <;> rfl

theorem addNodesSingle_dangling_iff {r : AddNodesResult}
    (hrun : NodePointers.addNode host memory w item = .done (r, w'))
    (passes depth : Nat) : NodePointers.addNodesSingle host memory passes depth w item = .dangling ↔
      r.statusCode = good ∧ NodePointers.instantiateNode host memory passes depth w' item r.addedNodeId =
        .dangling := by
  rw [NodePointers.addNodesSingle, hrun, Access.done_bind]
  dsimp only
  by_cases hgood : r.statusCode = good
  · rw [if_neg (not_not.mpr hgood)]
    cases hinstance : NodePointers.instantiateNode host memory passes depth w' item r.addedNodeId with
    | endless => exact ⟨nofun, fun h => nomatch h.2⟩
    | dangling => exact ⟨fun _ => ⟨hgood, rfl⟩, fun _ => rfl⟩
    | done r' =>
        refine iff_of_false (fun hdangling => ?_) (fun h => nomatch h.2)
        rw [Access.done_bind] at hdangling
        split at hdangling
        · rw [map_dangling_iff] at hdangling
          exact deleteNodesSingle_safe host memory passes _ _ _ hdangling
        · cases hdangling
  · rw [if_pos hgood]
    exact iff_of_false nofun (fun h => hgood h.1)

theorem inserted_of_good {r : AddNodesResult} (h : Attempt host memory w item r w') (hgood : r.statusCode = good) :
    ∃ n t, nodeFromItem host item = .ok n ∧ Accepted host w.state n item.parentNodeId item.referenceTypeId ∧
      r = ⟨good, insertedId host w.state n.nodeId⟩ ∧ w' = ⟨(NodeCreation.addNode host w.state item).2, t⟩ := by
  cases h with
  | refused hbad _ _ => exact absurd hgood hbad
  | @noMemory n _ _ _ => exact absurd hgood (notInserted_bad n)
  | @taken n _ _ _ _ _ => exact absurd hgood (notInserted_bad n)
  | @inserted n t hn haccepted _ => exact ⟨n, t.counted, hn, haccepted, rfl, rfl⟩

theorem pointers_survive_iff (host : Host) (memory : Nat → Bool) (w : World) (item : AddNodesItem) (nodeId : NodeId)
    (deleteReferences : Bool) (hnull : ¬ Stored w.state.space nullId) (hunclaimed : Unclaimed host w.state) :
    PointersSurvive host memory w item nodeId deleteReferences ↔ HasRoom host memory w item := by
  obtain ⟨r, w', hrun, hattempt⟩ := addNode_attempt host memory w item
  have hdelete := fun passes => deleteNodesSingle_safe host memory passes w nodeId deleteReferences
  have hadd : PointersSurvive host memory w item nodeId deleteReferences ↔ (r.statusCode = good →
      ¬ ∃ passes depth, NodePointers.instantiateNode host memory passes depth w' item r.addedNodeId = .dangling) := by
    rw [PointersSurvive, and_iff_left hdelete]
    constructor
    · rintro h hgood ⟨passes, depth, hdangling⟩
      exact h passes depth ((addNodesSingle_dangling_iff hrun passes depth).mpr ⟨hgood, hdangling⟩)
    · intro h passes depth hdangling
      obtain ⟨hgood, hinstance⟩ := (addNodesSingle_dangling_iff hrun passes depth).mp hdangling
      exact h hgood ⟨passes, depth, hinstance⟩
  have hroom : HasRoom host memory w item ↔ (r.statusCode = good → isNull item.typeDefinition = false → ∀ c,
      typeClass item = some c → ¬ ∃ passes depth,
        room host memory w' (demand host w'.state.space passes depth c true item.typeDefinition).copies = false) := by
    constructor
    · rintro h hgood hdefined c hc ⟨passes, depth, hno⟩
      rw [h r w' hrun hgood hdefined c hc passes depth] at hno
      cases hno
    · intro h r' w'' hrun' hgood hdefined c hc passes depth
      cases hrun.symm.trans hrun'
      rw [← Bool.not_eq_false]
      exact fun hno => h hgood hdefined c hc ⟨passes, depth, hno⟩
  rw [hadd, hroom]
  refine imp_congr_right (fun hgood => ?_)
  obtain ⟨n, t, hn, haccepted, rfl, rfl⟩ := inserted_of_good hattempt hgood
  by_cases hnothing : isNull item.typeDefinition = true ∨ typeClass item = none
  · refine iff_of_true ?_ ?_
    · rintro ⟨passes, depth, hdangling⟩
      rw [instantiateNode_nothing hnothing] at hdangling
      cases hdangling
    · intro hdefined c hc
      rcases hnothing with hnone | hnone
      · rw [hdefined] at hnone
        cases hnone
      · rw [hc] at hnone
        cases hnone
  · obtain ⟨hdefined, c, hc⟩ : isNull item.typeDefinition = false ∧ ∃ c, typeClass item = some c := by
      rw [not_or, Bool.not_eq_true, ← ne_eq, Option.ne_none_iff_exists'] at hnothing
      exact hnothing
    have hstart := started_addNode hn haccepted hc hnull hunclaimed
    rw [instance_dangling_iff hstart t hdefined hc]
    constructor
    · intro h _ c' hc'
      obtain rfl := Option.some.inj (hc.symm.trans hc')
      exact h
    · intro h
      exact h hdefined c hc

def furnished (s : AddressSpace) : Nat → AddressSpace
  | 0 => s
  | more + 1 =>
      let n := plainObject (numericId 1 (UInt32.ofNat (1000 + more))) []
      if h : (furnished s more).get n.nodeId = none then (furnished s more).insert n h else furnished s more

/-- A store of the size that it is created with. It holds an object type with
one object below it. -/
def sampleWorld (more : Nat) : World :=
  ⟨⟨furnished (addReferencesSingle sampleTypeSpace (childItem (numericId 1 12))).2 more, ⟨[], 5⟩, 0, 0, []⟩,
    ⟨127, more + 5, 0⟩⟩

/-- The instance is the last node for which there is room. Its child is copied
next. -/
theorem dangling_sampleWorld :
    ¬ PointersSurvive sampleHost (fun _ => true) (sampleWorld 90) sampleInstance nullId false := by
  rintro ⟨hadd, _⟩
  refine hadd 3 1 (Access.eq_dangling ?_)
  decide +kernel

theorem pointers_survive_sampleWorld :
    PointersSurvive sampleHost (fun _ => true) (sampleWorld 0) sampleInstance nullId false := by
  have hmirrored : Mirrored (sampleWorld 0).state.space :=
    mirrored_addReferences ⟨_, rfl⟩ ⟨_, rfl⟩ (mirrored_of_no_references (by decide))
  refine (pointers_survive_iff sampleHost _ (sampleWorld 0) sampleInstance nullId false (by rintro ⟨_, hn⟩; cases hn)
    (unclaimed_of_mirrored hmirrored)).mpr ?_
  intro r w' hrun _ _ c hc passes depth
  obtain rfl : NodeClass.objectType = c := Option.some.inj hc
  obtain ⟨rfl, rfl⟩ : r = ⟨good, numericId 1 20⟩ ∧
      w' = ⟨(addNode sampleHost (sampleWorld 0).state sampleInstance).2, ⟨127, 6, 0⟩⟩ := by
    cases hrun
    exact ⟨rfl, rfl⟩
  set s := (addNode sampleHost (sampleWorld 0).state sampleInstance).2.space
  have htypes : relevantTypes 2 s (typeBrowse s (numericId 1 10)) = some (.ok (some [numericId 0 aggregates])) := rfl
  have hone : (demand sampleHost s passes depth .objectType true (numericId 1 10)).copies ≤ 1 := by
    cases depth with
    | zero => exact Nat.zero_le 1
    | succ depth =>
        rw [demand]
        split
        · exact Nat.zero_le 1
        · split
          · exact Nat.zero_le 1
          · next outcome houtcome =>
            obtain rfl := InstantiationLoops.relevantTypes_unique htypes houtcome
            let child : ReferenceDescription := ⟨numericId 0 aggregates, false, ⟨numericId 1 12, none, 0⟩, ⟨0, none⟩,
              ⟨none, none⟩, nodeClassValue .object, nullExpandedNodeId⟩
            have hchild : (found s (typeBrowse s (numericId 1 10)) (.ok (some [numericId 0 aggregates]))).take 100 =
                [child] := by decide
            have hnone : (refsAt s child.nodeId.nodeId).filter definesType = [] := by decide
            rw [hchild, Demand.each, Demand.each, andThen_nothing]
            change (copyDemand sampleHost s (demand sampleHost s passes depth .objectType) true child).copies ≤ 1
            rw [copyDemand, hnone, Demand.each, andThen_nothing]
            exact Bool.toNat_le (isInserted sampleHost s true child)
  exact room_mono hone rfl

end Services

end OpcUa.PointerSurvival
