import OpcUa.InstantiationEnds

namespace OpcUa.CyclicTypes

open StatusCodes NodeIds DataTypes AddressSpaces References SubTypes Worklists Browsing NodeManagement NodeCreation
  MirroredReferences NodeDeletion AddedNodes NodeAdditions FailedNodes Instantiations TypeContainment
  InstantiationLoops InstantiationEnds Relation
open NodeStores (NodeClass)

variable {host : Host} {base st st' : State} {s : AddressSpace} {fuel : Nat}
  {id a source referenceType parent typeId : NodeId}
  {r : StatusCode × State}

section Requests

/-- The searches below a type end, and no type there contains itself. -/
def Bounded (s : AddressSpace) (typeId : NodeId) : Prop :=
  ∀ other, ReflTransGen (Contains s) typeId other → Searched s other ∧ ¬ TransGen (Contains s) other other

theorem contains_finite (s : AddressSpace) (typeId : NodeId) :
    {other | ReflTransGen (Contains s) typeId other}.Finite := by
  let targets : List NodeId := s.nodes.flatMap (fun n => n.references.map (·.targetId.nodeId))
  refine Set.Finite.subset (List.finite_toSet (typeId :: targets)) ?_
  intro other hother
  rcases ReflTransGen.cases_tail hother with rfl | ⟨b, _, hlast⟩
  · exact List.mem_cons_self
  · obtain ⟨_, _, _, _, rd, _, r, hr, _, htarget, _⟩ := hlast
    rw [refsAt] at hr
    cases hn : s.get rd.nodeId.nodeId with
    | none =>
        rw [hn] at hr
        cases hr
    | some n =>
        rw [hn] at hr
        refine List.mem_cons_of_mem _ (List.mem_flatMap.mpr ⟨n, (get_eq_some.mp hn).1, ?_⟩)
        exact List.mem_map.mpr ⟨r, hr, htarget⟩

theorem unfolds_iff_bounded : Unfolds s typeId ↔ Bounded s typeId := by
  rw [Unfolds, acc_iff_acyclic (contains_finite s typeId), Bounded]
  constructor
  · rintro ⟨hacyclic, hsearched⟩ other hother
    exact ⟨hsearched other hother, hacyclic other hother⟩
  · intro h
    exact ⟨fun other hother => (h other hother).2, fun other hother => (h other hother).1⟩

theorem object_ends_iff (hstart : Started host id base) (hclass : classAt base.space typeId = some .objectType) :
    (∃ fuel r, instantiateObjectNode host fuel base id typeId = some r) ↔ Bounded base.space typeId := by
  have hid : worked id base id := .inl (nodeIdEqual_refl id)
  rw [← unfolds_iff_bounded]
  constructor
  · rintro ⟨fuel, r, hr⟩
    exact object_unfolds hstart hid hstart.grown hclass hr
  · rintro ⟨hacc, hsearched⟩
    obtain ⟨fuel, outcome, houtcome⟩ := hsearched typeId .refl
    have hreached : ∀ {other}, Contains base.space typeId other → ∀ b, ReflTransGen (Contains base.space) other b →
        Searched base.space b := fun hother b hb => hsearched b (.head hother hb)
    obtain ⟨fuel, references, mid, last, hbrowse, hloop⟩ := children_end hstart hclass houtcome
      (fun other hother => object_endsAt hstart (hacc.inv hother) (hreached hother))
      (fun other hother => variable_endsAt hstart (hacc.inv hother) (hreached hother)) hstart.grown hid
    rw [classAt_eq] at hclass
    obtain ⟨type, htype, hobject⟩ := Option.map_eq_some_iff.mp hclass
    exact ⟨_, object_of_loop htype hobject hbrowse hloop⟩

theorem variable_ends_iff (hstart : Started host id base) (hclass : classAt base.space typeId = some .variableType) :
    (∃ fuel r, instantiateVariableNode host fuel base id typeId = some r) ↔ Bounded base.space typeId := by
  have hid : worked id base id := .inl (nodeIdEqual_refl id)
  rw [← unfolds_iff_bounded]
  constructor
  · rintro ⟨fuel, r, hr⟩
    exact variable_unfolds hstart hid hstart.grown hclass hr
  · rintro ⟨hacc, hsearched⟩
    obtain ⟨fuel, outcome, houtcome⟩ := hsearched typeId .refl
    obtain ⟨fuel, references, mid, last, hbrowse, hloop⟩ := properties_end hstart hclass houtcome
      (fun other hother => variable_endsAt hstart (hacc.inv hother) (fun b hb => hsearched b (.head hother hb)))
      hstart.grown hid
    rw [classAt_eq] at hclass
    obtain ⟨type, htype, hvariable⟩ := Option.map_eq_some_iff.mp hclass
    exact ⟨_, variable_of_loop htype hvariable hbrowse hloop⟩

variable {item : AddNodesItem} {n : Node} {c : NodeClass}

theorem hasTypesOf_typeClass (hc : typeClass item = some c) : HasTypesOf item.nodeClass c := by
  rw [typeClass] at hc
  split at hc
  · rename_i hobject
    exact .inl ⟨hobject, (Option.some.inj hc).symm⟩
  split at hc
  · rename_i hvariable
    exact .inr ⟨hvariable, (Option.some.inj hc).symm⟩
  · cases hc

theorem started_addNode (hn : nodeFromItem host item = .ok n)
    (h : Accepted host st n item.parentNodeId item.referenceTypeId) (hc : typeClass item = some c)
    (hnull : ¬ Stored st.space nullId) (hunclaimed : Unclaimed host st) :
    Started host (insertedId host st n.nodeId) (addNode host st item).2 := by
  have hnew := nodeFromItem_references hn
  have hstored : ∀ a, Stored (addNode host st item).2.space a ↔ nodeIdEqual (insertedId host st n.nodeId) a = true ∨
      Stored st.space a := by
    intro a
    rw [addNode_accepted hn]
    exact stored_addExistingNode h
  refine ⟨?_, ?_, ?_, ?_⟩
  · rw [hstored]
    rintro (hsame | hsame)
    · rw [nodeIdEqual_comm, insertedId_ne_null] at hsame
      cases hsame
    · exact hnull hsame
  · intro a r hr i hi hid
    have hinserts : st.inserts ≤ i := by
      rw [addNode_accepted hn, addExistingNode_accepted h] at hi
      exact Nat.le_of_succ_le hi
    rw [hstored]
    rw [addNode_accepted hn, refsAt_addExistingNode h hnew] at hr
    rcases List.mem_append.mp hr with hr | hr
    · rcases List.mem_append.mp hr with hr | hr
      · exact .inr (hunclaimed a r hr i hinserts hid)
      · split at hr
        · obtain rfl := List.mem_singleton.mp hr
          exact .inr h.parent
        · cases hr
    · split at hr
      · obtain rfl := List.mem_singleton.mp hr
        exact .inl (nodeIdEqual_refl _)
      · cases hr
  · have hnode := nodeClass_addExistingNode h (insertedId host st n.nodeId)
    rw [if_pos (nodeIdEqual_refl _), ← addNode_accepted hn, ← classAt_eq] at hnode
    rw [hnode]
    rcases hasTypesOf_typeClass hc with ⟨hobject, _⟩ | ⟨hvariable, _⟩
    · exact .inl (congrArg some (nodeClassValue_inj ((nodeFromItem_class hn).symm.trans hobject)))
    · exact .inr (congrArg some (nodeClassValue_inj ((nodeFromItem_class hn).symm.trans hvariable)))
  · intro r hr
    rw [addNode_accepted hn, refsAt_new h hnew] at hr
    obtain rfl := List.mem_singleton.mp hr
    rfl

theorem instantiateNode_ends_iff (hstart : Started host id base) (hdefined : isNull item.typeDefinition = false)
    (hc : typeClass item = some c) (hclass : classAt base.space item.typeDefinition = some c) :
    (∃ fuel r, instantiateNode host fuel base item id = some r) ↔ Bounded base.space item.typeDefinition := by
  rcases hasTypesOf_typeClass hc with ⟨hobject, rfl⟩ | ⟨hvariable, rfl⟩
  · rw [← object_ends_iff hstart hclass]
    refine exists_congr fun fuel => exists_congr fun r => ?_
    rw [instantiateNode, hdefined, if_neg Bool.false_ne_true, if_pos hobject]
  · rw [← variable_ends_iff hstart hclass]
    refine exists_congr fun fuel => exists_congr fun r => ?_
    rw [instantiateNode, hdefined, if_neg Bool.false_ne_true, hvariable, if_neg (by decide), if_pos rfl]

theorem instantiateNode_nothing (h : isNull item.typeDefinition = true ∨ typeClass item = none) :
    instantiateNode host fuel st item id = some (good, st) := by
  rw [instantiateNode]
  rcases h with hnull | hc
  · rw [if_pos hnull]
  · rw [typeClass] at hc
    split at hc
    · cases hc
    rename_i hobject
    split at hc
    · cases hc
    rename_i hvariable
    rw [if_neg hobject, if_neg hvariable]
    split <;> rfl

theorem instantiateNode_zero (hdefined : isNull item.typeDefinition = false) (hc : typeClass item = some c) :
    instantiateNode host 0 st item id = none := by
  rw [instantiateNode, hdefined, if_neg Bool.false_ne_true]
  rcases hasTypesOf_typeClass hc with ⟨hobject, _⟩ | ⟨hvariable, _⟩
  · rw [if_pos hobject]
    rfl
  · rw [hvariable, if_neg (by decide), if_pos rfl]
    rfl

theorem not_untyped (hc : typeClass item = some c) (hclass : classAt s item.typeDefinition = some c) :
    ¬ Untyped s item := by
  rintro ⟨_, c', hc', hother⟩
  obtain rfl := Option.some.inj (hc.symm.trans hc')
  rw [← classAt_eq] at hother
  exact hother hclass

/-- With a type of the right class nothing is removed again. -/
theorem typed_ends_iff (hn : nodeFromItem host item = .ok n)
    (h : Accepted host st n item.parentNodeId item.referenceTypeId) (hnull : ¬ Stored st.space nullId)
    (hunclaimed : Unclaimed host st) (hdefined : isNull item.typeDefinition = false) (hc : typeClass item = some c)
    (hclass : classAt (addNode host st item).2.space item.typeDefinition = some c) :
    (∃ fuel r, addNodesSingle host fuel st item = some r) ↔
      Bounded (addNode host st item).2.space item.typeDefinition := by
  rw [← instantiateNode_ends_iff (started_addNode hn h hc hnull hunclaimed) hdefined hc hclass]
  constructor
  · rintro ⟨fuel, r, hr⟩
    rw [addNodesSingle_accepted hn h] at hr
    obtain ⟨r', hr', _⟩ := Option.bind_eq_some_iff.mp hr
    exact ⟨fuel, r', hr'⟩
  · rintro ⟨fuel, ⟨status, last⟩, hr⟩
    refine ⟨fuel, (⟨good, insertedId host st n.nodeId⟩, last), ?_⟩
    rw [addNodesSingle_accepted hn h, hr, Option.bind_some]
    exact if_neg (fun hbad => not_untyped hc hclass (instantiateNode_bad hr hbad).2)

/-- Without such a type the node is removed again. -/
theorem untyped_ends_iff (hn : nodeFromItem host item = .ok n)
    (h : Accepted host st n item.parentNodeId item.referenceTypeId)
    (huntyped : Untyped (addNode host st item).2.space item) :
    (∃ fuel r, addNodesSingle host fuel st item = some r) ↔
      (item.nodeClass = nodeClassValue .object → SearchEnds st.space) := by
  rw [← deletion_ends_iff hn h]
  constructor
  · rintro ⟨fuel, r, hr⟩
    rw [addNodesSingle_accepted hn h] at hr
    obtain ⟨⟨status, last⟩, hinstantiate, hrest⟩ := Option.bind_eq_some_iff.mp hr
    have ⟨hdefined, c, hc, _⟩ := huntyped
    cases fuel with
    | zero =>
        rw [instantiateNode_zero hdefined hc] at hinstantiate
        cases hinstantiate
    | succ fuel =>
        obtain ⟨bad, hbad, hfails⟩ : ∃ bad, bad ≠ good ∧ instantiateNode host (fuel + 1) (addNode host st item).2 item
            (insertedId host st n.nodeId) = some (bad, (addNode host st item).2) := instantiateNode_untyped huntyped
        cases hfails.symm.trans hinstantiate
        rw [if_pos hbad] at hrest
        obtain ⟨d, hdelete, _⟩ := Option.map_eq_some_iff.mp hrest
        exact ⟨fuel + 1, d, hdelete⟩
  · rintro ⟨fuel, d, hdelete⟩
    obtain ⟨bad, hbad, hfails⟩ : ∃ bad, bad ≠ good ∧ instantiateNode host (fuel + 1) (addNode host st item).2 item
        (insertedId host st n.nodeId) = some (bad, (addNode host st item).2) := instantiateNode_untyped huntyped
    refine ⟨fuel + 1, (⟨bad, insertedId host st n.nodeId⟩, d.2), ?_⟩
    rw [addNodesSingle_accepted hn h, hfails, Option.bind_some, if_pos hbad, deleteNodesSingle_mono hdelete 1]
    rfl

/-- The service ends if and only if, for a node that is added, no type that is
reached contains itself and the searches for children end, and the search for
the types of an object that has to be removed ends. -/
theorem addNodes_ends_iff (host : Host) (st : State) (item : AddNodesItem) (hnull : ¬ Stored st.space nullId)
    (hunclaimed : Unclaimed host st) :
    (∃ fuel r, addNodesSingle host fuel st item = some r) ↔
      ∀ n, nodeFromItem host item = .ok n → Accepted host st n item.parentNodeId item.referenceTypeId →
        (Untyped st.space item → item.nodeClass = nodeClassValue .object → SearchEnds st.space) ∧
          ∀ c, isNull item.typeDefinition = false → typeClass item = some c →
            classAt (addNode host st item).2.space item.typeDefinition = some c →
              Bounded (addNode host st item).2.space item.typeDefinition := by
  rcases addNode_cases host st item with ⟨hbad, _⟩ | ⟨n, hn, haccepted⟩
  · refine iff_of_true ⟨0, _, if_pos hbad⟩ ?_
    intro n hn haccepted
    rw [added_accepted hn haccepted] at hbad
    exact absurd rfl hbad
  have hforall : ∀ {p : Node → Prop}, (∀ m, nodeFromItem host item = .ok m →
      Accepted host st m item.parentNodeId item.referenceTypeId → p m) ↔ p n := by
    intro p
    constructor
    · exact fun h => h n hn haccepted
    · intro hp m hm _
      obtain rfl := Except.ok.inj (hn.symm.trans hm)
      exact hp
  rw [hforall]
  by_cases hnothing : isNull item.typeDefinition = true ∨ typeClass item = none
  · have hends : ∃ fuel r, addNodesSingle host fuel st item = some r :=
      ⟨0, _, by rw [addNodesSingle_accepted hn haccepted, instantiateNode_nothing hnothing]; rfl⟩
    have hnone : ∀ c, isNull item.typeDefinition = false → typeClass item ≠ some c := by
      intro c hdefined hc
      rcases hnothing with hnull | hnone
      · cases hdefined.symm.trans hnull
      · cases hc.symm.trans hnone
    refine iff_of_true hends ⟨?_, fun c hdefined hc => absurd hc (hnone c hdefined)⟩
    rintro ⟨hdefined, c, hc, _⟩
    exact absurd hc (hnone c hdefined)
  obtain ⟨hdefined, c, hc⟩ : isNull item.typeDefinition = false ∧ ∃ c, typeClass item = some c := by
    rw [not_or, Bool.not_eq_true, ← ne_eq, Option.ne_none_iff_exists'] at hnothing
    exact hnothing
  by_cases hclass : classAt (addNode host st item).2.space item.typeDefinition = some c
  · rw [typed_ends_iff hn haccepted hnull hunclaimed hdefined hc hclass, ← untyped_added_iff hn haccepted]
    constructor
    · exact fun hbounded => ⟨fun h => absurd h (not_untyped hc hclass), fun _ _ _ _ => hbounded⟩
    · exact fun h => h.2 c hdefined hc hclass
  · have huntyped : Untyped (addNode host st item).2.space item := by
      rw [classAt_eq] at hclass
      exact ⟨hdefined, c, hc, hclass⟩
    rw [untyped_ends_iff hn haccepted huntyped, ← untyped_added_iff hn haccepted]
    constructor
    · refine fun hsearch => ⟨fun _ => hsearch, fun c' _ hc' hclass' => ?_⟩
      obtain rfl := Option.some.inj (hc.symm.trans hc')
      exact absurd hclass' hclass
    · exact fun h => h.1 huntyped

theorem unclaimed_of_mirrored (h : Mirrored st.space) : Unclaimed host st := by
  intro a r hr _ _ _
  have hpositive : 0 < count st.space r.isInverse a r.targetId.nodeId r.referenceTypeId := by
    refine List.countP_pos_iff.mpr ⟨r, hr, ?_⟩
    simp [links, nodeIdEqual_refl]
  have hmirror : 0 < count st.space (!r.isInverse) r.targetId.nodeId a r.referenceTypeId := by
    cases hinverse : r.isInverse with
    | false =>
        rw [hinverse, h] at hpositive
        exact hpositive
    | true =>
        rw [hinverse, ← h] at hpositive
        exact hpositive
  obtain ⟨r', hr', _⟩ := List.countP_pos_iff.mp hmirror
  rw [Stored]
  rw [refsAt] at hr'
  cases hn : st.space.get r.targetId.nodeId with
  | none =>
      rw [hn] at hr'
      cases hr'
  | some n => exact ⟨n, rfl⟩

def sampleSpace (source referenceTypeId target : NodeId) : State :=
  ⟨(addReferencesSingle (addReferencesSingle sampleTypeSpace (childItem (numericId 1 12))).2
    ⟨source, referenceTypeId, true, none, ⟨target, none, 0⟩⟩).2, ⟨[], 5⟩, 0, 0, []⟩

theorem mirrored_sampleSpace {source target : NodeId} (referenceTypeId : NodeId)
    (hsource : Stored sampleTypeSpace source)
    (htarget : Stored sampleTypeSpace target) : Mirrored (sampleSpace source referenceTypeId target).space := by
  refine mirrored_addReferences (stored_addReferences hsource) (stored_addReferences htarget)
    (mirrored_addReferences ⟨_, rfl⟩ ⟨_, rfl⟩ (mirrored_of_no_references ?_))
  simp [sampleTypeSpace, plainReferenceType, plainObject, plainNode]

def sampleChildren : State := sampleSpace (numericId 1 10) (numericId 0 aggregates) (numericId 1 11)

theorem addNodes_ends_sampleChildren :
    ∃ fuel r, addNodesSingle sampleHost fuel sampleChildren sampleInstance = some r := by
  refine (addNodes_ends_iff sampleHost sampleChildren sampleInstance (by rintro ⟨_, hn⟩; cases hn)
    (unclaimed_of_mirrored (mirrored_sampleSpace _ ⟨_, rfl⟩ ⟨_, rfl⟩))).mpr ?_
  intro n hn haccepted
  refine ⟨?_, ?_⟩
  · rintro ⟨_, c, hc, hother⟩
    obtain rfl : NodeClass.objectType = c := Option.some.inj hc
    exact absurd rfl hother
  intro c _ _ _
  set s := (addNode sampleHost sampleChildren sampleInstance).2.space
  have htypes : relevantTypes 2 s (typeBrowse s (numericId 1 10)) = some (.ok (some [numericId 0 aggregates])) := rfl
  have hnothing : ∀ other, ¬ Contains s (numericId 1 10) other := by
    rintro other ⟨_, fuel, outcome, houtcome, rd, hrd, r, hr, hdefines, _⟩
    obtain rfl := relevantTypes_unique htypes houtcome
    have hnone : ∀ rd ∈ (found s (typeBrowse s (numericId 1 10)) (.ok (some [numericId 0 aggregates]))).take 100,
        ∀ r ∈ refsAt s rd.nodeId.nodeId, definesType r = false := by decide
    rw [hnone rd hrd r hr] at hdefines
    cases hdefines
  intro other hother
  rcases ReflTransGen.cases_head hother with rfl | ⟨b, hb, _⟩
  · refine ⟨⟨2, _, htypes⟩, ?_⟩
    intro hself
    obtain ⟨b, hb, _⟩ := TransGen.head'_iff.mp hself
    exact hnothing b hb
  · exact absurd hb (hnothing b)

def sampleCycle : State := sampleSpace (numericId 1 12) (numericId 0 hasTypeDefinition) (numericId 1 10)

/-- After two references have been added, the service does not end for any
instance of the type. -/
theorem addNodes_endless_sampleCycle :
    Batches.batch (MirroredReferences.perform sampleHost 9) ⟨sampleTypeSpace, ⟨[], 5⟩, 0, 0, []⟩
        [.addReferences (childItem (numericId 1 12)),
          .addReferences ⟨numericId 1 12, numericId 0 hasTypeDefinition, true, none, ⟨numericId 1 10, none, 0⟩⟩] =
      some ([good, good], sampleCycle) ∧
      ∀ fuel, addNodesSingle sampleHost fuel sampleCycle sampleInstance = none := by
  refine ⟨rfl, fun fuel => ?_⟩
  set base := (addNode sampleHost sampleCycle sampleInstance).2 with hbase
  have hstart : Started sampleHost (numericId 1 20) base := by
    have hmirrored : Mirrored sampleCycle.space := mirrored_sampleSpace _ ⟨_, rfl⟩ ⟨_, rfl⟩
    refine started_addNode (n := objectNodeFromAttributes sampleInstance
      ⟨⟨none, none⟩, ⟨none, none⟩, 0, 0⟩ 0) rfl ?_ rfl
      (by rintro ⟨_, hn⟩; cases hn) (unclaimed_of_mirrored hmirrored)
    exact ⟨by decide, ⟨_, rfl⟩, ⟨_, _, _, _, rfl, rfl, by decide⟩, rfl⟩
  have hself : Contains base.space (numericId 1 10) (numericId 1 10) := by
    let child : ReferenceDescription := ⟨numericId 0 aggregates, false, ⟨numericId 1 12, none, 0⟩,
      ⟨0, none⟩, ⟨none, none⟩,
      nodeClassValue .object, nullExpandedNodeId⟩
    let type : ReferenceNode := ⟨numericId 0 hasTypeDefinition, false, ⟨numericId 1 10, none, 0⟩⟩
    have hchild : (found base.space (typeBrowse base.space (numericId 1 10))
      (.ok (some [numericId 0 aggregates]))).take 100 =
        [child] := by decide
    have htype : type ∈ refsAt base.space child.nodeId.nodeId := by decide
    have htypes : relevantTypes 2 base.space (typeBrowse base.space (numericId 1 10)) =
        some (.ok (some [numericId 0 aggregates])) := rfl
    exact ⟨.inl rfl, 2, _, htypes, child, by rw [hchild]; exact List.mem_singleton_self _, type, htype, rfl, rfl,
      .objectType,
      rfl, .inl ⟨rfl, rfl⟩⟩
  refine Option.eq_none_iff_forall_ne_some.mpr ?_
  intro r hr
  obtain ⟨r', hr', _⟩ := Option.bind_eq_some_iff.mp (show (instantiateNode sampleHost fuel base sampleInstance
    (numericId 1 20)).bind _ = some r from hr)
  have hbounded : Bounded base.space (numericId 1 10) :=
    (instantiateNode_ends_iff hstart (rfl : isNull sampleInstance.typeDefinition = false)
      (rfl : typeClass sampleInstance = some .objectType) rfl).mp ⟨fuel, r', hr'⟩
  exact (hbounded (numericId 1 10) .refl).2 (.single hself)

end Requests

end OpcUa.CyclicTypes
