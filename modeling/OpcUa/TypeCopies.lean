import OpcUa.InstanceCopies

namespace OpcUa.TypeCopies

open StatusCodes NodeIds DataTypes AddressSpaces References SubTypes Browsing NodeManagement NodeCreation StoreTables
  MirroredReferences AddedNodes NodeAdditions Instantiations TypeContainment InstantiationLoops InstantiationEnds
  TableRoom CopyDemands InstanceCopies
open NodePointers (Access Pointer World Instantiation)
open NodeStores (NodeClass)

variable {host : Host} {memory : Nat → Bool} {base st' : State} {w w' : World} {id a typeId : NodeId} {stored : Bool}
  {depth : Nat} {c : NodeClass} {rd : ReferenceDescription} {outcome : Except StatusCode RelevantTypes}

section Types

theorem checkedType_other {instantiate : Pointer → Access (StatusCode × World)}
    (h : classAt w.state.space typeId ≠ some c) :
    ∃ status, NodePointers.checkedType c w typeId instantiate = .done (status, w) := by
  rw [classAt_eq] at h
  rw [NodePointers.checkedType]
  cases hn : w.state.space.get typeId with
  | none =>
      rw [get_of_none hn]
      exact ⟨_, rfl⟩
  | some n =>
      rw [hn, Option.map_some] at h
      rw [get_of_stored hn]
      dsimp only
      rw [read_of_stored rfl hn, Access.done_bind, if_pos (fun hsame => h (congrArg some hsame))]
      exact ⟨_, rfl⟩

theorem checkedType_eq {instantiate : Pointer → Access (StatusCode × World)}
    (h : classAt w.state.space typeId = some c) :
    NodePointers.checkedType c w typeId instantiate = instantiate ⟨typeId, w.table.block⟩ := by
  rw [classAt_eq] at h
  obtain ⟨n, hn, hclass⟩ := Option.map_eq_some_iff.mp h
  rw [NodePointers.checkedType, get_of_stored hn]
  dsimp only
  rw [read_of_stored rfl hn, Access.done_bind, if_neg (not_not.mpr hclass)]

theorem body_of_variable {n : Node} (h : n.nodeClass = .variable) : ∃ members, n.body = .variable members := by
  rw [Node.nodeClass] at h
  cases hbody : n.body with
  | «variable» members => exact ⟨members, rfl⟩
  | _ =>
      rw [hbody] at h
      cases h

theorem body_of_object {n : Node} (h : n.nodeClass = .object) : ∃ eventNotifier handle,
    n.body = .object eventNotifier handle := by
  rw [Node.nodeClass] at h
  cases hbody : n.body with
  | object eventNotifier handle => exact ⟨eventNotifier, handle, rfl⟩
  | _ =>
      rw [hbody] at h
      cases h

theorem after_browsed {passes : Nat} {descr : BrowseDescription} {references : List ReferenceDescription}
    (h : NodeCreation.browseTypes host passes w.state descr = some (references, st')) :
    After host memory w 0 ⟨st', w.table⟩ := by
  obtain ⟨⟨result, session⟩, _, heq⟩ := Option.map_eq_some_iff.mp h
  cases heq
  exact after_of_same rfl rfl (fun _ => .rfl)

theorem browse_done {passes : Nat} {descr : BrowseDescription} {references : List ReferenceDescription}
    (h : NodeCreation.browseTypes host passes w.state descr = some (references, st')) :
    NodePointers.browseTypes host passes w descr = .done (references, ⟨st', w.table⟩) := by
  rw [NodePointers.browseTypes, h]
  rfl

end Types

section Children

variable {inst : Nat → Instantiation} {below : Nat → Bool → NodeId → Demand} (hstart : Started host id base)
include hstart

theorem variableChild_follows (hmeets : Meets host memory id base inst below .variableType) (h : Along host id base w)
    (hheld : Holds host memory w a stored) (ha : worked id base a)
    (hclass : classAt base.space rd.nodeId.nodeId = some .variable) :
    Settles host memory (Along host id base) w (fun p => copyDemand host base.space (below p) stored rd) (fun p =>
      (NodePointers.copyExistingVariable host memory (inst p) p w rd.nodeId.nodeId rd.referenceTypeId a).map
        (·.2)) := by
  have hsource := stored_of_classAt hclass
  rw [← h.grown.classAt hsource, classAt_eq] at hclass
  obtain ⟨n, hn, hvariable⟩ := Option.map_eq_some_iff.mp hclass
  obtain ⟨members, hbody⟩ := body_of_variable hvariable
  obtain ⟨m, hm⟩ : ∃ m, nodeFromItem host (variableCopy host n members rd.referenceTypeId a) = .ok m := ⟨_, rfl⟩
  have hitem : IsCopy a (variableCopy host n members rd.referenceTypeId a) := ⟨rfl, .inl rfl, rfl⟩
  have hcopy := copy_follows hstart hmeets h hheld ha hsource hitem rfl hm
  exact hcopy.congr 0 (fun _ _ => rfl) (fun p _ => copyExistingVariable_eq hn hbody p)

theorem objectChild_follows (hmeets : Meets host memory id base inst below .objectType) (h : Along host id base w)
    (hheld : Holds host memory w a stored) (ha : worked id base a)
    (hclass : classAt base.space rd.nodeId.nodeId = some .object) :
    Settles host memory (Along host id base) w (fun p => copyDemand host base.space (below p) stored rd) (fun p =>
      (NodePointers.copyExistingObject host memory (inst p) p w rd.nodeId.nodeId rd.referenceTypeId a).map (·.2)) := by
  have hsource := stored_of_classAt hclass
  rw [← h.grown.classAt hsource, classAt_eq] at hclass
  obtain ⟨n, hn, hobject⟩ := Option.map_eq_some_iff.mp hclass
  obtain ⟨eventNotifier, handle, hbody⟩ := body_of_object hobject
  obtain ⟨m, hm⟩ : ∃ m, nodeFromItem host (objectCopy n eventNotifier rd.referenceTypeId a) = .ok m := ⟨_, rfl⟩
  have hitem : IsCopy a (objectCopy n eventNotifier rd.referenceTypeId a) := ⟨rfl, .inr rfl, rfl⟩
  have hcopy := copy_follows hstart hmeets h hheld ha hsource hitem rfl hm
  exact hcopy.congr 0 (fun _ _ => rfl) (fun p _ => copyExistingObject_eq hn hbody p)

theorem child_follows {objectInst variableInst : Nat → Instantiation} {below : Nat → NodeClass → Bool → NodeId → Demand}
    (hobjects : Meets host memory id base objectInst (fun p => below p .objectType) .objectType)
    (hvariables : Meets host memory id base variableInst (fun p => below p .variableType) .variableType)
    (h : Along host id base w) (hheld : Holds host memory w a stored) (ha : worked id base a)
    (hrd : rd ∈ found base.space (typeBrowse base.space typeId) outcome) :
    Settles host memory (Along host id base) w (fun p => childDemand host base.space (below p) stored rd)
      (fun p => NodePointers.instantiateChild host memory (objectInst p) (variableInst p) p a w rd) := by
  obtain ⟨c, hkind, hvalue⟩ := stored_child hrd
  have hclass : classAt base.space rd.nodeId.nodeId = some c := by
    rw [classAt, hkind]
    rfl
  by_cases hmethod : rd.nodeClass = nodeClassValue .method
  · have hlink : Step host (worked id base) (copied base) w.state
        { w.state with space := (addReferencesSingle w.state.space (methodItem a rd)).2 } := by
      refine .linked w.state (methodItem a rd) rfl rfl (.inr ⟨ha, ?_⟩)
      obtain rfl := nodeClassValue_inj (hvalue.symm.trans hmethod)
      change classAt w.state.space rd.nodeId.nodeId = _
      rw [h.grown.classAt (stored_of_classAt hclass), hclass]
    refine settles_done (fun p => ?_) (fun p => if_pos hmethod) (after_linked (methodItem a rd))
      (along_step hstart h hlink w.table)
    rw [childDemand, typesOf, hmethod, if_neg (by decide), if_neg (by decide)]
  by_cases hvariable : rd.nodeClass = nodeClassValue .variable
  · obtain rfl := nodeClassValue_inj (hvalue.symm.trans hvariable)
    have hcopy := variableChild_follows hstart hvariables h hheld ha hclass
    refine hcopy.congr 0 (fun p _ => ?_) (fun p _ => ?_)
    · rw [childDemand, typesOf, if_pos hvariable]
    · rw [NodePointers.instantiateChild, if_neg hmethod, if_pos hvariable]
  by_cases hobject : rd.nodeClass = nodeClassValue .object
  · obtain rfl := nodeClassValue_inj (hvalue.symm.trans hobject)
    have hcopy := objectChild_follows hstart hobjects h hheld ha hclass
    refine hcopy.congr 0 (fun p _ => ?_) (fun p _ => ?_)
    · rw [childDemand, typesOf, if_neg hvariable, if_pos hobject]
    · rw [NodePointers.instantiateChild, if_neg hmethod, if_neg hvariable, if_pos hobject]
  · refine settles_done (fun p => ?_) (fun p => ?_) (.refl w) h
    · rw [childDemand, typesOf, if_neg hvariable, if_neg hobject]
    · rw [NodePointers.instantiateChild, if_neg hmethod, if_neg hvariable, if_neg hobject]

theorem property_follows {variableInst : Nat → Instantiation} {below : Nat → NodeClass → Bool → NodeId → Demand}
    (hvariables : Meets host memory id base variableInst (fun p => below p .variableType) .variableType)
    (h : Along host id base w) (hheld : Holds host memory w a stored) (ha : worked id base a)
    (htype : classAt base.space typeId = some .variableType)
    (hrd : rd ∈ found base.space (typeBrowse base.space typeId) outcome) :
    Settles host memory (Along host id base) w (fun p => childDemand host base.space (below p) stored rd) (fun p =>
      (NodePointers.copyExistingVariable host memory (variableInst p) p w rd.nodeId.nodeId rd.referenceTypeId a).map
        (·.2)) := by
  obtain ⟨c, hkind, hvalue⟩ := stored_child hrd
  have hbrowse : typeBrowse base.space typeId = propertiesBrowse typeId := by
    rw [typeBrowse, htype]
    rfl
  have hvariable : rd.nodeClass = nodeClassValue .variable := class_of_property (by rw [← hbrowse]; exact hrd)
  obtain rfl := nodeClassValue_inj (hvalue.symm.trans hvariable)
  have hclass : classAt base.space rd.nodeId.nodeId = some .variable := by
    rw [classAt, hkind]
    rfl
  have hcopy := variableChild_follows hstart hvariables h hheld ha hclass
  refine hcopy.congr 0 (fun p _ => ?_) (fun _ _ => rfl)
  rw [childDemand, typesOf, if_pos hvariable]

theorem children_follow {Good : World → Prop} {pass : Nat → World → ReferenceDescription → Access World}
    {final : World → Access (StatusCode × World)} (hc : c = .objectType ∨ c = .variableType)
    (htype : classAt base.space typeId = some c) (h : Along host id base w) (hheld : Holds host memory w a stored)
    (hpass : ∀ outcome, ∀ rd ∈ found base.space (typeBrowse base.space typeId) outcome, ∀ w, Along host id base w →
      Holds host memory w a stored → Settles host memory (Along host id base) w
        (fun p => childDemand host base.space (demand host base.space p depth) stored rd) (fun p => pass p w rd))
    (hfinal : ∀ w', Along host id base w' → w'.table.block = w.table.block →
      ∃ r, final w' = .done r ∧ After host memory w' 0 r.2 ∧ Good r.2) :
    Settles host memory Good w (fun p => demand host base.space p (depth + 1) c stored typeId) (fun p =>
      ((NodePointers.browseTypes host p w (typeBrowse base.space typeId)).bind fun r =>
        (r.1.foldlM (pass p) r.2).bind final).map (·.2)) := by
  have hclass : classAt base.space typeId = some .objectType ∨ classAt base.space typeId = some .variableType := by
    rcases hc with rfl | rfl
    · exact .inl htype
    · exact .inr htype
  by_cases hsearched : Searched base.space typeId
  · obtain ⟨enough, outcome, houtcome⟩ := hsearched
    obtain ⟨mid, hmid, hgrown⟩ := browse_type hstart h.grown hclass houtcome
    have hbrowsed : After host memory w 0 ⟨mid, w.table⟩ := after_browsed hmid
    have hmidAlong : Along host id base ⟨mid, w.table⟩ := along_steps hstart h (step_browseTypes hmid).1 w.table
    let Along' : World → Prop := fun w' =>
      Along host id base w' ∧ Holds host memory w' a stored ∧ w'.table.block = w.table.block
    have hloop : Settles host memory Along' ⟨mid, w.table⟩
        (fun p => Demand.each (childDemand host base.space (demand host base.space p depth) stored)
          ((found base.space (typeBrowse base.space typeId) outcome).take 100))
        (fun p => ((found base.space (typeBrowse base.space typeId) outcome).take 100).foldlM
          (pass p) ⟨mid, w.table⟩) := by
      refine settles_foldlM (fun rd hrd w' hw' => ?_) ⟨hmidAlong, hheld.after hbrowsed, rfl⟩
      have hchild := hpass outcome rd (List.mem_of_mem_take hrd) w' hw'.1 hw'.2.1
      exact hchild.imp (fun w'' _ hafter h'' => ⟨h'', hw'.2.1.after hafter, hafter.block.trans hw'.2.2⟩)
    have hended : Settles host memory Good ⟨mid, w.table⟩
        (fun p => (Demand.each (childDemand host base.space (demand host base.space p depth) stored)
          ((found base.space (typeBrowse base.space typeId) outcome).take 100)).andThen ⟨0, true⟩)
        (fun p => (((found base.space (typeBrowse base.space typeId) outcome).take 100).foldlM (pass p)
          ⟨mid, w.table⟩).bind (fun w' => (final w').map (·.2))) := by
      refine hloop.bind (fun w' _ _ hw' => ?_)
      obtain ⟨r, hr, hafter, hgood⟩ := hfinal w' hw'.1 hw'.2.2
      refine settles_done (fun _ => rfl) (fun _ => ?_) hafter hgood
      rw [hr]
      rfl
    have hall := hended.after room_zero hbrowsed
    refine hall.congr enough (fun p hp => ?_) (fun p hp => ?_)
    · obtain ⟨more, rfl⟩ := Nat.exists_eq_add_of_le hp
      rw [nothing_andThen, andThen_nothing, demand, if_neg (not_not.mpr htype), relevantTypes_mono houtcome more]
    · obtain ⟨more, rfl⟩ := Nat.exists_eq_add_of_le hp
      rw [browse_done (browseTypes_mono hmid more), Access.done_bind, Access.bind_map]
  · -- the search for the types of the children does not end
    have hnone : ∀ p, relevantTypes p base.space (typeBrowse base.space typeId) = none := fun p =>
      Option.eq_none_iff_forall_ne_some.mpr (fun outcome houtcome => hsearched ⟨p, outcome, houtcome⟩)
    refine ⟨.endless, 0, fun p _ => ⟨?_, ?_⟩⟩
    · have hforward : (typeBrowse base.space typeId).browseDirection = browseForward := by
        rw [typeBrowse]
        split <;> rfl
      have hreferences : (NodeCreation.browseTypes host p w.state (typeBrowse base.space typeId)).map (·.1) = _ :=
        browseTypes_references hforward
      rw [relevantTypes_grown hstart h.grown, hnone p, Option.map_none, Option.map_eq_none_iff] at hreferences
      dsimp only
      rw [NodePointers.browseTypes, hreferences]
      rfl
    · dsimp only
      rw [demand, if_neg (not_not.mpr htype), hnone p]
      exact .endless rfl rfl

end Children

section Instances

variable (hstart : Started host id base)
include hstart

theorem variableType_follows {Good : World → Prop}
    (hmeets : Meets host memory id base (fun p => NodePointers.instantiateVariableNode host memory p depth)
      (fun p => demand host base.space p depth .variableType) .variableType)
    (htype : classAt base.space typeId = some .variableType) (h : Along host id base w)
    (hheld : Holds host memory w a stored) (ha : worked id base a)
    (hgood : ∀ w', Along host id base w' → Good (NodePointers.addTypeDefinition w' a typeId)) :
    Settles host memory Good w (fun p => demand host base.space p (depth + 1) .variableType stored typeId)
      (fun p => (NodePointers.instantiateVariableNode host memory p (depth + 1) w a typeId).map (·.2)) := by
  have hchildren : Settles host memory Good w
    (fun p => demand host base.space p (depth + 1) .variableType stored typeId)
      (fun p => ((NodePointers.browseTypes host p w (typeBrowse base.space typeId)).bind fun r =>
        (r.1.foldlM (fun w rd => (NodePointers.copyExistingVariable host memory
          (NodePointers.instantiateVariableNode host memory p depth) p w rd.nodeId.nodeId
            rd.referenceTypeId a).map (·.2))
            r.2).bind fun w => .done (good, NodePointers.addTypeDefinition w a typeId)).map (·.2)) := by
    refine children_follow hstart (.inr rfl) htype h hheld ?_ ?_
    · intro outcome rd hrd w h hheld
      exact property_follows hstart hmeets h hheld ha htype hrd
    · intro w' h' _
      exact ⟨_, rfl, after_linked (typeItem a typeId), hgood w' h'⟩
  refine hchildren.congr 0 (fun _ _ => rfl) (fun p _ => ?_)
  have hbrowse : typeBrowse base.space typeId = propertiesBrowse typeId := by
    rw [typeBrowse, htype]
    rfl
  rw [NodePointers.instantiateVariableNode, checkedType_eq ((classAt_along h (.inr rfl)).mpr htype), hbrowse]

theorem objectType_follows {Good : World → Prop}
    (hobject : Meets host memory id base (fun p => NodePointers.instantiateObjectNode host memory p depth)
      (fun p => demand host base.space p depth .objectType) .objectType)
    (hvariable : Meets host memory id base (fun p => NodePointers.instantiateVariableNode host memory p depth)
      (fun p => demand host base.space p depth .variableType) .variableType)
    (htype : classAt base.space typeId = some .objectType) (h : Along host id base w)
    (hheld : Holds host memory w a stored) (ha : worked id base a)
    (hgood : ∀ w' lifecycle, Along host id base w' →
      Good ⟨callConstructor host (NodeCreation.addTypeDefinition w'.state a typeId) a lifecycle, w'.table⟩) :
    Settles host memory Good w (fun p => demand host base.space p (depth + 1) .objectType stored typeId)
      (fun p => (NodePointers.instantiateObjectNode host memory p (depth + 1) w a typeId).map (·.2)) := by
  have hchildren : Settles host memory Good w (fun p => demand host base.space p (depth + 1) .objectType stored typeId)
      (fun p => ((NodePointers.browseTypes host p w (typeBrowse base.space typeId)).bind fun r =>
        (r.1.foldlM (NodePointers.instantiateChild host memory (NodePointers.instantiateObjectNode host memory p depth)
          (NodePointers.instantiateVariableNode host memory p depth) p a) r.2).bind fun w' =>
            ((NodePointers.addTypeDefinition w' a typeId).read ⟨typeId, w.table.block⟩).bind fun t =>
              .done (good, ⟨callConstructor host (NodeCreation.addTypeDefinition w'.state a typeId) a
                (NodePointers.lifecycleManagement t), w'.table⟩)).map (·.2)) := by
    refine children_follow hstart (.inl rfl) htype h hheld ?_ ?_
    · intro outcome rd hrd w h hheld
      exact child_follows hstart hobject hvariable h hheld ha hrd
    · intro w' h' hblock
      have hlinked : After host memory w' 0 (NodePointers.addTypeDefinition w' a typeId) :=
        after_linked (typeItem a typeId)
      obtain ⟨t, ht⟩ := hlinked.stored typeId (h'.grown.stored (stored_of_classAt htype))
      rw [read_of_stored (hblock.symm.trans hlinked.block.symm) ht]
      exact ⟨_, rfl, hlinked.trans (after_constructed a (NodePointers.lifecycleManagement t)), hgood w' _ h'⟩
  refine hchildren.congr 0 (fun _ _ => rfl) (fun p _ => ?_)
  have hbrowse : typeBrowse base.space typeId = childrenBrowse typeId := by
    rw [typeBrowse, htype]
    rfl
  rw [NodePointers.instantiateObjectNode, checkedType_eq ((classAt_along h (.inl rfl)).mpr htype), hbrowse]
  rfl

omit hstart in
theorem untyped_follows {inst : Nat → Instantiation}
    (hother : ∀ p w a typeId, classAt w.state.space typeId ≠ some c → ∃ status, inst p w a typeId = .done (status, w))
    (hc : c = .objectType ∨ c = .variableType) (htype : classAt base.space typeId ≠ some c) (h : Along host id base w) :
    Settles host memory (Along host id base) w (fun p => demand host base.space p depth c stored typeId)
      (fun p => (inst p w a typeId).map (·.2)) := by
  refine settles_done (fun p => ?_) (fun p => ?_) (.refl w) h
  · cases depth with
    | zero =>
        rw [demand, beq_false_of_ne htype]
        rfl
    | succ depth => rw [demand, if_pos htype]
  · obtain ⟨status, hstatus⟩ := hother p w a typeId (fun hnow => htype ((classAt_along h hc).mp hnow))
    rw [hstatus]
    rfl

omit hstart in
theorem shallow_follows (inst : Nat → Instantiation)
    (hrun : ∀ p w a typeId, inst p w a typeId = NodePointers.checkedType c w typeId (fun _ => .endless))
    (hc : c = .objectType ∨ c = .variableType) (htype : classAt base.space typeId = some c) (h : Along host id base w) :
    Settles host memory (Along host id base) w (fun p => demand host base.space p 0 c stored typeId)
      (fun p => (inst p w a typeId).map (·.2)) := by
  refine ⟨.endless, 0, fun p _ => ⟨?_, ?_⟩⟩
  · dsimp only
    rw [hrun, checkedType_eq ((classAt_along h hc).mpr htype)]
    rfl
  · refine .endless rfl ?_
    change (demand host base.space p 0 c stored typeId).ends = false
    rw [demand, htype, beq_self_eq_true]
    rfl

theorem along_typed (h : Along host id base w) (ha : copied base a) (htype : Stored base.space typeId) :
    Along host id base (NodePointers.addTypeDefinition w a typeId) :=
  along_steps hstart h (step_addTypeDefinition ha (h.grown.stored htype)) w.table

theorem meets_variableType (depth : Nat) :
    Meets host memory id base (fun p => NodePointers.instantiateVariableNode host memory p depth)
      (fun p => demand host base.space p depth .variableType) .variableType := by
  have hother : ∀ depth p (w : World) a typeId, classAt w.state.space typeId ≠ some .variableType →
      ∃ status, NodePointers.instantiateVariableNode host memory p depth w a typeId = .done (status, w) := by
    intro depth p w a typeId hclass
    cases depth with
    | zero => exact checkedType_other hclass
    | succ depth => exact checkedType_other hclass
  induction depth with
  | zero =>
      refine ⟨fun w a stored typeId h _ _ => ?_, hother 0, .inr rfl⟩
      by_cases htype : classAt base.space typeId = some .variableType
      · exact shallow_follows (NodePointers.instantiateVariableNode host memory · 0)
          (fun _ _ _ _ => rfl) (.inr rfl) htype h
      · exact untyped_follows (hother 0) (.inr rfl) htype h
  | succ depth ih =>
      refine ⟨fun w a stored typeId h hheld ha => ?_, hother (depth + 1), .inr rfl⟩
      by_cases htype : classAt base.space typeId = some .variableType
      · exact variableType_follows hstart ih htype h hheld (.inr ha)
          (fun w' h' => along_typed hstart h' ha (stored_of_classAt htype))
      · exact untyped_follows (hother (depth + 1)) (.inr rfl) htype h

theorem meets_objectType (depth : Nat) :
    Meets host memory id base (fun p => NodePointers.instantiateObjectNode host memory p depth)
      (fun p => demand host base.space p depth .objectType) .objectType := by
  have hother : ∀ depth p (w : World) a typeId, classAt w.state.space typeId ≠ some .objectType →
      ∃ status, NodePointers.instantiateObjectNode host memory p depth w a typeId = .done (status, w) := by
    intro depth p w a typeId hclass
    cases depth with
    | zero => exact checkedType_other hclass
    | succ depth => exact checkedType_other hclass
  induction depth with
  | zero =>
      refine ⟨fun w a stored typeId h _ _ => ?_, hother 0, .inl rfl⟩
      by_cases htype : classAt base.space typeId = some .objectType
      · exact shallow_follows (NodePointers.instantiateObjectNode host memory · 0)
          (fun _ _ _ _ => rfl) (.inl rfl) htype h
      · exact untyped_follows (hother 0) (.inl rfl) htype h
  | succ depth ih =>
      refine ⟨fun w a stored typeId h hheld ha => ?_, hother (depth + 1), .inl rfl⟩
      by_cases htype : classAt base.space typeId = some .objectType
      · refine objectType_follows hstart ih (meets_variableType hstart depth) htype h hheld (.inr ha) ?_
        intro w' lifecycle h'
        have hstep : Step host (worked id base) (copied base) (NodeCreation.addTypeDefinition w'.state a typeId)
            (callConstructor host (NodeCreation.addTypeDefinition w'.state a typeId) a lifecycle) :=
          .constructed _ a lifecycle ha
        exact along_step hstart (along_typed hstart h' ha (stored_of_classAt htype)) hstep w'.table
      · exact untyped_follows (hother (depth + 1)) (.inl rfl) htype h

end Instances

end OpcUa.TypeCopies
