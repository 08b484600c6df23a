import OpcUa.InstantiationLoops

namespace OpcUa.InstantiationEnds

open StatusCodes NodeIds DataTypes AddressSpaces References SubTypes Worklists Browsing NodeManagement NodeCreation
  MirroredReferences NodeDeletion AddedNodes NodeAdditions FailedNodes Instantiations TypeContainment
  InstantiationLoops Loops Relation
open NodeStores (NodeClass)

variable {host : Host} {base st st' : State} {s : AddressSpace} {fuel : Nat}
  {id a source referenceType parent typeId : NodeId}
  {r : StatusCode × State}

section Children

abbrev copyProperty (host : Host) (a : NodeId) (fuel : Nat) (st : State) (rd : ReferenceDescription) : Option State :=
  (copyExistingVariable host (instantiateVariableNode host fuel) fuel st rd.nodeId.nodeId
    rd.referenceTypeId a).map (·.2)

abbrev copyChild (host : Host) (a : NodeId) (fuel : Nat) (st : State) (rd : ReferenceDescription) : Option State :=
  instantiateChild host (instantiateObjectNode host fuel) (instantiateVariableNode host fuel) fuel a st rd

theorem copyProperty_mono (fuel more : Nat) (st : State) (rd : ReferenceDescription) (st' : State)
    (h : copyProperty host a fuel st rd = some st') : copyProperty host a (fuel + more) st rd = some st' := by
  rw [copyProperty, copyExistingVariable_eq] at h ⊢
  exact copyExisting_mono (fun st id typeId r => instantiateVariableNode_mono fuel more st id typeId r) more h

theorem copyChild_mono (fuel more : Nat) (st : State) (rd : ReferenceDescription) (st' : State)
    (h : copyChild host a fuel st rd = some st') : copyChild host a (fuel + more) st rd = some st' :=
  instantiateChild_mono (fun st id typeId r => instantiateObjectNode_mono fuel more st id typeId r)
    (fun st id typeId r => instantiateVariableNode_mono fuel more st id typeId r) more h

theorem stored_child {outcome : Except StatusCode RelevantTypes} {rd : ReferenceDescription}
    (hrd : rd ∈ found s (typeBrowse s typeId) outcome) :
    ∃ c, kindAt s rd.nodeId.nodeId = some (rd.nodeId.nodeId, c) ∧ rd.nodeClass = nodeClassValue c := by
  have hmask : wants (typeBrowse s typeId).resultMask 4 = true := by
    rw [typeBrowse]
    split <;> exact (by decide : wants 5 4 = true)
  exact kindAt_of_found hmask hrd

variable (hstart : Started host id base) {outcome : Except StatusCode RelevantTypes} {rd : ReferenceDescription}
include hstart

theorem child_ends {instantiate : Nat → Instantiate} {c : NodeClass}
    (hinstantiate : Instantiates host id base instantiate c)
    (htype : classAt base.space typeId = some .objectType ∨ classAt base.space typeId = some .variableType)
    (houtcome : relevantTypes fuel base.space (typeBrowse base.space typeId) = some outcome)
    (hrd : rd ∈ (found base.space (typeBrowse base.space typeId) outcome).take 100) (hclass : HasTypesOf rd.nodeClass c)
    (hbelow : ∀ other, Contains base.space typeId other → classAt base.space other = some c →
      EndsAt host id base instantiate other) :
    ∀ r ∈ refsAt base.space rd.nodeId.nodeId, definesType r = true →
      EndsAt host id base instantiate r.targetId.nodeId := by
  intro r hr hdefines
  by_cases hother : classAt base.space r.targetId.nodeId = some c
  · exact hbelow _ ⟨htype, fuel, outcome, houtcome, rd, hrd, r, hr, hdefines, rfl, c, hother, hclass⟩ hother
  · exact endsAt_other hstart hinstantiate hr hother

theorem property_ends (hclass : classAt base.space typeId = some .variableType)
    (houtcome : relevantTypes fuel base.space (typeBrowse base.space typeId) = some outcome)
    (hbelow : ∀ other, Contains base.space typeId other → classAt base.space other = some .variableType →
      EndsAt host id base (instantiateVariableNode host) other) (ha : worked id base a)
    (hrd : rd ∈ (found base.space (typeBrowse base.space typeId) outcome).take 100) (st : State)
    (h : Grown host id base st) :
    ∃ fuel st', copyProperty host a fuel st rd = some st' ∧ Grown host id base st' := by
  have hbrowse : typeBrowse base.space typeId = propertiesBrowse typeId := by
    rw [typeBrowse, hclass]
    rfl
  have hmember := List.mem_of_mem_take hrd
  obtain ⟨c, hkind, _⟩ := stored_child hmember
  have hvariable : rd.nodeClass = nodeClassValue .variable := class_of_property (by rw [← hbrowse]; exact hmember)
  have hends := child_ends hstart instantiates_variableType (.inr hclass) houtcome hrd (.inr ⟨hvariable, rfl⟩) hbelow
  obtain ⟨fuel, st', hst', hgrown⟩ := copyExisting_ends hstart instantiates_variableType
    (stored_iff_kindAt.mpr ⟨_, hkind⟩) ha
    (fun _ => isCopy_variableItem) hends h
  exact ⟨fuel, st', copyExistingVariable_eq.trans hst', hgrown⟩

theorem properties_end (hclass : classAt base.space typeId = some .variableType)
    (houtcome : relevantTypes fuel base.space (typeBrowse base.space typeId) = some outcome)
    (hbelow : ∀ other, Contains base.space typeId other → classAt base.space other = some .variableType →
      EndsAt host id base (instantiateVariableNode host) other)
    (h : Grown host id base st) (ha : worked id base a) :
    ∃ fuel references mid last, browseTypes host fuel st (propertiesBrowse typeId) = some (references, mid) ∧
      references.foldlM (copyProperty host a fuel) mid = some last := by
  have hbrowse : typeBrowse base.space typeId = propertiesBrowse typeId := by
    rw [typeBrowse, hclass]
    rfl
  obtain ⟨mid, hmid, hgrown⟩ := browse_type hstart h (.inr hclass) houtcome
  obtain ⟨more, last, hlast, _⟩ := foldlM_ends copyProperty_mono
    (fun rd hrd => property_ends hstart hclass houtcome hbelow ha hrd) hgrown
  rw [← hbrowse]
  refine ⟨fuel + more, _, mid, last, browseTypes_mono hmid more, ?_⟩
  rw [Nat.add_comm]
  exact foldlM_mono (copyProperty_mono more fuel) hlast

omit hstart in
theorem variable_of_loop {type : Node} (htype : st.space.get typeId = some type)
    (hclass : type.nodeClass = .variableType)
    {references : List ReferenceDescription} {mid last : State}
    (hbrowse : browseTypes host fuel st (propertiesBrowse typeId) = some (references, mid))
    (hloop : references.foldlM (copyProperty host a fuel) mid = some last) :
    ∃ r, instantiateVariableNode host (fuel + 1) st a typeId = some r := by
  rw [instantiateVariableNode, htype]
  dsimp only
  rw [if_neg (not_not.mpr hclass), hbrowse, Option.bind_some]
  exact ⟨_, Option.map_eq_some_iff.mpr ⟨last, hloop, rfl⟩⟩

theorem variable_endsAt (hacc : Acc (fun other typeId => Contains base.space typeId other) typeId)
    (hsearched : ∀ other, ReflTransGen (Contains base.space) typeId other → Searched base.space other)
    (hclass : classAt base.space typeId = some .variableType) :
    EndsAt host id base (instantiateVariableNode host) typeId := by
  induction hacc with
  | intro typeId _ ih =>
      intro st a h ha
      obtain ⟨fuel, outcome, houtcome⟩ := hsearched typeId .refl
      have hbelow : ∀ other, Contains base.space typeId other → classAt base.space other = some .variableType →
          EndsAt host id base (instantiateVariableNode host) other :=
        fun other hother hclass => ih other hother (fun b hb => hsearched b (.head hother hb)) hclass
      obtain ⟨fuel, references, mid, last, hbrowse, hloop⟩ := properties_end hstart hclass houtcome hbelow h (.inr ha)
      have hnow := h.classAt (stored_of_classAt hclass)
      rw [hclass, classAt_eq] at hnow
      obtain ⟨type, htype, hvariable⟩ := Option.map_eq_some_iff.mp hnow
      exact ⟨_, variable_of_loop htype hvariable hbrowse hloop⟩

theorem child_endsAt (hclass : classAt base.space typeId = some .objectType)
    (houtcome : relevantTypes fuel base.space (typeBrowse base.space typeId) = some outcome)
    (hbelow : ∀ other, Contains base.space typeId other → classAt base.space other = some .objectType →
      EndsAt host id base (instantiateObjectNode host) other)
    (hbelowVariable : ∀ other, Contains base.space typeId other → classAt base.space other = some .variableType →
      EndsAt host id base (instantiateVariableNode host) other) (ha : worked id base a)
    (hrd : rd ∈ (found base.space (typeBrowse base.space typeId) outcome).take 100) (st : State)
    (h : Grown host id base st) :
    ∃ fuel st', copyChild host a fuel st rd = some st' ∧ Grown host id base st' := by
  have hmember := List.mem_of_mem_take hrd
  obtain ⟨c, hkind, hrdClass⟩ := stored_child hmember
  have hsource : Stored base.space rd.nodeId.nodeId := stored_iff_kindAt.mpr ⟨_, hkind⟩
  by_cases hmethod : rd.nodeClass = nodeClassValue .method
  · have hlink : Step host (worked id base) (copied base) st
        { st with space := (addReferencesSingle st.space (methodItem a rd)).2 } := by
      refine .linked st (methodItem a rd) rfl rfl (.inr ⟨ha, ?_⟩)
      obtain rfl := nodeClassValue_inj (hrdClass.symm.trans hmethod)
      change classAt st.space rd.nodeId.nodeId = _
      rw [h.classAt hsource, classAt, hkind]
      rfl
    exact ⟨0, _, if_pos hmethod, grown_step hstart h hlink⟩
  by_cases hvariable : rd.nodeClass = nodeClassValue .variable
  · have hends := child_ends hstart instantiates_variableType (.inl hclass) houtcome hrd
      (.inr ⟨hvariable, rfl⟩) hbelowVariable
    obtain ⟨fuel, st', hst', hgrown⟩ := copyExisting_ends hstart instantiates_variableType hsource ha
      (fun _ => isCopy_variableItem) hends h
    refine ⟨fuel, st', ?_, hgrown⟩
    rw [copyChild, instantiateChild, if_neg hmethod, if_pos hvariable, copyExistingVariable_eq]
    exact hst'
  by_cases hobject : rd.nodeClass = nodeClassValue .object
  · have hends := child_ends hstart instantiates_objectType (.inl hclass) houtcome hrd (.inl ⟨hobject, rfl⟩) hbelow
    obtain ⟨fuel, st', hst', hgrown⟩ := copyExisting_ends hstart instantiates_objectType hsource ha
      (fun _ => isCopy_objectItem) hends h
    refine ⟨fuel, st', ?_, hgrown⟩
    rw [copyChild, instantiateChild, if_neg hmethod, if_neg hvariable, if_pos hobject, copyExistingObject_eq]
    exact hst'
  · refine ⟨0, st, ?_, h⟩
    rw [copyChild, instantiateChild, if_neg hmethod, if_neg hvariable, if_neg hobject]

theorem children_end (hclass : classAt base.space typeId = some .objectType)
    (houtcome : relevantTypes fuel base.space (typeBrowse base.space typeId) = some outcome)
    (hbelow : ∀ other, Contains base.space typeId other → classAt base.space other = some .objectType →
      EndsAt host id base (instantiateObjectNode host) other)
    (hbelowVariable : ∀ other, Contains base.space typeId other → classAt base.space other = some .variableType →
      EndsAt host id base (instantiateVariableNode host) other)
    (h : Grown host id base st) (ha : worked id base a) :
    ∃ fuel references mid last, browseTypes host fuel st (childrenBrowse typeId) = some (references, mid) ∧
      references.foldlM (copyChild host a fuel) mid = some last := by
  have hbrowse : typeBrowse base.space typeId = childrenBrowse typeId := by
    rw [typeBrowse, hclass]
    rfl
  obtain ⟨mid, hmid, hgrown⟩ := browse_type hstart h (.inl hclass) houtcome
  obtain ⟨more, last, hlast, _⟩ := foldlM_ends copyChild_mono
    (fun rd hrd => child_endsAt hstart hclass houtcome hbelow hbelowVariable ha hrd) hgrown
  rw [← hbrowse]
  refine ⟨fuel + more, _, mid, last, browseTypes_mono hmid more, ?_⟩
  rw [Nat.add_comm]
  exact foldlM_mono (copyChild_mono more fuel) hlast

omit hstart in
theorem object_of_loop {type : Node} (htype : st.space.get typeId = some type) (hclass : type.nodeClass = .objectType)
    {references : List ReferenceDescription} {mid last : State}
    (hbrowse : browseTypes host fuel st (childrenBrowse typeId) = some (references, mid))
    (hloop : references.foldlM (copyChild host a fuel) mid = some last) :
    ∃ r, instantiateObjectNode host (fuel + 1) st a typeId = some r := by
  rw [instantiateObjectNode, htype]
  dsimp only
  rw [Node.nodeClass] at hclass
  cases hbody : type.body with
  | objectType isAbstract lifecycle =>
      dsimp only
      rw [hbrowse, Option.bind_some]
      exact ⟨_, Option.map_eq_some_iff.mpr ⟨last, hloop, rfl⟩⟩
  | _ =>
      rw [hbody] at hclass
      cases hclass

theorem object_endsAt (hacc : Acc (fun other typeId => Contains base.space typeId other) typeId)
    (hsearched : ∀ other, ReflTransGen (Contains base.space) typeId other → Searched base.space other)
    (hclass : classAt base.space typeId = some .objectType) :
    EndsAt host id base (instantiateObjectNode host) typeId := by
  induction hacc with
  | intro typeId hacc ih =>
      intro st a h ha
      obtain ⟨fuel, outcome, houtcome⟩ := hsearched typeId .refl
      have hreached : ∀ {other}, Contains base.space typeId other → ∀ b, ReflTransGen (Contains base.space) other b →
          Searched base.space b := fun hother b hb => hsearched b (.head hother hb)
      obtain ⟨fuel, references, mid, last, hbrowse, hloop⟩ := children_end hstart hclass houtcome
        (fun other hother => ih other hother (hreached hother))
        (fun other hother => variable_endsAt hstart (hacc other hother) (hreached hother)) h (.inr ha)
      have hnow := h.classAt (stored_of_classAt hclass)
      rw [hclass, classAt_eq] at hnow
      obtain ⟨type, htype, hobject⟩ := Option.map_eq_some_iff.mp hnow
      exact ⟨_, object_of_loop htype hobject hbrowse hloop⟩

end Children

section Necessity

/-- Below a type, the searches end and nothing goes on without end. -/
def Unfolds (s : AddressSpace) (typeId : NodeId) : Prop :=
  Acc (fun other typeId => Contains s typeId other) typeId ∧
    ∀ other, ReflTransGen (Contains s) typeId other → Searched s other

theorem Unfolds.intro (hsearched : Searched s typeId) (hbelow : ∀ other, Contains s typeId other → Unfolds s other) :
    Unfolds s typeId := by
  refine ⟨.intro typeId (fun other hother => (hbelow other hother).1), ?_⟩
  intro other hother
  rcases ReflTransGen.cases_head hother with rfl | ⟨b, hb, hrest⟩
  · exact hsearched
  · exact (hbelow b hb).2 other hrest

theorem variableItem_ok (h : classAt s source = some .variable) :
    ∃ item, variableItem host s source referenceType parent = .ok item := by
  rw [classAt_eq] at h
  obtain ⟨node, hnode, hclass⟩ := Option.map_eq_some_iff.mp h
  rw [Node.nodeClass] at hclass
  rw [variableItem, hnode]
  cases hbody : node.body with
  | «variable» members =>
      dsimp only
      rw [hbody]
      exact ⟨_, rfl⟩
  | _ =>
      rw [hbody] at hclass
      cases hclass

theorem objectItem_ok (h : classAt s source = some .object) :
    ∃ item, objectItem s source referenceType parent = .ok item := by
  rw [classAt_eq] at h
  obtain ⟨node, hnode, hclass⟩ := Option.map_eq_some_iff.mp h
  rw [Node.nodeClass] at hclass
  rw [objectItem, hnode]
  cases hbody : node.body with
  | object eventNotifier handle =>
      dsimp only
      rw [hbody]
      exact ⟨_, rfl⟩
  | _ =>
      rw [hbody] at hclass
      cases hclass

variable (hstart : Started host id base) {outcome : Except StatusCode RelevantTypes} {rd : ReferenceDescription}
include hstart

omit hstart in
theorem described_child (hrd : rd ∈ found base.space (typeBrowse base.space typeId) outcome)
    (h : Grown host id base st) :
    Described st.space rd := by
  intro hmethod
  obtain ⟨c, hkind, hclass⟩ := stored_child hrd
  obtain rfl := nodeClassValue_inj (hclass.symm.trans hmethod)
  rw [h.classAt (stored_iff_kindAt.mpr ⟨_, hkind⟩), classAt, hkind]
  rfl

theorem grown_copyProperty (ha : worked id base a) (h : Grown host id base st)
    (hpass : copyProperty host a fuel st rd = some st') : Grown host id base st' := by
  rw [copyProperty, copyExistingVariable_eq] at hpass
  exact grown_steps hstart h (steps_copyExisting (steps_instantiateVariableNode fuel) ha
    (fun _ => isCopy_variableItem) st st'
    (admits_worked hstart h) (admits_copied hstart h) hpass)

theorem grown_copyChild (ha : worked id base a) (hrd : rd ∈ found base.space (typeBrowse base.space typeId) outcome)
    (h : Grown host id base st) (hpass : copyChild host a fuel st rd = some st') : Grown host id base st' :=
  grown_steps hstart h (steps_instantiateChild (steps_instantiateObjectNode fuel)
    (steps_instantiateVariableNode fuel) ha rd
    st st' (described_child hrd h) (admits_worked hstart h) (admits_copied hstart h) hpass)

theorem properties_visited (hclass : classAt base.space typeId = some .variableType) (ha : worked id base a)
    (h : Grown host id base st) {references : List ReferenceDescription} {mid last : State}
    (hbrowse : browseTypes host fuel st (propertiesBrowse typeId) = some (references, mid))
    (hloop : references.foldlM (copyProperty host a fuel) mid = some last) :
    Searched base.space typeId ∧ ∀ other, Contains base.space typeId other →
      ∃ t a r, Grown host id base t ∧ copied base a ∧ instantiateVariableNode host fuel t a other = some r ∧
        classAt base.space other = some .variableType := by
  have hsame : typeBrowse base.space typeId = propertiesBrowse typeId := by
    rw [typeBrowse, hclass]
    rfl
  rw [← hsame] at hbrowse
  obtain ⟨outcome, houtcome, rfl, hmid⟩ := searched_of_browse hstart h (.inr hclass) hbrowse
  refine ⟨⟨fuel, outcome, houtcome⟩, ?_⟩
  rintro other ⟨_, fuel', outcome', houtcome', rd, hrd, r, hr, hdefines, rfl, c, hc, htypes⟩
  obtain rfl := relevantTypes_unique houtcome houtcome'
  have hmember := List.mem_of_mem_take hrd
  obtain ⟨class', hkind, hrdClass⟩ := stored_child hmember
  have hsource : Stored base.space rd.nodeId.nodeId := stored_iff_kindAt.mpr ⟨_, hkind⟩
  have hvariable : rd.nodeClass = nodeClassValue .variable := class_of_property (by rw [← hsame]; exact hmember)
  obtain rfl : c = .variableType := by
    rcases htypes with ⟨hobject, _⟩ | ⟨_, rfl⟩
    · cases nodeClassValue_inj (hobject.symm.trans hvariable)
    · rfl
  obtain ⟨t, t', ht, hpass⟩ := foldlM_visits
    (fun _ _ _ _ ht hpass => grown_copyProperty hstart ha ht hpass) hloop hmid rd hrd
  obtain rfl := nodeClassValue_inj (hrdClass.symm.trans hvariable)
  obtain ⟨item, hitem⟩ : ∃ item, variableItem host t.space rd.nodeId.nodeId rd.referenceTypeId a = .ok item := by
    refine variableItem_ok ?_
    rw [ht.classAt hsource, classAt, hkind]
    rfl
  rw [copyProperty, copyExistingVariable_eq, hitem] at hpass
  obtain ⟨t'', a', r', ht'', ha', hr'⟩ := copyExisting_visits hstart instantiates_variableType hsource ha
    (isCopy_variableItem hitem) ht hpass hr hdefines
  exact ⟨t'', a', r', ht'', ha', hr', hc⟩

theorem variable_unfolds (ha : worked id base a) (h : Grown host id base st)
    (hclass : classAt base.space typeId = some .variableType)
    (hr : instantiateVariableNode host fuel st a typeId = some r) : Unfolds base.space typeId := by
  induction fuel generalizing st a typeId r with
  | zero => cases hr
  | succ fuel ih =>
      have hnow := h.classAt (stored_of_classAt hclass)
      rw [hclass, classAt_eq] at hnow
      obtain ⟨type, htype, hvariable⟩ := Option.map_eq_some_iff.mp hnow
      rw [instantiateVariableNode, htype] at hr
      dsimp only at hr
      rw [if_neg (not_not.mpr hvariable)] at hr
      obtain ⟨⟨references, mid⟩, hbrowse, hrest⟩ := Option.bind_eq_some_iff.mp hr
      obtain ⟨last, hloop, _⟩ := Option.map_eq_some_iff.mp hrest
      obtain ⟨hsearched, hvisited⟩ := properties_visited hstart hclass ha h hbrowse hloop
      refine .intro hsearched ?_
      intro other hother
      obtain ⟨t, b, r', ht, hb, hr', hotherClass⟩ := hvisited other hother
      exact ih (.inr hb) ht hotherClass hr'

theorem children_visited (hclass : classAt base.space typeId = some .objectType) (ha : worked id base a)
    (h : Grown host id base st) {references : List ReferenceDescription} {mid last : State}
    (hbrowse : browseTypes host fuel st (childrenBrowse typeId) = some (references, mid))
    (hloop : references.foldlM (copyChild host a fuel) mid = some last) :
    Searched base.space typeId ∧ ∀ other, Contains base.space typeId other →
      ∃ t a r, Grown host id base t ∧ copied base a ∧
        (instantiateObjectNode host fuel t a other = some r ∧ classAt base.space other = some .objectType ∨
          instantiateVariableNode host fuel t a other = some r ∧ classAt base.space other = some .variableType) := by
  have hsame : typeBrowse base.space typeId = childrenBrowse typeId := by
    rw [typeBrowse, hclass]
    rfl
  rw [← hsame] at hbrowse
  obtain ⟨outcome, houtcome, rfl, hmid⟩ := searched_of_browse hstart h (.inl hclass) hbrowse
  refine ⟨⟨fuel, outcome, houtcome⟩, ?_⟩
  rintro other ⟨_, fuel', outcome', houtcome', rd, hrd, r, hr, hdefines, rfl, c, hc, htypes⟩
  obtain rfl := relevantTypes_unique houtcome houtcome'
  have hmember := List.mem_of_mem_take hrd
  obtain ⟨class', hkind, hrdClass⟩ := stored_child hmember
  have hsource : Stored base.space rd.nodeId.nodeId := stored_iff_kindAt.mpr ⟨_, hkind⟩
  obtain ⟨t, t', ht, hpass⟩ := foldlM_visits
    (fun _ hrd _ _ ht hpass => grown_copyChild hstart ha (List.mem_of_mem_take hrd) ht hpass) hloop hmid rd hrd
  have hnow : classAt t.space rd.nodeId.nodeId = some class' := by
    rw [ht.classAt hsource, classAt, hkind]
    rfl
  rw [copyChild, instantiateChild] at hpass
  rcases htypes with ⟨hobject, rfl⟩ | ⟨hvariable, rfl⟩
  · obtain rfl := nodeClassValue_inj (hrdClass.symm.trans hobject)
    obtain ⟨item, hitem⟩ : ∃ item, objectItem t.space rd.nodeId.nodeId rd.referenceTypeId a = .ok item :=
      objectItem_ok hnow
    rw [hobject, if_neg (by decide), if_neg (by decide), if_pos rfl, copyExistingObject_eq, hitem] at hpass
    obtain ⟨t'', a', r', ht'', ha', hr'⟩ := copyExisting_visits hstart instantiates_objectType hsource ha
      (isCopy_objectItem hitem) ht hpass hr hdefines
    exact ⟨t'', a', r', ht'', ha', .inl ⟨hr', hc⟩⟩
  · obtain rfl := nodeClassValue_inj (hrdClass.symm.trans hvariable)
    obtain ⟨item, hitem⟩ : ∃ item, variableItem host t.space rd.nodeId.nodeId rd.referenceTypeId a = .ok item :=
      variableItem_ok hnow
    rw [hvariable, if_neg (by decide), if_pos rfl, copyExistingVariable_eq, hitem] at hpass
    obtain ⟨t'', a', r', ht'', ha', hr'⟩ := copyExisting_visits hstart instantiates_variableType hsource ha
      (isCopy_variableItem hitem) ht hpass hr hdefines
    exact ⟨t'', a', r', ht'', ha', .inr ⟨hr', hc⟩⟩

theorem object_unfolds (ha : worked id base a) (h : Grown host id base st)
    (hclass : classAt base.space typeId = some .objectType)
    (hr : instantiateObjectNode host fuel st a typeId = some r) : Unfolds base.space typeId := by
  induction fuel generalizing st a typeId r with
  | zero => cases hr
  | succ fuel ih =>
      have hnow := h.classAt (stored_of_classAt hclass)
      rw [hclass, classAt_eq] at hnow
      obtain ⟨type, htype, hobject⟩ := Option.map_eq_some_iff.mp hnow
      rw [Node.nodeClass] at hobject
      rw [instantiateObjectNode, htype] at hr
      dsimp only at hr
      cases hbody : type.body with
      | objectType isAbstract lifecycle =>
          rw [hbody] at hr
          obtain ⟨⟨references, mid⟩, hbrowse, hrest⟩ := Option.bind_eq_some_iff.mp hr
          obtain ⟨last, hloop, _⟩ := Option.map_eq_some_iff.mp hrest
          obtain ⟨hsearched, hvisited⟩ := children_visited hstart hclass ha h hbrowse hloop
          refine .intro hsearched ?_
          intro other hother
          obtain ⟨t, b, r', ht, hb, ⟨hr', hotherClass⟩ | ⟨hr', hotherClass⟩⟩ := hvisited other hother
          · exact ih (.inr hb) ht hotherClass hr'
          · exact variable_unfolds hstart (.inr hb) ht hotherClass hr'
      | _ =>
          rw [hbody] at hobject
          cases hobject

end Necessity

end OpcUa.InstantiationEnds
