import OpcUa.FailedNodes
import OpcUa.Loops
import OpcUa.TypeContainment

namespace OpcUa.InstantiationLoops

open StatusCodes NodeIds DataTypes AddressSpaces References SubTypes Worklists Browsing NodeManagement NodeCreation
  MirroredReferences NodeDeletion AddedNodes NodeAdditions FailedNodes Instantiations TypeContainment Loops Relation
open NodeStores (NodeClass)

variable {host : Host} {base st st' : State} {s : AddressSpace} {fuel : Nat}
  {id a source referenceType parent typeId : NodeId}
  {r : StatusCode × State}

section Fuel

theorem browseTypes_mono {descr : BrowseDescription} {found : List ReferenceDescription × State}
    (h : browseTypes host fuel st descr = some found) (more : Nat) :
    browseTypes host (fuel + more) st descr = some found := by
  obtain ⟨browsed, hbrowse, rfl⟩ := Option.map_eq_some_iff.mp h
  rw [browseTypes, browseSingle_mono hbrowse more]
  rfl

theorem eachTypeDefinition_mono {f g : State → NodeId → Option State}
    (hfg : ∀ st typeId st', f st typeId = some st' → g st typeId = some st') (more : Nat) {i : Nat}
    (h : eachTypeDefinition f a fuel i st = some st') : eachTypeDefinition g a (fuel + more) i st = some st' := by
  induction fuel generalizing i st with
  | zero => cases h
  | succ fuel ih =>
      rw [Nat.add_right_comm, eachTypeDefinition]
      rw [eachTypeDefinition] at h
      split
      · rename_i hnone
        rw [hnone] at h
        exact h
      · rename_i r hr
        rw [hr] at h
        dsimp only at h
        split
        · rename_i hdefines
          rw [if_pos hdefines] at h
          obtain ⟨mid, hmid, hrest⟩ := Option.bind_eq_some_iff.mp h
          exact Option.bind_eq_some_iff.mpr ⟨mid, hfg _ _ _ hmid, ih hrest⟩
        · rename_i hdefines
          rw [if_neg hdefines] at h
          exact ih h

variable {instantiate instantiate' instantiateVariable instantiateVariable' : Instantiate}

theorem copyExisting_mono (hmore : ∀ st id typeId r, instantiate st id typeId = some r →
    instantiate' st id typeId = some r)
    (more : Nat) {copy : Except StatusCode AddNodesItem}
    (h : copyExisting host instantiate fuel source st copy = some st') :
    copyExisting host instantiate' (fuel + more) source st copy = some st' := by
  cases copy with
  | error status => exact h
  | ok item =>
      refine eachTypeDefinition_mono ?_ more h
      intro st typeId st' hinstantiate
      obtain ⟨r, hr, rfl⟩ := Option.map_eq_some_iff.mp hinstantiate
      exact Option.map_eq_some_iff.mpr ⟨r, hmore st _ typeId r hr, rfl⟩

theorem instantiateChild_mono
    (hmore : ∀ st id typeId r, instantiate st id typeId = some r → instantiate' st id typeId = some r)
    (hmoreVariable : ∀ st id typeId r, instantiateVariable st id typeId = some r →
    instantiateVariable' st id typeId = some r)
    (more : Nat) {rd : ReferenceDescription}
    (h : instantiateChild host instantiate instantiateVariable fuel id st rd = some st') :
    instantiateChild host instantiate' instantiateVariable' (fuel + more) id st rd = some st' := by
  rw [instantiateChild] at h ⊢
  split
  · rename_i hmethod
    rw [if_pos hmethod] at h
    exact h
  rename_i hmethod
  rw [if_neg hmethod] at h
  split
  · rename_i hvariable
    rw [if_pos hvariable, copyExistingVariable_eq] at h
    rw [copyExistingVariable_eq]
    exact copyExisting_mono hmoreVariable more h
  rename_i hvariable
  rw [if_neg hvariable] at h
  split
  · rename_i hobject
    rw [if_pos hobject, copyExistingObject_eq] at h
    rw [copyExistingObject_eq]
    exact copyExisting_mono hmore more h
  · rename_i hobject
    rw [if_neg hobject] at h
    exact h

theorem instantiateVariableNode_mono (fuel more : Nat) (st : State) (id typeId : NodeId) (r : StatusCode × State)
    (h : instantiateVariableNode host fuel st id typeId = some r) :
    instantiateVariableNode host (fuel + more) st id typeId = some r := by
  induction fuel generalizing st id typeId r with
  | zero => cases h
  | succ fuel ih =>
      rw [Nat.add_right_comm, instantiateVariableNode]
      rw [instantiateVariableNode] at h
      split
      · rename_i hnone
        rw [hnone] at h
        exact h
      · rename_i type htype
        rw [htype] at h
        dsimp only at h
        split
        · rename_i hclass
          rw [if_pos hclass] at h
          exact h
        · rename_i hclass
          rw [if_neg hclass] at h
          obtain ⟨found, hbrowse, hloop⟩ := Option.bind_eq_some_iff.mp h
          obtain ⟨last, hlast, rfl⟩ := Option.map_eq_some_iff.mp hloop
          refine Option.bind_eq_some_iff.mpr ⟨found, browseTypes_mono hbrowse more, ?_⟩
          refine Option.map_eq_some_iff.mpr ⟨last, foldlM_mono ?_ hlast, rfl⟩
          intro st rd st' hcopy
          rw [copyExistingVariable_eq] at hcopy ⊢
          exact copyExisting_mono ih more hcopy

theorem instantiateObjectNode_mono (fuel more : Nat) (st : State) (id typeId : NodeId) (r : StatusCode × State)
    (h : instantiateObjectNode host fuel st id typeId = some r) :
    instantiateObjectNode host (fuel + more) st id typeId = some r := by
  induction fuel generalizing st id typeId r with
  | zero => cases h
  | succ fuel ih =>
      rw [Nat.add_right_comm, instantiateObjectNode]
      rw [instantiateObjectNode] at h
      split
      · rename_i hnone
        rw [hnone] at h
        exact h
      · rename_i type htype
        rw [htype] at h
        dsimp only at h
        split
        · rename_i isAbstract lifecycle hbody
          rw [hbody] at h
          obtain ⟨found, hbrowse, hloop⟩ := Option.bind_eq_some_iff.mp h
          obtain ⟨last, hlast, rfl⟩ := Option.map_eq_some_iff.mp hloop
          refine Option.bind_eq_some_iff.mpr ⟨found, browseTypes_mono hbrowse more, ?_⟩
          refine Option.map_eq_some_iff.mpr ⟨last, foldlM_mono ?_ hlast, rfl⟩
          intro st rd st' hchild
          exact instantiateChild_mono ih (fun st id typeId r =>
            instantiateVariableNode_mono fuel more st id typeId r) more
            hchild
        · rename_i hother
          split at h
          · rename_i isAbstract lifecycle hbody
            exact absurd hbody (hother isAbstract lifecycle)
          · exact h

end Fuel

section Loops

/-- What is known of an instantiation for the types of a class. -/
structure Instantiates (host : Host) (id : NodeId) (base : State) (instantiate : Nat → Instantiate) (c : NodeClass) :
    Prop where
  mono : ∀ fuel more st a typeId r, instantiate fuel st a typeId = some r →
    instantiate (fuel + more) st a typeId = some r
  steps : ∀ fuel, InstantiatesInSteps host (worked id base) (copied base) (instantiate fuel)
  other : ∀ fuel st a typeId, classAt st.space typeId ≠ some c → ∃ status,
    instantiate (fuel + 1) st a typeId = some (status, st)
  types : c = .objectType ∨ c = .variableType

/-- The instantiation with a type ends for whatever is copied. -/
def EndsAt (host : Host) (id : NodeId) (base : State) (instantiate : Nat → Instantiate) (typeId : NodeId) : Prop :=
  ∀ st a, Grown host id base st → copied base a → ∃ fuel r, instantiate fuel st a typeId = some r

theorem eachTypeDefinition_succ {f : State → NodeId → Option State} {i : Nat} :
    eachTypeDefinition f source (fuel + 1) i st = (refsAt st.space source)[i]?.elim (some st) (fun r =>
      if definesType r then (f st r.targetId.nodeId).bind (eachTypeDefinition f source fuel (i + 1))
      else eachTypeDefinition f source fuel (i + 1) st) := by
  have hread : (st.space.get source).bind (·.references[i]?) = (refsAt st.space source)[i]? := by
    rw [refsAt]
    cases st.space.get source <;> rfl
  rw [eachTypeDefinition, hread]
  cases (refsAt st.space source)[i]? <;> rfl

/-- The loop over the type definitions of a node, for a copy of it. -/
abbrev typeLoop (instantiate : Nat → Instantiate) (a source : NodeId) (fuel : Nat) : Nat → Nat → State → Option State :=
  eachTypeDefinition (fun st typeId => (instantiate fuel st a typeId).map (·.2)) source

variable {instantiate : Nat → Instantiate} {c : NodeClass} (hstart : Started host id base)
  (hinstantiate : Instantiates host id base instantiate c)
include hstart hinstantiate

theorem grown_instantiate (h : Grown host id base st) (ha : copied base a)
    (hr : instantiate fuel st a typeId = some r) : Grown host id base r.2 :=
  grown_steps hstart h (hinstantiate.steps fuel a typeId (.inr ha) ha st r.2 (admits_worked hstart h)
    (admits_copied hstart h)
    (congrArg (Option.map (·.2)) hr))

omit hstart in
theorem typeLoop_mono {passes i : Nat} (h : typeLoop instantiate a source fuel passes i st = some st')
    (more more' : Nat) :
    typeLoop instantiate a source (fuel + more) (passes + more') i st = some st' := by
  refine eachTypeDefinition_mono ?_ more' h
  intro st typeId st' hpass
  obtain ⟨r, hr, rfl⟩ := Option.map_eq_some_iff.mp hpass
  exact Option.map_eq_some_iff.mpr ⟨r, hinstantiate.mono fuel more st a typeId r hr, rfl⟩

omit hstart in
theorem other_of_noType (h : NoType st.space typeId) (fuel : Nat) (a : NodeId) :
    ∃ status, instantiate (fuel + 1) st a typeId = some (status, st) := by
  refine hinstantiate.other fuel st a typeId ?_
  rcases hinstantiate.types with rfl | rfl
  · exact h.1
  · exact h.2

omit hinstantiate in
theorem grown_added (h : Grown host id base st) {item : AddNodesItem} (hitem : IsCopy parent item)
    (hparent : worked id base parent) :
    Grown host id base (addNode host st item).2 ∧ copied base (addNode host st item).1.addedNodeId := by
  have hstep : Step host (worked id base) (copied base) st (addNode host st item).2 :=
    .copied st item hitem.id hitem.nodeClass (by rw [hitem.parent]; exact hparent)
  exact ⟨grown_step hstart h hstep, admitted_copy (admits_copied hstart h) hitem.id⟩

omit hstart in
theorem loop_ends_behind (h : Grown host id base st) (hsource : Stored base.space source) {i : Nat}
    (hi : (refsAt base.space source).length ≤ i) : ∃ fuel, typeLoop instantiate a source fuel fuel i st = some st := by
  induction hleft : (refsAt st.space source).length - i generalizing i with
  | zero =>
      refine ⟨1, ?_⟩
      rw [typeLoop, eachTypeDefinition_succ, List.getElem?_eq_none (by omega)]
      rfl
  | succ left ih =>
      obtain ⟨fuel, hrest⟩ := ih (Nat.le_succ_of_le hi) (by omega)
      have hmore := typeLoop_mono hinstantiate hrest 1 0
      refine ⟨fuel + 1, ?_⟩
      rw [typeLoop, eachTypeDefinition_succ]
      cases hr : (refsAt st.space source)[i]? with
      | none => rfl
      | some r =>
          rw [Option.elim_some]
          split
          · rename_i hdefines
            rcases getElem_grown h hsource hr hdefines with hold | hnoType
            · exact absurd (List.getElem?_eq_some_iff.mp hold).1 (Nat.not_lt.mpr hi)
            · obtain ⟨status, hstatus⟩ := other_of_noType hinstantiate hnoType fuel a
              rw [hstatus]
              exact hmore
          · exact hmore

/-- By induction on the references that were there before and are still to
come. -/
theorem loop_ends (hsource : Stored base.space source) (ha : copied base a)
    (hends : ∀ r ∈ refsAt base.space source, definesType r = true → EndsAt host id base instantiate r.targetId.nodeId)
    (h : Grown host id base st) (i : Nat) :
    ∃ fuel st', typeLoop instantiate a source fuel fuel i st = some st' ∧ Grown host id base st' := by
  induction hleft : (refsAt base.space source).length - i generalizing i st with
  | zero =>
      obtain ⟨fuel, hfuel⟩ := loop_ends_behind hinstantiate h hsource (Nat.le_of_sub_eq_zero hleft)
      exact ⟨fuel, st, hfuel, h⟩
  | succ left ih =>
      cases hr : (refsAt st.space source)[i]? with
      | none =>
          refine ⟨1, st, ?_, h⟩
          rw [typeLoop, eachTypeDefinition_succ, hr]
          rfl
      | some r =>
          cases hdefines : definesType r with
          | false =>
              obtain ⟨rest, last, hrest, hlast⟩ := ih h (i + 1) (by omega)
              refine ⟨rest + 1, last, ?_, hlast⟩
              rw [typeLoop, eachTypeDefinition_succ, hr, Option.elim_some, hdefines, if_neg Bool.false_ne_true]
              exact typeLoop_mono hinstantiate hrest 1 0
          | true =>
              obtain ⟨first, r', hfirst, hmid⟩ : ∃ first r', instantiate first st a r.targetId.nodeId = some r' ∧
                  Grown host id base r'.2 := by
                rcases getElem_grown h hsource hr hdefines with hold | hnoType
                · obtain ⟨fuel, r', hr'⟩ := hends r (List.mem_of_getElem? hold) hdefines st a h ha
                  exact ⟨fuel, r', hr', grown_instantiate hstart hinstantiate h ha hr'⟩
                · obtain ⟨status, hstatus⟩ := other_of_noType hinstantiate hnoType 0 a
                  exact ⟨1, _, hstatus, h⟩
              obtain ⟨rest, last, hrest, hlast⟩ := ih hmid (i + 1) (by omega)
              refine ⟨first + rest + 1, last, ?_, hlast⟩
              rw [typeLoop, eachTypeDefinition_succ, hr, Option.elim_some, hdefines, if_pos rfl,
                Nat.add_assoc first rest 1, hinstantiate.mono first (rest + 1) _ _ _ _ hfirst]
              have hmore := typeLoop_mono hinstantiate hrest (first + 1) first
              rw [show rest + (first + 1) = first + (rest + 1) by omega, Nat.add_comm rest first] at hmore
              exact hmore

theorem loop_visits (hsource : Stored base.space source) (ha : copied base a)
    (h : Grown host id base st) {passes i : Nat}
    (hloop : typeLoop instantiate a source fuel passes i st = some st') {j : Nat} (hj : i ≤ j) {r : ReferenceNode}
    (hr : (refsAt base.space source)[j]? = some r) (hdefines : definesType r = true) :
    ∃ t r', Grown host id base t ∧ instantiate fuel t a r.targetId.nodeId = some r' := by
  induction passes generalizing st i with
  | zero => cases hloop
  | succ passes ih =>
      have hread := getElem_kept hstart h hsource hr hdefines
      rw [typeLoop, eachTypeDefinition_succ] at hloop
      cases hi : (refsAt st.space source)[i]? with
      | none =>
          have hlong := (List.getElem?_eq_some_iff.mp hread).1
          have hshort := List.getElem?_eq_none_iff.mp hi
          omega
      | some r' =>
          rw [hi, Option.elim_some] at hloop
          rcases Nat.eq_or_lt_of_le hj with rfl | hlater
          · obtain rfl : r' = r := Option.some.inj (hi.symm.trans hread)
            rw [hdefines, if_pos rfl] at hloop
            obtain ⟨mid, hmid, _⟩ := Option.bind_eq_some_iff.mp hloop
            obtain ⟨r'', hr'', _⟩ := Option.map_eq_some_iff.mp hmid
            exact ⟨st, r'', h, hr''⟩
          · split at hloop
            · obtain ⟨mid, hmid, hrest⟩ := Option.bind_eq_some_iff.mp hloop
              obtain ⟨r'', hr'', rfl⟩ := Option.map_eq_some_iff.mp hmid
              exact ih (grown_instantiate hstart hinstantiate h ha hr'') hrest hlater
            · exact ih h hloop hlater

variable {copy : Except StatusCode AddNodesItem}

theorem copyExisting_ends (hsource : Stored base.space source) (hparent : worked id base parent)
    (hcopy : ∀ item, copy = .ok item → IsCopy parent item)
    (hends : ∀ r ∈ refsAt base.space source, definesType r = true → EndsAt host id base instantiate r.targetId.nodeId)
    (h : Grown host id base st) :
    ∃ fuel st', copyExisting host (instantiate fuel) fuel source st copy = some st' ∧ Grown host id base st' := by
  cases copy with
  | error status => exact ⟨0, st, rfl, h⟩
  | ok item =>
      obtain ⟨hadded, ha⟩ := grown_added hstart h (hcopy item rfl) hparent
      exact loop_ends hstart hinstantiate hsource ha hends hadded 0

theorem copyExisting_visits (hsource : Stored base.space source) (hparent : worked id base parent) {item : AddNodesItem}
    (hitem : IsCopy parent item) (h : Grown host id base st)
    (hcopied : copyExisting host (instantiate fuel) fuel source st (.ok item) = some st') {r : ReferenceNode}
    (hr : r ∈ refsAt base.space source) (hdefines : definesType r = true) :
    ∃ t a r', Grown host id base t ∧ copied base a ∧ instantiate fuel t a r.targetId.nodeId = some r' := by
  obtain ⟨hadded, ha⟩ := grown_added hstart h hitem hparent
  obtain ⟨j, hj⟩ := List.mem_iff_getElem?.mp hr
  obtain ⟨t, r', ht, hr'⟩ := loop_visits hstart hinstantiate hsource ha hadded hcopied (Nat.zero_le j) hj hdefines
  exact ⟨t, _, r', ht, ha, hr'⟩

theorem endsAt_other {r : ReferenceNode} (hr : r ∈ refsAt base.space source)
    (hother : classAt base.space r.targetId.nodeId ≠ some c) : EndsAt host id base instantiate r.targetId.nodeId := by
  intro st a h _
  obtain ⟨status, hstatus⟩ := hinstantiate.other 0 st a r.targetId.nodeId (by
    rw [classAt, kindAt_target hstart h hr]
    exact hother)
  exact ⟨1, _, hstatus⟩

end Loops

section Types

theorem instantiates_variableType :
    Instantiates host id base (instantiateVariableNode host) .variableType where
  mono := instantiateVariableNode_mono
  steps := steps_instantiateVariableNode
  other fuel st a typeId hother := by
    rw [classAt_eq] at hother
    obtain ⟨status, _, hstatus⟩ := instantiateVariableNode_untyped hother
    exact ⟨status, hstatus⟩
  types := .inr rfl

theorem instantiates_objectType : Instantiates host id base (instantiateObjectNode host) .objectType where
  mono := instantiateObjectNode_mono
  steps := steps_instantiateObjectNode
  other fuel st a typeId hother := by
    rw [classAt_eq] at hother
    obtain ⟨status, _, hstatus⟩ := instantiateObjectNode_untyped hother
    exact ⟨status, hstatus⟩
  types := .inl rfl

theorem relevantTypes_unique {fuel' : Nat} {descr : BrowseDescription}
    {outcome outcome' : Except StatusCode RelevantTypes}
    (h : relevantTypes fuel s descr = some outcome) (h' : relevantTypes fuel' s descr = some outcome') :
    outcome = outcome' := by
  have hmore := relevantTypes_mono h fuel'
  have hmore' := relevantTypes_mono h' fuel
  rw [Nat.add_comm] at hmore'
  exact Option.some.inj (hmore.symm.trans hmore')

theorem mask_of_found {descr : BrowseDescription} {outcome : Except StatusCode RelevantTypes}
    {rd : ReferenceDescription}
    (hclass : wants descr.resultMask 4 = true) (hmask : (descr.nodeClassMask != 0) = true)
    (h : rd ∈ found s descr outcome) : (rd.nodeClass &&& descr.nodeClassMask == 0) = false := by
  cases outcome with
  | error status => cases h
  | ok types =>
      obtain ⟨r, _, hr⟩ := List.mem_filterMap.mp h
      obtain ⟨curr, hcurr, rfl⟩ := Option.map_eq_some_iff.mp hr
      change ((if wants descr.resultMask 4 = true then nodeClassValue curr.nodeClass else 0) &&& _ == 0) = false
      rw [if_pos hclass]
      rw [returnRelevantNode] at hcurr
      repeat' split at hcurr
      all_goals cases hcurr
      rename_i hnot
      rw [hmask, Bool.true_and] at hnot
      exact eq_false_of_ne_true hnot

theorem class_of_property {outcome : Except StatusCode RelevantTypes} {rd : ReferenceDescription}
    (h : rd ∈ found s (propertiesBrowse typeId) outcome) : rd.nodeClass = nodeClassValue .variable := by
  obtain ⟨c, _, hc⟩ := kindAt_of_found (show wants 5 4 = true by decide) h
  have hmask : (rd.nodeClass &&& 2 == 0) = false :=
    mask_of_found (show wants 5 4 = true by decide) (show ((2 : UInt32) != 0) = true by decide) h
  rw [hc] at hmask ⊢
  revert hmask
  cases c <;> decide

variable (hstart : Started host id base)
include hstart

/-- A browse in the course of the instantiation finds what it would have found
before. -/
theorem browse_type {outcome : Except StatusCode RelevantTypes} (h : Grown host id base st)
    (htype : classAt base.space typeId = some .objectType ∨ classAt base.space typeId = some .variableType)
    (houtcome : relevantTypes fuel base.space (typeBrowse base.space typeId) = some outcome) :
    ∃ mid, browseTypes host fuel st (typeBrowse base.space typeId) =
      some ((found base.space (typeBrowse base.space typeId) outcome).take 100, mid) ∧ Grown host id base mid := by
  have hforward : (typeBrowse base.space typeId).browseDirection = browseForward := by
    rw [typeBrowse]
    split <;> rfl
  have hbrowse : (browseTypes host fuel st (typeBrowse base.space typeId)).map (·.1) = _ :=
    browseTypes_references hforward
  rw [relevantTypes_grown hstart h, houtcome, Option.map_some, found_grown hstart h htype] at hbrowse
  obtain ⟨⟨references, mid⟩, hmid, hreferences⟩ := Option.map_eq_some_iff.mp hbrowse
  obtain rfl : references = _ := hreferences
  exact ⟨mid, hmid, grown_steps hstart h (step_browseTypes hmid).1⟩

theorem searched_of_browse {references : List ReferenceDescription} {mid : State} (h : Grown host id base st)
    (htype : classAt base.space typeId = some .objectType ∨ classAt base.space typeId = some .variableType)
    (hbrowse : browseTypes host fuel st (typeBrowse base.space typeId) = some (references, mid)) :
    ∃ outcome, relevantTypes fuel base.space (typeBrowse base.space typeId) = some outcome ∧
      references = (found base.space (typeBrowse base.space typeId) outcome).take 100 ∧ Grown host id base mid := by
  have hforward : (typeBrowse base.space typeId).browseDirection = browseForward := by
    rw [typeBrowse]
    split <;> rfl
  obtain ⟨outcome, houtcome, hreferences⟩ := found_of_browseTypes hforward hbrowse
  rw [relevantTypes_grown hstart h] at houtcome
  rw [found_grown hstart h htype] at hreferences
  exact ⟨outcome, houtcome, hreferences, grown_steps hstart h (step_browseTypes hbrowse).1⟩

end Types

end OpcUa.InstantiationLoops
