import OpcUa.Instantiations
import OpcUa.NodeDeletion

namespace OpcUa.TypeContainment

open StatusCodes NodeIds DataTypes AddressSpaces References SubTypes Worklists Browsing NodeManagement NodeCreation
  MirroredReferences NodeDeletion AddedNodes NodeAdditions Instantiations Relation
open NodeStores (NodeClass hasNullIdentifier)

def typeBrowse (s : AddressSpace) (typeId : NodeId) : BrowseDescription :=
  if classAt s typeId = some .objectType then childrenBrowse typeId else propertiesBrowse typeId

def HasTypesOf (nodeClass : UInt32) (c : NodeClass) : Prop :=
  nodeClass = nodeClassValue .object ∧ c = .objectType ∨ nodeClass = nodeClassValue .variable ∧ c = .variableType

def definesType (r : ReferenceNode) : Bool :=
  !r.isInverse && nodeIdEqual r.referenceTypeId (numericId 0 hasTypeDefinition)

/-- One of the first hundred children of a type is an object or a variable of
the other type. -/
def Contains (s : AddressSpace) (typeId other : NodeId) : Prop :=
  (classAt s typeId = some .objectType ∨ classAt s typeId = some .variableType) ∧
    ∃ fuel outcome, relevantTypes fuel s (typeBrowse s typeId) = some outcome ∧
      ∃ rd ∈ (found s (typeBrowse s typeId) outcome).take 100, ∃ r ∈ refsAt s rd.nodeId.nodeId,
        definesType r = true ∧ r.targetId.nodeId = other ∧ ∃ c, classAt s other = some c ∧ HasTypesOf rd.nodeClass c

/-- The search for the reference types of its children ends. -/
def Searched (s : AddressSpace) (typeId : NodeId) : Prop :=
  ∃ fuel outcome, relevantTypes fuel s (typeBrowse s typeId) = some outcome

/-- No stored reference leads to an id that is free and that the store will
choose. -/
def Unclaimed (host : Host) (st : State) : Prop :=
  ∀ a, ∀ r ∈ refsAt st.space a, ∀ i ≥ st.inserts,
    nodeIdEqual (numericId 1 (host.numbers i)) r.targetId.nodeId = true → Stored st.space r.targetId.nodeId

/-- The state when the instantiation of a new node starts. -/
structure Started (host : Host) (id : NodeId) (base : State) : Prop where
  null : ¬ Stored base.space nullId
  unclaimed : Unclaimed host base
  nodeClass : classAt base.space id = some .object ∨ classAt base.space id = some .variable
  references : ∀ r ∈ refsAt base.space id, r.isInverse = true

/-- The node that is instantiated, and what is added below it. -/
def worked (id : NodeId) (base : State) (a : NodeId) : Prop := nodeIdEqual id a = true ∨ ¬ Stored base.space a

def copied (base : State) (a : NodeId) : Prop := ¬ Stored base.space a

def NoType (s : AddressSpace) (a : NodeId) : Prop := classAt s a ≠ some .objectType ∧ classAt s a ≠ some .variableType

/-- A state in the course of the instantiation. The nodes that were there only
get inverse references, and nothing refers to a type from the new node yet. -/
structure Grown (host : Host) (id : NodeId) (base st : State) : Prop where
  kept : ∀ a, Stored base.space a → kindAt st.space a = kindAt base.space a
  new : ∀ a c, ¬ Stored base.space a → classAt st.space a = some c →
    (c = .object ∨ c = .variable) ∧ ∃ i ≥ base.inserts, nodeIdEqual (numericId 1 (host.numbers i)) a = true
  inserts : base.inserts ≤ st.inserts
  references : ∀ a, Stored base.space a → nodeIdEqual id a = false →
    ∃ more, refsAt st.space a = refsAt base.space a ++ more ∧ ∀ r ∈ more, r.isInverse = true
  self : ∀ r ∈ refsAt st.space id, r.isInverse = false → NoType st.space r.targetId.nodeId

variable {host : Host} {parents completed : NodeId → Prop} {base st st' : State} {s : AddressSpace} {fuel : Nat}
  {id a b typeId : NodeId}

section Steps

theorem Started.stored (h : Started host id base) : Stored base.space id := by
  rcases h.nodeClass with hclass | hclass
  · exact stored_of_classAt hclass
  · exact stored_of_classAt hclass

theorem Started.ne_of_class (h : Started host id base) {c : NodeClass} (hclass : classAt base.space a = some c)
    (hobject : c ≠ .object) (hvariable : c ≠ .variable) : nodeIdEqual id a = false := by
  rw [← Bool.not_eq_true]
  intro hsame
  have hid := h.nodeClass
  rw [Instantiations.classAt, kindAt_congr hsame, ← Instantiations.classAt, hclass] at hid
  rcases hid with hid | hid
  · exact hobject (Option.some.inj hid)
  · exact hvariable (Option.some.inj hid)

theorem Started.grown (h : Started host id base) : Grown host id base base where
  kept _ _ := rfl
  new a c hnew hclass := absurd (stored_of_classAt hclass) hnew
  inserts := Nat.le_refl _
  references a _ _ := ⟨[], (List.append_nil _).symm, nofun⟩
  self r hr hforward := by
    rw [h.references r hr] at hforward
    cases hforward

theorem Grown.stored (h : Grown host id base st) (ha : Stored base.space a) : Stored st.space a := by
  rw [stored_iff_kindAt, h.kept a ha]
  exact stored_iff_kindAt.mp ha

theorem Grown.classAt (h : Grown host id base st) (ha : Stored base.space a) :
    classAt st.space a = classAt base.space a := by
  rw [Instantiations.classAt, h.kept a ha]
  rfl

theorem noType_of_class {c : NodeClass} (h : classAt s a = some c) (hc : c = .object ∨ c = .variable ∨ c = .method) :
    NoType s a := by
  rw [NoType, h]
  rcases hc with rfl | rfl | rfl <;> decide

theorem noType_step (h : Step host parents completed st st') (ha : NoType st.space a) : NoType st'.space a := by
  cases hc : Instantiations.classAt st'.space a with
  | none =>
      rw [NoType, hc]
      exact ⟨nofun, nofun⟩
  | some c =>
      rcases h.new hc with hold | ⟨hclass, _⟩
      · rw [NoType, hc, ← hold]
        exact ha
      · refine noType_of_class hc ?_
        rcases hclass with hclass | hclass
        · exact .inl hclass
        · exact .inr (.inl hclass)

theorem addReferences_unstored {item : AddReferencesItem} (h : ¬ Stored s item.sourceNodeId) :
    (addReferencesSingle s item).2 = s := by
  rw [addReferencesSingle, editNode_none (not_stored_iff.mp h)]
  split <;> rfl

/-- What a step adds to the references of a node: inverse ones, or what starts
at a node that it works on. -/
theorem refsAt_step (h : Step host parents completed st st') (ha : Stored st.space a) :
    ∃ more, refsAt st'.space a = refsAt st.space a ++ more ∧ ∀ r ∈ more, r.isInverse = true ∨
      ∃ b, nodeIdEqual b a = true ∧ (completed b ∨ parents b ∧ NoType st'.space r.targetId.nodeId) := by
  have hnothing : ∃ more, refsAt st.space a = refsAt st.space a ++ more ∧ ∀ r ∈ more, r.isInverse = true ∨
      ∃ b, nodeIdEqual b a = true ∧ (completed b ∨ parents b ∧ NoType st'.space r.targetId.nodeId) :=
    ⟨[], (List.append_nil _).symm, nofun⟩
  cases h with
  | browsed session browses => exact hnothing
  | copied item hid hclass hparent =>
      rcases addNode_cases host st item with ⟨_, hsame⟩ | ⟨n, hn, haccepted⟩
      · rw [hsame] at hnothing ⊢
        exact hnothing
      have hreferences := refsAt_addExistingNode haccepted (nodeFromItem_references hn) a
      rw [ne_insertedId haccepted ha, if_neg Bool.false_ne_true, List.append_nil, ← addNode_accepted hn] at hreferences
      refine ⟨_, hreferences, ?_⟩
      intro r hr
      split at hr
      · rename_i hsame
        obtain rfl := List.mem_singleton.mp hr
        refine .inr ⟨item.parentNodeId, hsame, .inr ⟨hparent, ?_⟩⟩
        have hnode := nodeClass_addExistingNode haccepted (insertedId host st n.nodeId)
        rw [if_pos (nodeIdEqual_refl _), ← addNode_accepted hn, ← classAt_eq] at hnode
        refine noType_of_class hnode ?_
        rcases hclass with hclass | hclass
        · exact .inr (.inl (nodeClassValue_inj ((nodeFromItem_class hn).symm.trans hclass)))
        · exact .inl (nodeClassValue_inj ((nodeFromItem_class hn).symm.trans hclass))
      · cases hr
  | linked item hforward huri hlink =>
      by_cases hsource : Stored st.space item.sourceNodeId
      · have htarget : Stored st.space item.targetNodeId.nodeId := by
          rcases hlink with ⟨_, htarget⟩ | ⟨_, hmethod⟩
          · exact htarget
          · exact stored_of_classAt hmethod
        have hnouri : ¬ item.targetServerUri.length > 0 := by
          rw [huri]
          exact lt_irrefl _
        refine ⟨_, (refsAt_addReferences hnouri hsource htarget a).trans (List.append_assoc _ _ _), ?_⟩
        intro r hr
        rcases List.mem_append.mp hr with hr | hr
        · split at hr
          · rename_i hsame
            obtain rfl := List.mem_singleton.mp hr
            refine .inr ⟨item.sourceNodeId, hsame, ?_⟩
            rcases hlink with ⟨hcompleted, _⟩ | ⟨hparent, hmethod⟩
            · exact .inl hcompleted
            · refine .inr ⟨hparent, noType_of_class ?_ (.inr (.inr rfl))⟩
              rw [Instantiations.classAt, kindAt_of_bare (bare_addReferences item)]
              exact hmethod
          · cases hr
        · split at hr
          · obtain rfl := List.mem_singleton.mp hr
            refine .inl ?_
            change (!(!item.isForward)) = true
            rw [hforward]
            rfl
          · cases hr
      · dsimp only at hnothing ⊢
        rw [addReferences_unstored hsource] at hnothing ⊢
        exact hnothing
  | constructed nodeId lifecycle hdone =>
      rw [refsAt_callConstructor]
      exact hnothing

theorem grown_step (hstart : Started host id base) (h : Grown host id base st)
    (hstep : Step host (worked id base) (copied base) st st') : Grown host id base st' where
  kept a ha := (hstep.kindAt (h.stored ha)).trans (h.kept a ha)
  new a c hnew hc := by
    rcases hstep.new hc with hold | ⟨hclass, _, hid⟩
    · exact h.new a c hnew hold
    · exact ⟨hclass, st.inserts, h.inserts, hid⟩
  inserts := h.inserts.trans hstep.inserts
  references a ha hother := by
    obtain ⟨more, hmore, hinverse⟩ := h.references a ha hother
    obtain ⟨more', hmore', hadded⟩ := refsAt_step hstep (h.stored ha)
    refine ⟨more ++ more', by rw [hmore', hmore, List.append_assoc], ?_⟩
    intro r hr
    rcases List.mem_append.mp hr with hr | hr
    · exact hinverse r hr
    · rcases hadded r hr with hr | ⟨b, hb, hb'⟩
      · exact hr
      -- only the new node and the copies get anything else
      · exfalso
        have hstored : Stored base.space b := (stored_congr hb).mpr ha
        rcases hb' with hb' | ⟨hb' | hb', _⟩
        · exact hb' hstored
        · rw [nodeIdEqual_trans hb' hb] at hother
          cases hother
        · exact hb' hstored
  self r hr hforward := by
    obtain ⟨more', hmore', hadded⟩ := refsAt_step hstep (h.stored hstart.stored)
    rw [hmore'] at hr
    rcases List.mem_append.mp hr with hr | hr
    · exact noType_step hstep (h.self r hr hforward)
    · rcases hadded r hr with hr | ⟨b, hb, hb'⟩
      · rw [hr] at hforward
        cases hforward
      · rcases hb' with hb' | ⟨_, htarget⟩
        · exact absurd ((stored_congr hb).mpr hstart.stored) hb'
        · exact htarget

theorem grown_steps (hstart : Started host id base) (h : Grown host id base st)
    (hsteps : Steps host (worked id base) (copied base) st st') : Grown host id base st' := by
  induction hsteps with
  | refl => exact h
  | tail _ hstep ih => exact grown_step hstart ih hstep

theorem admits_copied (hstart : Started host id base) (h : Grown host id base st) : Admits (copied base) st.space where
  free _ ha hstored := not_stored_iff.mpr ha (h.stored hstored)
  null := hstart.null

theorem admits_worked (hstart : Started host id base) (h : Grown host id base st) :
    Admits (worked id base) st.space where
  free a ha := .inr ((admits_copied hstart h).free a ha)
  null := .inr hstart.null

end Steps

section Finding

theorem subTypes_eq : subTypes s a =
    if classAt s a = some .referenceType then ((refsAt s a).filter matchesSubtype).map (·.targetId.nodeId) else [] := by
  rw [subTypes, classAt_eq, refsAt]
  cases s.get a with
  | none => rfl
  | some n =>
      dsimp only [Option.map_some]
      by_cases hclass : n.nodeClass = .referenceType
      · rw [if_neg (not_not.mpr hclass), if_pos (congrArg some hclass)]
        rfl
      · rw [if_pos hclass, if_neg (fun h => hclass (Option.some.inj h))]

theorem findSubTypes_class {root : NodeId} : findSubTypes fuel s root =
    (classAt s root).elim (some (.error badNoMatch)) (fun c => if c ≠ .referenceType then
      some (.error badReferenceTypeIdInvalid) else (scan (subTypes s) fuel [root] 0).map .ok) := by
  rw [findSubTypes, classAt_eq]
  cases s.get root <;> rfl

/-- With this mask, a description shows nothing of a node but what never
changes. -/
theorem fill_of_kind {m n : Node} (h : kind m = kind n) (r : ReferenceNode) :
    fillReferenceDescription m r 5 = fillReferenceDescription n r 5 := by
  have hid : m.nodeId = n.nodeId := congrArg Prod.fst h
  have hclass : m.nodeClass = n.nodeClass := congrArg Prod.snd h
  rw [fillReferenceDescription, fillReferenceDescription, hid, hclass]
  rfl

theorem describe_congr {s' : AddressSpace} {descr : BrowseDescription} {types : RelevantTypes} {r : ReferenceNode}
    (hmask : descr.resultMask = 5) (h : kindAt s r.targetId.nodeId = kindAt s' r.targetId.nodeId) :
    describe s descr types r = describe s' descr types r := by
  rw [describe, describe, hmask, returnRelevantNode, returnRelevantNode]
  split
  · rfl
  split
  · rfl
  split
  · rfl
  rw [kindAt, kindAt] at h
  cases hm : s.get r.targetId.nodeId with
  | none =>
      rw [hm, Option.map_none, eq_comm, Option.map_eq_none_iff] at h
      rw [h]
  | some m =>
      rw [hm, Option.map_some, eq_comm] at h
      obtain ⟨n, hn, hkind⟩ := Option.map_eq_some_iff.mp h
      have hclass : n.nodeClass = m.nodeClass := congrArg Prod.snd hkind
      rw [hn]
      dsimp only
      rw [hclass]
      split
      · rfl
      · exact congrArg some (fill_of_kind hkind.symm r)

variable (hstart : Started host id base) (h : Grown host id base st)
include hstart h

theorem subTypes_grown : subTypes st.space a = subTypes base.space a := by
  rw [subTypes_eq, subTypes_eq]
  by_cases ha : Stored base.space a
  · rw [h.classAt ha]
    by_cases hclass : classAt base.space a = some .referenceType
    · have hother : nodeIdEqual id a = false := hstart.ne_of_class hclass (by decide) (by decide)
      obtain ⟨more, hmore, hinverse⟩ := h.references a ha hother
      have hnone : more.filter matchesSubtype = [] := by
        refine List.filter_eq_nil_iff.mpr ?_
        intro r hr
        rw [matchesSubtype, hinverse r hr]
        simp
      rw [hmore, List.filter_append, hnone, List.append_nil]
    · rw [if_neg hclass, if_neg hclass]
  · have hno : classAt base.space a ≠ some .referenceType := fun hclass => ha (stored_of_classAt hclass)
    rw [if_neg hno, if_neg]
    intro hclass
    obtain ⟨hc | hc, _⟩ := h.new a .referenceType ha hclass <;> cases hc

omit hstart in
theorem classAt_standard (number : UInt32) : classAt st.space (numericId 0 number) = classAt base.space
    (numericId 0 number) := by
  by_cases ha : Stored base.space (numericId 0 number)
  · exact h.classAt ha
  · have hnone : ∀ c, classAt base.space (numericId 0 number) ≠ some c := fun c hc => ha (stored_of_classAt hc)
    rw [Option.eq_none_iff_forall_ne_some.mpr hnone]
    refine Option.eq_none_iff_forall_ne_some.mpr ?_
    intro c hc
    obtain ⟨_, i, _, hid⟩ := h.new _ c ha hc
    have hindex := ((nodeIdEqual_iff _ _).mp hid).1
    cases hindex

theorem findSubTypes_grown (number : UInt32) :
    findSubTypes fuel st.space (numericId 0 number) = findSubTypes fuel base.space (numericId 0 number) := by
  rw [findSubTypes_class, findSubTypes_class, classAt_standard h]
  have hsame : subTypes st.space = subTypes base.space := funext (fun a => subTypes_grown hstart h)
  rw [hsame]

theorem relevantTypes_grown : relevantTypes fuel st.space (typeBrowse base.space typeId) =
    relevantTypes fuel base.space (typeBrowse base.space typeId) := by
  rw [typeBrowse]
  split
  · exact congrArg (Option.map (·.map some)) (findSubTypes_grown hstart h aggregates)
  · exact congrArg (Option.map (·.map some)) (findSubTypes_grown hstart h hasProperty)

theorem kindAt_target {r : ReferenceNode} (hr : r ∈ refsAt base.space a) :
    kindAt st.space r.targetId.nodeId = kindAt base.space r.targetId.nodeId := by
  by_cases htarget : Stored base.space r.targetId.nodeId
  · exact h.kept _ htarget
  · have hnone : kindAt base.space r.targetId.nodeId = none := by
      rw [kindAt, not_stored_iff.mp htarget]
      rfl
    rw [hnone]
    refine Option.eq_none_iff_forall_ne_some.mpr ?_
    intro k hk
    obtain ⟨_, i, hi, hid⟩ := h.new _ k.2 htarget (by rw [classAt, hk]; rfl)
    exact htarget (hstart.unclaimed a r hr i hi hid)

theorem found_grown (htype : classAt base.space typeId = some .objectType ∨
    classAt base.space typeId = some .variableType)
    (outcome : Except StatusCode RelevantTypes) :
    found st.space (typeBrowse base.space typeId) outcome = found base.space
      (typeBrowse base.space typeId) outcome := by
  cases outcome with
  | error status => rfl
  | ok types =>
      have hid : (typeBrowse base.space typeId).nodeId = typeId := by
        rw [typeBrowse]
        split <;> rfl
      have hmask : (typeBrowse base.space typeId).resultMask = 5 := by
        rw [typeBrowse]
        split <;> rfl
      have hforward : (typeBrowse base.space typeId).browseDirection = browseForward := by
        rw [typeBrowse]
        split <;> rfl
      obtain ⟨hstored, hother⟩ : Stored base.space typeId ∧ nodeIdEqual id typeId = false := by
        rcases htype with htype | htype
        · exact ⟨stored_of_classAt htype, hstart.ne_of_class htype (by decide) (by decide)⟩
        · exact ⟨stored_of_classAt htype, hstart.ne_of_class htype (by decide) (by decide)⟩
      obtain ⟨more, hmore, hinverse⟩ := h.references typeId hstored hother
      have hnothing : more.filterMap (describe st.space (typeBrowse base.space typeId) types) = [] := by
        refine List.filterMap_eq_nil_iff.mpr ?_
        intro r hr
        rw [describe, returnRelevantNode, hinverse r hr, hforward]
        rfl
      rw [found, found, hid, hmore, List.filterMap_append, hnothing, List.append_nil]
      refine List.filterMap_congr ?_
      intro r hr
      exact describe_congr hmask (kindAt_target hstart h hr)

omit hstart in
theorem getElem_grown (ha : Stored base.space a) {i : Nat} {r : ReferenceNode} (hr : (refsAt st.space a)[i]? = some r)
    (hdefines : definesType r = true) : (refsAt base.space a)[i]? = some r ∨ NoType st.space r.targetId.nodeId := by
  have hforward : r.isInverse = false := by
    rw [definesType, Bool.and_eq_true, Bool.not_eq_true'] at hdefines
    exact hdefines.1
  cases hsame : nodeIdEqual id a with
  | true =>
      refine .inr (h.self r ?_ hforward)
      rw [refsAt_congr hsame]
      exact List.mem_of_getElem? hr
  | false =>
      obtain ⟨more, hmore, hinverse⟩ := h.references a ha hsame
      rw [hmore, List.getElem?_append] at hr
      split at hr
      · exact .inl hr
      · rw [hinverse r (List.mem_of_getElem? hr)] at hforward
        cases hforward

theorem getElem_kept (ha : Stored base.space a) {i : Nat} {r : ReferenceNode} (hr : (refsAt base.space a)[i]? = some r)
    (hdefines : definesType r = true) : (refsAt st.space a)[i]? = some r := by
  cases hsame : nodeIdEqual id a with
  | true =>
      rw [← refsAt_congr hsame] at hr
      rw [definesType, hstart.references r (List.mem_of_getElem? hr)] at hdefines
      cases hdefines
  | false =>
      obtain ⟨more, hmore, _⟩ := h.references a ha hsame
      obtain ⟨hlt, _⟩ := List.getElem?_eq_some_iff.mp hr
      rw [hmore, List.getElem?_append_left hlt]
      exact hr

end Finding

end OpcUa.TypeContainment
