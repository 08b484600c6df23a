import OpcUa.CopyDemands

namespace OpcUa.InstanceCopies

open StatusCodes NodeIds DataTypes AddressSpaces References SubTypes Browsing NodeManagement NodeCreation StoreTables
  MirroredReferences AddedNodes NodeAdditions Instantiations TypeContainment InstantiationEnds TableRoom CopyDemands
open NodePointers (Access Pointer World Instantiation)
open NodeStores (NodeClass)

variable {host : Host} {memory : Nat → Bool} {base st' : State} {s s' : AddressSpace} {w w' : World} {t : Table}
  {id a typeId : NodeId} {stored : Bool} {copies : Nat}

section Worlds

/-- A world in the course of the instantiation of a new node. -/
structure Along (host : Host) (id : NodeId) (base : State) (w : World) : Prop where
  grown : Grown host id base w.state
  concrete : ∀ a, isConcrete w.state.space a = isConcrete base.space a

/-- A node that is there, or the null id in its place. Where nothing can be
inserted any more, it does not matter. -/
def Holds (host : Host) (memory : Nat → Bool) (w : World) (a : NodeId) (stored : Bool) : Prop :=
  (stored = true → Stored w.state.space a ∨ ∀ copies, room host memory w copies = true) ∧ (stored = false → a = nullId)

theorem holds_stored (h : Stored w.state.space a) : Holds host memory w a true := ⟨fun _ => .inl h, nofun⟩

theorem holds_room (h : ∀ copies, room host memory w copies = true) : Holds host memory w nullId stored :=
  ⟨fun _ => .inr h, fun _ => rfl⟩

theorem holds_null : Holds host memory w nullId false := ⟨nofun, fun _ => rfl⟩

theorem Holds.after (h : Holds host memory w a stored) (hafter : After host memory w copies w') :
    Holds host memory w' a stored := by
  refine ⟨fun hstored => (h.1 hstored).imp (hafter.stored a) (fun hroom more => ?_), h.2⟩
  rw [hafter.room, hroom]

theorem isConcrete_of_map (h : (s'.get a).map isConcreteType = (s.get a).map isConcreteType) :
    isConcrete s' a = isConcrete s a := by
  have hany : ∀ s : AddressSpace, isConcrete s a = ((s.get a).map isConcreteType).any (fun b => b) := by
    intro s
    rw [isConcrete]
    cases s.get a <;> rfl
  rw [hany, hany, h]

theorem isConcrete_addReferences (item : AddReferencesItem) :
    isConcrete (addReferencesSingle s item).2 a = isConcrete s a := by
  apply isConcrete_of_map
  have hbare : ∀ s : AddressSpace, (s.get a).map isConcreteType = ((s.get a).map bare).map isConcreteType := by
    intro s
    rw [Option.map_map]
    rfl
  rw [hbare, hbare, bare_addReferences]

theorem isConcrete_callConstructor {st : State} {lifecycle : Lifecycle} {nodeId : NodeId} :
    isConcrete (callConstructor host st nodeId lifecycle).space a = isConcrete st.space a := by
  rw [callConstructor]
  split
  · rfl
  · apply isConcrete_of_map
    apply map_editNode
    intro n
    rw [setObjectInstanceHandle]
    cases hbody : n.body with
    | object eventNotifier handle =>
        rw [isConcreteType, isConcreteType, hbody]
    | _ => rfl

theorem isConcrete_step {parents completed : NodeId → Prop} {st : State} (h : Step host parents completed st st') :
    isConcrete st'.space a = isConcrete st.space a := by
  cases h with
  | browsed session browses => rfl
  | copied item hid hclass hparent =>
      rcases addNode_cases host st item with ⟨_, hsame⟩ | ⟨n, hn, haccepted⟩
      · rw [hsame]
      · have hother : n.nodeClass ≠ .referenceType := by
          intro hreference
          have hvalue := nodeFromItem_class hn
          rw [hreference] at hvalue
          rcases hclass with hclass | hclass
          · cases nodeClassValue_inj (hclass.symm.trans hvalue)
          · cases nodeClassValue_inj (hclass.symm.trans hvalue)
        rw [addNode_accepted hn, Bool.eq_iff_iff, isConcrete_iff, isConcrete_iff,
          concrete_addExistingNode haccepted hother]
  | linked item hforward huri hlink => exact isConcrete_addReferences item
  | constructed nodeId lifecycle hdone => exact isConcrete_callConstructor

theorem after_linked (item : AddReferencesItem) :
    After host memory w 0 (w.withSpace (addReferencesSingle w.state.space item).2) := by
  refine after_of_same rfl rfl (fun a => ?_)
  rw [stored_iff_bare, stored_iff_bare]
  change (∃ m, ((addReferencesSingle w.state.space item).2.get a).map bare = some m) ↔ _
  rw [bare_addReferences]

theorem after_constructed (nodeId : NodeId) (lifecycle : Lifecycle) :
    After host memory w 0 ⟨callConstructor host w.state nodeId lifecycle, w.table⟩ := by
  refine after_of_same rfl ?_ (fun a => ?_)
  · change (callConstructor host w.state nodeId lifecycle).inserts = w.state.inserts
    rw [callConstructor]
    split <;> rfl
  · rw [stored_iff_kindAt, stored_iff_kindAt, kindAt_callConstructor]

variable (hstart : Started host id base)
include hstart

theorem along_start (t : Table) : Along host id base ⟨base, t⟩ := ⟨hstart.grown, fun _ => rfl⟩

theorem along_step (h : Along host id base w) (hstep : Step host (worked id base) (copied base) w.state st')
    (t : Table) :
    Along host id base ⟨st', t⟩ where
  grown := grown_step hstart h.grown hstep
  concrete a := (isConcrete_step hstep).trans (h.concrete a)

theorem along_steps (h : Along host id base w) (hsteps : Steps host (worked id base) (copied base) w.state st')
    (t : Table) :
    Along host id base ⟨st', t⟩ := by
  refine ⟨grown_steps hstart h.grown hsteps, fun a => ?_⟩
  have hsame : isConcrete st'.space a = isConcrete w.state.space a := by
    induction hsteps with
    | refl => rfl
    | tail _ hstep ih => exact (isConcrete_step hstep).trans ih
  exact hsame.trans (h.concrete a)

theorem null_along (h : Along host id base w) : ¬ Stored w.state.space nullId := by
  intro hnull
  obtain ⟨k, hk⟩ := stored_iff_kindAt.mp hnull
  have hclass : classAt w.state.space nullId = some k.2 := by
    rw [classAt, hk]
    rfl
  obtain ⟨_, i, _, hid⟩ := h.grown.new nullId k.2 hstart.null hclass
  have hindex := ((nodeIdEqual_iff _ _).mp hid).1
  cases hindex

omit hstart in
theorem classAt_along (h : Along host id base w) {c : NodeClass} (hc : c = .objectType ∨ c = .variableType) :
    classAt w.state.space a = some c ↔ classAt base.space a = some c := by
  by_cases ha : Stored base.space a
  · rw [h.grown.classAt ha]
  · refine iff_of_false (fun hnow => ?_) (fun hbase => ha (stored_of_classAt hbase))
    obtain ⟨hnew, _⟩ := h.grown.new a c ha hnow
    rcases hc with rfl | rfl <;> rcases hnew with hnew | hnew <;> cases hnew

end Worlds

section Loops

variable {inst : Nat → Instantiation} {below : Nat → Bool → NodeId → Demand} {c : NodeClass} {node : Pointer}

/-- An instantiation meets its demand, and turns down what is no such type. -/
structure Meets (host : Host) (memory : Nat → Bool) (id : NodeId) (base : State) (inst : Nat → Instantiation)
    (below : Nat → Bool → NodeId → Demand) (c : NodeClass) : Prop where
  follows : ∀ w a stored typeId, Along host id base w → Holds host memory w a stored → copied base a →
    Settles host memory (Along host id base) w (fun p => below p stored typeId) (fun p => (inst p w a typeId).map (·.2))
  other : ∀ p w a typeId, classAt w.state.space typeId ≠ some c → ∃ status, inst p w a typeId = .done (status, w)
  types : c = .objectType ∨ c = .variableType

/-- The loop over the type definitions of a node, for a copy of it. -/
abbrev typeLoop (inst : Nat → Instantiation) (a : NodeId) (node : Pointer) (p : Nat) :
    Nat → Nat → World → Access World :=
  NodePointers.eachTypeDefinition (fun w typeId => (inst p w a typeId).map (·.2)) node

theorem typeLoop_succ (hblock : node.block = w.table.block) (hnode : Stored w.state.space node.nodeId) {p q i : Nat} :
    typeLoop inst a node p (q + 1) i w = (refsAt w.state.space node.nodeId)[i]?.elim (.done w) (fun r =>
      if definesType r then ((inst p w a r.targetId.nodeId).map (·.2)).bind (typeLoop inst a node p q (i + 1))
      else typeLoop inst a node p q (i + 1) w) := by
  obtain ⟨n, hn⟩ := hnode
  rw [typeLoop, NodePointers.eachTypeDefinition, read_of_stored hblock hn, Access.done_bind, refsAt_of_get hn]
  cases n.references[i]? <;> rfl

theorem typeLoop_moved (hblock : node.block ≠ w.table.block) {p q i : Nat} :
    typeLoop inst a node p (q + 1) i w = .dangling := by
  rw [typeLoop, NodePointers.eachTypeDefinition, read_moved hblock]
  rfl

/-- The type definitions that a node had before, from one place on. -/
def typesFrom (s : AddressSpace) (source : NodeId) (i : Nat) : List ReferenceNode :=
  ((refsAt s source).drop i).filter definesType

theorem typesFrom_cons {source : NodeId} {i : Nat} {r : ReferenceNode} (hr : (refsAt s source)[i]? = some r)
    (hdefines : definesType r = true) : typesFrom s source i = r :: typesFrom s source (i + 1) := by
  obtain ⟨hlt, rfl⟩ := List.getElem?_eq_some_iff.mp hr
  rw [typesFrom, List.drop_eq_getElem_cons hlt, List.filter_cons_of_pos hdefines]
  rfl

theorem typesFrom_skip {source : NodeId} {i : Nat}
    (h : ∀ r, (refsAt s source)[i]? = some r → definesType r = false) :
    typesFrom s source i = typesFrom s source (i + 1) := by
  rw [typesFrom, typesFrom]
  by_cases hlt : i < (refsAt s source).length
  · rw [List.drop_eq_getElem_cons hlt, List.filter_cons_of_neg]
    rw [h _ (List.getElem?_eq_getElem hlt)]
    exact Bool.false_ne_true
  · rw [List.drop_eq_nil_of_le (Nat.le_of_not_lt hlt), List.drop_eq_nil_of_le (by omega)]

variable (hstart : Started host id base) (hmeets : Meets host memory id base inst below c)
include hstart hmeets

omit hstart in
theorem loop_done_behind (h : Along host id base w) (hblock : node.block = w.table.block)
    (hsource : Stored base.space node.nodeId) {i : Nat} (hi : (refsAt base.space node.nodeId).length ≤ i) :
    ∃ enough, ∀ q ≥ enough, ∀ p, typeLoop inst a node p q i w = .done w := by
  have hnode := h.grown.stored hsource
  induction hleft : (refsAt w.state.space node.nodeId).length - i generalizing i with
  | zero =>
      refine ⟨1, fun q hq p => ?_⟩
      obtain ⟨q, rfl⟩ := Nat.exists_eq_add_of_le' hq
      rw [typeLoop_succ hblock hnode, List.getElem?_eq_none (by omega)]
      rfl
  | succ left ih =>
      obtain ⟨enough, hrest⟩ := ih (Nat.le_succ_of_le hi) (by omega)
      refine ⟨enough + 1, fun q hq p => ?_⟩
      obtain ⟨q, rfl⟩ : ∃ q', q = q' + 1 := ⟨q - 1, by omega⟩
      have hnext := hrest q (by omega) p
      rw [typeLoop_succ hblock hnode]
      cases hr : (refsAt w.state.space node.nodeId)[i]? with
      | none => rfl
      | some r =>
          rw [Option.elim_some]
          split
          · next hdefines =>
            rcases getElem_grown h.grown hsource hr hdefines with hold | hnoType
            · exact absurd (List.getElem?_eq_some_iff.mp hold).1 (Nat.not_lt.mpr hi)
            · obtain ⟨status, hstatus⟩ := hmeets.other p w a r.targetId.nodeId (by
                rcases hmeets.types with rfl | rfl
                · exact hnoType.1
                · exact hnoType.2)
              rw [hstatus]
              exact hnext
          · exact hnext

/-- By induction on the references that were there before and are still to
come. -/
theorem loop_follows (h : Along host id base w) (hheld : Holds host memory w a stored) (ha : copied base a)
    (hblock : node.block = w.table.block) (hsource : Stored base.space node.nodeId) (i j : Nat) :
    Settles host memory (Along host id base) w
      (fun p => Demand.each (fun r => below p stored r.targetId.nodeId) (typesFrom base.space node.nodeId i))
      (fun p => typeLoop inst a node p (p - j) i w) := by
  induction hleft : (refsAt base.space node.nodeId).length - i generalizing w i j with
  | zero =>
      have hnothing : typesFrom base.space node.nodeId i = [] := by
        rw [typesFrom, List.drop_eq_nil_of_le (by omega)]
        rfl
      obtain ⟨enough, hdone⟩ := loop_done_behind hmeets h hblock hsource (Nat.le_of_sub_eq_zero hleft)
      refine ⟨.done w, enough + j, fun p hp => ⟨hdone (p - j) (by omega) p, ?_⟩⟩
      rw [hnothing]
      exact follows_nothing (.refl w) h
  | succ left ih =>
      have hnode := h.grown.stored hsource
      have hstep : ∀ p ≥ j + 1, p - j = p - (j + 1) + 1 := fun p hp => by omega
      by_cases hdefined : ∃ r, (refsAt base.space node.nodeId)[i]? = some r ∧ definesType r = true
      · obtain ⟨r, hr, hdefines⟩ := hdefined
        have hkept := getElem_kept hstart h.grown hsource hr hdefines
        have hinstantiated := hmeets.follows w a stored r.targetId.nodeId h hheld ha
        have hboth := hinstantiated.bind (fun w' copies hafter h' =>
          ih h' (hheld.after hafter) (hblock.trans hafter.block.symm) (i + 1) (j + 1) (by omega))
        refine hboth.congr (j + 1) (fun p _ => ?_) (fun p hp => ?_)
        · rw [typesFrom_cons hr hdefines]
          rfl
        · rw [hstep p hp, typeLoop_succ hblock hnode, hkept, Option.elim_some, if_pos hdefines]
      · have hskip : typesFrom base.space node.nodeId i = typesFrom base.space node.nodeId (i + 1) := by
          refine typesFrom_skip (fun r hr => ?_)
          rw [← Bool.not_eq_true]
          exact fun hdefines => hdefined ⟨r, hr, hdefines⟩
        cases hr : (refsAt w.state.space node.nodeId)[i]? with
        | none =>
            have hnothing : ∀ i' ≥ i, typesFrom base.space node.nodeId i' = [] := by
              intro i' hi'
              refine List.filter_eq_nil_iff.mpr (fun r hr' hdefines => ?_)
              obtain ⟨k, hk⟩ := List.mem_iff_getElem?.mp hr'
              rw [List.getElem?_drop] at hk
              have hkept := getElem_kept hstart h.grown hsource hk hdefines
              have hlong := (List.getElem?_eq_some_iff.mp hkept).1
              have hshort := List.getElem?_eq_none_iff.mp hr
              omega
            have hdone : Settles host memory (Along host id base) w (fun _ => ⟨0, true⟩) (fun _ => .done w) :=
              settles_done (fun _ => rfl) (fun _ => rfl) (.refl w) h
            refine hdone.congr (j + 1) (fun p _ => ?_) (fun p hp => ?_)
            · rw [hnothing i (Nat.le_refl i)]
              rfl
            · rw [hstep p hp, typeLoop_succ hblock hnode, hr]
              rfl
        | some r =>
            have hnext := ih h hheld hblock (i + 1) (j + 1) (by omega)
            refine hnext.congr (j + 1) (fun p _ => by rw [hskip]) (fun p hp => ?_)
            rw [hstep p hp, typeLoop_succ hblock hnode, hr, Option.elim_some]
            split
            · next hdefines =>
              rcases getElem_grown h.grown hsource hr hdefines with hold | hnoType
              · exact absurd ⟨r, hold, hdefines⟩ hdefined
              · obtain ⟨status, hstatus⟩ := hmeets.other p w a r.targetId.nodeId (by
                  rcases hmeets.types with rfl | rfl
                  · exact hnoType.1
                  · exact hnoType.2)
                rw [hstatus]
                rfl
            · rfl

end Loops

section Copies

variable {inst : Nat → Instantiation} {below : Nat → Bool → NodeId → Demand} {c : NodeClass}
  {item : AddNodesItem} {n : Node}
  {source referenceType parent : NodeId} {rd : ReferenceDescription}

def copyExisting (host : Host) (memory : Nat → Bool) (inst : Nat → Instantiation) (p : Nat) (node : Pointer) (w : World)
    (item : AddNodesItem) : Access World :=
  (NodePointers.addNode host memory w item).bind fun added => typeLoop inst added.1.addedNodeId node p p 0 added.2

theorem copyExistingVariable_eq {members : VariableMembers} (hn : w.state.space.get source = some n)
    (hbody : n.body = .variable members) (p : Nat) :
    (NodePointers.copyExistingVariable host memory (inst p) p w source referenceType parent).map (·.2) =
      copyExisting host memory inst p ⟨source, w.table.block⟩ w (variableCopy host n members referenceType parent) := by
  rw [NodePointers.copyExistingVariable, get_of_stored hn]
  dsimp only
  rw [read_of_stored rfl hn, Access.done_bind, hbody]
  dsimp only
  rw [Access.bind_map, copyExisting]
  congr 1
  funext added
  rw [Access.map_map, Access.map_id]

theorem copyExistingObject_eq {eventNotifier : UInt8} {handle : Nat} (hn : w.state.space.get source = some n)
    (hbody : n.body = .object eventNotifier handle) (p : Nat) :
    (NodePointers.copyExistingObject host memory (inst p) p w source referenceType parent).map (·.2) =
      copyExisting host memory inst p ⟨source, w.table.block⟩ w (objectCopy n eventNotifier referenceType parent) := by
  rw [NodePointers.copyExistingObject, get_of_stored hn]
  dsimp only
  rw [read_of_stored rfl hn, Access.done_bind, hbody]
  dsimp only
  rw [Access.bind_map, copyExisting]
  congr 1
  funext added
  rw [Access.map_map, Access.map_id]

theorem copyExisting_done {r : AddNodesResult} (hrun : NodePointers.addNode host memory w item = .done (r, w'))
    (node : Pointer) (p : Nat) :
    copyExisting host memory inst p node w item = typeLoop inst r.addedNodeId node p p 0 w' := by
  rw [copyExisting, hrun, Access.done_bind]

theorem isInserted_iff : isInserted host s stored rd = true ↔
    stored = true ∧ 0 < host.namespacesSize ∧ Concrete s rd.referenceTypeId := by
  rw [isInserted, Bool.and_eq_true, Bool.and_eq_true, decide_eq_true_eq, isConcrete_iff, and_assoc]

theorem notInserted_null (hid : n.nodeId = nullId) : (notInserted n).addedNodeId = nullId := by
  rw [notInserted, hid]
  rfl

variable (hstart : Started host id base) (hmeets : Meets host memory id base inst below c)
include hstart

omit hstart in
theorem refused_copy (h : Along host id base w) (hheld : Holds host memory w item.parentNodeId stored)
    (href : item.referenceTypeId = rd.referenceTypeId) (hid : n.nodeId = nullId)
    (hnot : ¬ Admitted host w.state.space n item.parentNodeId item.referenceTypeId) :
    isInserted host base.space stored rd = false ∨ ∀ copies, room host memory w copies = true := by
  rw [← Bool.not_eq_true, isInserted_iff, or_iff_not_imp_left, not_not]
  rintro ⟨hstored, hnamespaces, hconcrete⟩
  refine (hheld.1 hstored).resolve_left (fun hparent => hnot ⟨?_, hparent, ?_⟩)
  · rw [hid]
    exact hnamespaces
  · rw [← isConcrete_iff, h.concrete, href, isConcrete_iff]
    exact hconcrete

theorem admitted_copy_inserted (h : Along host id base w) (hheld : Holds host memory w item.parentNodeId stored)
    (href : item.referenceTypeId = rd.referenceTypeId)
    (hadmitted : Admitted host w.state.space n item.parentNodeId item.referenceTypeId) :
    isInserted host base.space stored rd = true := by
  refine isInserted_iff.mpr ⟨?_, Nat.lt_of_le_of_lt (Nat.zero_le _) hadmitted.namespaceIndex, ?_⟩
  · rw [← Bool.not_eq_false]
    intro hstored
    have hparent := hadmitted.parent
    rw [hheld.2 hstored] at hparent
    exact null_along hstart h hparent
  · rw [← isConcrete_iff, ← h.concrete, ← href, isConcrete_iff]
    exact hadmitted.referenceType

omit hstart in
/-- A table that grows is noticed in the first pass of the loop. -/
theorem copy_moved (hinserted : isInserted host base.space stored rd = true)
    (hreserve : w.table.reserve memory = some t) (hblock : t.block ≠ w.table.block)
    (hmoved : w'.table.block = t.block) :
    Settles host memory (Along host id base) w (fun p => copyDemand host base.space (below p) stored rd)
      (fun p => typeLoop inst a ⟨rd.nodeId.nodeId, w.table.block⟩ p p 0 w') := by
  refine ⟨.dangling, 1, fun p hp => ⟨?_, .dangling ?_⟩⟩
  · obtain ⟨p, rfl⟩ := Nat.exists_eq_add_of_le' hp
    refine typeLoop_moved ?_
    rw [hmoved]
    exact Ne.symm hblock
  · change room host memory w (copyDemand host base.space (below p) stored rd).copies = false
    rw [copyDemand, hinserted, andThen_ended rfl, Bool.toNat_true, Nat.add_comm]
    exact no_room_of_moved hreserve hblock _

include hmeets

/-- A copy that fails leaves everything as it is. -/
theorem copy_failed (h : Along host id base w) (hsource : Stored base.space rd.nodeId.nodeId)
    (hfails : isInserted host base.space stored rd = false ∨ ∀ copies, room host memory w copies = true) :
    Settles host memory (Along host id base) w (fun p => copyDemand host base.space (below p) stored rd)
      (fun p => typeLoop inst nullId ⟨rd.nodeId.nodeId, w.table.block⟩ p p 0 w) := by
  have hloop : ∀ {found : Bool}, Holds host memory w nullId found → Settles host memory (Along host id base) w
      (fun p => Demand.each (fun r => below p found r.targetId.nodeId) (typesFrom base.space rd.nodeId.nodeId 0))
      (fun p => typeLoop inst nullId ⟨rd.nodeId.nodeId, w.table.block⟩ p p 0 w) :=
    fun hheld => loop_follows hstart hmeets h hheld hstart.null rfl hsource 0 0
  rcases hfails with hnot | hroom
  · refine (hloop holds_null).congr 0 (fun p _ => ?_) (fun _ _ => rfl)
    rw [copyDemand, hnot]
    exact nothing_andThen _
  · exact (hloop (holds_room hroom)).of_room hroom _

/-- A copy that is inserted into a table with room is instantiated in turn. -/
theorem copy_inserted (h : Along host id base w) (hparent : worked id base item.parentNodeId)
    (hsource : Stored base.space rd.nodeId.nodeId) (hid : item.requestedNewNodeId = nullId)
    (hclass : item.nodeClass = nodeClassValue .variable ∨ item.nodeClass = nodeClassValue .object)
    (hn : nodeFromItem host item = .ok n) (haccepted : Accepted host w.state n item.parentNodeId item.referenceTypeId)
    (hreserve : w.table.reserve memory = some t) (hblock : t.block = w.table.block)
    (hinserted : isInserted host base.space stored rd = true) :
    Settles host memory (Along host id base) w (fun p => copyDemand host base.space (below p) stored rd)
      (fun p => typeLoop inst (insertedId host w.state n.nodeId) ⟨rd.nodeId.nodeId, w.table.block⟩ p p 0
        ⟨(NodeCreation.addNode host w.state item).2, t.counted⟩) := by
  have hnodeId : n.nodeId = nullId := (nodeFromItem_nodeId hn).trans hid
  have hstored := fun a => stored_addExistingNode haccepted (a := a)
  rw [← addNode_accepted hn] at hstored
  have hafter : After host memory w 1 ⟨(NodeCreation.addNode host w.state item).2, t.counted⟩ := by
    refine ⟨hblock, fun a ha => (hstored a).mpr (.inr ha), fun more => ?_⟩
    rw [room_inserted hnodeId hn haccepted hreserve hblock, Nat.add_comm]
  have hstep : Step host (worked id base) (copied base) w.state (NodeCreation.addNode host w.state item).2 :=
    .copied w.state item hid hclass hparent
  have hcopied : copied base (NodeCreation.addNode host w.state item).1.addedNodeId :=
    admitted_copy (admits_copied hstart h.grown) hid
  rw [added_accepted hn haccepted] at hcopied
  have hheld : Holds host memory ⟨(NodeCreation.addNode host w.state item).2, t.counted⟩
      (insertedId host w.state n.nodeId) true := holds_stored ((hstored _).mpr (.inl (nodeIdEqual_refl _)))
  have hroom : room host memory w 1 = true := by rw [← hafter.room 0, room_zero]
  have hloop : Settles host memory (Along host id base) ⟨(NodeCreation.addNode host w.state item).2, t.counted⟩
      (fun p => Demand.each (fun r => below p true r.targetId.nodeId) (typesFrom base.space rd.nodeId.nodeId 0))
      (fun p => typeLoop inst (insertedId host w.state n.nodeId) ⟨rd.nodeId.nodeId, w.table.block⟩ p p 0
        ⟨(NodeCreation.addNode host w.state item).2, t.counted⟩) :=
    loop_follows hstart hmeets (along_step hstart h hstep t.counted) hheld hcopied hblock.symm hsource 0 0
  refine (hloop.after hroom hafter).congr 0 (fun p _ => ?_) (fun _ _ => rfl)
  rw [copyDemand, hinserted]
  rfl

/-- The original is read again behind the insertion of its copy, which is where
a table that grows shows. -/
theorem copy_follows (h : Along host id base w) (hheld : Holds host memory w parent stored)
    (hparent : worked id base parent)
    (hsource : Stored base.space rd.nodeId.nodeId) (hitem : IsCopy parent item)
    (href : item.referenceTypeId = rd.referenceTypeId) (hn : nodeFromItem host item = .ok n) :
    Settles host memory (Along host id base) w (fun p => copyDemand host base.space (below p) stored rd)
      (fun p => copyExisting host memory inst p ⟨rd.nodeId.nodeId, w.table.block⟩ w item) := by
  have hid : n.nodeId = nullId := (nodeFromItem_nodeId hn).trans hitem.id
  rw [← hitem.parent] at hheld hparent
  obtain ⟨r, w', hrun, hattempt⟩ := addNode_attempt host memory w item
  refine Settles.congr ?_ 0 (fun _ _ => rfl) (fun p _ => copyExisting_done hrun _ p)
  cases hattempt with
  | refused hbad hnull hnot =>
      rw [hnull]
      exact copy_failed hstart hmeets h hsource (refused_copy h hheld href hid (hnot n hn))
  | @noMemory m hm hadmitted hreserve =>
      obtain rfl := Except.ok.inj (hn.symm.trans hm)
      rw [notInserted_null hid]
      exact copy_failed hstart hmeets h hsource (.inr (room_of_noMemory hreserve))
  | @taken m t hm hadmitted hreserve hused =>
      obtain rfl := Except.ok.inj (hn.symm.trans hm)
      rw [notInserted_null hid]
      by_cases hblock : t.block = w.table.block
      · rw [eq_of_reserve hreserve hblock]
        exact copy_failed hstart hmeets h hsource (.inr (room_of_taken hid hreserve hblock hused))
      · exact copy_moved (admitted_copy_inserted hstart h hheld href hadmitted) hreserve hblock rfl
  | @inserted m t hm haccepted hreserve =>
      obtain rfl := Except.ok.inj (hn.symm.trans hm)
      have hinserted := admitted_copy_inserted hstart h hheld href (admitted_of_accepted haccepted)
      by_cases hblock : t.block = w.table.block
      · exact copy_inserted hstart hmeets h hparent hsource hitem.id hitem.nodeClass hn haccepted hreserve hblock
          hinserted
      · exact copy_moved hinserted hreserve hblock rfl

end Copies

end OpcUa.InstanceCopies
