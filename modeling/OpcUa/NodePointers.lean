import OpcUa.InstantiationLoops
import OpcUa.NodeCreation
import OpcUa.StoreTables

namespace OpcUa.NodePointers

open StatusCodes NodeIds DataTypes AddressSpaces References SubTypes Browsing NodeManagement NodeCreation
open StoreTables
open NodeStores (NodeClass)
open NodeManagement (Host)
open NodeCreation (AddNodesItem)
open InstantiationLoops (browseTypes_mono)

/-- What comes of an operation that reads nodes through pointers. It does not
end within its fuel, or it reads a node where there is none any more. -/
inductive Access (α : Type)
  | endless
  | dangling
  | done (a : α)

namespace Access

variable {α β : Type}

def bind (x : Access α) (f : α → Access β) : Access β :=
  match x with
  | endless => endless
  | dangling => dangling
  | done a => f a

def map (f : α → β) (x : Access α) : Access β := x.bind (fun a => done (f a))

instance : Monad Access where
  pure := done
  bind := bind

def ofOption : Option α → Access α
  | none => endless
  | some a => done a

def isDangling : Access α → Bool
  | dangling => true
  | _ => false

theorem eq_dangling {x : Access α} (h : x.isDangling = true) : x = dangling := by
  cases x with
  | dangling => rfl
  | _ => cases h

@[simp] theorem done_bind (a : α) (f : α → Access β) : (done a).bind f = f a := rfl

@[simp] theorem done_map (f : α → β) (a : α) : (done a).map f = done (f a) := rfl

theorem bind_map {γ : Type} (x : Access α) (f : α → Access β) (g : β → γ) :
    (x.bind f).map g = x.bind (fun a => (f a).map g) := by cases x <;> rfl

theorem map_map {γ : Type} (x : Access α) (f : α → β) (g : β → γ) : (x.map f).map g = x.map (fun a => g (f a)) := by
  cases x <;> rfl

theorem map_id (x : Access α) : x.map (fun a => a) = x := by cases x <;> rfl

@[simp] theorem monad_bind (x : Access α) (f : α → Access β) : x >>= f = x.bind f := rfl

@[simp] theorem monad_pure (a : α) : (Pure.pure a : Access α) = done a := rfl

end Access

/-- The state that the services on nodes work on, with the table of the node
store. -/
structure World where
  state : State
  table : Table

/-- A pointer to a node leads into the entries of the store. -/
structure Pointer where
  nodeId : NodeId
  block : Nat
deriving DecidableEq

namespace World

variable (w : World)

/-- `UA_NodeStore_get` -/
def get (id : NodeId) : Option Pointer := (w.state.space.get id).map (fun _ => ⟨id, w.table.block⟩)

/-- The node that a pointer leads to, unless the entries have been moved. -/
def read (p : Pointer) : Access Node :=
  if p.block = w.table.block then (w.state.space.get p.nodeId).elim .dangling .done else .dangling

def withSpace (s : AddressSpace) : World := { w with state := { w.state with space := s } }

end World

section Additions

variable (host : Host) (memory : Nat → Bool) (w : World)

/-- `UA_NodeStore_insert` -/
def insertNode (n : Node) : Option Pointer × World :=
  match w.table.reserve memory with
  | none => (none, w)
  | some t =>
      match NodeManagement.insertNode host w.state n with
      | none => (none, ⟨w.state, t⟩)
      | some (id, st) => (some ⟨id, t.block⟩, ⟨st, t.counted⟩)

/-- The reference to the parent of a node that was inserted. -/
def linkToParent (n : Node) (parentNodeId referenceTypeId : NodeId) :
    Option Pointer × World → Access (AddNodesResult × World)
  | (none, w) => .done (notInserted n, w)
  | (some managed, w) =>
      (w.read managed).bind fun m =>
        .done (⟨good, m.nodeId⟩,
          w.withSpace (addReferencesSingle w.state.space (parentItem m.nodeId referenceTypeId parentNodeId)).2)

def addExistingNode (n : Node) (parentNodeId referenceTypeId : NodeId) : Access (AddNodesResult × World) :=
  if n.nodeId.namespaceIndex.toNat ≥ host.namespacesSize then .done (⟨badNodeIdInvalid, nullId⟩, w)
  else
    match w.get parentNodeId with
    | none => .done (⟨badParentNodeIdInvalid, nullId⟩, w)
    | some _ =>
        match w.get referenceTypeId with
        | none => .done (⟨badReferenceTypeIdInvalid, nullId⟩, w)
        | some referenceType =>
            (w.read referenceType).bind fun type =>
              match type.body with
              | .referenceType isAbstract _ _ =>
                  if isAbstract == 1 then .done (⟨badReferenceNotAllowed, nullId⟩, w)
                  else linkToParent n parentNodeId referenceTypeId (insertNode host memory w n)
              | _ => .done (⟨badReferenceTypeIdInvalid, nullId⟩, w)

/-- `Service_AddNodes_single` up to the instantiation. -/
def addNode (item : AddNodesItem) : Access (AddNodesResult × World) :=
  match nodeFromItem host item with
  | .error status => .done (⟨status, nullId⟩, w)
  | .ok n => addExistingNode host memory w n item.parentNodeId item.referenceTypeId

end Additions

section Instantiation

variable (host : Host) (memory : Nat → Bool)

def browseTypes (passes : Nat) (w : World) (descr : BrowseDescription) : Access (List ReferenceDescription × World) :=
  Access.ofOption ((NodeCreation.browseTypes host passes w.state descr).map (fun r => (r.1, { w with state := r.2 })))

/-- The loop over the type definitions of a node, which is read through the
pointer in each pass. -/
def eachTypeDefinition (instantiate : World → NodeId → Access World) (node : Pointer) : Nat → Nat → World → Access World
  | 0, _, _ => .endless
  | passes + 1, i, w =>
      (w.read node).bind fun n =>
        match n.references[i]? with
        | none => .done w
        | some r =>
            if !r.isInverse && nodeIdEqual r.referenceTypeId (numericId 0 hasTypeDefinition) then
              (instantiate w r.targetId.nodeId).bind (eachTypeDefinition instantiate node passes (i + 1))
            else eachTypeDefinition instantiate node passes (i + 1) w

abbrev Instantiation := World → NodeId → NodeId → Access (StatusCode × World)

def copyExistingVariable (instantiate : Instantiation) (passes : Nat) (w : World)
    (source referenceType parent : NodeId) :
    Access (StatusCode × World) :=
  match w.get source with
  | none => .done (badNodeIdInvalid, w)
  | some node =>
      (w.read node).bind fun n =>
        match n.body with
        | .variable members =>
            (addNode host memory w (variableCopy host n members referenceType parent)).bind fun added =>
              (eachTypeDefinition (fun w typeId => (instantiate w added.1.addedNodeId typeId).map (·.2)) node passes 0
                added.2).map (fun w => (good, w))
        | _ => .done (badNodeClassInvalid, w)

def copyExistingObject (instantiate : Instantiation) (passes : Nat) (w : World) (source referenceType parent : NodeId) :
    Access (StatusCode × World) :=
  match w.get source with
  | none => .done (badNodeIdInvalid, w)
  | some node =>
      (w.read node).bind fun n =>
        match n.body with
        | .object eventNotifier _ =>
            (addNode host memory w (objectCopy n eventNotifier referenceType parent)).bind fun added =>
              (eachTypeDefinition (fun w typeId => (instantiate w added.1.addedNodeId typeId).map (·.2)) node passes 0
                added.2).map (fun w => (good, w))
        | _ => .done (badNodeClassInvalid, w)

def addTypeDefinition (w : World) (nodeId typeId : NodeId) : World :=
  { w with state := NodeCreation.addTypeDefinition w.state nodeId typeId }

/-- The type of an instance, which both functions look up first. -/
def checkedType (c : NodeClass) (w : World) (typeId : NodeId) (instantiate : Pointer → Access (StatusCode × World)) :
    Access (StatusCode × World) :=
  match w.get typeId with
  | none => .done (badNodeIdInvalid, w)
  | some type => (w.read type).bind fun t => if t.nodeClass ≠ c then .done
    (badNodeClassInvalid, w) else instantiate type

/-- `depth` bounds how deep types are instantiated in types, `passes` the loops
and the searches. -/
def instantiateVariableNode (passes : Nat) : Nat → Instantiation
  | 0, w, _, typeId => checkedType .variableType w typeId (fun _ => .endless)
  | depth + 1, w, nodeId, typeId =>
      checkedType .variableType w typeId fun _ =>
        (browseTypes host passes w (propertiesBrowse typeId)).bind fun r =>
          (r.1.foldlM (fun w rd =>
            (copyExistingVariable host memory (instantiateVariableNode passes depth) passes w rd.nodeId.nodeId
              rd.referenceTypeId nodeId).map (·.2)) r.2).bind fun w =>
            .done (good, addTypeDefinition w nodeId typeId)

def instantiateChild (instantiate instantiateVariable : Instantiation) (passes : Nat) (nodeId : NodeId) (w : World)
    (rd : ReferenceDescription) : Access World :=
  if rd.nodeClass = nodeClassValue .method then
    .done (w.withSpace (addReferencesSingle w.state.space (methodItem nodeId rd)).2)
  else if rd.nodeClass = nodeClassValue .variable then
    (copyExistingVariable host memory instantiateVariable passes w rd.nodeId.nodeId rd.referenceTypeId nodeId).map (·.2)
  else if rd.nodeClass = nodeClassValue .object then
    (copyExistingObject host memory instantiate passes w rd.nodeId.nodeId rd.referenceTypeId nodeId).map (·.2)
  else .done w

def lifecycleManagement (type : Node) : Lifecycle :=
  match type.body with
  | .objectType _ lifecycle => lifecycle
  | _ => ⟨none, none⟩

/-- The type is read again for its constructor, after everything else. -/
def instantiateObjectNode (passes : Nat) : Nat → Instantiation
  | 0, w, _, typeId => checkedType .objectType w typeId (fun _ => .endless)
  | depth + 1, w, nodeId, typeId =>
      checkedType .objectType w typeId fun type =>
        (browseTypes host passes w (childrenBrowse typeId)).bind fun r =>
          (r.1.foldlM (instantiateChild host memory (instantiateObjectNode passes depth)
            (instantiateVariableNode host memory passes depth) passes nodeId) r.2).bind fun w =>
            let w := addTypeDefinition w nodeId typeId
            (w.read type).bind fun t =>
              .done (good, { w with state := callConstructor host w.state nodeId (lifecycleManagement t) })

def instantiateNode (passes depth : Nat) (w : World) (item : AddNodesItem) (id : NodeId) :
    Access (StatusCode × World) :=
  if isNull item.typeDefinition then .done (good, w)
  else if item.nodeClass = nodeClassValue .object then
    instantiateObjectNode host memory passes depth w id item.typeDefinition
  else if item.nodeClass = nodeClassValue .variable then
    instantiateVariableNode host memory passes depth w id item.typeDefinition
  else .done (good, w)

end Instantiation

section Deletion

variable (host : Host) (memory : Nat → Bool)

/-- The loop over the references of the node that is deleted. -/
def deleteMirrors (node : Pointer) : Nat → Nat → World → Access World
  | 0, _, w => .done w
  | passes + 1, i, w =>
      (w.read node).bind fun n =>
        match n.references[i]? with
        | none => .done w
        | some r =>
            deleteMirrors node passes (i + 1)
              (w.withSpace (deleteReferencesSingle w.state.space (mirrorItem node.nodeId r)).2)

def destroyNode (passes : Nat) (w : World) (node : Pointer) : Access World :=
  (w.read node).bind fun n =>
    (Access.ofOption (NodeManagement.destroyNode host passes w.state node.nodeId n)).map
    (fun st => { w with state := st })

def deleteNodesSingle (passes : Nat) (w : World) (nodeId : NodeId) (deleteReferences : Bool) :
    Access (StatusCode × World) :=
  match w.get nodeId with
  | none => .done (badNodeIdInvalid, w)
  | some node =>
      (w.read node).bind fun n =>
        (if deleteReferences then deleteMirrors node n.references.length 0 w else .done w).bind fun w =>
          (destroyNode host passes w node).map fun w =>
            (good, ⟨{ w.state with space := w.state.space.remove nodeId }, w.table.remove memory⟩)

end Deletion

def addNodesSingle (host : Host) (memory : Nat → Bool) (passes depth : Nat) (w : World) (item : AddNodesItem) :
    Access (AddNodesResult × World) :=
  (addNode host memory w item).bind fun added =>
    if added.1.statusCode ≠ good then .done added
    else
      (instantiateNode host memory passes depth added.2 item added.1.addedNodeId).bind fun r =>
        if r.1 ≠ good then
          (deleteNodesSingle host memory passes r.2 added.1.addedNodeId true).map
            (fun d => (⟨r.1, added.1.addedNodeId⟩, d.2))
        else .done (added.1, r.2)

section Fuel

variable {α β : Type} {host : Host} {memory : Nat → Bool} {passes more depth i : Nat} {w : World} {node : Pointer}
  {id typeId source referenceType parent : NodeId}

section Order

/-- With more fuel, an operation that did not end may do so. -/
def Below (x y : Access α) : Prop := x = .endless ∨ y = x

theorem Below.refl (x : Access α) : Below x x := .inr rfl

theorem below_endless (y : Access α) : Below .endless y := .inl rfl

theorem Below.bind {x y : Access α} {f g : α → Access β} (h : Below x y) (hfg : ∀ a, Below (f a) (g a)) :
    Below (x.bind f) (y.bind g) := by
  rcases h with rfl | rfl
  · exact below_endless _
  · cases y with
    | endless => exact .refl _
    | dangling => exact .refl _
    | done a => exact hfg a

theorem Below.map {x y : Access α} (h : Below x y) (f : α → β) : Below (x.map f) (y.map f) :=
  h.bind (fun _ => .refl _)

theorem Below.dangling {x y : Access α} (h : Below x y) (hx : x = .dangling) : y = .dangling := by
  rcases h with hend | hsame
  · cases hx.symm.trans hend
  · rw [hsame, hx]

theorem below_ofOption {x y : Option α} (h : ∀ a, x = some a → y = some a) :
    Below (Access.ofOption x) (Access.ofOption y) := by
  cases x with
  | none => exact below_endless _
  | some a =>
      rw [h a rfl]
      exact .refl _

theorem below_foldlM {l : List α} {f g : World → α → Access World} (h : ∀ w a, Below (f w a) (g w a)) :
    Below (l.foldlM f w) (l.foldlM g w) := by
  induction l generalizing w with
  | nil => exact .refl _
  | cons a l ih =>
      rw [List.foldlM_cons, List.foldlM_cons]
      exact (h w a).bind (fun _ => ih)

end Order

section Instantiating

variable {f g : Instantiation} (hfg : ∀ w id typeId, Below (f w id typeId) (g w id typeId))

theorem below_browseTypes (descr : BrowseDescription) :
    Below (browseTypes host passes w descr) (browseTypes host (passes + more) w descr) := by
  refine below_ofOption (fun a ha => ?_)
  obtain ⟨found, hfound, rfl⟩ := Option.map_eq_some_iff.mp ha
  rw [browseTypes_mono hfound more]
  rfl

theorem below_eachTypeDefinition {f g : World → NodeId → Access World}
    (h : ∀ w typeId, Below (f w typeId) (g w typeId)) :
    Below (eachTypeDefinition f node passes i w) (eachTypeDefinition g node (passes + more) i w) := by
  induction passes generalizing i w with
  | zero => exact below_endless _
  | succ passes ih =>
      rw [Nat.add_right_comm, eachTypeDefinition, eachTypeDefinition]
      refine (Below.refl _).bind (fun n => ?_)
      cases n.references[i]? with
      | none => exact .refl _
      | some r =>
          dsimp only
          split
          · exact (h w _).bind (fun _ => ih)
          · exact ih

include hfg

theorem below_copyExistingVariable :
    Below (copyExistingVariable host memory f passes w source referenceType parent)
      (copyExistingVariable host memory g (passes + more) w source referenceType parent) := by
  rw [copyExistingVariable, copyExistingVariable]
  cases w.get source with
  | none => exact .refl _
  | some node =>
      refine (Below.refl _).bind (fun n => ?_)
      cases n.body with
      | «variable» members =>
          refine (Below.refl _).bind (fun added => ?_)
          exact (below_eachTypeDefinition (fun w typeId => (hfg w _ typeId).map _)).map _
      | _ => exact .refl _

theorem below_copyExistingObject :
    Below (copyExistingObject host memory f passes w source referenceType parent)
      (copyExistingObject host memory g (passes + more) w source referenceType parent) := by
  rw [copyExistingObject, copyExistingObject]
  cases w.get source with
  | none => exact .refl _
  | some node =>
      refine (Below.refl _).bind (fun n => ?_)
      cases n.body with
      | object eventNotifier handle =>
          refine (Below.refl _).bind (fun added => ?_)
          exact (below_eachTypeDefinition (fun w typeId => (hfg w _ typeId).map _)).map _
      | _ => exact .refl _

theorem below_instantiateChild {f' g' : Instantiation} (hfg' : ∀ w id typeId, Below (f' w id typeId) (g' w id typeId))
    (rd : ReferenceDescription) :
    Below (instantiateChild host memory f f' passes id w rd)
      (instantiateChild host memory g g' (passes + more) id w rd) := by
  rw [instantiateChild, instantiateChild]
  split
  · exact .refl _
  split
  · exact (below_copyExistingVariable hfg').map _
  split
  · exact (below_copyExistingObject hfg).map _
  · exact .refl _

omit hfg in
theorem below_checkedType {c : NodeStores.NodeClass} {f g : Pointer → Access (StatusCodes.StatusCode × World)}
    (h : ∀ type, Below (f type) (g type)) : Below (checkedType c w typeId f) (checkedType c w typeId g) := by
  rw [checkedType, checkedType]
  cases w.get typeId with
  | none => exact .refl _
  | some type =>
      refine (Below.refl _).bind (fun t => ?_)
      split
      · exact .refl _
      · exact h type

omit hfg in
theorem below_instantiateVariableNode (w : World) (id typeId : NodeId) :
    Below (instantiateVariableNode host memory passes depth w id typeId)
      (instantiateVariableNode host memory (passes + more) depth w id typeId) := by
  induction depth generalizing w id typeId with
  | zero => exact .refl _
  | succ depth ih =>
      rw [instantiateVariableNode, instantiateVariableNode]
      refine below_checkedType (fun _ => (below_browseTypes _).bind (fun r => ?_))
      exact (below_foldlM (fun w rd => (below_copyExistingVariable ih).map _)).bind (fun _ => .refl _)

omit hfg in
theorem below_instantiateObjectNode (w : World) (id typeId : NodeId) :
    Below (instantiateObjectNode host memory passes depth w id typeId)
      (instantiateObjectNode host memory (passes + more) depth w id typeId) := by
  induction depth generalizing w id typeId with
  | zero => exact .refl _
  | succ depth ih =>
      rw [instantiateObjectNode, instantiateObjectNode]
      refine below_checkedType (fun type => (below_browseTypes _).bind (fun r => ?_))
      exact (below_foldlM (fun w rd => below_instantiateChild ih below_instantiateVariableNode rd)).bind
        (fun _ => .refl _)

omit hfg in
theorem below_instantiateNode (item : AddNodesItem) :
    Below (instantiateNode host memory passes depth w item id)
      (instantiateNode host memory (passes + more) depth w item id) := by
  rw [instantiateNode, instantiateNode]
  split
  · exact .refl _
  split
  · exact below_instantiateObjectNode _ _ _
  split
  · exact below_instantiateVariableNode _ _ _
  · exact .refl _

end Instantiating

end Fuel

end OpcUa.NodePointers
