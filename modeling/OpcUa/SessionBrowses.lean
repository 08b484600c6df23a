import OpcUa.NodePointers

namespace OpcUa.SessionBrowses

open StatusCodes NodeIds AddressSpaces References Browsing NodeManagement NodeCreation
open NodePointers (Access)

namespace Access

variable {α β : Type} {P : α → Prop} {Q : β → Prop} {x : Access α} {f : α → Access β}

/-- Nothing is read where there is nothing any more, and what comes of the
operation is as it should be. -/
def Sound (P : α → Prop) : Access α → Prop
  | .endless => True
  | .dangling => False
  | .done a => P a

theorem Sound.bind (h : Sound P x) (hf : ∀ a, P a → Sound Q (f a)) : Sound Q (x.bind f) := by
  cases x with
  | endless => trivial
  | dangling => exact h
  | done a => exact hf a h

theorem Sound.imp {P' : α → Prop} (h : Sound P x) (hP : ∀ a, P a → P' a) : Sound P' x := by
  cases x with
  | endless => trivial
  | dangling => exact h
  | done a => exact hP a h

theorem Sound.map {g : α → β} (h : Sound P x) (hg : ∀ a, P a → Q (g a)) : Sound Q (x.map g) := h.bind hg

theorem sound_ofOption {o : Option α} (h : ∀ a, o = some a → P a) : Sound P (Access.ofOption o) := by
  cases o with
  | none => trivial
  | some a => exact h a rfl

theorem sound_foldlM {σ : Type} {P : σ → Prop} {f : σ → α → Access σ} (h : ∀ s a, P s → Sound P (f s a)) {l : List α}
    {s : σ} (hs : P s) : Sound P (l.foldlM f s) := by
  induction l generalizing s with
  | nil => exact hs
  | cons a l ih =>
      rw [List.foldlM_cons]
      exact (h s a hs).bind (fun _ => ih)

end Access

section Creation

variable {σ : Type}

/-- The state of the server, and the session of a service. The session among the
state is not used. -/
structure Served (σ : Type) where
  state : State
  session : σ

namespace Served

def withState (v : Served σ) (st : State) : Served σ := { v with state := st }

end Served

/-- A browse for a session. It has the fuel, the address space and the number of
the browse. -/
abbrev Browse (σ : Type) := Nat → AddressSpace → Nat → σ → BrowseDescription → Access (List ReferenceDescription × σ)

variable (host : Host) (browse : Browse σ)

def browseTypes (fuel : Nat) (v : Served σ) (descr : BrowseDescription) :
    Access (List ReferenceDescription × Served σ) :=
  (browse fuel v.state.space v.state.browses v.session descr).map
    (fun r => (r.1, ⟨{ v.state with browses := v.state.browses + 1 }, r.2⟩))

def eachTypeDefinition (instantiate : Served σ → NodeId → Access (Served σ)) (id : NodeId) :
    Nat → Nat → Served σ → Access (Served σ)
  | 0, _, _ => .endless
  | fuel + 1, i, v =>
      match (v.state.space.get id).bind (·.references[i]?) with
      | none => .done v
      | some r =>
          if !r.isInverse && nodeIdEqual r.referenceTypeId (numericId 0 hasTypeDefinition) then
            (instantiate v r.targetId.nodeId).bind (eachTypeDefinition instantiate id fuel (i + 1))
          else eachTypeDefinition instantiate id fuel (i + 1) v

abbrev Instantiation (σ : Type) := Served σ → NodeId → NodeId → Access (StatusCode × Served σ)

/-- A copy under the given parent, and the types of the original. -/
def copyExisting (instantiate : Instantiation σ) (fuel : Nat) (v : Served σ) (source : NodeId) (item : AddNodesItem) :
    Access (StatusCode × Served σ) :=
  let added := addNode host v.state item
  (eachTypeDefinition (fun v typeId => (instantiate v added.1.addedNodeId typeId).map (·.2)) source fuel 0
    (v.withState added.2)).map (fun v => (good, v))

def copyExistingVariable (instantiate : Instantiation σ) (fuel : Nat) (v : Served σ)
    (source referenceType parent : NodeId) : Access (StatusCode × Served σ) :=
  match v.state.space.get source with
  | none => .done (badNodeIdInvalid, v)
  | some node =>
      match node.body with
      | .variable members =>
          copyExisting host instantiate fuel v source (variableCopy host node members referenceType parent)
      | _ => .done (badNodeClassInvalid, v)

def copyExistingObject (instantiate : Instantiation σ) (fuel : Nat) (v : Served σ)
    (source referenceType parent : NodeId) : Access (StatusCode × Served σ) :=
  match v.state.space.get source with
  | none => .done (badNodeIdInvalid, v)
  | some node =>
      match node.body with
      | .object eventNotifier _ =>
          copyExisting host instantiate fuel v source (objectCopy node eventNotifier referenceType parent)
      | _ => .done (badNodeClassInvalid, v)

def instantiateVariableNode : Nat → Instantiation σ
  | 0, _, _, _ => .endless
  | fuel + 1, v, nodeId, typeId =>
      match v.state.space.get typeId with
      | none => .done (badNodeIdInvalid, v)
      | some type =>
          if type.nodeClass ≠ .variableType then .done (badNodeClassInvalid, v)
          else
            (browseTypes browse fuel v (propertiesBrowse typeId)).bind fun r =>
              (r.1.foldlM (fun v rd =>
                (copyExistingVariable host (instantiateVariableNode fuel) fuel v rd.nodeId.nodeId rd.referenceTypeId
                  nodeId).map (·.2)) r.2).map (fun v => (good, v.withState (addTypeDefinition v.state nodeId typeId)))

def instantiateChild (instantiate instantiateVariable : Instantiation σ) (fuel : Nat) (nodeId : NodeId) (v : Served σ)
    (rd : ReferenceDescription) : Access (Served σ) :=
  if rd.nodeClass = nodeClassValue .method then
    .done (v.withState { v.state with space := (addReferencesSingle v.state.space (methodItem nodeId rd)).2 })
  else if rd.nodeClass = nodeClassValue .variable then
    (copyExistingVariable host instantiateVariable fuel v rd.nodeId.nodeId rd.referenceTypeId nodeId).map (·.2)
  else if rd.nodeClass = nodeClassValue .object then
    (copyExistingObject host instantiate fuel v rd.nodeId.nodeId rd.referenceTypeId nodeId).map (·.2)
  else .done v

def instantiateObjectNode : Nat → Instantiation σ
  | 0, _, _, _ => .endless
  | fuel + 1, v, nodeId, typeId =>
      match v.state.space.get typeId with
      | none => .done (badNodeIdInvalid, v)
      | some type =>
          match type.body with
          | .objectType _ lifecycle =>
              (browseTypes browse fuel v (childrenBrowse typeId)).bind fun r =>
                (r.1.foldlM (instantiateChild host (instantiateObjectNode fuel)
                  (instantiateVariableNode host browse fuel)
                  fuel nodeId) r.2).map fun v => (good, v.withState
                    (callConstructor host (addTypeDefinition v.state nodeId typeId) nodeId lifecycle))
          | _ => .done (badNodeClassInvalid, v)

def instantiateNode (fuel : Nat) (v : Served σ) (item : AddNodesItem) (id : NodeId) : Access (StatusCode × Served σ) :=
  if isNull item.typeDefinition then .done (good, v)
  else if item.nodeClass = nodeClassValue .object then instantiateObjectNode host browse fuel v id item.typeDefinition
  else if item.nodeClass = nodeClassValue .variable then
    instantiateVariableNode host browse fuel v id item.typeDefinition
  else .done (good, v)

/-- `Service_AddNodes_single`. What is removed is not browsed for the session. -/
def addNodesSingle (fuel : Nat) (v : Served σ) (item : AddNodesItem) : Access (AddNodesResult × Served σ) :=
  let added := addNode host v.state item
  if added.1.statusCode ≠ good then .done (added.1, v.withState added.2)
  else
    (instantiateNode host browse fuel (v.withState added.2) item added.1.addedNodeId).bind fun r =>
      if r.1 ≠ good then
        (Access.ofOption (deleteNodesSingle host fuel r.2.state added.1.addedNodeId true)).map
          (fun d => (⟨r.1, added.1.addedNodeId⟩, r.2.withState d.2))
      else .done (added.1, r.2)

end Creation

section Keeping

open Access

variable {σ : Type} {P : σ → Prop} {host : Host} {browse : Browse σ} {fuel : Nat} {v : Served σ}

/-- An operation for a session keeps what holds of the session. -/
abbrev Keeps {α : Type} (P : σ → Prop) (x : Access (α × Served σ)) : Prop := Sound (fun r => P r.2.session) x

theorem keeps_eachTypeDefinition {instantiate : Served σ → NodeId → Access (Served σ)}
    (h : ∀ v typeId, P v.session → Sound (fun v => P v.session) (instantiate v typeId)) (id : NodeId) (i : Nat)
    (hv : P v.session) : Sound (fun v => P v.session) (eachTypeDefinition instantiate id fuel i v) := by
  induction fuel generalizing i v with
  | zero => trivial
  | succ fuel ih =>
      rw [eachTypeDefinition]
      cases (v.state.space.get id).bind (·.references[i]?) with
      | none => exact hv
      | some r =>
          dsimp only
          split
          · exact (h v r.targetId.nodeId hv).bind (fun _ => ih (i + 1))
          · exact ih (i + 1) hv

section Copying

variable {instantiate instantiateVariable : Instantiation σ}
  (hinstantiate : ∀ v id typeId, P v.session → Keeps P (instantiate v id typeId))

include hinstantiate

theorem keeps_copyExisting (source : NodeId) (item : AddNodesItem) (hv : P v.session) :
    Keeps P (copyExisting host instantiate fuel v source item) := by
  refine Sound.map (P := fun v : Served σ => P v.session) ?_ (fun _ h => h)
  refine keeps_eachTypeDefinition (fun v typeId hv => ?_) source 0 hv
  exact (hinstantiate v _ typeId hv).map (fun _ h => h)

theorem keeps_copyExistingVariable (source referenceType parent : NodeId) (hv : P v.session) :
    Keeps P (copyExistingVariable host instantiate fuel v source referenceType parent) := by
  rw [copyExistingVariable]
  cases v.state.space.get source with
  | none => exact hv
  | some node =>
      dsimp only
      split
      · exact keeps_copyExisting hinstantiate source _ hv
      · exact hv

theorem keeps_copyExistingObject (source referenceType parent : NodeId) (hv : P v.session) :
    Keeps P (copyExistingObject host instantiate fuel v source referenceType parent) := by
  rw [copyExistingObject]
  cases v.state.space.get source with
  | none => exact hv
  | some node =>
      dsimp only
      split
      · exact keeps_copyExisting hinstantiate source _ hv
      · exact hv

theorem keeps_instantiateChild
    (hvariable : ∀ v id typeId, P v.session → Keeps P (instantiateVariable v id typeId)) (nodeId : NodeId)
    (rd : ReferenceDescription) (hv : P v.session) :
    Sound (fun v => P v.session) (instantiateChild host instantiate instantiateVariable fuel nodeId v rd) := by
  rw [instantiateChild]
  split
  · exact hv
  · split
    · exact (keeps_copyExistingVariable hvariable _ _ _ hv).map (fun _ h => h)
    · split
      · exact (keeps_copyExistingObject hinstantiate _ _ _ hv).map (fun _ h => h)
      · exact hv

end Copying

section Instantiating

variable (hbrowse : ∀ fuel s i session descr, P session → Sound (fun r => P r.2) (browse fuel s i session descr))

include hbrowse

theorem keeps_browseTypes (descr : BrowseDescription) (hv : P v.session) : Keeps P (browseTypes browse fuel v descr) :=
  (hbrowse fuel v.state.space v.state.browses v.session descr hv).map (fun _ h => h)

theorem keeps_instantiateVariableNode (host : Host) (nodeId typeId : NodeId) (hv : P v.session) :
    Keeps P (instantiateVariableNode host browse fuel v nodeId typeId) := by
  induction fuel generalizing v nodeId typeId with
  | zero => trivial
  | succ fuel ih =>
      rw [instantiateVariableNode]
      cases v.state.space.get typeId with
      | none => exact hv
      | some type =>
          dsimp only
          split
          · exact hv
          · refine (keeps_browseTypes hbrowse _ hv).bind (fun r hr => ?_)
            refine Sound.map (P := fun v : Served σ => P v.session) ?_ (fun _ h => h)
            refine sound_foldlM (fun v rd hv => ?_) hr
            refine Sound.map ?_ (fun _ h => h)
            exact keeps_copyExistingVariable (fun v id typeId hv => ih id typeId hv) _ _ _ hv

theorem keeps_instantiateObjectNode (host : Host) (nodeId typeId : NodeId) (hv : P v.session) :
    Keeps P (instantiateObjectNode host browse fuel v nodeId typeId) := by
  induction fuel generalizing v nodeId typeId with
  | zero => trivial
  | succ fuel ih =>
      rw [instantiateObjectNode]
      cases v.state.space.get typeId with
      | none => exact hv
      | some type =>
          dsimp only
          split
          · refine (keeps_browseTypes hbrowse _ hv).bind (fun r hr => ?_)
            refine Sound.map (P := fun v : Served σ => P v.session) ?_ (fun _ h => h)
            refine sound_foldlM (fun v rd hv => ?_) hr
            exact keeps_instantiateChild (fun v id typeId hv => ih id typeId hv)
              (fun v id typeId hv => keeps_instantiateVariableNode hbrowse host id typeId hv) nodeId rd hv
          · exact hv

theorem keeps_instantiateNode (host : Host) (item : AddNodesItem) (id : NodeId) (hv : P v.session) :
    Keeps P (instantiateNode host browse fuel v item id) := by
  rw [instantiateNode]
  split
  · exact hv
  · split
    · exact keeps_instantiateObjectNode hbrowse host id _ hv
    · split
      · exact keeps_instantiateVariableNode hbrowse host id _ hv
      · exact hv

theorem keeps_addNodesSingle (host : Host) (item : AddNodesItem) (hv : P v.session) :
    Keeps P (addNodesSingle host browse fuel v item) := by
  rw [addNodesSingle]
  split
  · exact hv
  · refine Sound.bind (keeps_instantiateNode hbrowse host item _ ?_) (fun r hr => ?_)
    · exact hv
    split
    · exact (sound_ofOption (P := fun _ => True) (fun _ _ => trivial)).map (fun _ _ => hr)
    · exact hr

end Instantiating

end Keeping

section Agreement

/-- An operation of this module comes to what the one on the whole state does. -/
def Agrees {α β : Type} (g : α → β) (x : Access α) (y : Option β) : Prop := x.map g = Access.ofOption y

section Sequences

variable {α β γ δ : Type} {g : α → β} {g' : γ → δ} {x : Access α} {y : Option β}

theorem Agrees.bind {f : α → Access γ} {f' : β → Option δ} (h : Agrees g x y) (hf : ∀ a, Agrees g' (f a) (f' (g a))) :
    Agrees g' (x.bind f) (y.bind f') := by
  cases x with
  | done a =>
      cases y with
      | none => cases h
      | some b =>
          cases h
          exact hf a
  | _ =>
      cases y with
      | none => first | rfl | cases h
      | some b => cases h

theorem Agrees.map {f : α → γ} {f' : β → δ} (h : Agrees g x y) (hf : ∀ a, g' (f a) = f' (g a)) :
    Agrees g' (x.map f) (y.map f') := by
  rw [Option.map_eq_bind]
  exact h.bind (fun a => congrArg Access.done (hf a))

theorem agrees_foldlM {f : α → γ → Access α} {f' : β → γ → Option β} (h : ∀ a c, Agrees g (f a c) (f' (g a) c))
    (l : List γ) (a : α) : Agrees g (l.foldlM f a) (l.foldlM f' (g a)) := by
  induction l generalizing a with
  | nil => rfl
  | cons c l ih =>
      rw [List.foldlM_cons, List.foldlM_cons]
      exact (h a c).bind ih

end Sequences

def Served.whole (v : Served Continuations) : State := { v.state with session := v.session }

def continuationsBrowse (host : Host) : Browse Continuations := fun fuel s i session descr =>
  Access.ofOption ((browseSingle fuel s (host.identifiers i) session descr 100).map (fun r => (r.1.references, r.2)))

variable {host : Host} {fuel : Nat} {v : Served Continuations}

abbrev wholeResult {α : Type} (r : α × Served Continuations) : α × State := (r.1, r.2.whole)

@[simp] theorem space_whole (v : Served Continuations) : v.whole.space = v.state.space := rfl

theorem insertNode_whole (v : Served Continuations) (n : Node) : insertNode host v.whole n =
    (insertNode host v.state n).map (fun r => (r.1, (v.withState r.2).whole)) := by
  rw [insertNode, insertNode]
  by_cases h : v.state.space.get (insertedId host v.state n.nodeId) = none
  · rw [dif_pos h]
    exact dif_pos h
  · rw [dif_neg h]
    exact dif_neg h

theorem addNode_whole (v : Served Continuations) (item : AddNodesItem) :
    addNode host v.whole item = ((addNode host v.state item).1, (v.withState (addNode host v.state item).2).whole) := by
  rw [addNode, addNode]
  cases nodeFromItem host item with
  | error status => rfl
  | ok n =>
      dsimp only
      rw [addExistingNode, addExistingNode, insertNode_whole, space_whole]
      cases insertNode host v.state n with
      | none => repeat' first | rfl | split
      | some r => repeat' first | rfl | split

theorem deleteNodesSingle_whole (v : Served Continuations) (nodeId : NodeId) (deleteReferences : Bool) :
    deleteNodesSingle host fuel v.whole nodeId deleteReferences =
      (deleteNodesSingle host fuel v.state nodeId deleteReferences).map (fun d => (d.1, (v.withState d.2).whole)) := by
  rw [deleteNodesSingle, deleteNodesSingle, space_whole]
  cases v.state.space.get nodeId with
  | none => rfl
  | some node =>
      dsimp only
      rw [Option.map_map]
      cases deleteReferences <;> rw [destroyNode, destroyNode] <;> cases node.body with
      | object eventNotifier handle =>
          dsimp only
          rw [destroyObject, destroyObject, Option.map_map, Option.map_map]
          rfl
      | _ => rfl

theorem callConstructor_whole (v : Served Continuations) (nodeId typeId : NodeId) (lifecycle : Lifecycle) :
    callConstructor host (addTypeDefinition v.whole nodeId typeId) nodeId lifecycle =
      (v.withState (callConstructor host (addTypeDefinition v.state nodeId typeId) nodeId lifecycle)).whole := by
  rw [callConstructor, callConstructor]
  cases lifecycle.constructor <;> rfl

theorem agrees_browseTypes (descr : BrowseDescription) :
    Agrees wholeResult (browseTypes (continuationsBrowse host) fuel v descr)
      (NodeCreation.browseTypes host fuel v.whole descr) := by
  rw [NodeCreation.browseTypes, browseTypes, continuationsBrowse]
  cases h : browseSingle fuel v.state.space (host.identifiers v.state.browses) v.session descr 100 with
  | none =>
      have hwhole : browseSingle fuel v.whole.space (host.identifiers v.whole.browses) v.whole.session descr 100 =
        none := h
      rw [hwhole]
      rfl
  | some r =>
      have hwhole : browseSingle fuel v.whole.space (host.identifiers v.whole.browses) v.whole.session descr 100 =
        some r := h
      rw [hwhole]
      rfl

theorem agrees_eachTypeDefinition {instantiate : Served Continuations → NodeId → Access (Served Continuations)}
    {instantiate' : State → NodeId → Option State} (h : ∀ v typeId, Agrees Served.whole (instantiate v typeId)
      (instantiate' v.whole typeId)) (id : NodeId) (i : Nat) (v : Served Continuations) :
    Agrees Served.whole (eachTypeDefinition instantiate id fuel i v)
      (NodeCreation.eachTypeDefinition instantiate' id fuel i v.whole) := by
  induction fuel generalizing i v with
  | zero => rfl
  | succ fuel ih =>
      rw [eachTypeDefinition, NodeCreation.eachTypeDefinition, space_whole]
      cases (v.state.space.get id).bind (·.references[i]?) with
      | none => rfl
      | some r =>
          dsimp only
          split
          · exact (h v r.targetId.nodeId).bind (ih (i + 1))
          · exact ih (i + 1) v

section Copying

variable {instantiate instantiateVariable : Instantiation Continuations}
  {instantiate' instantiateVariable' : Instantiate}
  (h : ∀ v id typeId, Agrees wholeResult (instantiate v id typeId) (instantiate' v.whole id typeId))

include h

theorem agrees_copyExisting (source : NodeId) (item : AddNodesItem) (v : Served Continuations) :
    Agrees wholeResult (copyExisting host instantiate fuel v source item)
      ((NodeCreation.eachTypeDefinition (fun st typeId =>
        (instantiate' st (addNode host v.whole item).1.addedNodeId typeId).map (·.2)) source fuel 0
          (addNode host v.whole item).2).map (fun st => (good, st))) := by
  rw [addNode_whole]
  refine Agrees.map (g := Served.whole) ?_ (fun _ => rfl)
  refine agrees_eachTypeDefinition (fun v typeId => ?_) source 0 _
  exact (h v _ typeId).map (fun _ => rfl)

theorem agrees_copyExistingVariable (source referenceType parent : NodeId) (v : Served Continuations) :
    Agrees wholeResult (copyExistingVariable host instantiate fuel v source referenceType parent)
      (NodeCreation.copyExistingVariable host instantiate' fuel v.whole source referenceType parent) := by
  rw [copyExistingVariable, NodeCreation.copyExistingVariable, space_whole]
  cases v.state.space.get source with
  | none => rfl
  | some node =>
      dsimp only
      cases node.body with
      | «variable» members => exact agrees_copyExisting h source _ v
      | _ => rfl

theorem agrees_copyExistingObject (source referenceType parent : NodeId) (v : Served Continuations) :
    Agrees wholeResult (copyExistingObject host instantiate fuel v source referenceType parent)
      (NodeCreation.copyExistingObject host instantiate' fuel v.whole source referenceType parent) := by
  rw [copyExistingObject, NodeCreation.copyExistingObject, space_whole]
  cases v.state.space.get source with
  | none => rfl
  | some node =>
      dsimp only
      cases node.body with
      | object eventNotifier handle => exact agrees_copyExisting h source _ v
      | _ => rfl

theorem agrees_instantiateChild (hvariable : ∀ v id typeId, Agrees wholeResult (instantiateVariable v id typeId)
      (instantiateVariable' v.whole id typeId)) (nodeId : NodeId) (v : Served Continuations)
        (rd : ReferenceDescription) :
    Agrees Served.whole (instantiateChild host instantiate instantiateVariable fuel nodeId v rd)
      (NodeCreation.instantiateChild host instantiate' instantiateVariable' fuel nodeId v.whole rd) := by
  rw [instantiateChild, NodeCreation.instantiateChild]
  split
  · rfl
  · split
    · exact (agrees_copyExistingVariable hvariable _ _ _ v).map (fun _ => rfl)
    · split
      · exact (agrees_copyExistingObject h _ _ _ v).map (fun _ => rfl)
      · rfl

end Copying

theorem agrees_instantiateVariableNode (v : Served Continuations) (nodeId typeId : NodeId) :
    Agrees wholeResult (instantiateVariableNode host (continuationsBrowse host) fuel v nodeId typeId)
      (NodeCreation.instantiateVariableNode host fuel v.whole nodeId typeId) := by
  induction fuel generalizing v nodeId typeId with
  | zero => rfl
  | succ fuel ih =>
      rw [instantiateVariableNode, NodeCreation.instantiateVariableNode, space_whole]
      cases v.state.space.get typeId with
      | none => rfl
      | some type =>
          dsimp only
          split
          · rfl
          · refine (agrees_browseTypes (propertiesBrowse typeId)).bind (fun r => ?_)
            refine Agrees.map (g := Served.whole) ?_ (fun _ => rfl)
            refine agrees_foldlM (fun v rd => ?_) r.1 r.2
            exact (agrees_copyExistingVariable ih rd.nodeId.nodeId rd.referenceTypeId nodeId v).map (fun _ => rfl)

theorem agrees_instantiateObjectNode (v : Served Continuations) (nodeId typeId : NodeId) :
    Agrees wholeResult (instantiateObjectNode host (continuationsBrowse host) fuel v nodeId typeId)
      (NodeCreation.instantiateObjectNode host fuel v.whole nodeId typeId) := by
  induction fuel generalizing v nodeId typeId with
  | zero => rfl
  | succ fuel ih =>
      rw [instantiateObjectNode, NodeCreation.instantiateObjectNode, space_whole]
      cases v.state.space.get typeId with
      | none => rfl
      | some type =>
          dsimp only
          cases type.body with
          | objectType isAbstract lifecycle =>
              refine (agrees_browseTypes (childrenBrowse typeId)).bind (fun r => ?_)
              refine Agrees.map (g := Served.whole) ?_ (fun _ => ?_)
              · exact agrees_foldlM (agrees_instantiateChild ih agrees_instantiateVariableNode nodeId) r.1 r.2
              · rw [callConstructor_whole]
          | _ => rfl

theorem agrees_addNodesSingle (v : Served Continuations) (item : AddNodesItem) :
    Agrees wholeResult (addNodesSingle host (continuationsBrowse host) fuel v item)
      (NodeCreation.addNodesSingle host fuel v.whole item) := by
  have hinstantiate : ∀ v id, Agrees wholeResult (instantiateNode host (continuationsBrowse host) fuel v item id)
      (NodeCreation.instantiateNode host fuel v.whole item id) := by
    intro v id
    rw [instantiateNode, NodeCreation.instantiateNode]
    split
    · rfl
    · split
      · exact agrees_instantiateObjectNode v id _
      · split
        · exact agrees_instantiateVariableNode v id _
        · rfl
  rw [addNodesSingle, NodeCreation.addNodesSingle, addNode_whole]
  dsimp only
  split
  · rfl
  · refine (hinstantiate (v.withState _) _).bind (fun r => ?_)
    split
    · rw [deleteNodesSingle_whole, Option.map_map]
      cases deleteNodesSingle host fuel r.2.state (addNode host v.state item).1.addedNodeId true <;> rfl
    · rfl

end Agreement

end OpcUa.SessionBrowses
