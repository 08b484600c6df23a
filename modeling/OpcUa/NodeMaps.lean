import OpcUa.NodeStoreSizes

namespace OpcUa.NodeMaps

open StatusCodes NodeIds OpenAddressing NodeStores NodeStoreSizes

variable {α : Type}

/-- The purpose of the store: a map from NodeIds to nodes, in which ids that
`UA_NodeId_equal` identifies are one key. -/
abbrev NodeMap (α : Type) := NodeId → Option (Node α)

def empty : NodeMap α := fun _ => none

def update (m : NodeMap α) (node : Node α) : NodeMap α :=
  fun id => if nodeIdEqual node.nodeId id then some node else m id

def erase (m : NodeMap α) (key : NodeId) : NodeMap α :=
  fun id => if nodeIdEqual key id then none else m id

/-- `l` lists every node of the map, and no key twice. -/
def Enumerates (l : List (Node α)) (m : NodeMap α) : Prop :=
  l.Pairwise (fun a b => sameNode a b = false) ∧
    ∀ id n, m id = some n ↔ n ∈ l ∧ nodeIdEqual n.nodeId id = true

/-- One call of the store. `mem` is the block that `UA_calloc` returns if the
call has to resize the table. -/
inductive Op (α : Type)
  | insert (mem : Option Nat) (node : Node α)
  | replace (oldNode : NodePtr) (node : Node α)
  | get (nodeid : NodeId)
  | remove (mem : Option Nat) (nodeid : NodeId)
  | iterate

inductive Reply (α : Type)
  | status (code : StatusCode) (inserted : Option NodePtr)
  | node (found : Option (Node α))
  | visited (nodes : List (Node α))
deriving DecidableEq

def Outcome.reply (o : Outcome α) : Reply α × NodeStore α := (.status o.status o.inserted, o.store)

def perform (ns : NodeStore α) : Op α → Option (Reply α × NodeStore α)
  | .insert mem node => (insert mem ns node).map Outcome.reply
  | .replace oldNode node => (replace ns oldNode node).map Outcome.reply
  | .get nodeid => (get ns nodeid).map (fun found => (.node found, ns))
  | .remove mem nodeid => (remove mem ns nodeid).map Outcome.reply
  | .iterate => some (.visited (iterate ns), ns)

def deref (ns : NodeStore α) (p : NodePtr) : Option (Node α) :=
  if p.block = ns.block then slot ns.entries p.index else none

/-- What a call may answer and do to the map. Pointers are read through
`before` and `after`, the tables before and after the call. -/
inductive MapStep (before after : NodePtr → Option (Node α)) (m : NodeMap α) :
    Op α → Reply α → NodeMap α → Prop
  | get (id : NodeId) : MapStep before after m (.get id) (.node (m id)) m
  | iterate {l : List (Node α)} (h : Enumerates l m) :
      MapStep before after m .iterate (.visited l) m
  | inserted {mem : Option Nat} {node : Node α} {p : NodePtr}
      (hid : hasNullIdentifier node.nodeId = false) (hfree : m node.nodeId = none)
      (hp : after p = some node) :
      MapStep before after m (.insert mem node) (.status good (some p)) (update m node)
  | insertedFresh {mem : Option Nat} {node : Node α} {p : NodePtr} {i : UInt32} {nsIndex : UInt16}
      (hid : hasNullIdentifier node.nodeId = true)
      (hns : nsIndex = if node.nodeId.namespaceIndex = 0 then 1 else node.nodeId.namespaceIndex)
      (hfree : m (numericId nsIndex i) = none)
      (hp : after p = some { node with nodeId := numericId nsIndex i }) :
      MapStep before after m (.insert mem node) (.status good (some p))
        (update m { node with nodeId := numericId nsIndex i })
  | insertExists {mem : Option Nat} {node e : Node α}
      (hid : hasNullIdentifier node.nodeId = false) (hused : m node.nodeId = some e) :
      MapStep before after m (.insert mem node) (.status badNodeIdExists none) m
  | replaced {oldNode p : NodePtr} {node e : Node α} (hused : m node.nodeId = some e)
      (hold : before oldNode = some e) (hp : after p = some node) :
      MapStep before after m (.replace oldNode node) (.status good (some p)) (update m node)
  | replaceOther {oldNode : NodePtr} {node e : Node α} (hused : m node.nodeId = some e)
      (hold : before oldNode ≠ some e) :
      MapStep before after m (.replace oldNode node) (.status badInternalError none) m
  | replaceUnknown {oldNode : NodePtr} {node : Node α} (hfree : m node.nodeId = none) :
      MapStep before after m (.replace oldNode node) (.status badNodeIdUnknown none) m
  | removed {mem : Option Nat} {id : NodeId} {e : Node α} (hused : m id = some e) :
      MapStep before after m (.remove mem id) (.status good none) (erase m id)
  | removeUnknown {mem : Option Nat} {id : NodeId} (hfree : m id = none) :
      MapStep before after m (.remove mem id) (.status badNodeIdUnknown none) m

def Represents (ns : NodeStore α) (m : NodeMap α) : Prop :=
  ∀ id n, m id = some n ↔ n ∈ contents ns.entries ∧ nodeIdEqual n.nodeId id = true

/-- Every call of the run returns with an answer that the map gives, and the
store holds the map between the calls. -/
def Refines : NodeStore α → NodeMap α → List (Op α) → Prop
  | ns, m, [] => Represents ns m
  | ns, m, op :: ops => Represents ns m ∧ ∃ reply ns' m', perform ns op = some (reply, ns') ∧
      MapStep (deref ns) (deref ns') m op reply m' ∧ Refines ns' m' ops

/-- A condition on a call and the store it finds, at every call of a run. -/
def Along (P : NodeStore α → Op α → Prop) : NodeStore α → List (Op α) → Prop
  | _, [] => True
  | ns, op :: ops => P ns op ∧ match perform ns op with
      | none => True
      | some (_, ns') => Along P ns' ops

instance decidableAlong (P : NodeStore α → Op α → Prop) [∀ ns op, Decidable (P ns op)] :
    ∀ ns ops, Decidable (Along P ns ops)
  | _, [] => isTrue trivial
  | ns, op :: ops =>
      have : Decidable (match perform ns op with
          | none => True
          | some (_, ns') => Along P ns' ops) :=
        match perform ns op with
        | none => isTrue trivial
        | some (_, ns') => decidableAlong P ns' ops
      inferInstanceAs (Decidable (_ ∧ _))

theorem Along.mono {P Q : NodeStore α → Op α → Prop} (h : ∀ ns op, P ns op → Q ns op)
    {ns : NodeStore α} {ops : List (Op α)} (ha : Along P ns ops) : Along Q ns ops := by
  induction ops generalizing ns with
  | nil => trivial
  | cons op ops ih =>
      obtain ⟨hp, hrest⟩ := ha
      refine ⟨h ns op hp, ?_⟩
      cases hrun : perform ns op with
      | none => trivial
      | some r =>
          rw [hrun] at hrest
          exact ih hrest

/-- Allocations succeed and fewer than `2 ^ 28` nodes are stored. -/
def WithinLimits (ns : NodeStore α) (op : Op α) : Prop :=
  ns.count < 2 ^ 28 ∧ match op with
    | .insert mem _ | .remove mem _ => mem.isSome = true
    | _ => True

def Op.nodeId? : Op α → Option NodeId
  | .insert _ node | .replace _ node => some node.nodeId
  | .get id | .remove _ id => some id
  | .iterate => none

/-- A stored id that equals the id of the call has the same hash. It fails
for a NULL string against an empty one. -/
def HashesAgree (ns : NodeStore α) (op : Op α) : Prop :=
  ∀ id ∈ op.nodeId?, ∀ e ∈ contents ns.entries, nodeIdEqual e.nodeId id = true →
    hash e.nodeId = hash id

/-- A removal is followed by a rebuild of the whole table. -/
def Rebuilds (ns : NodeStore α) : Op α → Prop
  | .remove _ _ => (ns.count - 1) * 8 < ns.size ∧ minSize < ns.size
  | _ => True

/-- No other stored node was placed after probing the slot that a removal
vacates. -/
def Unprobed (ns : NodeStore α) : Op α → Prop
  | .remove _ id => ∀ s e t w, slot ns.entries s = some e → nodeIdEqual e.nodeId id = true →
      t ≠ s → slot ns.entries t = some w → ¬ Passes (probeNode ns.size w) s t
  | _ => True

instance (ns : NodeStore α) (op : Op α) : Decidable (WithinLimits ns op) := by
  unfold WithinLimits
  cases op <;> exact inferInstanceAs (Decidable (_ ∧ _))

instance (ns : NodeStore α) (op : Op α) : Decidable (HashesAgree ns op) :=
  match h : op.nodeId? with
  | none => isTrue (by simp [HashesAgree, h])
  | some id => decidable_of_iff
      (∀ e ∈ contents ns.entries, nodeIdEqual e.nodeId id = true → hash e.nodeId = hash id)
      (by simp [HashesAgree, h])

instance (ns : NodeStore α) (op : Op α) : Decidable (Rebuilds ns op) := by
  cases op <;> unfold Rebuilds <;> infer_instance

end OpcUa.NodeMaps
