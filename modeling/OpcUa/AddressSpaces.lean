import OpcUa.NodeMaps
import OpcUa.TypeTable
import OpcUa.Values
import Mathlib.Data.List.Pairwise

namespace OpcUa.AddressSpaces

open StatusCodes NodeIds DataTypes Values
open NodeStores (NodeClass)

structure QualifiedName where
  namespaceIndex : UInt16
  name : UaString
deriving DecidableEq, Repr

structure ReferenceNode where
  referenceTypeId : NodeId
  isInverse : Bool
  targetId : ExpandedNodeId
deriving DecidableEq, Repr

/-- `UA_ObjectLifecycleManagement`. The functions of the user have numbers. -/
structure Lifecycle where
  constructor : Option Nat
  destructor : Option Nat
deriving DecidableEq, Repr

/-- The value of a variable, with its callbacks, or the source that is asked
for it. -/
inductive ValueSource
  | variant (value : Val .variant) (onRead onWrite : Option Nat)
  | dataSource (source : Nat)

/-- What variables and variable types have in common. -/
structure ValueMembers where
  valueRank : UInt32
  value : ValueSource

structure VariableMembers extends ValueMembers where
  accessLevel : UInt8
  userAccessLevel : UInt8
  minimumSamplingInterval : UInt64
  historizing : UInt8

/-- The members that depend on the class of the node. A `UA_Boolean` is the
byte in memory, a handle the number of the pointer. -/
inductive Body
  | object (eventNotifier : UInt8) (instanceHandle : Nat)
  | variable (members : VariableMembers)
  | method (executable userExecutable : UInt8) (attachedMethod methodHandle : Nat)
  | objectType (isAbstract : UInt8) (lifecycleManagement : Lifecycle)
  | variableType (members : ValueMembers) (isAbstract : UInt8)
  | referenceType (isAbstract symmetric : UInt8) (inverseName : LocalizedText)
  | dataType (isAbstract : UInt8)
  | view (eventNotifier containsNoLoops : UInt8)

def Body.nodeClass : Body → NodeClass
  | .object _ _ => .object
  | .variable _ => .variable
  | .method _ _ _ _ => .method
  | .objectType _ _ => .objectType
  | .variableType _ _ => .variableType
  | .referenceType _ _ _ => .referenceType
  | .dataType _ => .dataType
  | .view _ _ => .view

def nodeClassValue : NodeClass → UInt32
  | .object => 1
  | .variable => 2
  | .method => 4
  | .objectType => 8
  | .variableType => 16
  | .referenceType => 32
  | .dataType => 64
  | .view => 128

/-- Everything in a node apart from its id. -/
structure NodeMembers where
  browseName : QualifiedName
  displayName : LocalizedText
  description : LocalizedText
  writeMask : UInt32
  userWriteMask : UInt32
  references : List ReferenceNode
  body : Body

structure Node extends NodeMembers where
  nodeId : NodeId

def Node.nodeClass (n : Node) : NodeClass := n.body.nodeClass

/-- The node store as a finite map, in which ids that `UA_NodeId_equal`
identifies are one key. -/
structure AddressSpace where
  nodes : List Node
  distinct : nodes.Pairwise (fun m n => nodeIdEqual m.nodeId n.nodeId = false)

namespace AddressSpace

variable (s : AddressSpace)

def get (id : NodeId) : Option Node := s.nodes.find? (fun n => nodeIdEqual n.nodeId id)

theorem not_equal_of_get_none {s : AddressSpace} {id : NodeId} (h : s.get id = none) {n : Node} (hn : n ∈ s.nodes) :
    nodeIdEqual id n.nodeId = false := by
  have hnot := List.find?_eq_none.mp h n hn
  rw [nodeIdEqual_comm]
  exact eq_false_of_ne_true hnot

def insert (n : Node) (h : s.get n.nodeId = none) : AddressSpace where
  nodes := n :: s.nodes
  distinct := .cons (fun _ hm => not_equal_of_get_none h hm) s.distinct

def editNode (id : NodeId) (f : NodeMembers → NodeMembers) (n : Node) : Node :=
  if nodeIdEqual n.nodeId id then { n with toNodeMembers := f n.toNodeMembers } else n

theorem editNode_nodeId (id : NodeId) (f : NodeMembers → NodeMembers) (n : Node) :
    (editNode id f n).nodeId = n.nodeId := by
  rw [editNode]
  split <;> rfl

def edit (id : NodeId) (f : NodeMembers → NodeMembers) : AddressSpace where
  nodes := s.nodes.map (editNode id f)
  distinct := by
    rw [List.pairwise_map]
    simp only [editNode_nodeId]
    exact s.distinct

def remove (id : NodeId) : AddressSpace where
  nodes := s.nodes.filter (fun n => !nodeIdEqual n.nodeId id)
  distinct := s.distinct.filter _

end AddressSpace

open AddressSpace

variable {s : AddressSpace} {n m : Node} {id id' : NodeId} {f : NodeMembers → NodeMembers}

section Lookup

theorem nodeIdEqual_symm {a b : NodeId} (h : nodeIdEqual a b = true) : nodeIdEqual b a = true := by
  rw [nodeIdEqual_comm]
  exact h

theorem eq_of_mem (hn : n ∈ s.nodes) (hm : m ∈ s.nodes) (h : nodeIdEqual n.nodeId m.nodeId = true) : n = m := by
  by_contra hne
  have hsymm : Std.Symm (fun m n : Node => nodeIdEqual m.nodeId n.nodeId = false) :=
    ⟨fun a b hab => by rw [nodeIdEqual_comm]; exact hab⟩
  have hdistinct := s.distinct.forall hn hm hne
  rw [h] at hdistinct
  cases hdistinct

theorem get_eq_some : s.get id = some n ↔ n ∈ s.nodes ∧ nodeIdEqual n.nodeId id = true := by
  constructor
  · intro h
    have hid := List.find?_some (p := fun n : Node => nodeIdEqual n.nodeId id) h
    exact ⟨List.mem_of_find?_eq_some h, hid⟩
  · rintro ⟨hn, hid⟩
    cases hm : s.get id with
    | none =>
        have hnot := List.find?_eq_none.mp hm n hn
        exact absurd hid hnot
    | some m =>
        have hmid := List.find?_some (p := fun n : Node => nodeIdEqual n.nodeId id) hm
        rw [eq_of_mem (List.mem_of_find?_eq_some hm) hn (nodeIdEqual_trans hmid (nodeIdEqual_symm hid))]

theorem get_congr (h : nodeIdEqual id id' = true) : s.get id = s.get id' := by
  have hsame : (fun n : Node => nodeIdEqual n.nodeId id) = fun n => nodeIdEqual n.nodeId id' := by
    funext n
    exact nodeIdEqual_congr_right h n.nodeId
  rw [AddressSpace.get, AddressSpace.get, hsame]

theorem get_nodeId (h : s.get id = some n) : nodeIdEqual n.nodeId id = true := (get_eq_some.mp h).2

theorem get_insert {h : s.get n.nodeId = none} (id : NodeId) :
    (s.insert n h).get id = if nodeIdEqual n.nodeId id then some n else s.get id := by
  rw [AddressSpace.get, AddressSpace.insert, List.find?_cons]
  split
  · rename_i hid
    rw [if_pos hid]
  · rename_i hid
    rw [if_neg (by rw [hid]; exact Bool.false_ne_true)]
    rfl

theorem get_edit (id' : NodeId) :
    (s.edit id f).get id' = (s.get id').map (editNode id f) := by
  rw [AddressSpace.get, AddressSpace.edit, List.find?_map]
  have hsame : ((fun n : Node => nodeIdEqual n.nodeId id') ∘ editNode id f) =
      fun n => nodeIdEqual n.nodeId id' := by
    funext n
    exact congrArg (nodeIdEqual · id') (editNode_nodeId id f n)
  rw [hsame]
  rfl

theorem get_edit_self (h : s.get id = some n) :
    (s.edit id f).get id = some { n with toNodeMembers := f n.toNodeMembers } := by
  rw [get_edit, h, Option.map_some, editNode, if_pos (get_nodeId h)]

theorem edit_self (h : s.get id = some n) : s.edit id (fun _ => n.toNodeMembers) = s := by
  obtain ⟨hn, hid⟩ := get_eq_some.mp h
  have hsame : ∀ m ∈ s.nodes, editNode id (fun _ => n.toNodeMembers) m = m := by
    intro m hm
    rw [editNode]
    split
    · rename_i hmid
      rw [eq_of_mem hm hn (nodeIdEqual_trans hmid (nodeIdEqual_symm hid))]
    · rfl
  have hnodes : (s.edit id (fun _ => n.toNodeMembers)).nodes = s.nodes :=
    (List.map_congr_left hsame).trans (List.map_id s.nodes)
  cases s
  exact AddressSpace.mk.injEq .. ▸ hnodes

theorem get_edit_of_ne (h : nodeIdEqual id' id = false) : (s.edit id f).get id' = s.get id' := by
  rw [get_edit]
  cases hn : s.get id' with
  | none => rfl
  | some n =>
      have hne : ¬ nodeIdEqual n.nodeId id = true := by
        intro hid
        have hid' := nodeIdEqual_trans (nodeIdEqual_symm (get_nodeId hn)) hid
        rw [h] at hid'
        cases hid'
      rw [Option.map_some, editNode, if_neg hne]

theorem get_remove (id' : NodeId) :
    (s.remove id).get id' = if nodeIdEqual id id' then none else s.get id' := by
  cases hn : (s.remove id).get id' with
  | none =>
      split
      · rfl
      · rename_i hne
        cases hm : s.get id' with
        | none => rfl
        | some m =>
            obtain ⟨hmem, hid⟩ := get_eq_some.mp hm
            have hkept : m ∈ (s.remove id).nodes := by
              refine List.mem_filter.mpr ⟨hmem, ?_⟩
              rw [Bool.not_eq_true', ← Bool.not_eq_true]
              intro hmid
              exact hne (nodeIdEqual_trans (nodeIdEqual_symm hmid) hid)
            have hnot := List.find?_eq_none.mp hn m hkept
            exact absurd hid hnot
  | some n =>
      obtain ⟨hmem, hid⟩ := get_eq_some.mp hn
      obtain ⟨hmem, hkept⟩ := List.mem_filter.mp hmem
      have hne : ¬ nodeIdEqual id id' = true := by
        intro hidid
        rw [nodeIdEqual_trans hid (nodeIdEqual_symm hidid)] at hkept
        cases hkept
      rw [if_neg hne]
      exact (get_eq_some.mpr ⟨hmem, hid⟩).symm

end Lookup

section Maps

def entry (n : Node) : NodeStores.Node NodeMembers := ⟨n.nodeId, n.nodeClass, n.toNodeMembers⟩

def toMap (s : AddressSpace) : NodeMaps.NodeMap NodeMembers := fun id => (s.get id).map entry

theorem toMap_insert {h : s.get n.nodeId = none} : toMap (s.insert n h) = NodeMaps.update (toMap s) (entry n) := by
  funext id
  rw [toMap, get_insert, NodeMaps.update]
  change Option.map entry _ = if nodeIdEqual n.nodeId id then _ else _
  split <;> rfl

theorem toMap_remove : toMap (s.remove id) = NodeMaps.erase (toMap s) id := by
  funext id'
  rw [toMap, get_remove, NodeMaps.erase]
  split <;> rfl

theorem toMap_edit (h : s.get id = some n) :
    toMap (s.edit id f) = NodeMaps.update (toMap s) (entry { n with toNodeMembers := f n.toNodeMembers }) := by
  funext id'
  rw [NodeMaps.update]
  change Option.map entry ((s.edit id f).get id') = if nodeIdEqual n.nodeId id' then _ else _
  split
  · rename_i hid
    have hsame : nodeIdEqual id' id = true := nodeIdEqual_trans (nodeIdEqual_symm hid) (get_nodeId h)
    rw [get_congr hsame, get_edit_self h]
    rfl
  · rename_i hid
    have hne : nodeIdEqual id' id = false := by
      rw [← Bool.not_eq_true]
      intro hsame
      exact hid (nodeIdEqual_trans (get_nodeId h) (nodeIdEqual_symm hsame))
    rw [get_edit_of_ne hne]
    rfl

end Maps

end OpcUa.AddressSpaces
