import Mathlib.Data.FinEnum
import OpcUa.AddressSpaces
import OpcUa.HashTables
import OpcUa.SubTypes

namespace OpcUa.ConcurrentStores

open StatusCodes NodeIds AddressSpaces HashTables NodeMaps
open NodeStores (hash hasNullIdentifier NodePtr)
open SubTypes (plainNode)

/-- `struct nodeEntry`. The node in an entry is never changed. -/
structure Entry where
  address : Nat
  node : Node

def compare (key : NodeId) (e : Entry) : Bool := nodeIdEqual e.node.nodeId key

section Store

variable (T : HashTable UInt32 Entry)

/-- The result of a call: the status, the address of the inserted node and the
table. -/
structure Outcome where
  status : StatusCode
  inserted : Option Nat
  table : T.Table

def Outcome.fail {T : HashTable UInt32 Entry} (status : StatusCode) (t : T.Table) : Outcome T := ⟨status, none, t⟩

def get (t : T.Table) (nodeid : NodeId) : Option Entry := T.lookup t (hash nodeid) (compare nodeid)

def freshNamespace (node : Node) : UInt16 := if node.nodeId.namespaceIndex = 0 then 1 else node.nodeId.namespaceIndex

/-- If the id is generated, a variable gets its namespace in the browse name,
too. -/
def renamed (node : Node) : Node :=
  if hasNullIdentifier node.nodeId then
    match node.body with
    | .variable _ => { node with browseName := { node.browseName with namespaceIndex := freshNamespace node } }
    | _ => node
  else node

/-- The search for an id that is not in use, from the given number on. `none`
if none of the ids that the fuel allows for is free. -/
def insertFresh (address : Nat) (node : Node) (increase : UInt32) : Nat → T.Table → UInt32 → Option (Outcome T)
  | 0, _, _ => none
  | fuel + 1, t, i =>
      let id := numericId (freshNamespace node) i
      let r := T.addUnique t (hash id) (compare id) ⟨address, { node with nodeId := id }⟩
      if r.1.address = address then some ⟨good, some address, r.2⟩
      else insertFresh address node increase fuel r.2 (i + increase)

/-- `UA_NodeStore_insert`. The entry is allocated at the address. -/
def insert (t : T.Table) (fuel address : Nat) (node : Node) : Option (Outcome T) :=
  if hasNullIdentifier node.nodeId then
    let identifier := UInt32.ofNat (T.count t + 1)
    insertFresh T address (renamed node) (identifier * 2654435761) fuel t identifier
  else
    let r := T.addUnique t (hash node.nodeId) (compare node.nodeId) ⟨address, node⟩
    if r.1.address ≠ address then some (.fail badNodeIdExists r.2) else some ⟨good, some address, r.2⟩

def replace (t : T.Table) (address oldNode : Nat) (node : Node) : Outcome T :=
  match T.lookup t (hash node.nodeId) (compare node.nodeId) with
  | none => .fail badNodeIdUnknown t
  | some oldEntry =>
      if oldEntry.address ≠ oldNode then .fail badInternalError t
      else
        let r := T.replace t oldEntry (hash node.nodeId) ⟨address, node⟩
        if r.1 then ⟨good, some address, r.2⟩ else .fail badInternalError r.2

/-- The key of the lookup is not the id but the place where the pointer to it
is stored. `misread` is the id that is found there, if the memory has one of
the identifier types at all. -/
def misreadKey (misread : Option NodeId) (e : Entry) : Bool := misread.any (compare · e)

def remove (t : T.Table) (misread : Option NodeId) (nodeid : NodeId) : Outcome T :=
  match T.lookup t (hash nodeid) (misreadKey misread) with
  | none => .fail badNodeIdUnknown t
  | some entry =>
      let r := T.del t entry
      if r.1 then ⟨good, none, r.2⟩ else .fail badNodeIdUnknown r.2

/-- One call of the store, with what the allocator and the stack contribute. -/
inductive Op
  | insert (fuel address : Nat) (node : Node)
  | replace (address oldNode : Nat) (node : Node)
  | get (nodeid : NodeId)
  | remove (misread : Option NodeId) (nodeid : NodeId)

def pointer (address : Nat) : NodePtr := ⟨address, 0⟩

def Outcome.reply {T : HashTable UInt32 Entry} (o : Outcome T) : Reply NodeMembers × T.Table :=
  (.status o.status (o.inserted.map pointer), o.table)

def perform (t : T.Table) : Op → Option (Reply NodeMembers × T.Table)
  | .insert fuel address node => (insert T t fuel address node).map Outcome.reply
  | .replace address oldNode node => some (replace T t address oldNode node).reply
  | .get nodeid => some (.node ((get T t nodeid).map (fun e => entry e.node)), t)
  | .remove misread nodeid => some (remove T t misread nodeid).reply

end Store

def Op.toMap : Op → NodeMaps.Op NodeMembers
  | .insert _ address node => .insert (some address) (entry (renamed node))
  | .replace _ oldNode node => .replace (pointer oldNode) (entry node)
  | .get nodeid => .get nodeid
  | .remove _ nodeid => .remove none nodeid

section Specification

variable (T : HashTable UInt32 Entry)

def Represents (t : T.Table) (m : NodeMap NodeMembers) : Prop :=
  ∀ id n, m id = some n ↔ ∃ h e, T.holds t h e ∧ entry e.node = n ∧ nodeIdEqual n.nodeId id = true

open Classical in
noncomputable def deref (t : T.Table) (p : NodePtr) : Option (NodeStores.Node NodeMembers) :=
  if hp : ∃ h e, T.holds t h e ∧ pointer e.address = p then some (entry hp.choose_spec.choose.node) else none

/-- Every call of the run returns with an answer that the map gives, and the
table holds the map between the calls. -/
def Refines : T.Table → NodeMap NodeMembers → List Op → Prop
  | t, m, [] => Represents T t m
  | t, m, op :: ops => Represents T t m ∧ ∃ reply t' m', perform T t op = some (reply, t') ∧
      MapStep (deref T t) (deref T t') m op.toMap reply m' ∧ Refines t' m' ops

/-- A condition on a call and the table it finds, at every call of a run. -/
def Along (P : T.Table → Op → Prop) : T.Table → List Op → Prop
  | _, [] => True
  | t, op :: ops => P t op ∧ match perform T t op with
      | none => True
      | some (_, t') => Along P t' ops

/-- No entry is at the address that the allocator returns. -/
def Allocates (t : T.Table) : Op → Prop
  | .insert _ address _ | .replace address _ _ => ∀ h e, T.holds t h e → e.address ≠ address
  | _ => True

/-- A stored id that equals the id of the call has the same hash. It fails
for a NULL string against an empty one. -/
def HashesAgree (t : T.Table) (op : Op) : Prop :=
  ∀ id ∈ op.toMap.nodeId?, ∀ h e, T.holds t h e → nodeIdEqual e.node.nodeId id = true → hash e.node.nodeId = hash id

def Misreads (t : T.Table) : Op → Prop
  | .remove misread nodeid => ∀ e, T.holds t (hash nodeid) e → misreadKey misread e = compare nodeid e
  | _ => True

def Returns (t : T.Table) (op : Op) : Prop := (perform T t op).isSome = true

end Specification

section Tables

variable {T : HashTable UInt32 Entry} {t t' : T.Table} {m : NodeMap NodeMembers} {h : UInt32} {e old : Entry}
  {id : NodeId}

/-- The entries stand under their own hashes, and neither an address nor an id
is there twice. -/
structure Wf (T : HashTable UInt32 Entry) (t : T.Table) : Prop where
  hash : ∀ {h e}, T.holds t h e → h = NodeStores.hash e.node.nodeId
  address : ∀ {h h' e e'}, T.holds t h e → T.holds t h' e' → e.address = e'.address → e = e'
  nodeId : ∀ {h h' e e'}, T.holds t h e → T.holds t h' e' → nodeIdEqual e.node.nodeId e'.node.nodeId = true → e = e'

def Hashed (T : HashTable UInt32 Entry) (t : T.Table) (id : NodeId) : Prop :=
  ∀ h e, T.holds t h e → nodeIdEqual e.node.nodeId id = true → hash e.node.nodeId = hash id

theorem wf_same (hw : Wf T t) (hsame : SameEntries T t t') : Wf T t' where
  hash he := hw.hash ((hsame _ _).mp he)
  address he he' := hw.address ((hsame _ _).mp he) ((hsame _ _).mp he')
  nodeId he he' := hw.nodeId ((hsame _ _).mp he) ((hsame _ _).mp he')

theorem represents_same (hr : Represents T t m) (hsame : SameEntries T t t') : Represents T t' m := by
  intro id n
  rw [hr id n]
  refine exists_congr fun h => exists_congr fun e => ?_
  rw [hsame h e]

theorem Represents.of_holds (hr : Represents T t m) (he : T.holds t h e) (hid : nodeIdEqual e.node.nodeId id = true) :
    m id = some (entry e.node) := (hr id _).mpr ⟨h, e, he, rfl, hid⟩

theorem Represents.none (hr : Represents T t m) (hm : m id = none) (he : T.holds t h e) :
    nodeIdEqual e.node.nodeId id = false := by
  rw [← Bool.not_eq_true]
  intro hid
  rw [hr.of_holds he hid] at hm
  cases hm

theorem none_of_lookup (hT : Lawful Entry.address T) (hw : Wf T t) (hr : Represents T t m) (hid : Hashed T t id)
    {key : Entry → Bool} (hkey : ∀ e, T.holds t (hash id) e → key e = compare id e)
    (hl : T.lookup t (hash id) key = none) : m id = none := by
  cases hm : m id with
  | none => rfl
  | some n =>
      obtain ⟨h, e, he, rfl, hequal⟩ := (hr id n).mp hm
      have hhash : h = hash id := (hw.hash he).trans (hid h e he hequal)
      subst hhash
      have hnot := hT.lookup_none _ _ _ hl e he
      rw [hkey e he, compare, show nodeIdEqual e.node.nodeId id = true from hequal] at hnot
      cases hnot

theorem get_eq (hT : Lawful Entry.address T) (hw : Wf T t) (hr : Represents T t m) (hid : Hashed T t id) :
    (T.lookup t (hash id) (compare id)).map (fun e => entry e.node) = m id := by
  cases hl : T.lookup t (hash id) (compare id) with
  | some e =>
      obtain ⟨he, hcompare⟩ := hT.lookup_some _ _ _ _ hl
      exact (hr.of_holds he hcompare).symm
  | none => exact (none_of_lookup hT hw hr hid (fun _ _ => rfl) hl).symm

section Updates

variable {node : Node} {address : Nat}

theorem wf_added (hw : Wf T t) (hr : Represents T t m) (hfree : m node.nodeId = none)
    (haddress : ∀ h e, T.holds t h e → e.address ≠ address)
    (hadded : Added T t t' (hash node.nodeId) ⟨address, node⟩) : Wf T t' where
  hash he := by
    rcases (hadded _ _).mp he with he | ⟨rfl, rfl⟩
    · exact hw.hash he
    · rfl
  address he he' heq := by
    rcases (hadded _ _).mp he with he | ⟨rfl, rfl⟩
    · rcases (hadded _ _).mp he' with he' | ⟨rfl, rfl⟩
      · exact hw.address he he' heq
      · exact absurd heq (haddress _ _ he)
    · rcases (hadded _ _).mp he' with he' | ⟨rfl, rfl⟩
      · exact absurd heq.symm (haddress _ _ he')
      · rfl
  nodeId he he' heq := by
    rcases (hadded _ _).mp he with he | ⟨rfl, rfl⟩
    · rcases (hadded _ _).mp he' with he' | ⟨rfl, rfl⟩
      · exact hw.nodeId he he' heq
      · rw [hr.none hfree he] at heq
        cases heq
    · rcases (hadded _ _).mp he' with he' | ⟨rfl, rfl⟩
      · rw [nodeIdEqual_comm, hr.none hfree he'] at heq
        cases heq
      · rfl

theorem represents_added (hr : Represents T t m) (hfree : m node.nodeId = none)
    (hadded : Added T t t' (hash node.nodeId) ⟨address, node⟩) : Represents T t' (update m (entry node)) := by
  intro id n
  rw [update]
  split
  · rename_i hid
    constructor
    · intro hn
      cases hn
      exact ⟨_, _, (hadded _ _).mpr (.inr ⟨rfl, rfl⟩), rfl, hid⟩
    · rintro ⟨h, e, he, rfl, hequal⟩
      rcases (hadded _ _).mp he with he | ⟨rfl, rfl⟩
      · have hnot := hr.none hfree he
        rw [show nodeIdEqual e.node.nodeId node.nodeId = true from
          nodeIdEqual_trans hequal (nodeIdEqual_symm hid)] at hnot
        cases hnot
      · rfl
  · rename_i hid
    rw [hr id n]
    constructor
    · rintro ⟨h, e, he, hn⟩
      exact ⟨h, e, (hadded _ _).mpr (.inl he), hn⟩
    · rintro ⟨h, e, he, rfl, hequal⟩
      rcases (hadded _ _).mp he with he | ⟨rfl, rfl⟩
      · exact ⟨h, e, he, rfl, hequal⟩
      · exact absurd hequal hid

theorem wf_replaced (hw : Wf T t) (hold : T.holds t h old) (hid : nodeIdEqual old.node.nodeId node.nodeId = true)
    (haddress : ∀ h e, T.holds t h e → e.address ≠ address)
    (hreplaced : Replaced Entry.address T t t' old (hash node.nodeId) ⟨address, node⟩) : Wf T t' where
  hash he := by
    rcases (hreplaced _ _).mp he with ⟨he, _⟩ | ⟨rfl, rfl⟩
    · exact hw.hash he
    · rfl
  address he he' heq := by
    rcases (hreplaced _ _).mp he with ⟨he, _⟩ | ⟨rfl, rfl⟩
    · rcases (hreplaced _ _).mp he' with ⟨he', _⟩ | ⟨rfl, rfl⟩
      · exact hw.address he he' heq
      · exact absurd heq (haddress _ _ he)
    · rcases (hreplaced _ _).mp he' with ⟨he', _⟩ | ⟨rfl, rfl⟩
      · exact absurd heq.symm (haddress _ _ he')
      · rfl
  nodeId he he' heq := by
    rcases (hreplaced _ _).mp he with ⟨he, hne⟩ | ⟨rfl, rfl⟩
    · rcases (hreplaced _ _).mp he' with ⟨he', _⟩ | ⟨rfl, rfl⟩
      · exact hw.nodeId he he' heq
      · rw [hw.nodeId he hold (nodeIdEqual_trans heq (nodeIdEqual_symm hid))] at hne
        exact absurd rfl hne
    · rcases (hreplaced _ _).mp he' with ⟨he', hne⟩ | ⟨rfl, rfl⟩
      · rw [hw.nodeId he' hold (nodeIdEqual_trans (nodeIdEqual_symm heq) (nodeIdEqual_symm hid))] at hne
        exact absurd rfl hne
      · rfl

theorem represents_replaced (hw : Wf T t) (hr : Represents T t m) (hold : T.holds t h old)
    (hid : nodeIdEqual old.node.nodeId node.nodeId = true)
    (hreplaced : Replaced Entry.address T t t' old (hash node.nodeId) ⟨address, node⟩) :
    Represents T t' (update m (entry node)) := by
  intro id n
  rw [update]
  split
  · rename_i hnode
    constructor
    · intro hn
      cases hn
      exact ⟨_, _, (hreplaced _ _).mpr (.inr ⟨rfl, rfl⟩), rfl, hnode⟩
    · rintro ⟨h, e, he, rfl, hequal⟩
      rcases (hreplaced _ _).mp he with ⟨he, hne⟩ | ⟨rfl, rfl⟩
      · have hsame : nodeIdEqual e.node.nodeId old.node.nodeId = true :=
          nodeIdEqual_trans hequal (nodeIdEqual_symm (nodeIdEqual_trans hid hnode))
        rw [hw.nodeId he hold hsame] at hne
        exact absurd rfl hne
      · rfl
  · rename_i hnode
    rw [hr id n]
    constructor
    · rintro ⟨h, e, he, rfl, hequal⟩
      refine ⟨h, e, (hreplaced _ _).mpr (.inl ⟨he, ?_⟩), rfl, hequal⟩
      intro hsame
      rw [hw.address he hold hsame] at hequal
      exact hnode (nodeIdEqual_trans (nodeIdEqual_symm hid) hequal)
    · rintro ⟨h, e, he, rfl, hequal⟩
      rcases (hreplaced _ _).mp he with ⟨he, _⟩ | ⟨rfl, rfl⟩
      · exact ⟨h, e, he, rfl, hequal⟩
      · exact absurd hequal hnode

theorem wf_deleted (hw : Wf T t) (hdeleted : Deleted Entry.address T t t' e) : Wf T t' where
  hash he := hw.hash ((hdeleted _ _).mp he).1
  address he he' := hw.address ((hdeleted _ _).mp he).1 ((hdeleted _ _).mp he').1
  nodeId he he' := hw.nodeId ((hdeleted _ _).mp he).1 ((hdeleted _ _).mp he').1

theorem represents_deleted (hw : Wf T t) (hr : Represents T t m) (he : T.holds t h e)
    (hid : nodeIdEqual e.node.nodeId id = true) (hdeleted : Deleted Entry.address T t t' e) :
    Represents T t' (erase m id) := by
  intro id' n
  rw [erase]
  split
  · rename_i hsame
    refine iff_of_false (by rintro ⟨⟩) ?_
    rintro ⟨h', e', he', rfl, hequal⟩
    obtain ⟨he', hne⟩ := (hdeleted _ _).mp he'
    have hequal' : nodeIdEqual e'.node.nodeId e.node.nodeId = true :=
      nodeIdEqual_trans hequal (nodeIdEqual_symm (nodeIdEqual_trans hid hsame))
    rw [hw.nodeId he' he hequal'] at hne
    exact hne rfl
  · rename_i hother
    rw [hr id' n]
    constructor
    · rintro ⟨h', e', he', rfl, hequal⟩
      refine ⟨h', e', (hdeleted _ _).mpr ⟨he', ?_⟩, rfl, hequal⟩
      intro hsame
      rw [hw.address he' he hsame] at hequal
      exact hother (nodeIdEqual_trans (nodeIdEqual_symm hid) hequal)
    · rintro ⟨h', e', he', rfl, hequal⟩
      exact ⟨h', e', ((hdeleted _ _).mp he').1, rfl, hequal⟩

end Updates

section Pointers

theorem deref_some {p : NodePtr} {n : NodeStores.Node NodeMembers} (hp : deref T t p = some n) :
    ∃ h e, T.holds t h e ∧ pointer e.address = p ∧ entry e.node = n := by
  rw [deref] at hp
  split at hp
  · rename_i hexists
    obtain ⟨he, haddress⟩ := hexists.choose_spec.choose_spec
    exact ⟨_, _, he, haddress, Option.some.inj hp⟩
  · cases hp

theorem deref_of_holds (hw : Wf T t) (he : T.holds t h e) : deref T t (pointer e.address) = some (entry e.node) := by
  have hexists : ∃ h' e', T.holds t h' e' ∧ pointer e'.address = pointer e.address := ⟨h, e, he, rfl⟩
  rw [deref, dif_pos hexists]
  obtain ⟨he', haddress⟩ := hexists.choose_spec.choose_spec
  have hsame := hw.address he' he (NodePtr.mk.inj haddress).1
  rw [hsame]

end Pointers

end Tables

section Steps

variable {T : HashTable UInt32 Entry} {t : T.Table} {m : NodeMap NodeMembers} {id : NodeId} {node : Node}
  {fuel address oldNode : Nat} {misread : Option NodeId}

/-- The call returns, the map answers, and the table holds the new map. -/
def Simulated (T : HashTable UInt32 Entry) (t : T.Table) (m : NodeMap NodeMembers) (op : Op) : Prop :=
  ∃ reply t' m', perform T t op = some (reply, t') ∧ Wf T t' ∧ Represents T t' m' ∧
    MapStep (deref T t) (deref T t') m op.toMap reply m'

def Free (T : HashTable UInt32 Entry) (t : T.Table) (address : Nat) : Prop :=
  ∀ h e, T.holds t h e → e.address ≠ address

theorem addUnique_cases (hT : Lawful Entry.address T) (node : Node) (hw : Wf T t) (hr : Represents T t m)
    (hid : Hashed T t node.nodeId) (hfree : Free T t address) :
    let r := T.addUnique t (hash node.nodeId) (compare node.nodeId) ⟨address, node⟩
    (m node.nodeId = none ∧ r.1 = ⟨address, node⟩ ∧ Added T t r.2 (hash node.nodeId) ⟨address, node⟩) ∨
      ∃ n, m node.nodeId = some n ∧ r.1.address ≠ address ∧ SameEntries T t r.2 := by
  intro r
  cases hm : m node.nodeId with
  | none =>
      have hnone : ∀ x, T.holds t (hash node.nodeId) x → compare node.nodeId x = false := fun x hx => hr.none hm hx
      obtain ⟨hresult, hadded⟩ := hT.addUnique_new t _ _ ⟨address, node⟩ hnone
      exact .inl ⟨rfl, hresult, hadded⟩
  | some n =>
      obtain ⟨h, e, he, rfl, hequal⟩ := (hr _ _).mp hm
      have hhash : h = hash node.nodeId := (hw.hash he).trans (hid h e he hequal)
      subst hhash
      obtain ⟨hheld, _, hsame⟩ := hT.addUnique_found t _ (compare node.nodeId) ⟨address, node⟩ e he hequal
      exact .inr ⟨_, rfl, hfree _ _ hheld, hsame⟩

theorem eq_of_nodeIdEqual_numeric {nsIndex : UInt16} {i : UInt32} (h : nodeIdEqual id (numericId nsIndex i) = true) :
    id = numericId nsIndex i := by
  obtain ⟨namespaceIndex, identifier⟩ := id
  rw [nodeIdEqual_iff] at h
  obtain ⟨hns, hcontent⟩ := h
  cases hns
  cases identifier with
  | numeric k =>
      have hk : k = i := UInt32.toNat_inj.mp (congrArg (·.2.1) hcontent)
      rw [hk]
      rfl
  | _ =>
      have hkind := congrArg (·.1) hcontent
      simp [Identifier.content, numericId] at hkind

theorem hashed_numeric {nsIndex : UInt16} {i : UInt32} : Hashed T t (numericId nsIndex i) := by
  intro h e _ hequal
  rw [eq_of_nodeIdEqual_numeric hequal]

theorem renamed_of_explicit (h : hasNullIdentifier node.nodeId = false) : renamed node = node := by
  rw [renamed, h]
  rfl

theorem renamed_nodeId (node : Node) : (renamed node).nodeId = node.nodeId := by
  rw [renamed]
  split
  · split <;> rfl
  · rfl

theorem simulated_insert (hT : Lawful Entry.address T) (hw : Wf T t) (hr : Represents T t m)
    (hid : Hashed T t node.nodeId) (hfree : Free T t address) (hexplicit : hasNullIdentifier node.nodeId = false) :
    Simulated T t m (.insert fuel address node) := by
  have hperform : perform T t (.insert fuel address node) = (insert T t fuel address node).map Outcome.reply := rfl
  have hmap : (Op.insert fuel address node).toMap = .insert (some address) (entry node) := by
    rw [Op.toMap, renamed_of_explicit hexplicit]
  rw [insert, hexplicit] at hperform
  rw [Simulated, hperform, hmap]
  rcases addUnique_cases hT node hw hr hid hfree with ⟨hm, hresult, hadded⟩ | ⟨n, hm, hne, hsame⟩
  · have hw' := wf_added hw hr hm hfree hadded
    have hp := deref_of_holds hw' ((hadded _ _).mpr (.inr ⟨rfl, rfl⟩))
    refine ⟨_, _, _, ?_, hw', represents_added hr hm hadded, MapStep.inserted hexplicit hm hp⟩
    dsimp only
    rw [hresult]
    exact congrArg (Option.map Outcome.reply) (if_neg (not_not.mpr rfl))
  · refine ⟨_, _, _, ?_, wf_same hw hsame, represents_same hr hsame, MapStep.insertExists hexplicit hm⟩
    exact congrArg (Option.map Outcome.reply) (if_pos hne)

theorem insertFresh_some (hT : Lawful Entry.address T) {increase i : UInt32} {o : Outcome T} (hw : Wf T t)
    (hr : Represents T t m) (hfree : Free T t address) (h : insertFresh T address node increase fuel t i = some o) :
    ∃ i new, new = { node with nodeId := numericId (freshNamespace node) i } ∧ m new.nodeId = none ∧
      o.status = good ∧ o.inserted = some address ∧ Added T t o.table (hash new.nodeId) ⟨address, new⟩ := by
  induction fuel generalizing t i with
  | zero => cases h
  | succ fuel ih =>
      rw [insertFresh] at h
      have hcases := addUnique_cases hT { node with nodeId := numericId (freshNamespace node) i } hw hr hashed_numeric
        hfree
      rcases hcases with ⟨hm, hresult, hadded⟩ | ⟨n, _, hne, hsame⟩
      · rw [if_pos (congrArg Entry.address hresult)] at h
        cases h
        exact ⟨i, _, rfl, hm, rfl, rfl, hadded⟩
      · rw [if_neg hne] at h
        have hfree' : Free T _ address := fun h e he => hfree h e ((hsame h e).mp he)
        obtain ⟨i, new, hnew, hm, hstatus, hinserted, hadded⟩ :=
          ih (wf_same hw hsame) (represents_same hr hsame) hfree' h
        refine ⟨i, new, hnew, hm, hstatus, hinserted, fun k x => ?_⟩
        rw [hadded k x, hsame k x]

theorem simulated_insertFresh (hT : Lawful Entry.address T) (hw : Wf T t) (hr : Represents T t m)
    (hfree : Free T t address) (hnull : hasNullIdentifier node.nodeId = true)
    (hreturns : Returns T t (.insert fuel address node)) : Simulated T t m (.insert fuel address node) := by
  have hperform : perform T t (.insert fuel address node) = (insert T t fuel address node).map Outcome.reply := rfl
  rw [Returns, hperform, Option.isSome_map] at hreturns
  obtain ⟨o, ho⟩ := Option.isSome_iff_exists.mp hreturns
  have hfresh := ho
  rw [insert, if_pos hnull] at hfresh
  obtain ⟨i, new, hnew, hm, hstatus, hinserted, hadded⟩ := insertFresh_some hT hw hr hfree hfresh
  have hw' := wf_added hw hr hm hfree hadded
  have hp := deref_of_holds hw' ((hadded _ _).mpr (.inr ⟨rfl, rfl⟩))
  have hnull' : hasNullIdentifier (entry (renamed node)).nodeId = true := by
    change hasNullIdentifier (renamed node).nodeId = true
    rw [renamed_nodeId]
    exact hnull
  have hr' := represents_added hr hm hadded
  subst hnew
  refine ⟨_, _, _, ?_, hw', hr', MapStep.insertedFresh hnull' (by rw [freshNamespace]; rfl) hm hp⟩
  rw [hperform, ho, Option.map_some, Outcome.reply, hstatus, hinserted]
  rfl

theorem simulated_replace (hT : Lawful Entry.address T) (hw : Wf T t) (hr : Represents T t m)
    (hid : Hashed T t node.nodeId) (hfree : Free T t address) : Simulated T t m (.replace address oldNode node) := by
  have hperform : perform T t (.replace address oldNode node) = some (replace T t address oldNode node).reply := rfl
  have hget := get_eq hT hw hr hid
  rw [replace] at hperform
  cases hl : T.lookup t (hash node.nodeId) (compare node.nodeId) with
  | none =>
      rw [hl] at hperform hget
      exact ⟨_, _, _, hperform, hw, hr, MapStep.replaceUnknown hget.symm⟩
  | some oldEntry =>
      rw [hl] at hperform hget
      dsimp only at hperform
      obtain ⟨hold, hcompare⟩ := hT.lookup_some _ _ _ _ hl
      by_cases hne : oldEntry.address ≠ oldNode
      · rw [if_pos hne] at hperform
        refine ⟨_, _, _, hperform, hw, hr, MapStep.replaceOther hget.symm ?_⟩
        intro hderef
        obtain ⟨h, e, he, haddress, hentry⟩ := deref_some hderef
        have hids : e.node.nodeId = oldEntry.node.nodeId := congrArg NodeStores.Node.nodeId hentry
        have hsame := hw.nodeId he hold (by rw [hids]; exact nodeIdEqual_refl _)
        rw [hsame] at haddress
        exact hne (NodePtr.mk.inj haddress).1
      · rw [if_neg hne] at hperform
        obtain ⟨hdone, hreplaced⟩ := hT.replace_held t _ oldEntry ⟨address, node⟩ hold
        rw [hdone] at hperform
        have hw' := wf_replaced hw hold hcompare hfree hreplaced
        have hp := deref_of_holds hw' ((hreplaced _ _).mpr (.inr ⟨rfl, rfl⟩))
        have hbefore := deref_of_holds hw hold
        rw [not_not.mp hne] at hbefore
        exact ⟨_, _, _, hperform, hw', represents_replaced hw hr hold hcompare hreplaced,
          MapStep.replaced hget.symm hbefore hp⟩

theorem simulated_get (hT : Lawful Entry.address T) (hw : Wf T t) (hr : Represents T t m) (hid : Hashed T t id) :
    Simulated T t m (.get id) := by
  refine ⟨.node (m id), t, m, ?_, hw, hr, MapStep.get id⟩
  rw [perform, get, get_eq hT hw hr hid]

theorem simulated_remove (hT : Lawful Entry.address T) (hw : Wf T t) (hr : Represents T t m) (hid : Hashed T t id)
    (hmisread : Misreads T t (.remove misread id)) : Simulated T t m (.remove misread id) := by
  have hperform : perform T t (.remove misread id) = some (remove T t misread id).reply := rfl
  rw [remove] at hperform
  cases hl : T.lookup t (hash id) (misreadKey misread) with
  | none =>
      rw [hl] at hperform
      have hm := none_of_lookup hT hw hr hid hmisread hl
      exact ⟨_, _, _, hperform, hw, hr, MapStep.removeUnknown hm⟩
  | some e =>
      rw [hl] at hperform
      dsimp only at hperform
      obtain ⟨he, hkey⟩ := hT.lookup_some _ _ _ _ hl
      rw [hmisread e he] at hkey
      obtain ⟨hdone, hdeleted⟩ := hT.del_held t _ e he
      rw [hdone] at hperform
      exact ⟨_, _, _, hperform, wf_deleted hw hdeleted, represents_deleted hw hr he hkey hdeleted,
        MapStep.removed (hr.of_holds he hkey)⟩

end Steps

section Runs

variable {T : HashTable UInt32 Entry}

/-- The condition on one call, besides an allocator that works. -/
def Admissible (T : HashTable UInt32 Entry) (t : T.Table) (op : Op) : Prop :=
  Allocates T t op ∧ HashesAgree T t op ∧ Misreads T t op ∧ Returns T t op

theorem simulates (hT : Lawful Entry.address T) {t : T.Table} {m : NodeMap NodeMembers} {op : Op} (hw : Wf T t)
    (hr : Represents T t m) (h : Admissible T t op) : Simulated T t m op := by
  obtain ⟨hallocates, hhashes, hmisreads, hreturns⟩ := h
  cases op with
  | insert fuel address node =>
      cases hnull : hasNullIdentifier node.nodeId with
      | true => exact simulated_insertFresh hT hw hr hallocates hnull hreturns
      | false =>
          refine simulated_insert hT hw hr ?_ hallocates hnull
          have hid : (entry (renamed node)).nodeId = node.nodeId := renamed_nodeId node
          exact hid ▸ hhashes _ rfl
  | replace address oldNode node => exact simulated_replace hT hw hr (hhashes _ rfl) hallocates
  | get id => exact simulated_get hT hw hr (hhashes _ rfl)
  | remove misread id => exact simulated_remove hT hw hr (hhashes _ rfl) hmisreads

theorem refines_of_wf (hT : Lawful Entry.address T) (ops : List Op) {t : T.Table} {m : NodeMap NodeMembers}
    (hw : Wf T t) (hr : Represents T t m) (h : Along T (Admissible T) t ops) : Refines T t m ops := by
  induction ops generalizing t m with
  | nil => exact hr
  | cons op ops ih =>
      obtain ⟨hop, hrest⟩ := h
      obtain ⟨reply, t', m', hrun, hw', hr', hstep⟩ := simulates hT hw hr hop
      rw [hrun] at hrest
      exact ⟨hr, reply, t', m', hrun, hstep, ih hw' hr' hrest⟩

theorem wf_empty (hT : Lawful Entry.address T) : Wf T T.empty where
  hash he := absurd he (hT.empty _ _)
  address he := absurd he (hT.empty _ _)
  nodeId he := absurd he (hT.empty _ _)

theorem represents_empty (hT : Lawful Entry.address T) : Represents T T.empty empty := by
  intro id n
  refine iff_of_false nofun ?_
  rintro ⟨h, e, he, _⟩
  exact hT.empty h e he

theorem along_cons {P : T.Table → Op → Prop} {t t' : T.Table} {op : Op} {ops : List Op} {reply : Reply NodeMembers}
    (hop : P t op) (hrun : perform T t op = some (reply, t')) (hrest : Along T P t' ops) : Along T P t (op :: ops) := by
  rw [Along, hrun]
  exact ⟨hop, hrest⟩

/-- In every run of admissible calls the concurrent store is the map that the
single-threaded one is. -/
theorem concurrentStore_refines_map (T : HashTable UInt32 Entry) (hT : Lawful Entry.address T) (ops : List Op)
    (h : Along T (Admissible T) T.empty ops) : Refines T T.empty empty ops :=
  refines_of_wf hT ops (wf_empty hT) (represents_empty hT) h

end Runs

section Samples

abbrev L : HashTable UInt32 Entry := listTable Entry.address

def sampleNode (i : UInt32) : Node := plainNode (numericId 1 i) (.object 0 0)

def sampleTable (address : Nat) : L.Table := [(hash (numericId 1 1), ⟨address, sampleNode 1⟩)]

def sampleRun : List Op :=
  [.insert 0 1 (sampleNode 1), .get (numericId 1 1), .insert 0 2 (sampleNode 1), .replace 3 1 (sampleNode 1),
    .remove none (numericId 1 2)]

theorem holds_sampleTable {address : Nat} {h : UInt32} {e : Entry} (he : L.holds (sampleTable address) h e) :
    e = ⟨address, sampleNode 1⟩ := (Prod.mk.inj (List.mem_singleton.mp he)).2

theorem free_sampleTable {address other : Nat} (hne : address ≠ other) : Free L (sampleTable address) other := by
  intro h e he
  rw [holds_sampleTable he]
  exact hne

theorem hashesAgree_numeric {T : HashTable UInt32 Entry} {t : T.Table} {op : Op} {nsIndex : UInt16} {i : UInt32}
    (hop : op.toMap.nodeId? = some (numericId nsIndex i)) : HashesAgree T t op := by
  intro id hid
  rw [hop] at hid
  cases hid
  exact hashed_numeric

theorem concurrentStore_refines_map_sampleRun : Refines L L.empty empty sampleRun := by
  refine concurrentStore_refines_map L lawful_listTable sampleRun ?_
  have hinsert : Admissible L L.empty (.insert 0 1 (sampleNode 1)) :=
    ⟨fun _ _ he => absurd he List.not_mem_nil, hashesAgree_numeric rfl, trivial, rfl⟩
  have hget : Admissible L (sampleTable 1) (.get (numericId 1 1)) :=
    ⟨trivial, hashesAgree_numeric rfl, trivial, rfl⟩
  have hagain : Admissible L (sampleTable 1) (.insert 0 2 (sampleNode 1)) :=
    ⟨free_sampleTable (by decide), hashesAgree_numeric rfl, trivial, rfl⟩
  have hreplace : Admissible L (sampleTable 1) (.replace 3 1 (sampleNode 1)) :=
    ⟨free_sampleTable (by decide), hashesAgree_numeric rfl, trivial, rfl⟩
  have hremove : Admissible L (sampleTable 3) (.remove none (numericId 1 2)) := by
    refine ⟨trivial, hashesAgree_numeric rfl, ?_, rfl⟩
    intro e he
    rw [holds_sampleTable he]
    rfl
  exact along_cons hinsert rfl (along_cons hget rfl (along_cons hagain rfl (along_cons hreplace rfl
    (along_cons hremove rfl trivial))))

/-- The memory behind the pointer to a stored id is no id, so that the node
stays. -/
def brokenRun : List Op := [.insert 0 1 (sampleNode 1), .remove none (numericId 1 1)]

theorem concurrentStore_keeps_removed :
    Along L (fun t op => Allocates L t op ∧ HashesAgree L t op ∧ Returns L t op) L.empty brokenRun ∧
      ¬ Refines L L.empty empty brokenRun := by
  constructor
  · refine along_cons ⟨fun _ _ he => absurd he List.not_mem_nil, hashesAgree_numeric rfl, rfl⟩ rfl ?_
    exact along_cons (t := sampleTable 1) ⟨trivial, hashesAgree_numeric rfl, rfl⟩ rfl trivial
  · rintro ⟨_, reply, t, m, hrun, _, hr, reply', t', m', hrun', hstep, _⟩
    have hrun : some (.status good (some (pointer 1)), sampleTable 1) = some (reply, t) := hrun
    cases hrun
    have hrun' : some (.status badNodeIdUnknown none, sampleTable 1) = some (reply', t') := hrun'
    cases hrun'
    have hheld : L.holds (sampleTable 1) (hash (numericId 1 1)) ⟨1, sampleNode 1⟩ := List.mem_singleton_self _
    have hm : m (numericId 1 1) = some (entry (sampleNode 1)) := hr.of_holds hheld rfl
    generalize hreply : Reply.status badNodeIdUnknown none = reply' at hstep
    cases hstep with
    | removed => cases hreply
    | removeUnknown hfree =>
        rw [hm] at hfree
        cases hfree

end Samples

end OpcUa.ConcurrentStores
