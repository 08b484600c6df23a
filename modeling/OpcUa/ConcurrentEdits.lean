import OpcUa.ConcurrentStores
import OpcUa.NodeCopies

namespace OpcUa.ConcurrentEdits

open StatusCodes NodeIds AddressSpaces References HashTables NodeMaps ConcurrentStores NodeCopies
open NodeStores (hash)

/-- A call of `UA_Server_editNode`. -/
structure Call where
  nodeId : NodeId
  callback : Node → StatusCode × NodeMembers

/-- Where a call stands in its loop, with the entry that it got, its copy and
the entry that `UA_NodeStore_replace` has looked up. -/
inductive Phase
  | start
  | got (node : Entry)
  | copied (node : Entry) (copy : Node)
  | edited (node : Entry) (copy : Node)
  | found (node : Entry) (copy : Node) (oldEntry : Entry)
  | returned (status : StatusCode)

def Phase.inFlight : Phase → Option Entry
  | .got node | .copied node _ | .edited node _ | .found node _ _ => some node
  | _ => none

section Steps

variable (T : HashTable UInt32 Entry)

/-- The next atomic step of a call, with the address that the allocator returns
for a new entry. A replacement that fails starts the loop again. -/
def advance (call : Call) (address : Nat) (t : T.Table) : Phase → T.Table × Phase
  | .start =>
      match get T t call.nodeId with
      | none => (t, .returned badNodeIdUnknown)
      | some node => (t, .got node)
  | .got node => (t, .copied node (copyAnyNodeClass node.node))
  | .copied node copy =>
      let r := call.callback copy
      if r.1 ≠ good then (t, .returned r.1) else (t, .edited node { copy with toNodeMembers := r.2 })
  | .edited node copy =>
      match T.lookup t (hash copy.nodeId) (compare copy.nodeId) with
      | none => (t, .start)
      | some oldEntry => if oldEntry.address ≠ node.address then (t, .start) else (t, .found node copy oldEntry)
  | .found _ copy oldEntry =>
      let r := T.replace t oldEntry (hash copy.nodeId) ⟨address, copy⟩
      if r.1 then (r.2, .returned good) else (r.2, .start)
  | .returned status => (t, .returned status)

variable {ι : Type}

/-- The table and the calls that are under way. -/
structure State (ι : Type) where
  table : T.Table
  phase : ι → Phase

def initial (t : T.Table) : State T ι := ⟨t, fun _ => .start⟩

variable [DecidableEq ι] (calls : ι → Call)

/-- One step of the call `i`, while the others wait. -/
def step (s : State T ι) (i : ι) (address : Nat) : State T ι :=
  let r := advance T (calls i) address s.table (s.phase i)
  ⟨r.1, Function.update s.phase i r.2⟩

/-- The steps in the order in which the threads take them. -/
def run (s : State T ι) (steps : List (ι × Nat)) : State T ι := steps.foldl (fun s x => step T calls s x.1 x.2) s

/-- The address is neither in the table nor read by anyone. -/
def Unused (s : State T ι) (address : Nat) : Prop :=
  (∀ h e, T.holds s.table h e → e.address ≠ address) ∧ ∀ i e, (s.phase i).inFlight = some e → e.address ≠ address

/-- If this step needs an entry, the allocator returns an unused address. -/
def Allocates (s : State T ι) (i : ι) (address : Nat) : Prop :=
  ∀ node copy oldEntry, s.phase i = .found node copy oldEntry → Unused T s address

/-- The node that is copied in this step is copied as it is. -/
def CopiesPlainly (s : State T ι) (i : ι) : Prop := ∀ node, s.phase i = .got node → plainBody node.node.body = true

def Along (P : State T ι → ι → Nat → Prop) : State T ι → List (ι × Nat) → Prop
  | _, [] => True
  | s, (i, address) :: steps => P s i address ∧ Along P (step T calls s i address) steps

/-- The calls one after the other, each in place and with success. -/
inductive Serial : AddressSpace → List ι → AddressSpace → Prop
  | nil (s : AddressSpace) : Serial s [] s
  | snoc {s s' s'' : AddressSpace} {order : List ι} {i : ι} (h : Serial s order s')
      (hedit : editNode s' (calls i).nodeId (calls i).callback = (good, s'')) : Serial s (order ++ [i]) s''

/-- The table is what the calls that returned with success leave, each done
once, in some order. -/
def Serialized (s₀ : AddressSpace) (s : State T ι) : Prop :=
  ∃ order s', order.Nodup ∧ (∀ i, i ∈ order ↔ s.phase i = .returned good) ∧ Serial calls s₀ order s' ∧
    Represents T s.table (toMap s')

end Steps

section Invariant

variable {T : HashTable UInt32 Entry} {t t' : T.Table} {call : Call} {node : Entry} {address : Nat}

/-- The entry was found under the id of the call, and its address still names
it. -/
structure Seen (T : HashTable UInt32 Entry) (t : T.Table) (call : Call) (node : Entry) : Prop where
  nodeId : nodeIdEqual node.node.nodeId call.nodeId = true
  address : ∀ h e, T.holds t h e → e.address = node.address → e = node

/-- The copy is the node as the callback leaves it. -/
structure Edited (call : Call) (node : Entry) (copy : Node) : Prop where
  status : (call.callback node.node).1 = good
  copy : copy = { node.node with toNodeMembers := (call.callback node.node).2 }

def PhaseOk (T : HashTable UInt32 Entry) (t : T.Table) (call : Call) : Phase → Prop
  | .start | .returned _ => True
  | .got node => Seen T t call node
  | .copied node copy => Seen T t call node ∧ copy = node.node
  | .edited node copy => Seen T t call node ∧ Edited call node copy
  | .found node copy oldEntry => Seen T t call node ∧ Edited call node copy ∧ oldEntry = node

theorem Seen.mono (h : Seen T t call node)
    (hnew : ∀ h e, T.holds t' h e → T.holds t h e ∨ e.address ≠ node.address) : Seen T t' call node where
  nodeId := h.nodeId
  address k e he haddress := by
    rcases hnew k e he with he | hne
    · exact h.address k e he haddress
    · exact absurd haddress hne

theorem PhaseOk.mono {phase : Phase} (h : PhaseOk T t call phase)
    (hnew : ∀ node, phase.inFlight = some node → ∀ h e, T.holds t' h e → T.holds t h e ∨ e.address ≠ node.address) :
    PhaseOk T t' call phase := by
  cases phase with
  | start | returned => trivial
  | got node => exact Seen.mono h (hnew node rfl)
  | copied node copy | edited node copy | found node copy oldEntry => exact ⟨h.1.mono (hnew node rfl), h.2⟩

theorem seen_get (hT : Lawful Entry.address T) (hw : Wf T t) (h : get T t call.nodeId = some node) :
    Seen T t call node := by
  obtain ⟨hheld, hcompare⟩ := hT.lookup_some _ _ _ _ h
  exact ⟨hcompare, fun _ e he haddress => hw.address he hheld haddress⟩

variable {ι : Type}

structure Inv (T : HashTable UInt32 Entry) (calls : ι → Call) (s₀ : AddressSpace) (s : State T ι) : Prop where
  wf : Wf T s.table
  phases : ∀ i, PhaseOk T s.table (calls i) (s.phase i)
  serialized : Serialized T calls s₀ s

theorem entry_injective {n n' : Node} (h : entry n = entry n') : n = n' := by
  have hid : n.nodeId = n'.nodeId := congrArg NodeStores.Node.nodeId h
  have hmembers : n.toNodeMembers = n'.toNodeMembers := congrArg NodeStores.Node.content h
  cases n
  cases n'
  cases hid
  cases hmembers
  rfl

theorem get_of_holds {s : AddressSpace} {h : UInt32} {e : Entry} {id : NodeId} (hr : Represents T t (toMap s))
    (he : T.holds t h e) (hid : nodeIdEqual e.node.nodeId id = true) : s.get id = some e.node := by
  obtain ⟨n, hn, hentry⟩ := Option.map_eq_some_iff.mp (hr.of_holds he hid)
  rw [hn, entry_injective hentry]

variable [DecidableEq ι] {calls : ι → Call} {s₀ : AddressSpace} {s : State T ι} {i : ι}

theorem inv_quiet {phase : Phase} {table : T.Table} (h : Inv T calls s₀ s) (hsame : SameEntries T s.table table)
    (hok : PhaseOk T table (calls i) phase) (hnot : s.phase i ≠ .returned good) (hnot' : phase ≠ .returned good) :
    Inv T calls s₀ ⟨table, Function.update s.phase i phase⟩ := by
  obtain ⟨order, s', hnodup, hmem, hserial, hr⟩ := h.serialized
  refine ⟨wf_same h.wf hsame, ?_, order, s', hnodup, ?_, hserial, represents_same hr hsame⟩
  · intro j
    by_cases hj : j = i
    · subst hj
      simpa using hok
    · have hphase := (h.phases j).mono (fun _ _ k e he => .inl ((hsame k e).mp he))
      simpa [Function.update_of_ne hj] using hphase
  · intro j
    rw [hmem j]
    by_cases hj : j = i
    · subst hj
      simp [hnot, hnot']
    · simp [Function.update_of_ne hj]

theorem inv_replaced {node : Entry} {copy : Node} {h : UInt32} {address : Nat} {table : T.Table}
    (hinv : Inv T calls s₀ s) (hphase : s.phase i = .found node copy node) (hallocates : Unused T s address)
    (hheld : T.holds s.table h node) (hedited : Edited (calls i) node copy)
    (hreplaced : Replaced Entry.address T s.table table node (hash copy.nodeId) ⟨address, copy⟩) :
    Inv T calls s₀ ⟨table, Function.update s.phase i (.returned good)⟩ := by
  obtain ⟨order, s', hnodup, hmem, hserial, hr⟩ := hinv.serialized
  have hseen : Seen T s.table (calls i) node := by
    have hok := hinv.phases i
    rw [hphase] at hok
    exact hok.1
  have hid : nodeIdEqual node.node.nodeId copy.nodeId = true := by
    rw [hedited.copy]
    exact nodeIdEqual_refl _
  have hget : s'.get (calls i).nodeId = some node.node := get_of_holds hr hheld hseen.nodeId
  have hedit : editNode s' (calls i).nodeId (calls i).callback =
      (good, s'.edit (calls i).nodeId (fun _ => ((calls i).callback node.node).2)) := by
    rw [editNode_some hget, hedited.status]
  have hr' : Represents T table (toMap (s'.edit (calls i).nodeId (fun _ => ((calls i).callback node.node).2))) := by
    rw [toMap_edit hget, ← hedited.copy]
    exact represents_replaced hinv.wf hr hheld hid hreplaced
  refine ⟨wf_replaced hinv.wf hheld hid hallocates.1 hreplaced, ?_, order ++ [i], _, ?_, ?_, .snoc hserial hedit, hr'⟩
  · intro j
    by_cases hj : j = i
    · subst hj
      simp [PhaseOk]
    · have hok : PhaseOk T table (calls j) (s.phase j) := (hinv.phases j).mono ?_
      · simpa [Function.update_of_ne hj] using hok
      · intro other hother k e he
        rcases (hreplaced k e).mp he with ⟨he, _⟩ | ⟨_, rfl⟩
        · exact .inl he
        · exact .inr (hallocates.2 j other hother).symm
  · have hnot : i ∉ order := by
      rw [hmem i, hphase]
      exact nofun
    exact List.nodup_append.mpr ⟨hnodup, List.nodup_singleton i, by
      rintro a ha b hb rfl
      exact hnot (List.mem_singleton.mp hb ▸ ha)⟩
  · intro j
    rw [List.mem_append, List.mem_singleton, hmem j]
    by_cases hj : j = i
    · subst hj
      simp
    · simp [hj]

theorem returned_ne {status : StatusCode} (h : status ≠ good) : Phase.returned status ≠ .returned good :=
  fun heq => h (Phase.returned.inj heq)

theorem inv_copied {node : Entry} {copy : Node} {address : Nat} (hinv : Inv T calls s₀ s)
    (hphase : s.phase i = .copied node copy) : Inv T calls s₀ (step T calls s i address) := by
  have hok := hinv.phases i
  have hnot : s.phase i ≠ .returned good := by rw [hphase]; exact nofun
  rw [hphase] at hok
  obtain ⟨hseen, rfl⟩ := hok
  rw [step, hphase, advance]
  dsimp only
  split
  · rename_i hbad
    exact inv_quiet hinv (fun _ _ => Iff.rfl) trivial hnot (returned_ne hbad)
  · rename_i hgood
    exact inv_quiet hinv (fun _ _ => Iff.rfl) ⟨hseen, not_not.mp hgood, rfl⟩ hnot nofun

theorem inv_edited (hT : Lawful Entry.address T) {node : Entry} {copy : Node} {address : Nat}
    (hinv : Inv T calls s₀ s) (hphase : s.phase i = .edited node copy) :
    Inv T calls s₀ (step T calls s i address) := by
  have hok := hinv.phases i
  have hnot : s.phase i ≠ .returned good := by rw [hphase]; exact nofun
  have hsame : SameEntries T s.table s.table := fun _ _ => Iff.rfl
  rw [hphase] at hok
  obtain ⟨hseen, hedited⟩ := hok
  rw [step, hphase, advance]
  cases hlookup : T.lookup s.table (hash copy.nodeId) (compare copy.nodeId) with
  | none => exact inv_quiet hinv hsame trivial hnot nofun
  | some oldEntry =>
      dsimp only
      split
      · exact inv_quiet hinv hsame trivial hnot nofun
      · rename_i haddress
        have hold := hT.lookup_some _ _ _ _ hlookup
        have heq : oldEntry = node := hseen.address _ _ hold.1 (not_not.mp haddress)
        exact inv_quiet hinv hsame ⟨hseen, hedited, heq⟩ hnot nofun

theorem inv_found (hT : Lawful Entry.address T) {node oldEntry : Entry} {copy : Node} {address : Nat}
    (hinv : Inv T calls s₀ s) (hphase : s.phase i = .found node copy oldEntry) (hallocates : Unused T s address) :
    Inv T calls s₀ (step T calls s i address) := by
  have hok := hinv.phases i
  have hnot : s.phase i ≠ .returned good := by rw [hphase]; exact nofun
  rw [hphase] at hok
  obtain ⟨hseen, hedited, rfl⟩ := hok
  rw [step, hphase, advance]
  by_cases hheld : ∃ h, T.holds s.table h oldEntry
  · obtain ⟨h, hheld⟩ := hheld
    have hhash : h = hash copy.nodeId := by
      rw [hinv.wf.hash hheld, hedited.copy]
    subst hhash
    obtain ⟨hdone, hreplaced⟩ := hT.replace_held s.table _ oldEntry ⟨address, copy⟩ hheld
    rw [hdone]
    exact inv_replaced hinv hphase hallocates hheld hedited hreplaced
  · have hgone : ∀ k e, T.holds s.table k e → e.address ≠ oldEntry.address := by
      intro k e he haddress
      exact hheld ⟨k, hseen.address k e he haddress ▸ he⟩
    obtain ⟨hfailed, hsame⟩ := hT.replace_gone s.table (hash copy.nodeId) oldEntry ⟨address, copy⟩ hgone
    rw [hfailed]
    exact inv_quiet hinv hsame trivial hnot nofun

theorem inv_step (hT : Lawful Entry.address T) {address : Nat} (hinv : Inv T calls s₀ s)
    (hallocates : Allocates T s i address) (hplain : CopiesPlainly T s i) :
    Inv T calls s₀ (step T calls s i address) := by
  have hok := hinv.phases i
  have hsame : SameEntries T s.table s.table := fun _ _ => Iff.rfl
  cases hphase : s.phase i with
  | start =>
      have hnot : s.phase i ≠ .returned good := by rw [hphase]; exact nofun
      rw [step, hphase, advance]
      cases hget : get T s.table (calls i).nodeId with
      | none => exact inv_quiet hinv hsame trivial hnot (returned_ne (by decide))
      | some node => exact inv_quiet hinv hsame (seen_get hT hinv.wf hget) hnot nofun
  | got node =>
      have hnot : s.phase i ≠ .returned good := by rw [hphase]; exact nofun
      rw [hphase] at hok
      have hcopy : copyAnyNodeClass node.node = node.node := (copyAnyNodeClass_eq_iff _).mpr (hplain node hphase)
      rw [step, hphase]
      exact inv_quiet hinv hsame ⟨hok, hcopy⟩ hnot nofun
  | copied node copy => exact inv_copied hinv hphase
  | edited node copy => exact inv_edited hT hinv hphase
  | found node copy oldEntry => exact inv_found hT hinv hphase (hallocates _ _ _ hphase)
  | returned status =>
      rw [step, hphase, advance, ← hphase, Function.update_eq_self]
      exact hinv

omit [DecidableEq ι] in
theorem inv_initial {t : T.Table} (hw : Wf T t) (hr : Represents T t (toMap s₀)) :
    Inv T calls s₀ (initial T t) where
  wf := hw
  phases _ := trivial
  serialized := ⟨[], s₀, List.nodup_nil, fun _ => iff_of_false List.not_mem_nil nofun, .nil s₀, hr⟩

theorem inv_run (hT : Lawful Entry.address T) (steps : List (ι × Nat)) (hinv : Inv T calls s₀ s)
    (halong : Along T calls (fun s i address => Allocates T s i address ∧ CopiesPlainly T s i) s steps) :
    Inv T calls s₀ (run T calls s steps) := by
  induction steps generalizing s with
  | nil => exact hinv
  | cons x steps ih =>
      obtain ⟨i, address⟩ := x
      obtain ⟨⟨hallocates, hplain⟩, hrest⟩ := halong
      exact ih (inv_step hT hinv hallocates hplain) hrest

end Invariant

/-- No update is lost: if every node is copied as it is, the table holds in
every state what the calls that have returned with success leave in some
order, each done once and in place. -/
theorem edits_serialized (T : HashTable UInt32 Entry) (hT : Lawful Entry.address T) {ι : Type} [DecidableEq ι]
    (calls : ι → Call) (t : T.Table) (s₀ : AddressSpace) (hw : Wf T t) (hr : Represents T t (toMap s₀))
    (steps : List (ι × Nat))
    (halong : Along T calls (fun s i address => Allocates T s i address ∧ CopiesPlainly T s i) (initial T t) steps) :
    Serialized T calls s₀ (run T calls (initial T t) steps) :=
  (inv_run hT steps (inv_initial hw hr) halong).serialized

section Samples

def tableOf (address : Nat) (n : Node) : L.Table := [(hash n.nodeId, ⟨address, n⟩)]

def spaceOf (n : Node) : AddressSpace := ⟨[n], by simp⟩

variable {address : Nat} {n : Node} {h : UInt32} {e : Entry}

theorem holds_tableOf : L.holds (tableOf address n) h e ↔ h = hash n.nodeId ∧ e = ⟨address, n⟩ :=
  List.mem_singleton.trans Prod.mk_inj

theorem wf_tableOf : Wf L (tableOf address n) where
  hash he := by
    obtain ⟨rfl, rfl⟩ := holds_tableOf.mp he
    rfl
  address he he' _ := (holds_tableOf.mp he).2.trans (holds_tableOf.mp he').2.symm
  nodeId he he' _ := (holds_tableOf.mp he).2.trans (holds_tableOf.mp he').2.symm

theorem represents_tableOf : Represents L (tableOf address n) (toMap (spaceOf n)) := by
  intro id m
  have hget : (spaceOf n).get id = if nodeIdEqual n.nodeId id then some n else none := by
    rw [AddressSpace.get, spaceOf, List.find?_cons]
    split <;> simp_all
  rw [toMap, hget]
  constructor
  · intro hm
    split at hm
    · rename_i hid
      cases hm
      exact ⟨_, _, holds_tableOf.mpr ⟨rfl, rfl⟩, rfl, hid⟩
    · cases hm
  · rintro ⟨h, e, he, rfl, hid⟩
    obtain ⟨rfl, rfl⟩ := holds_tableOf.mp he
    rw [if_pos (show nodeIdEqual n.nodeId id = true from hid)]
    rfl

theorem get_tableOf : get L (tableOf address n) n.nodeId = some ⟨address, n⟩ := by
  have hfind : matching (tableOf address n) (hash n.nodeId) (compare n.nodeId) = some ⟨address, n⟩ := by
    simp [matching, tableOf, ConcurrentStores.compare, nodeIdEqual_refl]
  exact hfind

theorem replace_tableOf {address' : Nat} {new : Node} :
    L.replace (tableOf address n) ⟨address, n⟩ (hash new.nodeId) ⟨address', new⟩ = (true, tableOf address' new) := by
  have hheld : held Entry.address (tableOf address n) ⟨address, n⟩ = true := by simp [held, tableOf]
  have hrest : without Entry.address (tableOf address n) ⟨address, n⟩ = [] := by simp [without, tableOf]
  refine (if_pos hheld).trans ?_
  rw [hrest]
  rfl

/-- One call on the list table, with the phase in which it is. -/
def lone (t : L.Table) (phase : Phase) : State L Unit := ⟨t, fun _ => phase⟩

def loneCall (call : Call) : Unit → Call := fun _ => call

theorem step_lone {call : Call} {t t' : L.Table} {phase phase' : Phase}
    (h : advance L call address t phase = (t', phase')) :
    step L (loneCall call) (lone t phase) () address = lone t' phase' := by
  have hstep : step L (loneCall call) (lone t phase) () address =
      ⟨(advance L call address t phase).1,
        Function.update (fun _ => phase) () (advance L call address t phase).2⟩ := rfl
  rw [hstep, h]
  exact congrArg (State.mk _) (funext fun _ => Function.update_self () _ _)

/-- Two calls on the list table. -/
def two (t : L.Table) (first second : Phase) : State L Bool := ⟨t, fun i => if i then first else second⟩

def twoCalls (first second : Call) : Bool → Call := fun i => if i then first else second

theorem step_first {first second : Call} {t t' : L.Table} {p p' q : Phase}
    (h : advance L first address t p = (t', p')) :
    step L (twoCalls first second) (two t p q) true address = two t' p' q := by
  have hstep : step L (twoCalls first second) (two t p q) true address =
      ⟨(advance L first address t p).1,
        Function.update (fun i => if i then p else q) true (advance L first address t p).2⟩ := rfl
  rw [hstep, h]
  refine congrArg (State.mk _) (funext fun i => ?_)
  cases i <;> rfl

theorem step_second {first second : Call} {t t' : L.Table} {p q q' : Phase}
    (h : advance L second address t q = (t', q')) :
    step L (twoCalls first second) (two t p q) false address = two t' p q' := by
  have hstep : step L (twoCalls first second) (two t p q) false address =
      ⟨(advance L second address t q).1,
        Function.update (fun i => if i then p else q) false (advance L second address t q).2⟩ := rfl
  rw [hstep, h]
  refine congrArg (State.mk _) (funext fun i => ?_)
  cases i <;> rfl

variable {callback : Node → StatusCode × NodeMembers} {new : Node} {later : Nat}

def loneResult (callback : Node → StatusCode × NodeMembers) (n : Node) : Node :=
  { copyAnyNodeClass n with toNodeMembers := (callback (copyAnyNodeClass n)).2 }

theorem advance_start {id : NodeId} (hid : id = n.nodeId) :
    advance L ⟨id, callback⟩ later (tableOf address n) .start = (tableOf address n, .got ⟨address, n⟩) := by
  rw [advance, hid, get_tableOf]

theorem advance_copied {t : L.Table} {call : Call} (hgood : (call.callback (copyAnyNodeClass n)).1 = good) :
    advance L call later t (.copied ⟨address, n⟩ (copyAnyNodeClass n)) =
      (t, .edited ⟨address, n⟩ (loneResult call.callback n)) := by
  rw [advance]
  exact if_neg (not_not.mpr hgood)

theorem advance_edited {call : Call} (hid : new.nodeId = n.nodeId) :
    advance L call later (tableOf address n) (.edited ⟨address, n⟩ new) =
      (tableOf address n, .found ⟨address, n⟩ new ⟨address, n⟩) := by
  have hlookup : L.lookup (tableOf address n) (hash n.nodeId) (ConcurrentStores.compare n.nodeId) =
      some ⟨address, n⟩ := get_tableOf
  rw [advance, hid, hlookup]
  exact if_neg (not_not.mpr rfl)

theorem advance_found {call : Call} :
    advance L call later (tableOf address n) (.found ⟨address, n⟩ new ⟨address, n⟩) =
      (tableOf later new, .returned good) := by
  rw [advance, replace_tableOf]
  rfl

/-- The entry was replaced since the lookup, so the call starts again. -/
theorem advance_lost {call : Call} {old : Entry} (hne : address ≠ old.address) :
    advance L call later (tableOf address n) (.found old new old) = (tableOf address n, .start) := by
  have hheld : held Entry.address (tableOf address n) old = false := by simpa [held, tableOf] using hne
  have hreplace : L.replace (tableOf address n) old (hash new.nodeId) ⟨later, new⟩ = (false, tableOf address n) :=
    if_neg (by rw [hheld]; exact Bool.false_ne_true)
  rw [advance, hreplace]
  rfl

/-- The five steps of one call, with the address of the new entry in the last
one. -/
def loneSteps : List (Unit × Nat) := [((), 0), ((), 0), ((), 0), ((), 0), ((), 2)]

theorem along_cons {ι : Type} [DecidableEq ι] {calls : ι → Call} {P : State L ι → ι → Nat → Prop}
    {s s' last : State L ι} {i : ι} {steps : List (ι × Nat)} (hop : P s i address)
    (hstep : step L calls s i address = s') (hrest : Along L calls P s' steps ∧ run L calls s' steps = last) :
    Along L calls P s ((i, address) :: steps) ∧ run L calls s ((i, address) :: steps) = last := by
  rw [Along, hstep]
  refine ⟨⟨hop, hrest.1⟩, ?_⟩
  have hrun : run L calls s ((i, address) :: steps) = run L calls (step L calls s i address) steps := rfl
  rw [hrun, hstep]
  exact hrest.2

/-- In such a phase, a call neither copies nor replaces. -/
def Idle : Phase → Prop
  | .got _ | .found _ _ _ => False
  | _ => True

theorem allocates_of_idle {ι : Type} {s : State L ι} {i : ι} (h : Idle (s.phase i)) : Allocates L s i address := by
  intro node copy oldEntry hfound
  rw [hfound] at h
  exact h.elim

theorem allocates_of_got {ι : Type} {s : State L ι} {i : ι} {node : Entry} (h : s.phase i = .got node) :
    Allocates L s i address := by
  intro node' copy oldEntry hfound
  rw [h] at hfound
  cases hfound

theorem unused_tableOf {ι : Type} {phase : ι → Phase} (hne : address ≠ later)
    (hphases : ∀ i e, (phase i).inFlight = some e → e.address ≠ later) :
    Unused L ⟨tableOf address n, phase⟩ later := by
  refine ⟨fun h e he => ?_, hphases⟩
  rw [(holds_tableOf.mp he).2]
  exact hne

theorem along_lone (hgood : (callback (copyAnyNodeClass n)).1 = good) :
    Along L (loneCall ⟨n.nodeId, callback⟩) (fun s i address => Allocates L s i address) (initial L (tableOf 1 n))
        loneSteps ∧
      run L (loneCall ⟨n.nodeId, callback⟩) (initial L (tableOf 1 n)) loneSteps =
        lone (tableOf 2 (loneResult callback n)) (.returned good) := by
  have hid : (loneResult callback n).nodeId = n.nodeId := copyAnyNodeClass_nodeId n
  have hunused : Unused L (lone (tableOf 1 n) (.found ⟨1, n⟩ (loneResult callback n) ⟨1, n⟩)) 2 :=
    unused_tableOf (by decide) (fun i e he => by
      cases he
      exact Nat.succ_ne_succ_iff.mpr Nat.zero_ne_one)
  refine along_cons (allocates_of_idle trivial) (step_lone (advance_start rfl)) ?_
  refine along_cons (allocates_of_got rfl) (step_lone rfl) ?_
  refine along_cons (allocates_of_idle trivial) (step_lone (advance_copied hgood)) ?_
  refine along_cons (allocates_of_idle trivial) (step_lone (advance_edited hid)) ?_
  exact along_cons (fun _ _ _ _ => hunused) (step_lone advance_found) ⟨trivial, rfl⟩

/-- The first call may be written, the second one by the user. -/
def writable : Call := ⟨numericId 1 1, fun n => (good, { n.toNodeMembers with writeMask := 1 })⟩

def userWritable : Call := ⟨numericId 1 1, fun n => (good, { n.toNodeMembers with userWriteMask := 1 })⟩

/-- Both calls work on the same version of the node. The first one replaces it,
so the second one fails to and does everything again. -/
def contendedSteps : List (Bool × Nat) :=
  [(true, 0), (false, 0), (true, 0), (false, 0), (true, 0), (false, 0), (true, 0), (false, 0), (true, 2), (false, 3),
    (false, 0), (false, 0), (false, 0), (false, 0), (false, 3)]

def writableNode : Node := loneResult writable.callback (sampleNode 1)

def bothWritable : Node := loneResult userWritable.callback writableNode

theorem meets_of_idle {ι : Type} {s : State L ι} {i : ι} (h : Idle (s.phase i)) :
    Allocates L s i address ∧ CopiesPlainly L s i := by
  refine ⟨allocates_of_idle h, fun node hgot => ?_⟩
  rw [hgot] at h
  exact h.elim

theorem meets_of_got {ι : Type} {s : State L ι} {i : ι} {node : Entry} (h : s.phase i = .got node)
    (hplain : plainBody node.node.body = true) : Allocates L s i address ∧ CopiesPlainly L s i := by
  refine ⟨allocates_of_got h, fun node' hgot => ?_⟩
  rw [h] at hgot
  cases hgot
  exact hplain

theorem meets_of_found {ι : Type} {s : State L ι} {i : ι} {node oldEntry : Entry} {copy : Node}
    (h : s.phase i = .found node copy oldEntry) (hunused : Unused L s address) :
    Allocates L s i address ∧ CopiesPlainly L s i := by
  refine ⟨fun _ _ _ _ => hunused, fun node' hgot => ?_⟩
  rw [h] at hgot
  cases hgot

theorem contended :
    Along L (twoCalls writable userWritable) (fun s i address => Allocates L s i address ∧ CopiesPlainly L s i)
        (initial L (tableOf 1 (sampleNode 1))) contendedSteps ∧
      run L (twoCalls writable userWritable) (initial L (tableOf 1 (sampleNode 1))) contendedSteps =
        two (tableOf 3 bothWritable) (.returned good) (.returned good) := by
  let old : Entry := ⟨1, sampleNode 1⟩
  let new : Entry := ⟨2, writableNode⟩
  let lost := loneResult userWritable.callback (sampleNode 1)
  have hstart : initial L (tableOf 1 (sampleNode 1)) = two (tableOf 1 (sampleNode 1)) .start .start :=
    congrArg (State.mk _) (funext fun i => by cases i <;> rfl)
  have hfirst : Unused L (two (tableOf 1 (sampleNode 1)) (.found old writableNode old) (.found old lost old)) 2 :=
    unused_tableOf (by decide) (by
      intro i e he
      cases i <;> cases he <;> exact Nat.succ_ne_succ_iff.mpr Nat.zero_ne_one)
  have hlost : Unused L (two (tableOf 2 writableNode) (.returned good) (.found old lost old)) 3 :=
    unused_tableOf (by decide) (by
      intro i e he
      cases i <;> cases he
      exact (by decide : (1 : Nat) ≠ 3))
  have hagain : Unused L (two (tableOf 2 writableNode) (.returned good) (.found new bothWritable new)) 3 :=
    unused_tableOf (by decide) (by
      intro i e he
      cases i <;> cases he
      exact (by decide : (2 : Nat) ≠ 3))
  rw [hstart]
  refine along_cons (meets_of_idle trivial) (step_first (advance_start rfl)) ?_
  refine along_cons (meets_of_idle trivial) (step_second (advance_start rfl)) ?_
  refine along_cons (meets_of_got rfl rfl) (step_first rfl) ?_
  refine along_cons (meets_of_got rfl rfl) (step_second rfl) ?_
  refine along_cons (meets_of_idle trivial) (step_first (advance_copied rfl)) ?_
  refine along_cons (meets_of_idle trivial) (step_second (advance_copied rfl)) ?_
  refine along_cons (meets_of_idle trivial) (step_first (advance_edited rfl)) ?_
  refine along_cons (meets_of_idle trivial) (step_second (advance_edited rfl)) ?_
  refine along_cons (meets_of_found rfl hfirst) (step_first advance_found) ?_
  -- the entry that the second call has looked up is gone
  refine along_cons (meets_of_found rfl hlost) (step_second (advance_lost (by decide))) ?_
  refine along_cons (meets_of_idle trivial) (step_second (advance_start rfl)) ?_
  refine along_cons (meets_of_got rfl rfl) (step_second rfl) ?_
  refine along_cons (meets_of_idle trivial) (step_second (advance_copied rfl)) ?_
  refine along_cons (meets_of_idle trivial) (step_second (advance_edited rfl)) ?_
  exact along_cons (meets_of_found rfl hagain) (step_second advance_found) ⟨trivial, rfl⟩

theorem edits_serialized_contended :
    let s := run L (twoCalls writable userWritable) (initial L (tableOf 1 (sampleNode 1))) contendedSteps
    s = two (tableOf 3 bothWritable) (.returned good) (.returned good) ∧ bothWritable.writeMask = 1 ∧
      bothWritable.userWriteMask = 1 ∧ Serialized L (twoCalls writable userWritable) (spaceOf (sampleNode 1)) s :=
  ⟨contended.2, rfl, rfl,
    edits_serialized L lawful_listTable (twoCalls writable userWritable) (tableOf 1 (sampleNode 1))
      (spaceOf (sampleNode 1)) wf_tableOf represents_tableOf contendedSteps contended.1⟩

def idleCall : Call := ⟨numericId 1 1, fun n => (good, n.toNodeMembers)⟩

theorem serial_idle {s s' : AddressSpace} {order : List Unit} (h : Serial (loneCall idleCall) s order s') : s' = s := by
  induction h with
  | nil => rfl
  | @snoc s' s'' order i _ hedit ih =>
      have hedit : editNode s' (numericId 1 1) (fun n => (good, n.toNodeMembers)) = (good, s'') := hedit
      cases hn : s'.get (numericId 1 1) with
      | none =>
          rw [editNode_none hn] at hedit
          cases hedit
      | some n =>
          rw [editNode_some hn, edit_self hn] at hedit
          exact (Prod.mk.inj hedit).2.symm.trans ih

/-- A call on a variable that its user must not write changes nothing, and yet
the user may write it afterwards. -/
theorem edit_unserialized :
    Wf L (tableOf 1 sampleVariable) ∧ Represents L (tableOf 1 sampleVariable) (toMap (spaceOf sampleVariable)) ∧
      Along L (loneCall idleCall) (fun s i address => Allocates L s i address) (initial L (tableOf 1 sampleVariable))
        loneSteps ∧
      ¬ Serialized L (loneCall idleCall) (spaceOf sampleVariable)
        (run L (loneCall idleCall) (initial L (tableOf 1 sampleVariable)) loneSteps) := by
  refine ⟨wf_tableOf, represents_tableOf, ?_, ?_⟩
  · exact (along_lone (n := sampleVariable) rfl).1
  · have hrun : run L (loneCall idleCall) (initial L (tableOf 1 sampleVariable)) loneSteps =
        lone (tableOf 2 (loneResult idleCall.callback sampleVariable)) (.returned good) :=
      (along_lone (n := sampleVariable) rfl).2
    rw [hrun]
    rintro ⟨order, s', _, _, hserial, hr⟩
    cases serial_idle hserial
    have hheld : L.holds (tableOf 2 (loneResult idleCall.callback sampleVariable)) _ _ := holds_tableOf.mpr ⟨rfl, rfl⟩
    have hget : (spaceOf sampleVariable).get (numericId 1 1) = some (loneResult idleCall.callback sampleVariable) :=
      get_of_holds hr hheld rfl
    have hbody : sampleVariable.body = (loneResult idleCall.callback sampleVariable).body :=
      congrArg (fun n : Node => n.body) (Option.some.inj hget)
    cases hbody

end Samples

end OpcUa.ConcurrentEdits
