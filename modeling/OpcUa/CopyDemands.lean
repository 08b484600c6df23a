import OpcUa.InstantiationEnds
import OpcUa.TableRoom
import OpcUa.TypeContainment

namespace OpcUa.CopyDemands

open NodeIds AddressSpaces Browsing NodeManagement NodeCreation MirroredReferences NodeAdditions Instantiations
open TypeContainment StatusCodes DataTypes References SubTypes StoreTables AddedNodes TableRoom
open NodeStores (NodeClass)
open NodePointers (Access Pointer World)

section Demands

/-- How many copies something makes, and whether it comes to its end. -/
structure Demand where
  copies : Nat
  ends : Bool
deriving DecidableEq

def Demand.andThen (d e : Demand) : Demand := if d.ends then ⟨d.copies + e.copies, e.ends⟩ else d

def Demand.each {α : Type} (f : α → Demand) : List α → Demand
  | [] => ⟨0, true⟩
  | a :: l => (f a).andThen (each f l)

/-- The second demand is that of the same thing with more fuel. -/
structure Grows (d e : Demand) : Prop where
  copies : d.copies ≤ e.copies
  ends : d.ends = true → e = d

variable {α : Type} {d d' e e' : Demand} {f g : α → Demand}

theorem andThen_ended (h : d.ends = true) (e : Demand) : d.andThen e = ⟨d.copies + e.copies, e.ends⟩ := if_pos h

theorem andThen_endless (h : d.ends = false) (e : Demand) : d.andThen e = d := by
  rw [Demand.andThen, h, if_neg Bool.false_ne_true]

theorem nothing_andThen (e : Demand) : (⟨0, true⟩ : Demand).andThen e = e := by
  rw [andThen_ended rfl, Nat.zero_add]

theorem andThen_nothing (d : Demand) : d.andThen ⟨0, true⟩ = d := by
  cases hends : d.ends with
  | false => exact andThen_endless hends _
  | true => rw [andThen_ended hends, Nat.add_zero, ← hends]

theorem le_andThen (d e : Demand) : d.copies ≤ (d.andThen e).copies := by
  cases hends : d.ends with
  | false => rw [andThen_endless hends]
  | true =>
      rw [andThen_ended hends]
      exact Nat.le_add_right _ _

theorem Grows.refl (d : Demand) : Grows d d := ⟨Nat.le_refl _, fun _ => rfl⟩

theorem Grows.andThen (h : Grows d d') (h' : Grows e e') : Grows (d.andThen e) (d'.andThen e') := by
  cases hends : d.ends with
  | false =>
      rw [andThen_endless hends]
      refine ⟨h.copies.trans (le_andThen d' e'), fun hd => ?_⟩
      rw [hends] at hd
      cases hd
  | true =>
      rw [h.ends hends, andThen_ended hends, andThen_ended hends]
      refine ⟨Nat.add_le_add_left h'.copies _, fun he => ?_⟩
      have hsame : e' = e := h'.ends he
      rw [hsame]

theorem Grows.each (h : ∀ a, Grows (f a) (g a)) (l : List α) : Grows (Demand.each f l) (Demand.each g l) := by
  induction l with
  | nil => exact .refl _
  | cons a l ih => exact (h a).andThen ih

end Demands

section Types

def isConcreteType (type : Node) : Bool :=
  match type.body with
  | .referenceType isAbstract _ _ => !(isAbstract == 1)
  | _ => false

def isConcrete (s : AddressSpace) (referenceTypeId : NodeId) : Bool := (s.get referenceTypeId).any isConcreteType

/-- The class of the types that a node with this class can have. -/
def typesOf (nodeClass : UInt32) : Option NodeClass :=
  if nodeClass = nodeClassValue .variable then some .variableType
  else if nodeClass = nodeClassValue .object then some .objectType
  else none

variable (host : Host) (s : AddressSpace)

/-- A copy can be inserted below a node that is stored itself. -/
def isInserted (stored : Bool) (rd : ReferenceDescription) : Bool :=
  stored && decide (0 < host.namespacesSize) && isConcrete s rd.referenceTypeId

def copyDemand (below : Bool → NodeId → Demand) (stored : Bool) (rd : ReferenceDescription) : Demand :=
  Demand.andThen ⟨(isInserted host s stored rd).toNat, true⟩
    (Demand.each (fun r => below (isInserted host s stored rd) r.targetId.nodeId)
      ((refsAt s rd.nodeId.nodeId).filter definesType))

def childDemand (below : NodeClass → Bool → NodeId → Demand) (stored : Bool) (rd : ReferenceDescription) : Demand :=
  match typesOf rd.nodeClass with
  | none => ⟨0, true⟩
  | some c => copyDemand host s (below c) stored rd

/-- The copies that a type asks for, one for each object and variable among its
first hundred children and those that the types of these ask for in turn.
Nothing can be copied below a node that is not stored. -/
def demand (passes : Nat) : Nat → NodeClass → Bool → NodeId → Demand
  | 0, c, _, typeId => ⟨0, !(classAt s typeId == some c)⟩
  | depth + 1, c, stored, typeId =>
      if classAt s typeId ≠ some c then ⟨0, true⟩
      else
        match relevantTypes passes s (typeBrowse s typeId) with
        | none => ⟨0, false⟩
        | some outcome =>
            Demand.each (childDemand host s (demand passes depth) stored)
              ((found s (typeBrowse s typeId) outcome).take 100)

variable {host s} {a b : NodeId}

theorem isConcrete_iff : isConcrete s a = true ↔ Concrete s a := by
  rw [isConcrete, Concrete]
  cases hget : s.get a with
  | none => simp
  | some type => cases hbody : type.body <;> simp [isConcreteType, hbody]

theorem grows_childDemand {below below' : NodeClass → Bool → NodeId → Demand}
    (h : ∀ c stored typeId, Grows (below c stored typeId) (below' c stored typeId)) (stored : Bool)
    (rd : ReferenceDescription) : Grows (childDemand host s below stored rd) (childDemand host s below' stored rd) := by
  rw [childDemand, childDemand]
  cases typesOf rd.nodeClass with
  | none => exact .refl _
  | some c => exact (Grows.refl _).andThen (Grows.each (fun r => h c _ _) _)

theorem grows_demand (passes more depth : Nat) (c : NodeClass) (stored : Bool) (typeId : NodeId) :
    Grows (demand host s passes depth c stored typeId) (demand host s (passes + more) depth c stored typeId) := by
  induction depth generalizing c stored typeId with
  | zero => exact .refl _
  | succ depth ih =>
      rw [demand, demand]
      split
      · exact .refl _
      · cases htypes : relevantTypes passes s (typeBrowse s typeId) with
        | none => exact ⟨Nat.zero_le _, nofun⟩
        | some outcome =>
            rw [relevantTypes_mono htypes more]
            exact Grows.each (grows_childDemand ih stored) _

end Types

section Runs

variable {host : Host} {memory : Nat → Bool} {base : State} {w w' w'' : World} {d e : Demand} {o : Access World}
  {Good Good' : World → Prop} {id a : NodeId} {copies copies' : Nat}

section Following

/-- Copies have been made, and the entries of the store are where they were. -/
structure After (host : Host) (memory : Nat → Bool) (w : World) (copies : Nat) (w' : World) : Prop where
  block : w'.table.block = w.table.block
  stored : ∀ a, Stored w.state.space a → Stored w'.state.space a
  room : ∀ more, room host memory w' more = room host memory w (copies + more)

/-- An operation meets its demand if there is room for it, and reads a node
that is gone if there is not. -/
inductive Follows (host : Host) (memory : Nat → Bool) (Good : World → Prop) (w : World) (d : Demand) :
    Access World → Prop
  | dangling (hroom : room host memory w d.copies = false) : Follows host memory Good w d .dangling
  | endless (hroom : room host memory w d.copies = true) (hends : d.ends = false) :
    Follows host memory Good w d .endless
  | done {w' : World} (hroom : room host memory w d.copies = true) (hends : d.ends = true)
      (hafter : After host memory w d.copies w') (hgood : Good w') : Follows host memory Good w d (.done w')

/-- With enough fuel, the outcome does not depend on it any more. -/
def Settles (host : Host) (memory : Nat → Bool) (Good : World → Prop) (w : World) (d : Nat → Demand)
    (o : Nat → Access World) : Prop :=
  ∃ outcome enough, ∀ passes ≥ enough, o passes = outcome ∧ Follows host memory Good w (d passes) outcome

theorem After.refl (w : World) : After host memory w 0 w :=
  ⟨rfl, fun _ h => h, fun more => by rw [Nat.zero_add]⟩

theorem After.trans (h : After host memory w copies w') (h' : After host memory w' copies' w'') :
    After host memory w (copies + copies') w'' where
  block := h'.block.trans h.block
  stored a ha := h'.stored a (h.stored a ha)
  room more := by rw [h'.room, h.room, Nat.add_assoc]

theorem after_of_same (htable : w'.table = w.table) (hinserts : w'.state.inserts = w.state.inserts)
    (hstored : ∀ a, Stored w'.state.space a ↔ Stored w.state.space a) : After host memory w 0 w' where
  block := congrArg Table.block htable
  stored a := (hstored a).mpr
  room more := by rw [Nat.zero_add, room_congr htable hinserts hstored]

theorem after_of_room (hroom : ∀ copies, room host memory w copies = true) (h : After host memory w copies w')
    (copies' : Nat) : After host memory w copies' w' where
  block := h.block
  stored := h.stored
  room more := by rw [h.room, hroom, hroom]

theorem follows_nothing (h : After host memory w 0 w') (hgood : Good w') :
    Follows host memory Good w ⟨0, true⟩ (.done w') := .done rfl rfl h hgood

theorem Follows.bind {f : World → Access World} (h : Follows host memory Good w d o)
    (hf : ∀ w', o = .done w' → After host memory w d.copies w' → Good w' → Follows host memory Good' w' e (f w')) :
    Follows host memory Good' w (d.andThen e) (o.bind f) := by
  cases h with
  | dangling hroom =>
      refine .dangling ?_
      rw [← Bool.not_eq_true] at hroom ⊢
      exact fun hmore => hroom (room_mono (le_andThen d e) hmore)
  | endless hroom hends =>
      rw [andThen_endless hends]
      exact .endless hroom hends
  | @done w' hroom hends hafter hgood =>
      rw [andThen_ended hends, Access.done_bind]
      have hnext := hf w' rfl hafter hgood
      revert hnext
      generalize f w' = outcome
      rintro (hnext | ⟨hnext, hends'⟩ | ⟨hnext, hends', hafter', hgood'⟩)
      · exact .dangling (by rw [← hafter.room, hnext])
      · exact .endless (by rw [← hafter.room, hnext]) hends'
      · exact .done (by rw [← hafter.room, hnext]) hends' (hafter.trans hafter') hgood'

theorem Settles.bind {d e : Nat → Demand} {o : Nat → Access World} {f : Nat → World → Access World}
    (h : Settles host memory Good w d o)
    (hf : ∀ w' copies, After host memory w copies w' → Good w' → Settles host memory Good' w' e (fun p => f p w')) :
    Settles host memory Good' w (fun p => (d p).andThen (e p)) (fun p => (o p).bind (f p)) := by
  obtain ⟨outcome, enough, houtcome⟩ := h
  cases outcome with
  | dangling =>
      refine ⟨.dangling, enough, fun p hp => ?_⟩
      obtain ⟨hrun, hfollows⟩ := houtcome p hp
      have hbind : Follows host memory Good' w ((d p).andThen (e p)) (Access.dangling.bind (f p)) :=
        hfollows.bind (fun _ hdone => nomatch hdone)
      exact ⟨congrArg (Access.bind · (f p)) hrun, hbind⟩
  | endless =>
      refine ⟨.endless, enough, fun p hp => ?_⟩
      obtain ⟨hrun, hfollows⟩ := houtcome p hp
      have hbind : Follows host memory Good' w ((d p).andThen (e p)) (Access.endless.bind (f p)) :=
        hfollows.bind (fun _ hdone => nomatch hdone)
      exact ⟨congrArg (Access.bind · (f p)) hrun, hbind⟩
  | done w' =>
      obtain ⟨_, hfirst⟩ := houtcome enough (Nat.le_refl enough)
      obtain ⟨outcome, enough', hrest⟩ : Settles host memory Good' w' e (fun p => f p w') := by
        cases hfirst with
        | done _ _ hafter hgood => exact hf w' _ hafter hgood
      refine ⟨outcome, max enough enough', fun p hp => ?_⟩
      obtain ⟨hrun, hfollows⟩ := houtcome p ((Nat.le_max_left _ _).trans hp)
      obtain ⟨hrun', hfollows'⟩ : f p w' = outcome ∧ _ := hrest p ((Nat.le_max_right _ _).trans hp)
      have hbind : Follows host memory Good' w ((d p).andThen (e p)) ((Access.done w').bind (f p)) := by
        refine hfollows.bind (fun w'' heq _ _ => ?_)
        cases heq
        rw [hrun']
        exact hfollows'
      rw [Access.done_bind, hrun'] at hbind
      refine ⟨?_, hbind⟩
      dsimp only
      rw [hrun, Access.done_bind, hrun']

theorem Settles.imp {Good Good' : World → Prop} {d : Nat → Demand} {o : Nat → Access World}
    (h : Settles host memory Good w d o) (hgood : ∀ w' copies, After host memory w copies w' → Good w' → Good' w') :
    Settles host memory Good' w d o := by
  obtain ⟨outcome, enough, houtcome⟩ := h
  refine ⟨outcome, enough, fun p hp => ⟨(houtcome p hp).1, ?_⟩⟩
  cases (houtcome p hp).2 with
  | dangling hroom => exact .dangling hroom
  | endless hroom hends => exact .endless hroom hends
  | done hroom hends hafter h' => exact .done hroom hends hafter (hgood _ _ hafter h')

theorem Settles.forget (Good : World → Prop) {d : Nat → Demand} {o : Nat → Access World}
    (h : Settles host memory Good w d o) : Settles host memory (fun _ => True) w d o := h.imp (fun _ _ _ _ => trivial)

theorem Settles.congr {d d' : Nat → Demand} {o o' : Nat → Access World}
    (h : Settles host memory Good w d o) (enough : Nat)
    (hd : ∀ p ≥ enough, d' p = d p) (ho : ∀ p ≥ enough, o' p = o p) : Settles host memory Good w d' o' := by
  obtain ⟨outcome, enough', houtcome⟩ := h
  refine ⟨outcome, max enough enough', fun p hp => ?_⟩
  rw [hd p ((Nat.le_max_left _ _).trans hp), ho p ((Nat.le_max_left _ _).trans hp)]
  exact houtcome p ((Nat.le_max_right _ _).trans hp)

theorem settles_done {d : Nat → Demand} {o : Nat → Access World} (hd : ∀ p, d p = ⟨0, true⟩) (ho : ∀ p, o p = .done w')
    (h : After host memory w 0 w') (hgood : Good w') : Settles host memory Good w d o := by
  refine ⟨.done w', 0, fun p _ => ⟨ho p, ?_⟩⟩
  rw [hd]
  exact follows_nothing h hgood

theorem Settles.after {e : Nat → Demand} {o : Nat → Access World} (h : Settles host memory Good w' e o)
    (hroom : room host memory w copies = true) (hafter : After host memory w copies w') :
    Settles host memory Good w (fun p => (⟨copies, true⟩ : Demand).andThen (e p)) o := by
  have hmade : Settles host memory (· = w') w (fun _ => ⟨copies, true⟩) (fun _ => .done w') :=
    ⟨.done w', 0, fun _ _ => ⟨rfl, .done hroom rfl hafter rfl⟩⟩
  refine hmade.bind (f := fun p _ => o p) (fun w'' _ _ hw'' => ?_)
  rw [hw'']
  exact h

theorem Settles.of_room {e : Nat → Demand} {o : Nat → Access World} (h : Settles host memory Good w e o)
    (hroom : ∀ copies, room host memory w copies = true) (copies : Nat) :
    Settles host memory Good w (fun p => (⟨copies, true⟩ : Demand).andThen (e p)) o := by
  have hafter : After host memory w copies w := after_of_room hroom (.refl w) copies
  exact h.after (hroom copies) hafter

theorem settles_foldlM {α : Type} {l : List α} {d : Nat → α → Demand} {f : Nat → World → α → Access World}
    (h : ∀ a ∈ l, ∀ w, Good w → Settles host memory Good w (fun p => d p a) (fun p => f p w a)) (hw : Good w) :
    Settles host memory Good w (fun p => Demand.each (d p) l) (fun p => l.foldlM (f p) w) := by
  induction l generalizing w with
  | nil => exact settles_done (fun _ => rfl) (fun _ => rfl) (.refl w) hw
  | cons a l ih =>
      have hfirst := h a List.mem_cons_self w hw
      exact hfirst.bind (fun w' _ _ hw' => ih (fun b hb => h b (List.mem_cons_of_mem a hb)) hw')

end Following

end Runs

end OpcUa.CopyDemands
