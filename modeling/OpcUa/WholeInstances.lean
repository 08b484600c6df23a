import OpcUa.CyclicTypes
import OpcUa.InstanceRuns

namespace OpcUa.WholeInstances

open StatusCodes NodeIds DataTypes AddressSpaces References SubTypes Browsing NodeManagement NodeCreation
  MirroredReferences AddedNodes NodeAdditions FailedNodes Instantiations TypeContainment InstantiationLoops
  InstantiationEnds CyclicTypes InstanceRuns Relation
open NodeStores (NodeClass)

variable {host : Host} {base st st' mid last done : State} {s s' types : AddressSpace} {id a a' b typeId : NodeId}
  {c : NodeClass} {rd : ReferenceDescription} {jobs jobs' : List Job} {links links' : List ReferenceNode}
    {copies : List NodeId} {m n : Nat}

section Frames

/-- What a run adds to a state: nodes with ids that the store has chosen, and
links at one of the nodes that were there. -/
structure Framed (host : Host) (types : AddressSpace) (st st' : State) (a : NodeId) (links : List ReferenceNode) :
    Prop where
  inserts : st.inserts ≤ st'.inserts
  stored : ∀ b, Stored st'.space b ↔ Stored st.space b ∨
    ∃ i, st.inserts ≤ i ∧ i < st'.inserts ∧ nodeIdEqual (chosenId host i) b = true
  shared : ∀ b, Stored st.space b → sharedAt st'.space b = sharedAt st.space b
  links : ∀ b, Stored st.space b → linksAt types st'.space b =
    linksAt types st.space b ++ if nodeIdEqual a b then links else []

theorem not_equal_of_stored (ha : ¬ Stored s a) (hb : Stored s b) : nodeIdEqual a b = false := by
  rw [← Bool.not_eq_true]
  exact fun hsame => ha ((stored_congr hsame).mpr hb)

theorem apart_of_new (ha : Stored s a) (hb : ¬ Stored s b) : nodeIdEqual a b = false := by
  rw [nodeIdEqual_comm]
  exact not_equal_of_stored hb ha

theorem chosenId_ne_null (host : Host) (i : Nat) : nodeIdEqual (chosenId host i) nullId = false := by
  rw [← Bool.not_eq_true]
  intro hsame
  cases ((nodeIdEqual_iff _ _).mp hsame).1

theorem Framed.old (h : Framed host types st st' a links) (hb : Stored st.space b) : Stored st'.space b :=
  (h.stored b).mpr (.inl hb)

theorem Framed.null (h : Framed host types st st' a links) (hnull : ¬ Stored st.space nullId) :
    ¬ Stored st'.space nullId := by
  rw [h.stored]
  rintro (hold | ⟨i, _, _, hi⟩)
  · exact hnull hold
  · rw [chosenId_ne_null] at hi
    cases hi

theorem Framed.refl (st : State) (a : NodeId) : Framed host types st st a [] where
  inserts := Nat.le_refl _
  stored b := (or_iff_left (by rintro ⟨i, hle, hlt, _⟩; omega)).symm
  shared _ _ := rfl
  links b _ := by rw [ite_self, List.append_nil]

theorem stored_trans (h : Framed host types st mid a links) (h' : Framed host types mid st' a' links') (b : NodeId) :
    Stored st'.space b ↔ Stored st.space b ∨
      ∃ i, st.inserts ≤ i ∧ i < st'.inserts ∧ nodeIdEqual (chosenId host i) b = true := by
  have hle := h.inserts
  have hle' := h'.inserts
  rw [h'.stored, h.stored, or_assoc]
  refine or_congr_right ⟨?_, ?_⟩
  · rintro (⟨i, hi, hlt, hid⟩ | ⟨i, hi, hlt, hid⟩)
    · exact ⟨i, hi, Nat.lt_of_lt_of_le hlt hle', hid⟩
    · exact ⟨i, hle.trans hi, hlt, hid⟩
  · rintro ⟨i, hi, hlt, hid⟩
    rcases Nat.lt_or_ge i mid.inserts with hfirst | hsecond
    · exact .inl ⟨i, hi, hfirst, hid⟩
    · exact .inr ⟨i, hsecond, hlt, hid⟩

theorem Framed.trans (h : Framed host types st mid a links) (h' : Framed host types mid st' a links') :
    Framed host types st st' a (links ++ links') where
  inserts := h.inserts.trans h'.inserts
  stored := stored_trans h h'
  shared b hb := (h'.shared b (h.old hb)).trans (h.shared b hb)
  links b hb := by
    rw [h'.links b (h.old hb), h.links b hb, List.append_assoc]
    split <;> rfl

theorem Framed.beyond (h : Framed host types st mid a links) (h' : Framed host types mid st' a' links')
    (ha' : ¬ Stored st.space a') : Framed host types st st' a links where
  inserts := h.inserts.trans h'.inserts
  stored := stored_trans h h'
  shared b hb := (h'.shared b (h.old hb)).trans (h.shared b hb)
  links b hb := by
    rw [h'.links b (h.old hb), h.links b hb, not_equal_of_stored ha' hb, if_neg Bool.false_ne_true, List.append_nil]

theorem framed_of_same (hinserts : st'.inserts = st.inserts) (hstored : ∀ b, Stored st'.space b ↔ Stored st.space b)
    (hshared : ∀ b, sharedAt st'.space b = sharedAt st.space b)
    (hlinks : ∀ b, linksAt types st'.space b = linksAt types st.space b ++ if nodeIdEqual a b then links else []) :
    Framed host types st st' a links where
  inserts := Nat.le_of_eq hinserts.symm
  stored b := by
    rw [hstored, or_iff_left]
    rintro ⟨i, hle, hlt, _⟩
    omega
  shared b _ := hshared b
  links b _ := hlinks b

theorem framed_of_linked (h : Linked types st st' a links) : Framed host types st st' a links :=
  framed_of_same h.inserts h.stored h.shared h.links

theorem framed_of_browsed {children : Nat} (h : Browsed st st' children) (a : NodeId) :
    Framed host types st st' a [] := by
  refine framed_of_same h.inserts (fun b => ?_) (fun b => ?_) (fun b => ?_)
  · rw [h.space]
  · rw [h.space]
  · rw [h.space, ite_self, List.append_nil]

theorem framed_of_copied (h : Copied host base st st' a rd) :
    Framed host base.space st st' a [childReference rd.referenceTypeId (chosenId host st.inserts)] where
  inserts := by
    rw [h.inserts]
    exact Nat.le_succ _
  stored b := by
    rw [h.stored, or_comm, h.inserts]
    refine or_congr_right ⟨fun hid => ⟨st.inserts, Nat.le_refl _, Nat.lt_succ_self _, hid⟩, ?_⟩
    rintro ⟨i, hle, hlt, hid⟩
    obtain rfl : i = st.inserts := Nat.le_antisymm (Nat.le_of_lt_succ hlt) hle
    exact hid
  shared := h.shared
  links b _ := h.links b

theorem framed_of_ran (h : Ran host base jobs a st st' links) (hnull : ¬ Stored st.space nullId) :
    Framed host base.space st st' a links := by
  induction h with
  | nil => exact .refl _ _
  | method _ _ hlinked _ ih =>
      have hfirst : Framed host _ _ _ _ _ := framed_of_linked hlinked
      exact hfirst.trans (ih (hfirst.null hnull))
  | copied _ hcopied _ _ ihtyped ih =>
      have hfirst := framed_of_copied hcopied
      have hcopy := hfirst.beyond (ihtyped (hfirst.null hnull)) hcopied.free
      exact hcopy.trans (ih (hcopy.null hnull))
  | @refused _ _ _ a st _ _ _ _ _ _ _ _ ihtyped ih =>
      have hnothing : Framed host base.space st st a [] := .refl st a
      have hfirst := hnothing.beyond (ihtyped hnull) hnull
      exact hfirst.trans (ih (hfirst.null hnull))
  | other _ _ ih => exact ih hnull
  | @typed _ _ a _ _ _ _ _ _ _ _ _ _ _ _ hbrowsed _ hlinked _ ihchildren ih =>
      have hbrowse : Framed host base.space _ _ a [] := framed_of_browsed hbrowsed a
      have hchildren := hbrowse.trans (ihchildren (hbrowse.null hnull))
      have hdone := hchildren.trans (framed_of_linked hlinked)
      have hall := hdone.trans (ih (hdone.null hnull))
      rw [List.nil_append, List.append_nil] at hall
      exact hall

theorem stored_copied (h : Copied host base st mid a rd) : Stored mid.space (chosenId host st.inserts) :=
  (h.stored _).mpr (.inl (nodeIdEqual_refl _))

theorem linksAt_copied (h : Copied host base st mid a rd) (hnull : ¬ Stored mid.space nullId)
    (hrun : Ran host base jobs (chosenId host st.inserts) mid st' links) :
    linksAt base.space st'.space (chosenId host st.inserts) = links := by
  have hnone : linksAt base.space st.space (chosenId host st.inserts) = [] := by
    rw [linksAt, refsAt, not_stored_iff.mp h.free]
    rfl
  rw [(framed_of_ran hrun hnull).links _ (stored_copied h), h.links, hnone, apart_of_new h.parent h.free,
    if_neg Bool.false_ne_true, if_pos (nodeIdEqual_refl _)]
  rfl

theorem framed_of_child (h : Copied host base st mid a rd) (hnull : ¬ Stored st.space nullId)
    (htyped : Ran host base jobs (chosenId host st.inserts) mid last links) :
    Framed host base.space st last a [childReference rd.referenceTypeId (chosenId host st.inserts)] :=
  (framed_of_copied h).beyond (framed_of_ran htyped ((framed_of_copied h).null hnull)) h.free

/-- The rest of a run leaves a copy as it is: what was copied, with the links
that its own types ask for. -/
theorem copy_kept (h : Copied host base st mid a rd) (hnull : ¬ Stored st.space nullId)
    (htyped : Ran host base jobs (chosenId host st.inserts) mid last links)
    (hrest : Ran host base jobs' a last st' links') :
    sharedAt st'.space (chosenId host st.inserts) = sharedAt base.space rd.nodeId.nodeId ∧
      linksAt base.space st'.space (chosenId host st.inserts) = links := by
  have hnull' := (framed_of_copied h).null hnull
  have hcopy := framed_of_ran htyped hnull'
  have hafter := framed_of_ran hrest (hcopy.null hnull')
  have hstored := hcopy.old (stored_copied h)
  constructor
  · rw [hafter.shared _ hstored, hcopy.shared _ (stored_copied h), h.copy]
  · rw [hafter.links _ hstored, apart_of_new h.parent h.free, if_neg Bool.false_ne_true, List.append_nil,
      linksAt_copied h hnull' htyped]

end Frames

section Choices

/-- The ids that the store chooses next are free and different. -/
structure Chosen (host : Host) (st : State) (n : Nat) : Prop where
  free : ∀ i, st.inserts ≤ i → i < st.inserts + n → ¬ Stored st.space (chosenId host i)
  distinct : ∀ i j, st.inserts ≤ i → i < j → j < st.inserts + n → nodeIdEqual (chosenId host i)
    (chosenId host j) = false

theorem chosen_zero (host : Host) (st : State) : Chosen host st 0 where
  free i hle hlt := by omega
  distinct i j hle hlt hj := by omega

theorem Chosen.take (h : Chosen host st (m + n)) : Chosen host st m where
  free i hle hlt := h.free i hle (by omega)
  distinct i j hle hlt hj := h.distinct i j hle hlt (by omega)

theorem chosen_one_iff : Chosen host st 1 ↔ ¬ Stored st.space (chosenId host st.inserts) := by
  constructor
  · exact fun h => h.free _ (Nat.le_refl _) (Nat.lt_succ_self _)
  · intro h
    refine ⟨fun i hle hlt => ?_, fun i j hle hlt hj => by omega⟩
    obtain rfl : i = st.inserts := Nat.le_antisymm (Nat.le_of_lt_succ hlt) hle
    exact h

theorem chosen_add_iff (h : Framed host types st mid a links) (hcount : mid.inserts = st.inserts + m) :
    Chosen host st (m + n) ↔ Chosen host st m ∧ Chosen host mid n := by
  constructor
  · rintro ⟨hfree, hdistinct⟩
    refine ⟨⟨fun i hle hlt => hfree i hle (by omega), fun i j hle hlt hj => hdistinct i j hle hlt (by omega)⟩, ?_, ?_⟩
    · intro i hle hlt
      rw [h.stored]
      rintro (hold | ⟨j, hj, hjlt, hsame⟩)
      · exact hfree i (by omega) (by omega) hold
      · rw [hdistinct j i hj (by omega) (by omega)] at hsame
        cases hsame
    · exact fun i j hle hlt hj => hdistinct i j (by omega) hlt (by omega)
  · rintro ⟨hfirst, hsecond⟩
    refine ⟨fun i hle hlt => ?_, fun i j hle hlt hj => ?_⟩
    · rcases Nat.lt_or_ge i mid.inserts with hi | hi
      · exact hfirst.free i hle (by omega)
      · exact fun hold => hsecond.free i hi (by omega) (h.old hold)
    · rcases Nat.lt_or_ge j mid.inserts with hj' | hj'
      · exact hfirst.distinct i j hle hlt (by omega)
      rcases Nat.lt_or_ge i mid.inserts with hi | hi
      · have hnew : Stored mid.space (chosenId host i) := (h.stored _).mpr (.inr ⟨i, hle, hi, nodeIdEqual_refl _⟩)
        rw [nodeIdEqual_comm]
        exact not_equal_of_stored (hsecond.free j hj' (by omega)) hnew
      · exact hsecond.distinct i j hi hlt (by omega)

/-- The ids that have been chosen, in the order of the insertions. -/
def chosenIds (host : Host) (i n : Nat) : List NodeId := (List.range' i n).map (chosenId host)

theorem chosenIds_add (host : Host) (i m n : Nat) :
    chosenIds host i (m + n) = chosenIds host i m ++ chosenIds host (i + m) n := by
  rw [chosenIds, chosenIds, chosenIds, ← List.map_append, List.range'_append_1]

theorem chosenIds_one (host : Host) (i : Nat) : chosenIds host i 1 = [chosenId host i] := rfl

theorem mem_chosenIds {i : Nat} : b ∈ chosenIds host i n ↔ ∃ j, i ≤ j ∧ j < i + n ∧ chosenId host j = b := by
  rw [chosenIds, List.mem_map]
  constructor
  · rintro ⟨j, hj, rfl⟩
    obtain ⟨hle, hlt⟩ := List.mem_range'_1.mp hj
    exact ⟨j, hle, hlt, rfl⟩
  · rintro ⟨j, hle, hlt, rfl⟩
    exact ⟨j, List.mem_range'_1.mpr ⟨hle, hlt⟩, rfl⟩

theorem Chosen.pairwise (h : Chosen host st n) :
    (chosenIds host st.inserts n).Pairwise (fun a b => nodeIdEqual a b = false) := by
  rw [chosenIds, List.pairwise_map]
  refine List.Pairwise.imp_of_mem ?_ (List.pairwise_lt_range' ..)
  intro i j hi hj hlt
  exact h.distinct i j (List.mem_range'_1.mp hi).1 hlt (List.mem_range'_1.mp hj).2

end Choices

section Instances

/-- A type has fewer than a hundred children, or exactly as many and no
continuation point is left. -/
def Fits (session : Continuations) (children : Nat) : Prop :=
  children < 100 ∨ children = 100 ∧ session.availableContinuationPoints = 0

/-- What a type asks for can be done as a whole, with so many copies: the tree
of the types is finite, the children of each type fit into one browse, and the
copies hang on references of concrete types. -/
inductive Whole (base : State) : List Job → Nat → Prop
  | nil : Whole base [] 0
  | method {rd : ReferenceDescription} {jobs : List Job} {n : Nat} (hmethod : rd.nodeClass = nodeClassValue .method)
      (hrest : Whole base jobs n) : Whole base (.child rd :: jobs) n
  | copied {rd : ReferenceDescription} {c : NodeClass} {jobs : List Job} {m n : Nat}
    (hclass : HasTypesOf rd.nodeClass c)
      (hconcrete : Concrete base.space rd.referenceTypeId) (htyped : Whole base (typeJobs base.space c rd) m)
      (hrest : Whole base jobs n) : Whole base (.child rd :: jobs) (1 + m + n)
  | other {c : NodeClass} {typeId : NodeId} {jobs : List Job} {n : Nat} (hother : classAt base.space typeId ≠ some c)
      (hrest : Whole base jobs n) : Whole base (.type c typeId :: jobs) n
  | typed {c : NodeClass} {typeId : NodeId} {fuel : Nat} {outcome : Except StatusCode RelevantTypes} {jobs : List Job}
      {m n : Nat} (hclass : classAt base.space typeId = some c)
      (houtcome : relevantTypes fuel base.space (typeBrowse base.space typeId) = some outcome)
      (hfits : Fits base.session (found base.space (typeBrowse base.space typeId) outcome).length)
      (hchildren : Whole base ((found base.space (typeBrowse base.space typeId) outcome).map .child) m)
      (hrest : Whole base jobs n) : Whole base (.type c typeId :: jobs) (m + n)

/-- The links of a node are what the types ask for, one for every child and in
their order: a method is linked itself, any other child has a copy, and what is
linked at the copy is what its types ask for. -/
inductive Instance (types s : AddressSpace) : List Job → List ReferenceNode → List NodeId → Prop
  | nil : Instance types s [] [] []
  | method {rd : ReferenceDescription} {jobs : List Job} {links : List ReferenceNode} {copies : List NodeId}
      (hmethod : rd.nodeClass = nodeClassValue .method) (hrest : Instance types s jobs links copies) :
      Instance types s (.child rd :: jobs) (methodReference rd :: links) copies
  | copied {rd : ReferenceDescription} {c : NodeClass} {jobs : List Job} {b : NodeId} {links : List ReferenceNode}
      {copies copies' : List NodeId} (hclass : HasTypesOf rd.nodeClass c)
      (hshared : sharedAt s b = sharedAt types rd.nodeId.nodeId)
      (htyped : Instance types s (typeJobs types c rd) (linksAt types s b) copies)
      (hrest : Instance types s jobs links copies') :
      Instance types s (.child rd :: jobs) (childReference rd.referenceTypeId b :: links) (b :: (copies ++ copies'))
  | other {c : NodeClass} {typeId : NodeId} {jobs : List Job} {links : List ReferenceNode} {copies : List NodeId}
      (hother : classAt types typeId ≠ some c) (hrest : Instance types s jobs links copies) :
      Instance types s (.type c typeId :: jobs) links copies
  | typed {c : NodeClass} {typeId : NodeId} {fuel : Nat} {outcome : Except StatusCode RelevantTypes} {jobs : List Job}
      {links links' : List ReferenceNode} {copies copies' : List NodeId} (hclass : classAt types typeId = some c)
      (houtcome : relevantTypes fuel types (typeBrowse types typeId) = some outcome)
      (hchildren : Instance types s ((found types (typeBrowse types typeId) outcome).map .child) links copies)
      (hrest : Instance types s jobs links' copies') :
      Instance types s (.type c typeId :: jobs) (links ++ links') (copies ++ copies')

theorem Instance.framed (h : Instance types st.space jobs links copies) (hframe : Framed host types st st' a links')
    (hcopies : ∀ b ∈ copies, Stored st.space b ∧ nodeIdEqual a b = false) :
    Instance types st'.space jobs links copies := by
  induction h with
  | nil => exact .nil
  | method hmethod _ ih => exact .method hmethod (ih hcopies)
  | @copied rd c jobs b _ _ _ hclass hshared _ _ ihtyped ih =>
      obtain ⟨hstored, hother⟩ := hcopies b List.mem_cons_self
      have hlinks : linksAt types st'.space b = linksAt types st.space b := by
        rw [hframe.links b hstored, hother, if_neg Bool.false_ne_true, List.append_nil]
      have htyped := ihtyped (fun b hb => hcopies b (List.mem_cons_of_mem _ (List.mem_append_left _ hb)))
      rw [← hlinks] at htyped
      exact .copied hclass ((hframe.shared b hstored).trans hshared) htyped
        (ih (fun b hb => hcopies b (List.mem_cons_of_mem _ (List.mem_append_right _ hb))))
  | other hother _ ih => exact .other hother (ih hcopies)
  | typed hclass houtcome _ _ ihchildren ih =>
      exact .typed hclass houtcome (ihchildren (fun b hb => hcopies b (List.mem_append_left _ hb)))
        (ih (fun b hb => hcopies b (List.mem_append_right _ hb)))

theorem hasTypesOf_unique {nodeClass : UInt32} {c c' : NodeClass} (h : HasTypesOf nodeClass c)
    (h' : HasTypesOf nodeClass c') :
    c = c' := by
  rcases h with ⟨h, rfl⟩ | ⟨h, rfl⟩ <;> rcases h' with ⟨h', rfl⟩ | ⟨h', rfl⟩
  · rfl
  · cases nodeClassValue_inj (h.symm.trans h')
  · cases nodeClassValue_inj (h.symm.trans h')
  · rfl

theorem not_method {nodeClass : UInt32} (h : HasTypesOf nodeClass c) : nodeClass ≠ nodeClassValue .method := by
  intro hmethod
  rcases h with ⟨h, _⟩ | ⟨h, _⟩
  · cases nodeClassValue_inj (h.symm.trans hmethod)
  · cases nodeClassValue_inj (h.symm.trans hmethod)

theorem take_of_fits {session : Continuations} {l : List ReferenceDescription} (h : Fits session l.length) :
    l.take 100 = l := by
  refine List.take_of_length_le ?_
  rcases h with h | ⟨h, _⟩
  · exact Nat.le_of_lt h
  · exact Nat.le_of_eq h

theorem session_of_fits {children : Nat} (h : Browsed st st' children) (hfits : Fits st.session children) :
    st'.session = st.session := by
  rcases h.session with ⟨hsame, _⟩ | ⟨hfull, hspent⟩
  · exact hsame
  · exfalso
    rcases hfits with hfits | ⟨_, hnone⟩
    · omega
    · rw [hnone] at hspent
      exact Nat.not_lt_zero _ hspent

theorem copies_apart (hchosen : Chosen host st n) (ha : Stored st.space a) (hframe : Framed host types st st' a' links)
    (hcount : st'.inserts = st.inserts + n) (b : NodeId) (hb : b ∈ chosenIds host st.inserts n) :
    Stored st'.space b ∧ nodeIdEqual a b = false := by
  obtain ⟨i, hle, hlt, rfl⟩ := mem_chosenIds.mp hb
  refine ⟨(hframe.stored _).mpr (.inr ⟨i, hle, by omega, nodeIdEqual_refl _⟩), ?_⟩
  rw [nodeIdEqual_comm]
  exact not_equal_of_stored (hchosen.free i hle hlt) ha

/-- The run builds the instance: the continuation points are left alone, and
the nodes that were inserted are the copies of everything asked for. -/
def Builds (host : Host) (base st st' : State) (jobs : List Job) (links : List ReferenceNode) (n : Nat) : Prop :=
  st'.session = base.session ∧ st'.inserts = st.inserts + n ∧
    Instance base.space st'.space jobs links (chosenIds host st.inserts n)

theorem builds_copied (hclass : HasTypesOf rd.nodeClass c) (hcopied : Copied host base st mid a rd)
    (htyped : Ran host base (typeJobs base.space c rd) (chosenId host st.inserts) mid last links)
    (hrest : Ran host base jobs a last st' links') (hnull : ¬ Stored st.space nullId) (hchosen : Chosen host mid m)
    (hchild : Builds host base mid last (typeJobs base.space c rd) links m)
    (hbuilds : Builds host base last st' jobs links' n) :
    Builds host base st st' (.child rd :: jobs)
      (childReference rd.referenceTypeId (chosenId host st.inserts) :: links') (1 + m + n) := by
  obtain ⟨_, hcount, hinst⟩ := hchild
  obtain ⟨hsame, hcount', hinst'⟩ := hbuilds
  have hframe := framed_of_copied hcopied
  have hcopy := framed_of_ran htyped (hframe.null hnull)
  have hafter := framed_of_ran hrest ((framed_of_child hcopied hnull htyped).null hnull)
  obtain ⟨hshared, hlinks⟩ := copy_kept hcopied hnull htyped hrest
  have hkept := hinst.framed hafter (copies_apart hchosen (hframe.old hcopied.parent) hcopy hcount)
  have hinserts := hcopied.inserts
  refine ⟨hsame, by omega, ?_⟩
  rw [← hlinks] at hkept
  rw [Nat.add_assoc, chosenIds_add, chosenIds_one, List.singleton_append, chosenIds_add, ← hinserts, ← hcount]
  exact .copied hclass hshared hkept hinst'

theorem builds_typed {fuel : Nat} {outcome : Except StatusCode RelevantTypes}
    (hclass : classAt base.space typeId = some c)
    (houtcome : relevantTypes fuel base.space (typeBrowse base.space typeId) = some outcome)
    (hfits : (found base.space (typeBrowse base.space typeId) outcome).take 100 =
      found base.space (typeBrowse base.space typeId) outcome)
    {children : Nat} (hbrowsed : Browsed st mid children)
    (hchildren : Ran host base (((found base.space (typeBrowse base.space typeId) outcome).take 100).map .child) a mid
      last links)
    (hlinked : Linked base.space last done a []) (hrest : Ran host base jobs a done st' links')
    (ha : Stored st.space a) (hnull : ¬ Stored st.space nullId) (hchosen : Chosen host mid m)
    (hchild : Builds host base mid last
      (((found base.space (typeBrowse base.space typeId) outcome).take 100).map .child) links m)
    (hbuilds : Builds host base done st' jobs links' n) :
    Builds host base st st' (.type c typeId :: jobs) (links ++ links') (m + n) := by
  obtain ⟨_, hcount, hinst⟩ := hchild
  obtain ⟨hsame, hcount', hinst'⟩ := hbuilds
  have hbrowse : Framed host base.space st mid a [] := framed_of_browsed hbrowsed a
  have hfirst := framed_of_ran hchildren (hbrowse.null hnull)
  have hdone : Framed host base.space last done a [] := framed_of_linked hlinked
  have hafter := framed_of_ran hrest ((hbrowse.trans (hfirst.trans hdone)).null hnull)
  have hapart := copies_apart hchosen (hbrowse.old ha) hfirst hcount
  have hframed := (hinst.framed hdone hapart).framed hafter
    (fun b hb => ⟨hdone.old (hapart b hb).1, (hapart b hb).2⟩)
  rw [hfits] at hframed
  have hinserts := hbrowsed.inserts
  have hmore : done.inserts = mid.inserts + m := hlinked.inserts.trans hcount
  refine ⟨hsame, by omega, ?_⟩
  rw [chosenIds_add, ← hinserts, ← hmore]
  exact .typed hclass houtcome hframed hinst'

/-- A run that can do everything does it, by induction on the run. -/
theorem instance_of_whole (hnamespaces : 0 < host.namespacesSize) (h : Ran host base jobs a st st' links)
    (ha : Stored st.space a) (hnull : ¬ Stored st.space nullId) (hsession : st.session = base.session)
    (hwhole : Whole base jobs n) (hchosen : Chosen host st n) : Builds host base st st' jobs links n := by
  induction h generalizing n with
  | nil =>
      cases hwhole
      exact ⟨hsession, rfl, .nil⟩
  | @method rd jobs a st mid st' links links' hmethod hlinks hlinked hrest ih =>
      obtain rfl : links = [methodReference rd] := hlinks.resolve_right (fun hnot => hnot.1 ha)
      have hframe : Framed host base.space st mid a _ := framed_of_linked hlinked
      cases hwhole with
      | copied hclass => exact absurd hmethod (not_method hclass)
      | method _ hwhole =>
        have hcount : mid.inserts = st.inserts + 0 := hlinked.inserts
        rw [← Nat.zero_add n, chosen_add_iff hframe hcount] at hchosen
        obtain ⟨hsame, hmore, hinst⟩ := ih (hframe.old ha) (hframe.null hnull)
          (hlinked.session.trans hsession) hwhole hchosen.2
        rw [hlinked.inserts] at hmore hinst
        exact ⟨hsame, hmore, .method hmethod hinst⟩
  | @copied rd c jobs a st mid last st' links links' hclass hcopied htyped hrest ihtyped ih =>
      have hframe := framed_of_copied hcopied
      have hlast := framed_of_child hcopied hnull htyped
      cases hwhole with
      | method hmethod _ => exact absurd hmethod (not_method hclass)
      | @copied _ c' _ m n hclass' hconcrete hwhole hwhole' =>
        obtain rfl := hasTypesOf_unique hclass' hclass
        rw [Nat.add_assoc, chosen_add_iff hframe hcopied.inserts] at hchosen
        have hchild := ihtyped (stored_copied hcopied) (hframe.null hnull) (hcopied.session.trans hsession) hwhole
          hchosen.2.take
        have hsplit := (chosen_add_iff (framed_of_ran htyped (hframe.null hnull)) hchild.2.1).mp hchosen.2
        have hbuilds := ih (hlast.old ha) (hlast.null hnull) hchild.1 hwhole' hsplit.2
        exact builds_copied hclass hcopied htyped hrest hnull hsplit.1 hchild hbuilds
  | refused hclass htaken _ _ _ _ =>
      exfalso
      cases hwhole with
      | method hmethod _ => exact not_method hclass hmethod
      | copied _ hconcrete _ _ =>
        exact hchosen.free _ (Nat.le_refl _) (by omega) (htaken hnamespaces ha hconcrete)
  | other hother _ ih =>
      cases hwhole with
      | typed hclass => exact absurd hclass hother
      | other _ hwhole =>
        obtain ⟨hsame, hcount, hinst⟩ := ih ha hnull hsession hwhole hchosen
        exact ⟨hsame, hcount, .other hother hinst⟩
  | @typed c typeId a fuel outcome jobs st mid last done st' links links' hclass houtcome hbrowsed
    hchildren hlinked hrest
      ihchildren ih =>
      cases hwhole with
      | other hother _ => exact absurd hclass hother
      | @typed _ _ _ outcome' _ m n _ houtcome' hfits hwhole hwhole' =>
        obtain rfl := relevantTypes_unique houtcome houtcome'
        have hall := take_of_fits hfits
        rw [← hall] at hwhole
        have hbrowse : Framed host base.space st mid a [] := framed_of_browsed hbrowsed a
        have hwith := (framed_of_ran hchildren (hbrowse.null hnull)).trans (framed_of_linked hlinked)
        have hlast := hbrowse.trans hwith
        rw [← hsession] at hfits
        have hkept := (session_of_fits hbrowsed hfits).trans hsession
        have hzero : mid.inserts = st.inserts + 0 := hbrowsed.inserts
        rw [← Nat.zero_add (m + n), chosen_add_iff hbrowse hzero] at hchosen
        have hchild := ihchildren (hbrowse.old ha) (hbrowse.null hnull) hkept hwhole hchosen.2.take
        have hsplit := (chosen_add_iff hwith (hlinked.inserts.trans hchild.2.1)).mp hchosen.2
        have hbuilds := ih (hlast.old ha) (hlast.null hnull) (hlinked.session.trans hchild.1) hwhole' hsplit.2
        exact builds_typed hclass houtcome hall hbrowsed hchildren hlinked hrest ha hnull hsplit.1 hchild hbuilds

end Instances

section Necessity

/-- A session has lost continuation points, or nothing has happened to it. -/
def Spends (st st' : State) : Prop :=
  st'.session = st.session ∨ st'.session.availableContinuationPoints.toNat <
    st.session.availableContinuationPoints.toNat

theorem Spends.trans (h : Spends st mid) (h' : Spends mid st') : Spends st st' := by
  rcases h with h | h <;> rcases h' with h' | h'
  · exact .inl (h'.trans h)
  · exact .inr (by rw [← h]; exact h')
  · exact .inr (by rw [h']; exact h)
  · exact .inr (h'.trans h)

theorem Spends.kept (h : Spends st mid) (h' : Spends mid st') (hsame : st'.session = st.session) :
    mid.session = st.session := by
  rcases h with h | h
  · exact h
  · exfalso
    rcases h' with h' | h'
    · rw [← h', hsame] at h
      exact Nat.lt_irrefl _ h
    · rw [hsame] at h'
      exact Nat.lt_asymm h h'

theorem spends_of_browsed {children : Nat} (h : Browsed st st' children) : Spends st st' :=
  h.session.imp (·.1) (·.2)

theorem spends_of_ran (h : Ran host base jobs a st st' links) : Spends st st' := by
  induction h with
  | nil => exact .inl rfl
  | method _ _ hlinked _ ih => exact Spends.trans (.inl hlinked.session) ih
  | copied _ hcopied _ _ ihtyped ih => exact Spends.trans (.inl hcopied.session) (ihtyped.trans ih)
  | refused _ _ _ _ ihtyped ih => exact ihtyped.trans ih
  | other _ _ ih => exact ih
  | typed _ _ hbrowsed _ hlinked _ ihchildren ih =>
      exact (spends_of_browsed hbrowsed).trans (ihchildren.trans (Spends.trans (.inl hlinked.session) ih))

theorem length_children {rds : List ReferenceDescription} (h : Instance types s (rds.map .child) links copies) :
    links.length = rds.length := by
  induction rds generalizing links copies with
  | nil =>
      cases h
      rfl
  | cons rd rds ih =>
      cases h with
      | method _ hrest => exact congrArg Nat.succ (ih hrest)
      | copied _ _ _ hrest => exact congrArg Nat.succ (ih hrest)

theorem length_ran_children {rds : List ReferenceDescription} (h : Ran host base (rds.map .child) a st st' links) :
    links.length ≤ rds.length := by
  induction rds generalizing st links with
  | nil =>
      cases h
      exact Nat.le_refl 0
  | cons rd rds ih =>
      cases h with
      | method _ hlinks _ hrest =>
          rw [List.length_append, List.length_cons, Nat.add_comm]
          have hone : ∀ {l : List ReferenceNode}, l = [methodReference rd] ∨ ¬ Stored st.space a ∧ l = [] →
            l.length ≤ 1 := by
            rintro l (rfl | ⟨_, rfl⟩)
            · exact Nat.le_refl 1
            · exact Nat.zero_le 1
          exact Nat.add_le_add (ih hrest) (hone hlinks)
      | copied _ _ _ hrest => exact Nat.succ_le_succ (ih hrest)
      | refused _ _ _ hrest => exact (ih hrest).trans (Nat.le_succ _)

theorem instance_append {rest : List Job} (h : Instance types s (jobs ++ rest) links copies) :
    ∃ links₁ links₂ copies₁, links = links₁ ++ links₂ ∧ Instance types s jobs links₁ copies₁ := by
  induction jobs generalizing links copies with
  | nil => exact ⟨[], links, [], rfl, .nil⟩
  | cons job jobs ih =>
      cases h with
      | method hmethod hrest =>
          obtain ⟨links₁, links₂, copies₁, rfl, hinst⟩ := ih hrest
          exact ⟨_, links₂, _, rfl, .method hmethod hinst⟩
      | copied hclass hshared htyped hrest =>
          obtain ⟨links₁, links₂, copies₁, rfl, hinst⟩ := ih hrest
          exact ⟨_, links₂, _, rfl, .copied hclass hshared htyped hinst⟩
      | other hother hrest =>
          obtain ⟨links₁, links₂, copies₁, rfl, hinst⟩ := ih hrest
          exact ⟨_, links₂, _, rfl, .other hother hinst⟩
      | typed hclass houtcome hchildren hrest =>
          obtain ⟨links₁, links₂, copies₁, rfl, hinst⟩ := ih hrest
          exact ⟨_, links₂, _, (List.append_assoc ..).symm, .typed hclass houtcome hchildren hinst⟩

theorem length_le_of_ran (h : Ran host base jobs a st st' links) (hinst : Instance base.space s jobs links' copies) :
    links.length ≤ links'.length := by
  induction h generalizing links' copies with
  | nil => exact Nat.zero_le _
  | method hmethod hlinks _ _ ih =>
      cases hinst with
      | copied hclass _ _ _ => exact absurd hmethod (not_method hclass)
      | method _ hrest =>
          rw [List.length_append, List.length_cons, Nat.add_comm]
          rcases hlinks with rfl | ⟨_, rfl⟩
          · exact Nat.add_le_add (ih hrest) (Nat.le_refl 1)
          · exact Nat.add_le_add (ih hrest) (Nat.zero_le 1)
  | copied hclass _ _ _ _ ih =>
      cases hinst with
      | method hmethod _ => exact absurd hmethod (not_method hclass)
      | copied _ _ _ hrest => exact Nat.succ_le_succ (ih hrest)
  | refused hclass _ _ _ _ ih =>
      cases hinst with
      | method hmethod _ => exact absurd hmethod (not_method hclass)
      | copied _ _ _ hrest => exact (ih hrest).trans (Nat.le_succ _)
  | other hother _ ih =>
      cases hinst with
      | typed hclass _ _ _ => exact absurd hclass hother
      | other _ hrest => exact ih hrest
  | typed hclass houtcome _ _ _ _ ihchildren ih =>
      cases hinst with
      | other hother _ => exact absurd hclass hother
      | typed _ houtcome' hchildren hrest =>
          obtain rfl := relevantTypes_unique houtcome houtcome'
          rw [← List.take_append_drop 100 (found _ _ _), List.map_append] at hchildren
          obtain ⟨links₁, links₂, copies₁, rfl, hfirst⟩ := instance_append hchildren
          rw [List.length_append, List.length_append, List.length_append]
          have hle := ihchildren hfirst
          have hle' := ih hrest
          omega

theorem fits_of_browsed {children : Nat} (h : Browsed st mid children) (hsame : mid.session = st.session)
    (hfew : children ≤ 100) : Fits st.session children := by
  rcases h.session with ⟨_, hroom⟩ | ⟨_, hspent⟩
  · rcases hroom with hroom | hnone
    · exact .inl hroom
    · exact (Nat.lt_or_eq_of_le hfew).imp_right (fun hfull => ⟨hfull, hnone⟩)
  · rw [hsame] at hspent
    exact absurd hspent (Nat.lt_irrefl _)

/-- Where the links of a run are all that was asked for, so are those of its
two parts, and the first hundred children were all. -/
theorem links_split {rds : List ReferenceDescription} {links₁ links₂ : List ReferenceNode} {copies' : List NodeId}
    (h : Ran host base ((rds.take 100).map .child) a mid last links) (h' : Ran host base jobs a done st' links')
    (hinst : Instance types s (rds.map .child) links₁ copies) (hinst' : Instance base.space s jobs links₂ copies')
    (hall : links ++ links' = links₁ ++ links₂) : links = links₁ ∧ links' = links₂ ∧ rds.length ≤ 100 := by
  have hle := length_ran_children h
  have hle' := length_le_of_ran h' hinst'
  have hlength := length_children hinst
  have htotal := congrArg List.length hall
  rw [List.length_append, List.length_append] at htotal
  rw [List.length_take] at hle
  obtain ⟨hfirst, hsecond⟩ := List.append_inj hall (by omega)
  exact ⟨hfirst, hsecond, by omega⟩

/-- The nodes that a run has added get no more links later. -/
def Settled (types s : AddressSpace) (st st' : State) : Prop :=
  ∀ b, Stored st'.space b → ¬ Stored st.space b → linksAt types s b = linksAt types st'.space b

theorem Settled.rest (h : Settled types s st st') (hframe : Framed host types st mid a links) :
    Settled types s mid st' :=
  fun b hb hnew => h b hb (fun hold => hnew (hframe.old hold))

theorem Settled.part (h : Settled types s st st') (hframe : Framed host types st mid a links)
    (hrest : Framed host types last st' a' links') (ha : Stored mid.space a') : Settled types s mid last := by
  intro b hb hnot
  rw [h b (hrest.old hb) (fun hold => hnot (hframe.old hold)), hrest.links b hb, apart_of_new ha hnot,
    if_neg Bool.false_ne_true, List.append_nil]

/-- The run could do everything. -/
def Could (host : Host) (base st st' : State) (jobs : List Job) : Prop :=
  ∃ n, Whole base jobs n ∧ Chosen host st n ∧ st'.inserts = st.inserts + n

theorem could_copied (hclass : HasTypesOf rd.nodeClass c) (hcopied : Copied host base st mid a rd)
    (htyped : Ran host base jobs' (chosenId host st.inserts) mid last links) (hnull : ¬ Stored st.space nullId)
    (hjobs : jobs' = typeJobs base.space c rd) (hchild : Could host base mid last jobs')
    (hrest : Could host base last st' jobs) : Could host base st st' (.child rd :: jobs) := by
  subst hjobs
  obtain ⟨m, hwhole, hchosen, hcount⟩ := hchild
  obtain ⟨n, hwhole', hchosen', hcount'⟩ := hrest
  have hframe := framed_of_copied hcopied
  have hinserts := hcopied.inserts
  refine ⟨1 + m + n, .copied hclass hcopied.concrete hwhole hwhole', ?_, by omega⟩
  rw [Nat.add_assoc, chosen_add_iff hframe hinserts, chosen_add_iff (framed_of_ran htyped (hframe.null hnull)) hcount]
  exact ⟨chosen_one_iff.mpr hcopied.free, hchosen, hchosen'⟩

theorem could_typed {fuel : Nat} {outcome : Except StatusCode RelevantTypes}
    (hclass : classAt base.space typeId = some c)
    (houtcome : relevantTypes fuel base.space (typeBrowse base.space typeId) = some outcome)
    (hfits : Fits base.session (found base.space (typeBrowse base.space typeId) outcome).length)
    {children : Nat} (hbrowsed : Browsed st mid children) (hlinked : Linked base.space last done a [])
    (hwith : Framed host base.space mid done a links)
    (hchild : Could host base mid last
      (((found base.space (typeBrowse base.space typeId) outcome).take 100).map .child))
    (hrest : Could host base done st' jobs) : Could host base st st' (.type c typeId :: jobs) := by
  obtain ⟨m, hwhole, hchosen, hcount⟩ := hchild
  obtain ⟨n, hwhole', hchosen', hcount'⟩ := hrest
  have hbrowse : Framed host base.space st mid a [] := framed_of_browsed hbrowsed a
  rw [take_of_fits hfits] at hwhole
  have hinserts := hbrowsed.inserts
  have hzero : mid.inserts = st.inserts + 0 := hinserts
  have hmore : done.inserts = mid.inserts + m := hlinked.inserts.trans hcount
  refine ⟨m + n, .typed hclass houtcome hfits hwhole hwhole', ?_, by omega⟩
  rw [← Nat.zero_add (m + n), chosen_add_iff hbrowse hzero, chosen_add_iff hwith hmore]
  exact ⟨chosen_zero _ _, hchosen, hchosen'⟩

/-- A run that has left behind everything, and the session as it was, could do
everything, by induction on the run. -/
theorem whole_of_instance (h : Ran host base jobs a st st' links) (ha : Stored st.space a)
    (hnull : ¬ Stored st.space nullId) (hsession : st.session = base.session) (hsame : st'.session = st.session)
    (hinst : Instance base.space s jobs links copies) (hfinal : Settled base.space s st st') :
    Could host base st st' jobs := by
  induction h generalizing copies with
  | nil => exact ⟨0, .nil, chosen_zero _ _, rfl⟩
  | @method rd jobs a st mid st' links links' hmethod hlinks hlinked hrest ih =>
      obtain rfl : links = [methodReference rd] := hlinks.resolve_right (fun hnot => hnot.1 ha)
      have hframe : Framed host base.space st mid a _ := framed_of_linked hlinked
      have hcount : mid.inserts = st.inserts + 0 := hlinked.inserts
      generalize hlist : [methodReference rd] ++ links' = all at hinst
      cases hinst with
      | copied hclass _ _ _ => exact absurd hmethod (not_method hclass)
      | method _ hinst =>
          obtain rfl := (List.cons.inj hlist).2
          obtain ⟨n, hwhole, hchosen, hmore⟩ := ih (hframe.old ha) (hframe.null hnull) (hlinked.session.trans hsession)
            (hsame.trans hlinked.session.symm) hinst (hfinal.rest hframe)
          have hall : Chosen host st (0 + n) := (chosen_add_iff hframe hcount).mpr ⟨chosen_zero _ _, hchosen⟩
          rw [Nat.zero_add] at hall
          exact ⟨n, .method hmethod hwhole, hall, by rw [hmore, hlinked.inserts]⟩
  | @copied rd c jobs a st mid last st' links links' hclass hcopied htyped hrest ihtyped ih =>
      have hframe := framed_of_copied hcopied
      have hlast := framed_of_child hcopied hnull htyped
      have hafter := framed_of_ran hrest (hlast.null hnull)
      have hspends : Spends st last := Spends.trans (.inl hcopied.session) (spends_of_ran htyped)
      have hmiddle := hspends.kept (spends_of_ran hrest) hsame
      generalize hreference : childReference rd.referenceTypeId (chosenId host st.inserts) = reference at hinst
      cases hinst with
      | method hmethod _ => exact absurd hmethod (not_method hclass)
      | @copied _ c' _ b _ _ _ hclass' hshared hinst hinst' =>
          obtain rfl := hasTypesOf_unique hclass' hclass
          obtain rfl : chosenId host st.inserts = b := congrArg (·.targetId.nodeId) hreference
          have hstored := (framed_of_ran htyped (hframe.null hnull)).old (stored_copied hcopied)
          rw [hfinal _ (hafter.old hstored) hcopied.free, (copy_kept hcopied hnull htyped hrest).2] at hinst
          have hchild := ihtyped (stored_copied hcopied) (hframe.null hnull) (hcopied.session.trans hsession)
            (hmiddle.trans hcopied.session.symm) hinst (hfinal.part hframe hafter (hframe.old ha))
          have hcould := ih (hlast.old ha) (hlast.null hnull) (hmiddle.trans hsession) (hsame.trans hmiddle.symm) hinst'
            (hfinal.rest hlast)
          exact could_copied hclass hcopied htyped hnull rfl hchild hcould
  | refused hclass _ _ hrest _ _ =>
      exfalso
      cases hinst with
      | method hmethod _ => exact not_method hclass hmethod
      | copied _ _ _ hinst =>
          have hle := length_le_of_ran hrest hinst
          rw [List.length_cons] at hle
          exact Nat.lt_irrefl _ hle
  | other hother _ ih =>
      cases hinst with
      | typed hclass _ _ _ => exact absurd hclass hother
      | other _ hinst =>
          obtain ⟨n, hwhole, hchosen, hcount⟩ := ih ha hnull hsession hsame hinst hfinal
          exact ⟨n, .other hother hwhole, hchosen, hcount⟩
  | @typed c typeId a fuel outcome jobs st mid last done st' links links' hclass houtcome hbrowsed
    hchildren hlinked hrest
      ihchildren ih =>
      have hbrowse : Framed host base.space st mid a [] := framed_of_browsed hbrowsed a
      have hdone : Framed host base.space last done a [] := framed_of_linked hlinked
      have hwith := (framed_of_ran hchildren (hbrowse.null hnull)).trans hdone
      have hlast := hbrowse.trans hwith
      have hafter := framed_of_ran hrest (hlast.null hnull)
      have hmiddle : Spends mid done := (spends_of_ran hchildren).trans (.inl hlinked.session)
      have hdoneSession := ((spends_of_browsed hbrowsed).trans hmiddle).kept (spends_of_ran hrest) hsame
      have hmidSession := (spends_of_browsed hbrowsed).kept (hmiddle.trans (spends_of_ran hrest)) hsame
      generalize hall : links ++ links' = all at hinst
      cases hinst with
      | other hother _ => exact absurd hclass hother
      | @typed _ _ _ outcome' _ links₁ links₂ _ _ _ houtcome' hinst hinst' =>
          obtain rfl := relevantTypes_unique houtcome houtcome'
          obtain ⟨rfl, rfl, hfew⟩ := links_split hchildren hrest hinst hinst' hall
          have hfits := fits_of_browsed hbrowsed hmidSession hfew
          rw [hsession] at hfits
          rw [← take_of_fits hfits] at hinst
          have hchild := ihchildren (hbrowse.old ha) (hbrowse.null hnull) (hmidSession.trans hsession)
            (by rw [← hlinked.session, hdoneSession, hmidSession]) hinst
            (hfinal.part hbrowse (hdone.trans hafter) (hbrowse.old ha))
          have hcould := ih (hlast.old ha) (hlast.null hnull) (hdoneSession.trans hsession)
            (hsame.trans hdoneSession.symm) hinst' (hfinal.rest hlast)
          exact could_typed hclass houtcome hfits hbrowsed hlinked hwith hchild hcould

end Necessity

section Completeness

def JobUnfolds (s : AddressSpace) : Job → Prop
  | .type c typeId => classAt s typeId = some c → (c = .objectType ∨ c = .variableType) → Unfolds s typeId
  | .child rd => ∀ c, HasTypesOf rd.nodeClass c → ∀ r ∈ refsAt s rd.nodeId.nodeId, definesType r = true →
      classAt s r.targetId.nodeId = some c → Unfolds s r.targetId.nodeId

theorem type_of_hasTypesOf {nodeClass : UInt32} (h : HasTypesOf nodeClass c) : c = .objectType ∨ c = .variableType :=
  h.imp (·.2) (·.2)

theorem unfolds_of_whole (h : Whole base jobs n) : ∀ job ∈ jobs, JobUnfolds base.space job := by
  induction h with
  | nil => exact fun job hjob => absurd hjob List.not_mem_nil
  | @method rd _ _ hmethod _ ih =>
      refine List.forall_mem_cons.mpr ⟨?_, ih⟩
      intro c hclass
      exact absurd hmethod (not_method hclass)
  | @copied rd c _ _ _ hclass _ _ _ ihtyped ih =>
      refine List.forall_mem_cons.mpr ⟨?_, ih⟩
      intro c' hclass' r hr hdefines htype
      obtain rfl := hasTypesOf_unique hclass' hclass
      have hmem : Job.type c' r.targetId.nodeId ∈ typeJobs base.space c' rd :=
        List.mem_map.mpr ⟨r, List.mem_filter.mpr ⟨hr, hdefines⟩, rfl⟩
      exact ihtyped _ hmem htype (type_of_hasTypesOf hclass)
  | other hother _ ih =>
      refine List.forall_mem_cons.mpr ⟨?_, ih⟩
      exact fun hclass _ => absurd hclass hother
  | @typed c typeId fuel outcome _ _ _ _ houtcome hfits _ _ ihchildren ih =>
      refine List.forall_mem_cons.mpr ⟨?_, ih⟩
      intro _ _
      refine .intro ⟨fuel, outcome, houtcome⟩ ?_
      rintro other ⟨_, fuel', outcome', houtcome', rd, hrd, r, hr, hdefines, rfl, c', htype, hclass⟩
      obtain rfl := relevantTypes_unique houtcome houtcome'
      exact ihchildren (.child rd) (List.mem_map.mpr ⟨rd, List.mem_of_mem_take hrd, rfl⟩) c' hclass r hr hdefines htype

/-- A node is a complete instance of a type: what is linked at it is what the
type asks for, and the copies are different nodes that were not there before. -/
def Complete (types s : AddressSpace) (id : NodeId) (c : NodeClass) (typeId : NodeId) : Prop :=
  ∃ copies, Instance types s [.type c typeId] (linksAt types s id) copies ∧
    copies.Pairwise (fun a b => nodeIdEqual a b = false) ∧ ∀ b ∈ copies, Stored s b ∧ ¬ Stored types b

variable {final : State} {item : AddNodesItem}

theorem complete_iff_of_ran (hstart : Started host id base) (hnamespaces : 0 < host.namespacesSize)
    (h : Ran host base [.type c typeId] id base final links) :
    Complete base.space final.space id c typeId ∧ final.session = base.session ↔
      ∃ n, Whole base [.type c typeId] n ∧ Chosen host base n := by
  have hframe := framed_of_ran h hstart.null
  have hnone : linksAt base.space base.space id = [] := by
    refine List.filter_eq_nil_iff.mpr (fun r hr hlink => ?_)
    rw [not_link_of_inverse (hstart.references r hr)] at hlink
    cases hlink
  have hlinks : linksAt base.space final.space id = links := by
    rw [hframe.links id hstart.stored, hnone, if_pos (nodeIdEqual_refl _), List.nil_append]
  rw [Complete, hlinks]
  constructor
  · rintro ⟨⟨copies, hinst, _, _⟩, hsession⟩
    obtain ⟨n, hwhole, hchosen, _⟩ :=
      whole_of_instance h hstart.stored hstart.null rfl hsession hinst (fun _ _ _ => rfl)
    exact ⟨n, hwhole, hchosen⟩
  · rintro ⟨n, hwhole, hchosen⟩
    obtain ⟨hsession, hcount, hinst⟩ := instance_of_whole hnamespaces h hstart.stored hstart.null rfl hwhole hchosen
    refine ⟨⟨_, hinst, hchosen.pairwise, fun b hb => ?_⟩, hsession⟩
    refine ⟨(copies_apart hchosen hstart.stored hframe hcount b hb).1, ?_⟩
    obtain ⟨i, hle, hlt, rfl⟩ := mem_chosenIds.mp hb
    exact hchosen.free i hle hlt

theorem ran_instantiateNode {fuel : Nat} {r : StatusCode × State} (hstart : Started host id base)
    (hdefined : isNull item.typeDefinition = false) (hc : typeClass item = some c)
    (hr : instantiateNode host fuel base item id = some r) :
    ∃ links, Ran host base [.type c item.typeDefinition] id base r.2 links := by
  have hid : worked id base id := .inl (nodeIdEqual_refl id)
  rw [instantiateNode, hdefined, if_neg Bool.false_ne_true] at hr
  rcases hasTypesOf_typeClass hc with ⟨hobject, rfl⟩ | ⟨hvariable, rfl⟩
  · rw [if_pos hobject] at hr
    exact runs_instantiateObjectNode hstart fuel base id _ r .refl hid hr
  · rw [hvariable, if_neg (by decide), if_pos rfl] at hr
    exact runs_instantiateVariableNode hstart fuel base id _ r .refl hid hr

/-- A complete instance needs room for all children of every type in one
browse. -/
theorem whole_of_complete {fuel : Nat} {id : NodeId} (hgood : (addNode host st item).1.statusCode = good)
    (hdefined : isNull item.typeDefinition = false) (hc : typeClass item = some c)
    (hnull : ¬ Stored st.space nullId) (hunclaimed : Unclaimed host st)
    (hrun : addNodesSingle host fuel st item = some (⟨good, id⟩, final))
    (hcomplete : Complete (addNode host st item).2.space final.space id c item.typeDefinition)
    (hsession : final.session = st.session) :
    ∃ n, Whole (addNode host st item).2 [.type c item.typeDefinition] n ∧ Chosen host (addNode host st item).2 n := by
  obtain ⟨n, hn, haccepted⟩ := (addNode_cases host st item).resolve_left (fun h => h.1 hgood)
  have hstart := started_addNode hn haccepted hc hnull hunclaimed
  have hnamespaces : 0 < host.namespacesSize := Nat.lt_of_le_of_lt (Nat.zero_le _) haccepted.namespaceIndex
  have hsame : (addNode host st item).2.session = st.session := by
    rw [addNode_accepted hn, addExistingNode_accepted haccepted]
  obtain ⟨n', hn', _, rfl, hinstantiate⟩ := addNodesSingle_good hrun
  obtain rfl := Except.ok.inj (hn.symm.trans hn')
  rw [← addNode_accepted hn] at hinstantiate
  obtain ⟨links, hran⟩ := ran_instantiateNode hstart hdefined hc hinstantiate
  exact (complete_iff_of_ran hstart hnamespaces hran).mp ⟨hcomplete, hsession.trans hsame.symm⟩

/-- An instance of a type is complete, and the continuation points of the
session are what they were, if and only if the tree of the types is finite, the
children of every type that is reached fit into one browse, the copies hang on
references of concrete types, and their ids are free and different. -/
theorem addNodes_complete_iff (hgood : (addNode host st item).1.statusCode = good)
    (hdefined : isNull item.typeDefinition = false)
    (hc : typeClass item = some c) (hclass : classAt (addNode host st item).2.space item.typeDefinition = some c)
    (hnull : ¬ Stored st.space nullId) (hunclaimed : Unclaimed host st) :
    (∃ fuel id final, addNodesSingle host fuel st item = some (⟨good, id⟩, final) ∧
        Complete (addNode host st item).2.space final.space id c item.typeDefinition ∧ final.session = st.session) ↔
      ∃ n, Whole (addNode host st item).2 [.type c item.typeDefinition] n ∧ Chosen host (addNode host st item).2 n := by
  obtain ⟨n, hn, haccepted⟩ := (addNode_cases host st item).resolve_left (fun h => h.1 hgood)
  have hstart := started_addNode hn haccepted hc hnull hunclaimed
  have hnamespaces : 0 < host.namespacesSize := Nat.lt_of_le_of_lt (Nat.zero_le _) haccepted.namespaceIndex
  have hsession : (addNode host st item).2.session = st.session := by
    rw [addNode_accepted hn, addExistingNode_accepted haccepted]
  constructor
  · rintro ⟨fuel, id, final, hrun, hcomplete, hsame⟩
    exact whole_of_complete hgood hdefined hc hnull hunclaimed hrun hcomplete hsame
  · rintro ⟨count, hwhole, hchosen⟩
    have htypes : c = .objectType ∨ c = .variableType := type_of_hasTypesOf (hasTypesOf_typeClass hc)
    have hunfolds : Unfolds _ item.typeDefinition := unfolds_of_whole hwhole _ List.mem_cons_self hclass htypes
    obtain ⟨fuel, ⟨status, final⟩, hinstantiate⟩ :=
      (instantiateNode_ends_iff hstart hdefined hc hclass).mpr (unfolds_iff_bounded.mp hunfolds)
    have hstatus : status = good := by
      by_contra hbad
      exact not_untyped hc hclass (instantiateNode_bad hinstantiate hbad).2
    subst hstatus
    obtain ⟨links, hran⟩ := ran_instantiateNode hstart hdefined hc hinstantiate
    obtain ⟨hcomplete, hsame⟩ := (complete_iff_of_ran hstart hnamespaces hran).mpr ⟨count, hwhole, hchosen⟩
    refine ⟨fuel, insertedId host st n.nodeId, final, ?_, hcomplete, hsame.trans hsession⟩
    rw [addNodesSingle_accepted hn haccepted, hinstantiate]
    rfl

/-- An object type with an object and a method below it. -/
theorem addNodes_complete_sampleChildren :
    ∃ fuel id final, addNodesSingle sampleHost fuel sampleChildren sampleInstance = some (⟨good, id⟩, final) ∧
      Complete (addNode sampleHost sampleChildren sampleInstance).2.space final.space id .objectType (numericId 1 10) ∧
        final.session = sampleChildren.session := by
  refine (addNodes_complete_iff rfl rfl rfl rfl (by rintro ⟨_, hn⟩; cases hn)
    (unclaimed_of_mirrored (mirrored_sampleSpace _ ⟨_, rfl⟩ ⟨_, rfl⟩))).mpr ?_
  set base := (addNode sampleHost sampleChildren sampleInstance).2
  let child (id : NodeId) (c : NodeClass) : ReferenceDescription :=
    ⟨numericId 0 aggregates, false, ⟨id, none, 0⟩, ⟨0, none⟩, ⟨none, none⟩, nodeClassValue c, nullExpandedNodeId⟩
  have htypes : relevantTypes 2 base.space (typeBrowse base.space (numericId 1 10)) =
      some (.ok (some [numericId 0 aggregates])) := rfl
  have hfound : found base.space (typeBrowse base.space (numericId 1 10)) (.ok (some [numericId 0 aggregates])) =
      [child (numericId 1 12) .object, child (numericId 1 11) .method] := by decide
  have hfits : Fits base.session (found base.space (typeBrowse base.space (numericId 1 10))
      (.ok (some [numericId 0 aggregates]))).length := by
    rw [hfound]
    exact .inl (by decide)
  have hchildren : Whole base ((found base.space (typeBrowse base.space (numericId 1 10))
      (.ok (some [numericId 0 aggregates]))).map .child) (1 + 0 + 0) := by
    rw [hfound]
    exact .copied (.inl ⟨rfl, rfl⟩) ⟨_, _, _, _, rfl, rfl, by decide⟩ .nil (.method rfl .nil)
  refine ⟨_, .typed rfl htypes hfits hchildren .nil, ?_⟩
  exact chosen_one_iff.mpr (not_stored_iff.mpr rfl)

def crowdedMethods : List NodeId := (List.range 101).map (fun i => numericId 1 (.ofNat (500 + i)))

/-- An object type with a hundred and one methods. -/
def crowdedSpace : AddressSpace where
  nodes := [plainReferenceType (numericId 0 aggregates), plainObject (numericId 1 1) [],
    { plainNode (numericId 1 10) (.objectType 0 ⟨some 1, none⟩) with
      references := crowdedMethods.map (childReference (numericId 0 aggregates)) }] ++
    crowdedMethods.map (fun id =>
      { plainNode id (.method 1 1 0 0) with references := [parentReference (numericId 0 aggregates) (numericId 1 10)] })
  distinct := by decide +kernel

def crowded : State := ⟨crowdedSpace, ⟨[], 5⟩, 0, 0, []⟩

theorem unclaimed_crowded : Unclaimed sampleHost crowded := by
  have htargets : ∀ n ∈ crowdedSpace.nodes, ∀ r ∈ n.references,
      (crowdedSpace.get r.targetId.nodeId).isSome = true := by decide +kernel
  intro a r hr _ _ _
  rw [refsAt] at hr
  cases hn : crowded.space.get a with
  | none =>
      rw [hn] at hr
      cases hr
  | some n =>
      rw [hn] at hr
      exact Option.isSome_iff_exists.mp (htargets n (List.mem_of_find?_eq_some hn) r hr)

/-- The last method is not linked, and a continuation point of the session is
used up. -/
theorem addNodes_leaves_child : ¬ ∃ fuel id final,
    addNodesSingle sampleHost fuel crowded sampleInstance = some (⟨good, id⟩, final) ∧
      Complete (addNode sampleHost crowded sampleInstance).2.space final.space id .objectType (numericId 1 10) ∧
        final.session = crowded.session := by
  rintro ⟨fuel, id, final, hrun, hcomplete, hsession⟩
  have hgood : (addNode sampleHost crowded sampleInstance).1.statusCode = good := by decide +kernel
  have hnull : ¬ Stored crowded.space nullId := not_stored_iff.mpr (by decide +kernel)
  obtain ⟨n, hwhole, _⟩ := whole_of_complete hgood rfl rfl hnull unclaimed_crowded hrun hcomplete hsession
  set base := (addNode sampleHost crowded sampleInstance).2 with hbase
  cases hwhole with
  | other hother _ => exact hother (by decide +kernel)
  | @typed _ _ fuel outcome _ _ _ _ houtcome hfits _ _ =>
      have htypes : relevantTypes 2 base.space (typeBrowse base.space (numericId 1 10)) =
          some (.ok (some [numericId 0 aggregates])) := by decide +kernel
      obtain rfl := relevantTypes_unique houtcome htypes
      have hlength : (found base.space (typeBrowse base.space (numericId 1 10))
          (.ok (some [numericId 0 aggregates]))).length = 101 := by decide +kernel
      rcases hfits with hfew | ⟨hfull, _⟩
      · exact absurd (hlength ▸ hfew) (by decide)
      · exact absurd (hlength ▸ hfull) (by decide)

end Completeness

end OpcUa.WholeInstances
