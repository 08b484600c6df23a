import OpcUa.Batches
import OpcUa.NodeDeletion

namespace OpcUa.ReferenceArrays

open StatusCodes NodeIds DataTypes AddressSpaces References MirroredReferences NodeDeletion Batches

/-- What `node->references` points to, with the bytes of a block that is
allocated. -/
inductive Pointer
  | null
  | live (bytes : Nat)
  | released
deriving DecidableEq, Repr

/-- The pointer and the entries in front of `referencesSize`. -/
structure ReferenceArray where
  pointer : Pointer
  references : List ReferenceNode

/-- `sizeof(UA_ReferenceNode)` -/
def referenceNodeSize : Nat := 80

/-- `PTRDIFF_MAX`. No block is larger. -/
def maxBlock : Nat := 2 ^ 63 - 1

/-- What the memory management answers to an edit. -/
structure Memory where
  granted : Bool
  typeCopy : StatusCode
  targetCopy : StatusCode

/-- `UA_realloc`, whose result can be `NULL`. For a block that has been released
its behaviour is not defined. -/
def realloc (granted : Bool) (bytes : Nat) : Pointer → Option (Option Pointer)
  | .released => none
  | _ => some (if granted = true ∧ bytes ≤ maxBlock then some (.live bytes) else none)

/-- The size of the array, in the 64 bits of a `size_t`. -/
def newBytes (size : Nat) : Nat := referenceNodeSize * ((size + 1) ||| 3) % 2 ^ 64

def addOneWayReference (memory : Memory) (item : AddReferencesItem) (a : ReferenceArray) :
    Option (StatusCode × ReferenceArray) :=
  (realloc memory.granted (newBytes a.references.length) a.pointer).map fun
    | none => (badOutOfMemory, a)
    | some pointer =>
        let retval := memory.typeCopy ||| memory.targetCopy
        (retval, ⟨pointer, if retval = good then a.references ++ [added item] else a.references⟩)

/-- The first index of the loop, a `UA_Int32`. -/
def lastIndex (size : Nat) : Int := ((size : Int) - 1).bmod (2 ^ 32)

def searched (references : List ReferenceNode) : List ReferenceNode :=
  references.take (lastIndex references.length + 1).toNat

def deleteOneWayReference (item : DeleteReferencesItem) (a : ReferenceArray) : Option (StatusCode × ReferenceArray) :=
  match a.pointer, lastMatch item.matches (searched a.references) with
  | .live _, some i =>
      let references := overrideWithLast a.references i
      some (good, ⟨if references = [] then .released else a.pointer, references⟩)
  | .live _, none => some (uncertainReferenceNotDeleted, a)
  | _, _ => if a.references = [] then some (uncertainReferenceNotDeleted, a) else none

/-- The edits of the references of a node. -/
inductive Edit
  | add (memory : Memory) (item : AddReferencesItem)
  | delete (item : DeleteReferencesItem)

def perform (a : ReferenceArray) : Edit → Option (StatusCode × ReferenceArray)
  | .add memory item => addOneWayReference memory item a
  | .delete item => deleteOneWayReference item a

/-- The pointer is `NULL`, or the block has room for the entries. -/
def Valid (a : ReferenceArray) : Prop :=
  match a.pointer with
  | .null => a.references = []
  | .live bytes => a.references.length * referenceNodeSize ≤ bytes ∧ bytes ≤ maxBlock
  | .released => False

abbrev Entry := Edit × StatusCode

def additions (log : List Entry) : List ReferenceNode :=
  log.filterMap fun
    | (.add _ item, status) => if status = good then some (added item) else none
    | (.delete _, _) => none

def deletions (log : List Entry) : List DeleteReferencesItem :=
  log.filterMap fun
    | (.add _ _, _) => none
    | (.delete item, status) => if status = good then some item else none

/-- The array is sound, and holds what it held before and what was added, less
one match for each deletion. -/
structure Holds (start : ReferenceArray) (log : List Entry) (a : ReferenceArray) : Prop where
  valid : Valid a
  contents : ∃ removed, List.Forall₂ (fun item r => item.matches r = true) (deletions log) removed ∧
    (removed ++ a.references).Perm (start.references ++ additions log)

def Sound (start : ReferenceArray) (edits : List Edit) : Prop :=
  ∀ done rest, edits = done ++ rest →
    ∃ statuses a, batch perform start done = some (statuses, a) ∧ Holds start (done.zip statuses) a

def NeverEmptied (start : ReferenceArray) (edits : List Edit) : Prop :=
  ∀ done item rest, edits = done ++ .delete item :: rest → ∀ statuses a, batch perform start done = some (statuses, a) →
    ∀ r, a.references = [r] → item.matches r = false

variable {a a' start : ReferenceArray} {memory : Memory} {item : DeleteReferencesItem} {status : StatusCode}

section Sizes

theorem lor_three_le (n : Nat) : n ||| 3 ≤ n + 3 := by
  have hdiv : (n ||| 3) / 2 ^ 2 = n / 2 ^ 2 := by
    rw [Nat.or_div_two_pow]
    simp
  have hmod : (n ||| 3) % 2 ^ 2 < 2 ^ 2 := Nat.mod_lt _ (by decide)
  omega

theorem newBytes_eq {size bytes : Nat} (h : size * referenceNodeSize ≤ bytes) (hmax : bytes ≤ maxBlock) :
    newBytes size = referenceNodeSize * ((size + 1) ||| 3) := by
  have hle := lor_three_le (size + 1)
  refine Nat.mod_eq_of_lt ?_
  unfold referenceNodeSize maxBlock at *
  omega

theorem le_newBytes {size bytes : Nat} (h : size * referenceNodeSize ≤ bytes) (hmax : bytes ≤ maxBlock) :
    (size + 1) * referenceNodeSize ≤ newBytes size := by
  have hle : size + 1 ≤ (size + 1) ||| 3 := Nat.left_le_or
  rw [newBytes_eq h hmax, Nat.mul_comm]
  exact Nat.mul_le_mul_left _ hle

theorem lastIndex_of_le {size : Nat} (hpos : 0 < size) (h : size ≤ 2 ^ 31) : lastIndex size = (size : Int) - 1 := by
  unfold lastIndex
  rw [Int.bmod_def]
  split <;> omega

theorem searched_of_le {references : List ReferenceNode} (h : references.length ≤ 2 ^ 31) :
    searched references = references := by
  refine List.take_of_length_le ?_
  rcases Nat.eq_zero_or_pos references.length with hzero | hpos
  · rw [hzero]
    exact Nat.zero_le _
  · rw [lastIndex_of_le hpos h]
    omega

end Sizes

section Steps

theorem realloc_of_valid (h : Valid a) (bytes : Nat) : realloc memory.granted bytes a.pointer =
    some (if memory.granted = true ∧ bytes ≤ maxBlock then some (.live bytes) else none) := by
  rw [Valid] at h
  cases hp : a.pointer with
  | null => rfl
  | live _ => rfl
  | released =>
      rw [hp] at h
      exact h.elim

theorem length_le_newBytes (h : Valid a) : (a.references.length + 1) * referenceNodeSize ≤
    newBytes a.references.length := by
  rw [Valid] at h
  cases hp : a.pointer with
  | null =>
      rw [hp] at h
      dsimp only at h
      rw [h]
      decide
  | live bytes =>
      rw [hp] at h
      exact le_newBytes h.1 h.2
  | released =>
      rw [hp] at h
      exact h.elim

def addStatus (memory : Memory) (size : Nat) : StatusCode :=
  if memory.granted = true ∧ newBytes size ≤ maxBlock then memory.typeCopy ||| memory.targetCopy else badOutOfMemory

theorem add_spec (h : Valid a) (memory : Memory) (item : AddReferencesItem) :
    ∃ status a', addOneWayReference memory item a = some (status, a') ∧ Valid a' ∧
      status = addStatus memory a.references.length ∧
      a'.references = if status = good then a.references ++ [added item] else a.references := by
  have hroom := length_le_newBytes h
  rw [addOneWayReference, realloc_of_valid h, Option.map_some, addStatus]
  by_cases hgranted : memory.granted = true ∧ newBytes a.references.length ≤ maxBlock
  · rw [if_pos hgranted, if_pos hgranted]
    refine ⟨_, _, rfl, ?_, rfl, rfl⟩
    refine ⟨?_, hgranted.2⟩
    dsimp only
    split
    · rw [List.length_append, List.length_singleton]
      exact hroom
    · exact (Nat.mul_le_mul_right _ (Nat.le_succ _)).trans hroom
  · rw [if_neg hgranted, if_neg hgranted]
    refine ⟨_, _, rfl, h, rfl, ?_⟩
    rw [if_neg (by decide)]

theorem delete_spec (h : Valid a) (item : DeleteReferencesItem) :
    ∃ status a', deleteOneWayReference item a = some (status, a') ∧
      ((status ≠ good ∧ a' = a) ∨
        status = good ∧ (∃ r, item.matches r = true ∧ (r :: a'.references).Perm a.references) ∧
          a'.pointer = if a'.references = [] then .released else a.pointer) := by
  rw [Valid] at h
  unfold deleteOneWayReference
  cases hp : a.pointer with
  | null =>
      rw [hp] at h
      dsimp only at h ⊢
      rw [if_pos h]
      exact ⟨_, _, rfl, .inl ⟨by decide, rfl⟩⟩
  | live bytes =>
      cases hlast : lastMatch item.matches (searched a.references) with
      | none => exact ⟨_, _, rfl, .inl ⟨by decide, rfl⟩⟩
      | some i =>
          obtain ⟨r, hr, hmatches⟩ := lastMatch_some hlast
          have hr : a.references[i]? = some r := by
            rw [searched, List.getElem?_take] at hr
            split at hr
            · exact hr
            · cases hr
          exact ⟨_, _, rfl, .inr ⟨rfl, ⟨r, hmatches, overrideWithLast_perm hr⟩, rfl⟩⟩
  | released =>
      rw [hp] at h
      exact h.elim

theorem delete_singleton (h : Valid a) {r : ReferenceNode} (hr : a.references = [r])
    (hmatches : item.matches r = true) :
    deleteOneWayReference item a = some (good, ⟨.released, []⟩) := by
  rw [Valid] at h
  unfold deleteOneWayReference
  cases hp : a.pointer with
  | null =>
      rw [hp] at h
      dsimp only at h
      rw [h] at hr
      cases hr
  | live bytes =>
      have hsearched : searched a.references = [r] := by
        rw [hr]
        exact searched_of_le (Nat.le_of_ble_eq_true rfl)
      have hlast : lastMatch item.matches [r] = some 0 := by
        simp [lastMatch, List.findIdx?_cons, hmatches]
      rw [hsearched, hlast, hr]
      rfl
  | released =>
      rw [hp] at h
      exact h.elim

/-- The array is the list of the references as long as the index of the loop
reaches all of them. -/
theorem delete_references (h : Valid a) (hlength : a.references.length ≤ 2 ^ 31) {n : Node}
    (hn : n.references = a.references) : (deleteOneWayReference item a).map (fun r => (r.1, r.2.references)) =
      some ((References.deleteOneWayReference item n).1, (References.deleteOneWayReference item n).2.references) := by
  rw [Valid] at h
  unfold deleteOneWayReference References.deleteOneWayReference
  rw [searched_of_le hlength, hn]
  cases hp : a.pointer with
  | null =>
      rw [hp] at h
      dsimp only at h ⊢
      rw [if_pos h, h]
      exact congrArg some (Prod.ext rfl (h.symm ▸ hn.trans h).symm)
  | live bytes =>
      cases lastMatch item.matches a.references with
      | none => exact congrArg some (Prod.ext rfl hn.symm)
      | some i => rfl
  | released =>
      rw [hp] at h
      exact h.elim

theorem add_references (h : Valid a) (hgood : addStatus memory a.references.length = good)
    {item : AddReferencesItem} {n : Node} (hn : n.references = a.references) :
    (addOneWayReference memory item a).map (fun r => (r.1, r.2.references)) =
      some ((References.addOneWayReference item n).1, (References.addOneWayReference item n).2.references) := by
  obtain ⟨status, a', hrun, _, rfl, hreferences⟩ := add_spec h memory item
  rw [hrun, Option.map_some, hreferences, hgood, if_pos rfl, ← hn]
  rfl

end Steps

section Runs

variable {log : List Entry} {e : Edit} {done edits : List Edit} {statuses : List StatusCode}

theorem additions_concat (log : List Entry) (entry : Entry) :
    additions (log ++ [entry]) = additions log ++ additions [entry] := List.filterMap_append

theorem deletions_concat (log : List Entry) (entry : Entry) :
    deletions (log ++ [entry]) = deletions log ++ deletions [entry] := List.filterMap_append

theorem holds_step (h : Holds start log a)
    (hlast : ∀ item, e = .delete item → ∀ r, a.references = [r] → item.matches r = false) :
    ∃ status a', perform a e = some (status, a') ∧ Holds start (log ++ [(e, status)]) a' := by
  obtain ⟨removed, hremoved, hcontents⟩ := h.contents
  cases e with
  | add memory item =>
      obtain ⟨status, a', hrun, hvalid, _, hreferences⟩ := add_spec h.valid memory item
      refine ⟨status, a', hrun, hvalid, removed, ?_, ?_⟩
      · rw [deletions_concat]
        exact (List.append_nil (deletions log)).symm ▸ hremoved
      · rw [additions_concat, hreferences]
        by_cases hgood : status = good
        · subst hgood
          rw [if_pos rfl, ← List.append_assoc, ← List.append_assoc]
          exact hcontents.append_right _
        · have hnothing : additions [(.add memory item, status)] = [] := by simp [additions, hgood]
          rw [if_neg hgood, hnothing, List.append_nil]
          exact hcontents
  | delete item =>
      obtain ⟨status, a', hrun, hcases⟩ := delete_spec h.valid item
      refine ⟨status, a', hrun, ?_⟩
      rcases hcases with ⟨hbad, rfl⟩ | ⟨rfl, ⟨r, hmatches, hperm⟩, hpointer⟩
      · have hnothing : deletions [(.delete item, status)] = [] := by simp [deletions, hbad]
        refine ⟨h.valid, removed, ?_, ?_⟩
        · rw [deletions_concat, hnothing, List.append_nil]
          exact hremoved
        · rw [additions_concat]
          exact (List.append_nil (additions log)).symm ▸ hcontents
      · have hleft : a'.references ≠ [] := by
          intro hempty
          rw [hempty] at hperm
          have hsingle : a.references = [r] := List.singleton_perm.mp hperm |>.symm
          rw [hlast item rfl r hsingle] at hmatches
          cases hmatches
        rw [if_neg hleft] at hpointer
        have hlength := hperm.length_eq
        rw [List.length_cons] at hlength
        refine ⟨?_, removed ++ [r], ?_, ?_⟩
        · have hvalid := h.valid
          rw [Valid] at hvalid ⊢
          rw [hpointer]
          cases hp : a.pointer with
          | null =>
              rw [hp] at hvalid
              dsimp only at hvalid
              rw [hvalid] at hlength
              cases hlength
          | live bytes =>
              rw [hp] at hvalid
              refine ⟨(Nat.mul_le_mul_right _ ?_).trans hvalid.1, hvalid.2⟩
              omega
          | released =>
              rw [hp] at hvalid
              exact hvalid
        · rw [deletions_concat]
          exact List.rel_append hremoved (.cons hmatches .nil)
        · rw [additions_concat]
          refine .trans ?_ ((List.append_nil (additions log)).symm ▸ hcontents)
          rw [List.append_assoc]
          exact hperm.append_left removed

theorem neverEmptied_of_concat (h : NeverEmptied start (edits ++ [e])) : NeverEmptied start edits := by
  intro done item rest heq
  refine h done item (rest ++ [e]) ?_
  rw [heq, List.append_assoc]
  rfl

theorem zip_concat (h : batch perform start done = some (statuses, a)) (status : StatusCode) :
    (done ++ [e]).zip (statuses ++ [status]) = done.zip statuses ++ [(e, status)] :=
  List.zip_append (batch_iff_run.mp h).1.symm

theorem holds_run (hstart : Valid start) (edits : List Edit) (hnever : NeverEmptied start edits) :
    ∃ statuses a, batch perform start edits = some (statuses, a) ∧ Holds start (edits.zip statuses) a := by
  induction edits using List.reverseRecOn with
  | nil =>
      refine ⟨[], start, rfl, hstart, [], .nil, ?_⟩
      exact (List.append_nil start.references).symm ▸ .refl _
  | append_singleton edits e ih =>
      obtain ⟨statuses, a, hrun, hholds⟩ := ih (neverEmptied_of_concat hnever)
      have hlast : ∀ item, e = .delete item → ∀ r, a.references = [r] → item.matches r = false := by
        rintro item rfl
        exact hnever edits item [] rfl statuses a hrun
      obtain ⟨status, a', hstep, hholds'⟩ := holds_step hholds hlast
      refine ⟨statuses ++ [status], a', ?_, ?_⟩
      · rw [batch_concat hrun, hstep]
        rfl
      · rw [zip_concat hrun]
        exact hholds'

/-- The array is sound in every state of a run if and only if no deletion takes
the last entry away. -/
theorem references_sound_iff (start : ReferenceArray) (hstart : Valid start) (edits : List Edit) :
    Sound start edits ↔ NeverEmptied start edits := by
  constructor
  · rintro hsound done item rest rfl statuses a hrun r hr
    rw [← Bool.not_eq_true]
    intro hmatches
    obtain ⟨_, _, hrun', hholds⟩ := hsound done (.delete item :: rest) rfl
    cases hrun.symm.trans hrun'
    obtain ⟨statuses', a', hnext, hholds'⟩ := hsound (done ++ [.delete item]) rest (by simp)
    rw [batch_concat hrun, perform, delete_singleton hholds.valid hr hmatches] at hnext
    cases hnext
    exact hholds'.valid
  · rintro hnever done rest rfl
    refine holds_run hstart done ?_
    intro done' item rest' heq
    refine hnever done' item (rest' ++ rest) ?_
    rw [heq, List.append_assoc]
    rfl

end Runs

section Samples

def workingMemory : Memory := ⟨true, good, good⟩

def sampleEmpty : ReferenceArray := ⟨.null, []⟩

def sampleAdd (target : NodeId) : Edit :=
  .add workingMemory ⟨numericId 1 1, numericId 0 35, true, none, ⟨target, none, 0⟩⟩

def sampleDelete (target : NodeId) : Edit :=
  .delete ⟨numericId 1 1, numericId 0 35, true, ⟨target, none, 0⟩, false⟩

theorem references_sound_sample :
    Sound sampleEmpty [sampleAdd (numericId 1 2), sampleAdd (numericId 1 3), sampleDelete (numericId 1 2)] := by
  refine (references_sound_iff sampleEmpty rfl _).mpr ?_
  intro done item rest heq statuses a hrun r hr
  rcases done with _ | ⟨e, _ | ⟨e', _ | ⟨e'', done⟩⟩⟩
  · cases heq
  · cases heq
  · cases heq
    cases hrun
    cases hr
  · simp at heq

/-- A reference is added, deleted and added again. -/
theorem references_released :
    Valid sampleEmpty ∧
      ¬ Sound sampleEmpty [sampleAdd (numericId 1 2), sampleDelete (numericId 1 2), sampleAdd (numericId 1 2)] ∧
      batch perform sampleEmpty [sampleAdd (numericId 1 2), sampleDelete (numericId 1 2), sampleAdd (numericId 1 2)] =
        none := by
  refine ⟨rfl, ?_, rfl⟩
  intro hsound
  obtain ⟨statuses, a, hrun, _⟩ := hsound _ [] (List.append_nil _).symm
  cases hrun

end Samples

end OpcUa.ReferenceArrays
