import OpcUa.NodeDeletion

namespace OpcUa.BidirectionalDeletion

open StatusCodes NodeIds DataTypes AddressSpaces References SubTypes Browsing NodeManagement MirroredReferences
  NodeDeletion

/-- The item for the other direction, with the type of the reference. -/
def mirror (item : DeleteReferencesItem) : DeleteReferencesItem :=
    { item.second with referenceTypeId := item.referenceTypeId }

def Picks (item : DeleteReferencesItem) (references : List ReferenceNode) : Option ReferenceNode → Prop
  | none => ∀ r ∈ references, item.matches r = false
  | some r => r ∈ references ∧ item.matches r = true

/-- Exactly these references are gone, the first one from the source and the
second one from the target. -/
def TakesAway (s : AddressSpace) (item : DeleteReferencesItem) (s' : AddressSpace)
    (first second : Option ReferenceNode) :
    Prop :=
  ∀ a, (s'.get a).map bare = (s.get a).map bare ∧
    ((if nodeIdEqual item.sourceNodeId a then first.toList else []) ++
      ((if nodeIdEqual item.targetNodeId.nodeId a then second.toList else []) ++ refsAt s' a)).Perm (refsAt s a)

/-- One matching reference is deleted at the source, and with it its mirror at
the target, and the status tells whether both are. -/
def DeletesBoth (s : AddressSpace) (item : DeleteReferencesItem) (result : StatusCode × AddressSpace) : Prop :=
  ∃ first second, Picks item (refsAt s item.sourceNodeId) first ∧
    (first.isSome = true → Picks (mirror item) (refsAt s item.targetNodeId.nodeId) second) ∧
    (first = none → second = none) ∧ TakesAway s item result.2 first second ∧
    (result.1 = good ↔ first.isSome = true ∧ second.isSome = true)

variable {s s' : AddressSpace} {item : DeleteReferencesItem} {id : NodeId} {l : List ReferenceNode}

def HasMatch (item : DeleteReferencesItem) (references : List ReferenceNode) : Prop :=
  ∃ r ∈ references, item.matches r = true

theorem status_deleteOneWay : (editNode s id (deleteOneWayReference item)).1 = good ↔ HasMatch item (refsAt s id) := by
  cases hn : s.get id with
  | none =>
      rw [editNode_none hn, refsAt, hn]
      refine iff_of_false (by decide : badNodeIdUnknown ≠ good) ?_
      rintro ⟨r, hr, _⟩
      cases hr
  | some n =>
      rw [editNode_some hn, refsAt_of_get hn, deleteOneWayReference]
      cases hlast : lastMatch item.matches n.references with
      | none =>
          refine iff_of_false (by decide : uncertainReferenceNotDeleted ≠ good) ?_
          rintro ⟨r, hr, hmatches⟩
          rw [lastMatch_none.mp hlast r hr] at hmatches
          cases hmatches
      | some i =>
          obtain ⟨r, hr, hmatches⟩ := lastMatch_some hlast
          exact iff_of_true rfl ⟨r, List.mem_of_getElem? hr, hmatches⟩

theorem get_deleteOneWay (a : NodeId) : ((editNode s id (deleteOneWayReference item)).2.get a).map bare =
    (s.get a).map bare := by
  refine bare_editNode ?_
  intro n
  rw [deleteOneWayReference]
  split <;> rfl

theorem isSome_of_picks {r : Option ReferenceNode} (h : Picks item l r) (hmatch : HasMatch item l) :
    r.isSome = true := by
  obtain ⟨r', hr', hmatches⟩ := hmatch
  cases r with
  | none =>
      rw [h r' hr'] at hmatches
      cases hmatches
  | some _ => rfl

theorem matches_of_picks {r : Option ReferenceNode} (h : Picks item l r) : ∀ x ∈ r, item.matches x = true := by
  rintro x rfl
  exact h.2

theorem countP_option {p : ReferenceNode → Bool} {r : Option ReferenceNode} (h : ∀ x ∈ r, p x = false) (c : Bool) :
    (if c then r.toList else []).countP p = 0 := by
  rw [List.countP_eq_zero]
  intro x hx
  cases c with
  | false => cases hx
  | true =>
      rw [h x (Option.mem_toList.mp hx)]
      exact Bool.false_ne_true

theorem picks_deleteFrom (item : DeleteReferencesItem) (l : List ReferenceNode) :
    ∃ r, Picks item l r ∧ (r.isSome = true ↔ HasMatch item l) ∧ (r.toList ++ deleteFrom item l).Perm l := by
  rcases deleteFrom_cases item l with ⟨hsame, hnone⟩ | ⟨r, hmatches, hperm⟩
  · refine ⟨none, hnone, iff_of_false Bool.false_ne_true ?_, by rw [hsame]; exact .refl l⟩
    rintro ⟨r, hr, hmatches⟩
    rw [hnone r hr] at hmatches
    cases hmatches
  · have hmem : r ∈ l := hperm.mem_iff.mp List.mem_cons_self
    exact ⟨some r, ⟨hmem, hmatches⟩, iff_of_true rfl ⟨r, hmem, hmatches⟩, hperm⟩

section Halves

theorem not_matches_second {item' : DeleteReferencesItem} {r : ReferenceNode}
    (hdirection : item'.isForward = !item.isForward)
    (h : item.matches r = true) : item'.matches r = false := by
  simp only [DeleteReferencesItem.matches, Bool.and_eq_true] at h ⊢
  rw [hdirection]
  cases hf : item.isForward <;> cases hi : r.isInverse <;> simp_all

/-- The references of a node between the two deletions. -/
def remaining (s : AddressSpace) (item : DeleteReferencesItem) (a : NodeId) : List ReferenceNode :=
  if nodeIdEqual item.sourceNodeId a then deleteFrom item (refsAt s a) else refsAt s a

theorem countP_remaining (s : AddressSpace) (item : DeleteReferencesItem) (a : NodeId) :
    (remaining s item a).countP item.second.matches = (refsAt s a).countP item.second.matches := by
  rw [remaining]
  split
  · exact countP_deleteFrom_of_disjoint (fun r h => not_matches_second rfl h)
  · rfl

theorem hasMatch_remaining (a : NodeId) :
    HasMatch item.second (remaining s item a) ↔ HasMatch item.second (refsAt s a) := by
  have hpos : ∀ l, HasMatch item.second l ↔ 0 < l.countP item.second.matches := fun _ => List.countP_pos_iff.symm
  rw [hpos, hpos, countP_remaining]

theorem perm_remaining {first : Option ReferenceNode}
    (h : (first.toList ++ deleteFrom item (refsAt s item.sourceNodeId)).Perm (refsAt s item.sourceNodeId))
    (a : NodeId) :
    ((if nodeIdEqual item.sourceNodeId a then first.toList else []) ++ remaining s item a).Perm (refsAt s a) := by
  rw [remaining]
  cases hsource : nodeIdEqual item.sourceNodeId a with
  | true =>
      rw [refsAt_congr hsource] at h
      exact h
  | false => exact .refl _

theorem mem_remaining {r : ReferenceNode} {a : NodeId} (hr : r ∈ remaining s item a) : r ∈ refsAt s a := by
  obtain ⟨_, _, _, hperm⟩ := picks_deleteFrom item (refsAt s item.sourceNodeId)
  exact (perm_remaining hperm a).mem_iff.mp (List.mem_append_right _ hr)

theorem remaining_congr {a b : NodeId} (h : nodeIdEqual a b = true) : remaining s item a = remaining s item b := by
  rw [remaining, remaining, refsAt_congr h, nodeIdEqual_congr_right h]

theorem refsAt_deleteBoth (hdelete : item.deleteBidirectional = true) (hlocal : item.targetNodeId.serverIndex = 0)
    (a : NodeId) : refsAt (deleteReferencesSingle s item).2 a =
      if nodeIdEqual item.targetNodeId.nodeId a then deleteFrom item.second (remaining s item a)
      else remaining s item a := by
  rw [deleteReferencesSingle, hdelete, hlocal]
  exact (refsAt_deleteOneWay _ a).trans (by rw [refsAt_deleteOneWay]; rfl)

theorem status_deleteBoth (hdelete : item.deleteBidirectional = true) (hlocal : item.targetNodeId.serverIndex = 0) :
    (deleteReferencesSingle s item).1 = good ↔ HasMatch item.second (refsAt s item.targetNodeId.nodeId) := by
  rw [deleteReferencesSingle, hdelete, hlocal]
  refine status_deleteOneWay.trans ?_
  rw [refsAt_deleteOneWay]
  exact hasMatch_remaining item.targetNodeId.nodeId

theorem get_deleteBoth (a : NodeId) :
    ((deleteReferencesSingle s item).2.get a).map bare = (s.get a).map bare := by
  rw [deleteReferencesSingle]
  split
  · exact get_deleteOneWay a
  · rw [get_deleteOneWay, get_deleteOneWay]

theorem takesAway_deleteBoth (hdelete : item.deleteBidirectional = true) (hlocal : item.targetNodeId.serverIndex = 0)
    {first second : Option ReferenceNode}
    (hfirst : (first.toList ++ deleteFrom item (refsAt s item.sourceNodeId)).Perm (refsAt s item.sourceNodeId))
    (hsecond : (second.toList ++ deleteFrom item.second (remaining s item item.targetNodeId.nodeId)).Perm
      (remaining s item item.targetNodeId.nodeId)) :
    TakesAway s item (deleteReferencesSingle s item).2 first second := by
  intro a
  refine ⟨get_deleteBoth a, ?_⟩
  rw [refsAt_deleteBoth hdelete hlocal]
  refine (List.Perm.append_left _ ?_).trans (perm_remaining hfirst a)
  cases htarget : nodeIdEqual item.targetNodeId.nodeId a with
  | true =>
      rw [remaining_congr htarget] at hsecond
      exact hsecond
  | false => exact .refl _

end Halves

section Agreement

/-- Where the type is not null, the target has no reference to the source
without a type and no mirror for what is deleted; where it is null, the target has
no mirror without a match at the source. -/
def Paired (s : AddressSpace) (item : DeleteReferencesItem) : Prop :=
  (HasMatch item.second (refsAt s item.targetNodeId.nodeId) →
    nodeIdEqual item.referenceTypeId nullId = true ∧ HasMatch item (refsAt s item.sourceNodeId)) ∧
  (HasMatch item (refsAt s item.sourceNodeId) → HasMatch (mirror item) (refsAt s item.targetNodeId.nodeId) →
    nodeIdEqual item.referenceTypeId nullId = true)

theorem mirror_matches (h : nodeIdEqual item.referenceTypeId nullId = true) :
    (mirror item).matches = item.second.matches := by
  funext r
  simp only [DeleteReferencesItem.matches, mirror, DeleteReferencesItem.second]
  rw [nodeIdEqual_comm item.referenceTypeId, nodeIdEqual_comm nullId, nodeIdEqual_congr_right h]

theorem hasMatch_mirror (h : nodeIdEqual item.referenceTypeId nullId = true) :
    HasMatch (mirror item) l ↔ HasMatch item.second l := by
  rw [HasMatch, HasMatch, mirror_matches h]

theorem null_of_matches {r : ReferenceNode} (h : (mirror item).matches r = true) (h' : item.second.matches r = true) :
    nodeIdEqual item.referenceTypeId nullId = true := by
  simp only [DeleteReferencesItem.matches, Bool.and_eq_true] at h h'
  exact nodeIdEqual_trans h.1.2 (nodeIdEqual_symm h'.1.2)

/-- Where nothing else is gone, the second half has deleted a reference of the
type. -/
theorem null_of_takesAway (hdelete : item.deleteBidirectional = true) (hlocal : item.targetNodeId.serverIndex = 0)
    {first second : Option ReferenceNode} (hfirst : Picks item (refsAt s item.sourceNodeId) first)
    (hsecond : first.isSome = true → Picks (mirror item) (refsAt s item.targetNodeId.nodeId) second)
    (hnone : first = none → second = none)
    (htakes : TakesAway s item (deleteReferencesSingle s item).2 first second)
    (hmatch : HasMatch item.second (refsAt s item.targetNodeId.nodeId)) :
    nodeIdEqual item.referenceTypeId nullId = true := by
  by_contra hnull
  have hperm := (htakes item.targetNodeId.nodeId).2
  -- neither of the two matches the second item
  have hzero : ∀ c : Bool, (if c then first.toList else []).countP item.second.matches = 0 :=
    countP_option fun x hx => not_matches_second rfl (matches_of_picks hfirst x hx)
  have hzero' : ∀ c : Bool, (if c then second.toList else []).countP item.second.matches = 0 := by
    refine countP_option fun x hx => ?_
    have hsome : first.isSome = true := by
      cases first with
      | none => cases (hnone rfl).symm.trans hx
      | some _ => rfl
    rw [← Bool.not_eq_true]
    exact fun h => hnull (null_of_matches (matches_of_picks (hsecond hsome) x hx) h)
  have hcount := hperm.countP_eq item.second.matches
  rw [List.countP_append, List.countP_append, hzero, hzero', refsAt_deleteBoth hdelete hlocal,
    if_pos (nodeIdEqual_refl _), countP_deleteFrom_matches] at hcount
  have hkept := countP_remaining s item item.targetNodeId.nodeId
  have hpos : 0 < (refsAt s item.targetNodeId.nodeId).countP item.second.matches := List.countP_pos_iff.mpr hmatch
  omega

/-- The reference that is deleted at the target is the mirror. -/
theorem picks_mirror {second : Option ReferenceNode} (hpaired : Paired s item)
    (hmatch : HasMatch item (refsAt s item.sourceNodeId))
    (h : Picks item.second (remaining s item item.targetNodeId.nodeId) second) :
    Picks (mirror item) (refsAt s item.targetNodeId.nodeId) second := by
  cases second with
  | some r =>
      refine ⟨mem_remaining h.1, ?_⟩
      rw [mirror_matches (hpaired.1 ⟨r, mem_remaining h.1, h.2⟩).1]
      exact h.2
  | none =>
      intro r hr
      rw [← Bool.not_eq_true]
      intro hmatches
      have htype := hpaired.2 hmatch ⟨r, hr, hmatches⟩
      obtain ⟨r', hr', hmatches'⟩ := (hasMatch_remaining _).mpr ((hasMatch_mirror htype).mp ⟨r, hr, hmatches⟩)
      rw [h r' hr'] at hmatches'
      cases hmatches'

/-- A reference is deleted together with its mirror if and only if the null type
of the second half does no harm. -/
theorem deleteReferences_both_iff (s : AddressSpace) (item : DeleteReferencesItem)
    (hdelete : item.deleteBidirectional = true) (hlocal : item.targetNodeId.serverIndex = 0) :
    DeletesBoth s item (deleteReferencesSingle s item) ↔ Paired s item := by
  constructor
  · rintro ⟨first, second, hfirst, hsecond, hnone, htakes, hstatus⟩
    rw [status_deleteBoth hdelete hlocal] at hstatus
    refine ⟨fun hmatch => ⟨null_of_takesAway hdelete hlocal hfirst hsecond hnone htakes hmatch, ?_⟩, ?_⟩
    · obtain ⟨r, rfl⟩ := Option.isSome_iff_exists.mp (hstatus.mp hmatch).1
      exact ⟨r, hfirst⟩
    · intro hmatch hmatch'
      have hsome := isSome_of_picks hfirst hmatch
      have hsome' := isSome_of_picks (hsecond hsome) hmatch'
      exact null_of_takesAway hdelete hlocal hfirst hsecond hnone htakes (hstatus.mpr ⟨hsome, hsome'⟩)
  · intro hpaired
    obtain ⟨first, hfirst, hfirst_iff, hperm⟩ := picks_deleteFrom item (refsAt s item.sourceNodeId)
    obtain ⟨second, hsecond, hsecond_iff, hperm'⟩ :=
      picks_deleteFrom item.second (remaining s item item.targetNodeId.nodeId)
    rw [hasMatch_remaining] at hsecond_iff
    have hboth : second.isSome = true → first.isSome = true :=
      fun hsome => hfirst_iff.mpr (hpaired.1 (hsecond_iff.mp hsome)).2
    refine ⟨first, second, hfirst, fun hsome => picks_mirror hpaired (hfirst_iff.mp hsome) hsecond, ?_,
      takesAway_deleteBoth hdelete hlocal hperm hperm', ?_⟩
    · rintro rfl
      cases second with
      | none => rfl
      | some r => cases hboth rfl
    · rw [status_deleteBoth hdelete hlocal, ← hsecond_iff]
      exact ⟨fun hsome => ⟨hboth hsome, hsome⟩, And.right⟩

end Agreement

section Samples

def sampleDeletion (referenceTypeId : NodeId) : DeleteReferencesItem where
  sourceNodeId := numericId 1 1
  referenceTypeId := referenceTypeId
  isForward := true
  targetNodeId := ⟨numericId 1 2, none, 0⟩
  deleteBidirectional := true

theorem deleteReferences_both_sampleLink :
    DeletesBoth (sampleLink nullId).space (sampleDeletion nullId)
      (deleteReferencesSingle (sampleLink nullId).space (sampleDeletion nullId)) := by
  refine (deleteReferences_both_iff (sampleLink nullId).space (sampleDeletion nullId) rfl rfl).mpr
    ⟨fun _ => ⟨by decide, ?_⟩, fun _ _ => by decide⟩
  exact ⟨⟨nullId, false, ⟨numericId 1 2, none, 0⟩⟩, by decide, by decide⟩

/-- The mirror of a reference of the type Organizes stays. -/
theorem deleteReferences_keeps_mirror :
    ¬ DeletesBoth (sampleLink (numericId 0 35)).space (sampleDeletion (numericId 0 35))
      (deleteReferencesSingle (sampleLink (numericId 0 35)).space (sampleDeletion (numericId 0 35))) := by
  rintro ⟨first, second, hfirst, hsecond, _, _, hstatus⟩
  have hsome : first.isSome = true := isSome_of_picks hfirst ⟨organizes (numericId 1 2), by decide, by decide⟩
  have hsome' : second.isSome = true :=
    isSome_of_picks (hsecond hsome) ⟨⟨numericId 0 35, true, ⟨numericId 1 1, none, 0⟩⟩, by decide, by decide⟩
  revert hstatus
  rw [hsome, hsome']
  decide

end Samples

end OpcUa.BidirectionalDeletion
