import OpcUa.MirroredReferences

namespace OpcUa.NodeDeletion

open StatusCodes NodeIds DataTypes AddressSpaces References SubTypes Browsing NodeManagement MirroredReferences
  Worklists Relation

section Deleting

/-- The references that `deleteOneWayReference` leaves. -/
def deleteFrom (item : DeleteReferencesItem) (references : List ReferenceNode) : List ReferenceNode :=
  match lastMatch item.matches references with
  | none => references
  | some i => overrideWithLast references i

variable {item : DeleteReferencesItem} {l : List ReferenceNode} {id : NodeId} {r : ReferenceNode}

theorem deleteFrom_cases (item : DeleteReferencesItem) (l : List ReferenceNode) :
    (deleteFrom item l = l ∧ ∀ r ∈ l, item.matches r = false) ∨
      ∃ r, item.matches r = true ∧ (r :: deleteFrom item l).Perm l := by
  rw [deleteFrom]
  cases h : lastMatch item.matches l with
  | none => exact .inl ⟨rfl, lastMatch_none.mp h⟩
  | some i =>
      obtain ⟨r, hr, hmatches⟩ := lastMatch_some h
      exact .inr ⟨r, hmatches, overrideWithLast_perm hr⟩

theorem countP_deleteFrom_matches : (deleteFrom item l).countP item.matches = l.countP item.matches - 1 := by
  rcases deleteFrom_cases item l with ⟨hsame, hnone⟩ | ⟨r, hmatches, hperm⟩
  · have hzero : l.countP item.matches = 0 := by
      rw [List.countP_eq_zero]
      exact fun r hr => by rw [hnone r hr]; exact Bool.false_ne_true
    rw [hsame, hzero]
  · rw [← hperm.countP_eq, List.countP_cons_of_pos hmatches, Nat.add_sub_cancel]

theorem countP_deleteFrom_of_disjoint {p : ReferenceNode → Bool} (h : ∀ r, item.matches r = true → p r = false) :
    (deleteFrom item l).countP p = l.countP p := by
  rcases deleteFrom_cases item l with ⟨hsame, _⟩ | ⟨r, hmatches, hperm⟩
  · rw [hsame]
  · rw [← hperm.countP_eq, List.countP_cons_of_neg (by rw [h r hmatches]; exact Bool.false_ne_true)]

theorem filter_deleteFrom {p : ReferenceNode → Bool} (h : ∀ r, item.matches r = true → p r = false) :
    ((deleteFrom item l).filter p).Perm (l.filter p) := by
  rcases deleteFrom_cases item l with ⟨hsame, _⟩ | ⟨r, hmatches, hperm⟩
  · rw [hsame]
  · have hfilter := hperm.filter p
    rwa [List.filter_cons_of_neg (by rw [h r hmatches]; exact Bool.false_ne_true)] at hfilter

theorem deleteFrom_concat (h : item.matches r = true) : deleteFrom item (l ++ [r]) = l := by
  have hlast : lastMatch item.matches (l ++ [r]) = some l.length := by
    rw [lastMatch, List.reverse_append, List.reverse_singleton, List.singleton_append, List.findIdx?_cons, if_pos h]
    simp
  rw [deleteFrom, hlast]
  dsimp only
  rw [overrideWithLast_concat, if_neg (lt_irrefl _)]

theorem deleteFrom_concat_ne (h : item.matches r = false) : deleteFrom item (l ++ [r]) ≠ l := by
  intro heq
  rcases deleteFrom_cases item (l ++ [r]) with ⟨hsame, _⟩ | ⟨r', hmatches, hperm⟩
  · have hlength := congrArg List.length (hsame.symm.trans heq)
    rw [List.length_append, List.length_singleton] at hlength
    omega
  · rw [heq] at hperm
    have hcount := hperm.countP_eq item.matches
    rw [List.countP_cons_of_pos hmatches, List.countP_append, List.countP_singleton, h,
      if_neg Bool.false_ne_true] at hcount
    omega

theorem mirrorItem_matches (id : NodeId) (r : ReferenceNode) :
    (mirrorItem id r).matches = links (!r.isInverse) id nullId := by
  funext x
  simp only [DeleteReferencesItem.matches, mirrorItem, links, nodeIdEqual_comm id, nodeIdEqual_comm nullId]
  cases r.isInverse <;> cases x.isInverse <;> simp

end Deleting

section Traversal

variable {s : AddressSpace} {id a : NodeId} {l : List ReferenceNode} {visited : List ReferenceNode}

/-- The references that the loop comes to. The array loses references of the
node to itself meanwhile, and the last one takes the place of each. -/
def traverse (id : NodeId) : Nat → Nat → List ReferenceNode → List ReferenceNode
  | 0, _, _ => []
  | passes + 1, i, l =>
      match l[i]? with
      | none => []
      | some r => r :: traverse id passes (i + 1)
          (if nodeIdEqual r.targetId.nodeId id then deleteFrom (mirrorItem id r) l else l)

def clear (id a : NodeId) (visited l : List ReferenceNode) : List ReferenceNode :=
  visited.foldl (fun l r => if nodeIdEqual r.targetId.nodeId a then deleteFrom (mirrorItem id r) l else l) l

/-- An edit that deletes shows under every id that is equal to the one of the
node. -/
theorem refsAt_deleteOneWay (item : DeleteReferencesItem) (a : NodeId) :
    refsAt (editNode s id (deleteOneWayReference item)).2 a =
      if nodeIdEqual id a then deleteFrom item (refsAt s a) else refsAt s a := by
  cases hn : s.get id with
  | none =>
      rw [editNode_none hn]
      split
      · rename_i hsame
        rw [← refsAt_congr hsame, refsAt, hn]
        rfl
      · rfl
  | some n =>
      rw [refsAt_editNode hn]
      split
      · rename_i hsame
        rw [← refsAt_congr hsame, refsAt_of_get hn, deleteOneWayReference, deleteFrom]
        cases lastMatch item.matches n.references <;> rfl
      · rfl

theorem refsAt_deleteMirror (r : ReferenceNode) (a : NodeId) :
    refsAt (deleteReferencesSingle s (mirrorItem id r)).2 a =
      if nodeIdEqual r.targetId.nodeId a then deleteFrom (mirrorItem id r) (refsAt s a) else refsAt s a :=
  refsAt_deleteOneWay (mirrorItem id r) a

theorem refsAt_deleteMirrors (passes i : Nat) (a : NodeId) :
    refsAt (deleteMirrors id passes i s) a = clear id a (traverse id passes i (refsAt s id)) (refsAt s a) := by
  induction passes generalizing i s with
  | zero => rfl
  | succ passes ih =>
      have hrefs : (s.get id).bind (·.references[i]?) = (refsAt s id)[i]? := by
        rw [refsAt]
        cases s.get id <;> rfl
      rw [deleteMirrors, traverse, hrefs]
      cases hr : (refsAt s id)[i]? with
      | none => rfl
      | some r =>
          dsimp only
          rw [ih, refsAt_deleteMirror, refsAt_deleteMirror]
          rfl

def toward (a : NodeId) (inverse : Bool) (r : ReferenceNode) : Bool :=
  nodeIdEqual r.targetId.nodeId a && r.isInverse == inverse

theorem countP_clear (inverse : Bool) (l : List ReferenceNode) :
    (clear id a visited l).countP (links inverse id nullId) =
      l.countP (links inverse id nullId) - visited.countP (toward a (!inverse)) := by
  induction visited generalizing l with
  | nil => rfl
  | cons r visited ih =>
      rw [clear, List.foldl_cons]
      change (clear id a visited _).countP _ = _
      rw [ih]
      cases htarget : nodeIdEqual r.targetId.nodeId a with
      | false =>
          rw [if_neg Bool.false_ne_true, List.countP_cons_of_neg (by simp [toward, htarget])]
      | true =>
          rw [if_pos rfl]
          by_cases hdirection : r.isInverse = !inverse
          · have hmatches : (mirrorItem id r).matches = links inverse id nullId := by
              rw [mirrorItem_matches, hdirection, Bool.not_not]
            rw [← hmatches, countP_deleteFrom_matches, List.countP_cons_of_pos (by simp [toward, htarget, hdirection]),
              Nat.sub_sub, Nat.add_comm 1]
          · have hother : r.isInverse = inverse := by
              cases inverse <;> cases h : r.isInverse <;> simp_all
            rw [countP_deleteFrom_of_disjoint, List.countP_cons_of_neg (by simp [toward, hdirection])]
            intro x hx
            rw [mirrorItem_matches, hother] at hx
            simp only [links, Bool.and_eq_true, beq_iff_eq] at hx
            simp [links, hx.1.1]

theorem filter_clear {p : ReferenceNode → Bool} (h : ∀ inverse r, links inverse id nullId r = true → p r = false)
    (l : List ReferenceNode) : ((clear id a visited l).filter p).Perm (l.filter p) := by
  induction visited generalizing l with
  | nil => exact .refl _
  | cons r visited ih =>
      rw [clear, List.foldl_cons]
      refine (ih _).trans ?_
      split
      · refine filter_deleteFrom ?_
        rw [mirrorItem_matches]
        exact h _
      · exact .refl _

end Traversal

section Members

variable {s : AddressSpace} {id a : NodeId}

theorem get_deleteMirrors (passes i : Nat) (a : NodeId) :
    ((deleteMirrors id passes i s).get a).map bare = (s.get a).map bare := by
  induction passes generalizing i s with
  | zero => rfl
  | succ passes ih =>
      rw [deleteMirrors]
      split
      · rfl
      · rw [ih]
        refine bare_editNode ?_
        intro n
        rw [deleteOneWayReference]
        split <;> rfl

theorem nodeClass_deleteMirrors (passes i : Nat) (a : NodeId) :
    ((deleteMirrors id passes i s).get a).map (·.nodeClass) = (s.get a).map (·.nodeClass) := by
  have hsame : ((deleteMirrors id passes i s).get a).map bare = (s.get a).map bare :=
    get_deleteMirrors passes i a
  have hclass := congrArg (Option.map (·.nodeClass)) hsame
  rwa [Option.map_map, Option.map_map] at hclass

end Members

section Search

variable {s s' : AddressSpace} {id : NodeId}

def SearchEnds (s : AddressSpace) : Prop := ∃ fuel outcome, findSubTypes fuel s (numericId 0 hasSubtype) = some outcome

theorem follows_iff_refsAt {a b : NodeId} : Follows s a b ↔ (s.get a).map (·.nodeClass) = some .referenceType ∧
    ∃ r ∈ (refsAt s a).filter matchesSubtype, r.targetId.nodeId = b := by
  rw [follows_iff]
  cases hn : s.get a with
  | none => simp
  | some n =>
      rw [refsAt_of_get hn]
      simp [List.mem_filter, and_assoc]

theorem searchEnds_iff : SearchEnds s ↔ ((s.get (numericId 0 hasSubtype)).map (·.nodeClass) = some .referenceType →
    Acc (fun y x => Follows s x y) (numericId 0 hasSubtype)) := by
  cases hn : s.get (numericId 0 hasSubtype) with
  | none =>
      refine iff_of_true ⟨0, .error badNoMatch, ?_⟩ (by simp)
      rw [findSubTypes, hn]
  | some n =>
      rw [Option.map_some, Option.some.injEq]
      by_cases hclass : n.nodeClass = .referenceType
      · rw [forall_prop_of_true hclass, ← scan_ends_iff_acc]
        constructor
        · rintro ⟨fuel, outcome, h⟩
          rw [findSubTypes_eq hn hclass] at h
          obtain ⟨found, hscan, _⟩ := Option.map_eq_some_iff.mp h
          exact ⟨fuel, found, hscan⟩
        · rintro ⟨fuel, found, hscan⟩
          exact ⟨fuel, .ok found, by rw [findSubTypes_eq hn hclass, hscan]; rfl⟩
      · refine iff_of_true ⟨0, .error badReferenceTypeIdInvalid, ?_⟩ (fun h => absurd h hclass)
        rw [findSubTypes, hn]
        exact if_pos hclass

theorem matchesSubtype_of_links {inverse : Bool} {r : ReferenceNode} (h : links inverse id nullId r = true) :
    matchesSubtype r = false := by
  simp only [links, Bool.and_eq_true] at h
  have hnull : nodeIdEqual r.referenceTypeId (numericId 0 0) = true := h.2
  rw [matchesSubtype, numericBits_of_equal hnull]
  rfl

theorem searchEnds_deleteMirrors (passes i : Nat) :
    SearchEnds (deleteMirrors id passes i s) ↔ SearchEnds s := by
  have hfollows : Follows (deleteMirrors id passes i s) = Follows s := by
    funext a b
    rw [eq_iff_iff, follows_iff_refsAt, follows_iff_refsAt, nodeClass_deleteMirrors, refsAt_deleteMirrors]
    have hperm : ((clear id a (traverse id passes i (refsAt s id)) (refsAt s a)).filter matchesSubtype).Perm
        ((refsAt s a).filter matchesSubtype) := filter_clear (fun _ _ => matchesSubtype_of_links) _
    simp only [hperm.mem_iff]
  rw [searchEnds_iff, searchEnds_iff, nodeClass_deleteMirrors, hfollows]

end Search

section Deletion

variable {host : Host} {fuel : Nat} {st st' : State} {s : AddressSpace} {id : NodeId} {n : Node}

/-- The node is gone, and of the others exactly the references to it. -/
def Cleared (s : AddressSpace) (id : NodeId) (s' : AddressSpace) : Prop :=
  s'.get id = none ∧ ∀ a, nodeIdEqual id a = false →
    (s'.get a).map bare = (s.get a).map bare ∧
      (refsAt s' a).Perm ((refsAt s a).filter (fun r => !nodeIdEqual r.targetId.nodeId id))

/-- The references of the node to other nodes have no type, and the loop comes
to all of them. -/
def Visits (id : NodeId) (references : List ReferenceNode) : Prop :=
  ∀ r ∈ references, nodeIdEqual r.targetId.nodeId id = false → nodeIdEqual r.referenceTypeId nullId = true ∧
    references.countP (toward r.targetId.nodeId r.isInverse) ≤
      (traverse id references.length 0 references).countP (toward r.targetId.nodeId r.isInverse)

theorem refsAt_remove {a : NodeId} (ha : nodeIdEqual id a = false) : refsAt (s.remove id) a = refsAt s a := by
  rw [refsAt, refsAt, get_remove, ha, if_neg Bool.false_ne_true]

theorem refsAt_deleted (hn : s.get id = some n) {a : NodeId} (ha : nodeIdEqual id a = false) :
    refsAt ((deleteMirrors id n.references.length 0 s).remove id) a =
      clear id a (traverse id n.references.length 0 n.references) (refsAt s a) := by
  rw [refsAt_remove ha, refsAt_deleteMirrors, refsAt_of_get hn]

theorem cleared_iff (hn : s.get id = some n) :
    Cleared s id ((deleteMirrors id n.references.length 0 s).remove id) ↔
      ∀ a, nodeIdEqual id a = false → (clear id a (traverse id n.references.length 0 n.references) (refsAt s a)).Perm
        ((refsAt s a).filter (fun r => !nodeIdEqual r.targetId.nodeId id)) := by
  have hgone : ((deleteMirrors id n.references.length 0 s).remove id).get id = none := by
    rw [get_remove, if_pos (nodeIdEqual_refl id)]
  constructor
  · intro h a ha
    rw [← refsAt_deleted hn ha]
    exact (h.2 a ha).2
  · intro h
    refine ⟨hgone, fun a ha => ⟨?_, ?_⟩⟩
    · rw [get_remove, ha, if_neg Bool.false_ne_true, get_deleteMirrors]
    · rw [refsAt_deleted hn ha]
      exact h a ha

theorem toward_congr {inverse : Bool} {a b : NodeId} (h : nodeIdEqual a b = true) :
    toward a inverse = toward b inverse := by
  funext r
  rw [toward, toward, nodeIdEqual_congr_right h]

/-- In a mirrored address space, the mirrors at another node are counted by the
references of the node. -/
theorem count_mirror (hs : Mirrored s) (hn : s.get id = some n) (inverse : Bool) (a referenceType : NodeId) :
    (refsAt s a).countP (links inverse id referenceType) = n.references.countP (links (!inverse) a referenceType) := by
  rw [← refsAt_of_get hn]
  cases inverse with
  | false => exact hs a id referenceType
  | true => exact (hs id a referenceType).symm

/-- Where all references to others have no type, they are told apart by their
targets and directions. -/
theorem countP_links_eq_toward {references : List ReferenceNode} {a : NodeId} (inverse : Bool)
    (h : ∀ r ∈ references, nodeIdEqual r.targetId.nodeId a = true → nodeIdEqual r.referenceTypeId nullId = true) :
    references.countP (links inverse a nullId) = references.countP (toward a inverse) := by
  refine List.countP_congr ?_
  intro r hr
  rw [links, toward]
  cases ha : nodeIdEqual r.targetId.nodeId a with
  | false => simp
  | true => simp [h r hr ha]

/-- The references to the node are gone at another node if and only if they had
no type and were met often enough. -/
theorem perm_clear_iff {visited l : List ReferenceNode} {a : NodeId} :
    (clear id a visited l).Perm (l.filter (fun r => !nodeIdEqual r.targetId.nodeId id)) ↔
      (∀ r ∈ l, nodeIdEqual r.targetId.nodeId id = true → nodeIdEqual r.referenceTypeId nullId = true) ∧
        ∀ inverse, l.countP (links inverse id nullId) ≤ visited.countP (toward a (!inverse)) := by
  let kept : ReferenceNode → Bool := fun r =>
    !(nodeIdEqual r.targetId.nodeId id && nodeIdEqual r.referenceTypeId nullId)
  have hkept : ((clear id a visited l).filter kept).Perm (l.filter kept) := by
    refine filter_clear ?_ l
    intro inverse r hr
    simp only [links, Bool.and_eq_true] at hr
    simp [kept, hr.1.2, hr.2]
  have hcount : ∀ inverse, (clear id a visited l).countP (links inverse id nullId) =
      l.countP (links inverse id nullId) - visited.countP (toward a (!inverse)) := fun inverse => countP_clear inverse l
  constructor
  · intro hperm
    have hnone : ∀ r ∈ clear id a visited l, nodeIdEqual r.targetId.nodeId id = false := by
      intro r hr
      have hmem := List.mem_filter.mp (hperm.mem_iff.mp hr)
      simpa using hmem.2
    refine ⟨?_, ?_⟩
    · intro r hr htarget
      by_contra htype
      have hmem : r ∈ l.filter kept := List.mem_filter.mpr ⟨hr, by simp [kept, htype]⟩
      have hleft := (List.mem_filter.mp (hkept.mem_iff.mpr hmem)).1
      rw [hnone r hleft] at htarget
      cases htarget
    · intro inverse
      have hzero : (clear id a visited l).countP (links inverse id nullId) = 0 := by
        rw [List.countP_eq_zero]
        intro r hr
        simp [links, hnone r hr]
      have hsub := hcount inverse
      omega
  · rintro ⟨htypes, hvisited⟩
    have hall : (clear id a visited l).filter kept = clear id a visited l := by
      rw [List.filter_eq_self]
      intro r hr
      by_contra hlink
      have hzero : (clear id a visited l).countP (links r.isInverse id nullId) = 0 := by
        have hsub := hcount r.isInverse
        have henough := hvisited r.isInverse
        omega
      rw [List.countP_eq_zero] at hzero
      refine hzero r hr ?_
      simpa [kept, links] using hlink
    have hfilter : l.filter kept = l.filter (fun r => !nodeIdEqual r.targetId.nodeId id) := by
      refine List.filter_congr ?_
      intro r hr
      cases htarget : nodeIdEqual r.targetId.nodeId id with
      | false => simp [kept, htarget]
      | true => simp [kept, htarget, htypes r hr htarget]
    rw [← hall, ← hfilter]
    exact hkept

theorem exists_mirror (hs : Mirrored s) (hn : s.get id = some n) {a : NodeId} {r : ReferenceNode}
    (hr : r ∈ refsAt s a) (hid : nodeIdEqual r.targetId.nodeId id = true) :
    ∃ r' ∈ n.references, nodeIdEqual r'.targetId.nodeId a = true ∧
      nodeIdEqual r'.referenceTypeId r.referenceTypeId = true := by
  have hpositive : 0 < (refsAt s a).countP (links r.isInverse id r.referenceTypeId) := by
    refine List.countP_pos_iff.mpr ⟨r, hr, ?_⟩
    simp [links, hid, nodeIdEqual_refl]
  rw [count_mirror hs hn] at hpositive
  obtain ⟨r', hr', hlinks⟩ := List.countP_pos_iff.mp hpositive
  simp only [links, Bool.and_eq_true] at hlinks
  exact ⟨r', hr', hlinks.1.2, hlinks.2⟩

theorem exists_mirror_at (hs : Mirrored s) (hn : s.get id = some n) {r : ReferenceNode} (hr : r ∈ n.references) :
    ∃ r' ∈ refsAt s r.targetId.nodeId, nodeIdEqual r'.targetId.nodeId id = true ∧
      nodeIdEqual r'.referenceTypeId r.referenceTypeId = true := by
  have hpositive : 0 < n.references.countP (links (!(!r.isInverse)) r.targetId.nodeId r.referenceTypeId) := by
    refine List.countP_pos_iff.mpr ⟨r, hr, ?_⟩
    simp [links, nodeIdEqual_refl]
  rw [← count_mirror hs hn] at hpositive
  obtain ⟨r', hr', hlinks⟩ := List.countP_pos_iff.mp hpositive
  simp only [links, Bool.and_eq_true] at hlinks
  exact ⟨r', hr', hlinks.1.2, hlinks.2⟩

/-- The two sides of all the references have to be looked at: what stands at the
others is counted by what stands at the node. -/
theorem cleared_iff_visits (hs : Mirrored s) (hn : s.get id = some n) :
    Cleared s id ((deleteMirrors id n.references.length 0 s).remove id) ↔ Visits id n.references := by
  rw [cleared_iff hn]
  simp only [perm_clear_iff]
  constructor
  · intro h
    have htypes : ∀ r ∈ n.references, nodeIdEqual r.targetId.nodeId id = false →
        nodeIdEqual r.referenceTypeId nullId = true := by
      intro r hr hother
      rw [nodeIdEqual_comm] at hother
      obtain ⟨r', hr', hid, htype⟩ := exists_mirror_at hs hn hr
      exact nodeIdEqual_trans (nodeIdEqual_symm htype) ((h _ hother).1 r' hr' hid)
    intro r hr hother
    refine ⟨htypes r hr hother, ?_⟩
    have hother' : nodeIdEqual id r.targetId.nodeId = false := by rw [nodeIdEqual_comm]; exact hother
    have hcount := (h _ hother').2 (!r.isInverse)
    rw [count_mirror hs hn, Bool.not_not, countP_links_eq_toward] at hcount
    · exact hcount
    · intro r' hr' htarget
      refine htypes r' hr' ?_
      rw [nodeIdEqual_comm, nodeIdEqual_congr_right htarget]
      exact hother'
  · intro h a ha
    have hother : ∀ {r : ReferenceNode}, nodeIdEqual r.targetId.nodeId a = true →
        nodeIdEqual r.targetId.nodeId id = false := by
      intro r htarget
      rw [nodeIdEqual_comm, nodeIdEqual_congr_right htarget]
      exact ha
    refine ⟨?_, ?_⟩
    · intro r hr hid
      obtain ⟨r', hr', htarget, htype⟩ := exists_mirror hs hn hr hid
      exact nodeIdEqual_trans (nodeIdEqual_symm htype) (h r' hr' (hother htarget)).1
    · intro inverse
      rw [count_mirror hs hn]
      rcases Nat.eq_zero_or_pos (n.references.countP (links (!inverse) a nullId)) with hzero | hpositive
      · rw [hzero]
        exact Nat.zero_le _
      · obtain ⟨r, hr, hlinks⟩ := List.countP_pos_iff.mp hpositive
        simp only [links, Bool.and_eq_true, beq_iff_eq] at hlinks
        have hvisited := (h r hr (hother hlinks.1.2)).2
        rw [toward_congr hlinks.1.2, hlinks.1.1] at hvisited
        refine le_trans (List.countP_mono_left ?_) hvisited
        intro x _ hx
        simp only [links, Bool.and_eq_true] at hx
        simp [toward, hx.1.1, hx.1.2]

theorem space_of_destroyNode (h : destroyNode host fuel st id n = some st') : st'.space = st.space := by
  rw [destroyNode] at h
  split at h
  · obtain ⟨r, _, rfl⟩ := Option.map_eq_some_iff.mp h
    rfl
  · cases h
    rfl

theorem destroyObject_ends_iff {handle : Nat} :
    (∃ fuel st', destroyObject host fuel st id handle = some st') ↔ SearchEnds st.space := by
  have htypes : ∀ fuel, relevantTypes fuel st.space (objectTypeBrowse id) =
      (findSubTypes fuel st.space (numericId 0 hasSubtype)).map (·.map some) := fun _ => rfl
  constructor
  · rintro ⟨fuel, st', h⟩
    obtain ⟨r, hbrowse, _⟩ := Option.map_eq_some_iff.mp h
    obtain ⟨collected, hcollected, _⟩ := Option.map_eq_some_iff.mp hbrowse
    cases hfound : findSubTypes fuel st.space (numericId 0 hasSubtype) with
    | some outcome => exact ⟨fuel, outcome, hfound⟩
    | none =>
        have hnone : collectReferences fuel st.space (objectTypeBrowse id) 0xFFFFFFFF 0 = none := by
          rw [collectReferences, htypes, hfound]
          rfl
        cases hnone.symm.trans hcollected
  · rintro ⟨fuel, outcome, hfound⟩
    have houtcome := htypes fuel
    rw [hfound] at houtcome
    obtain ⟨collected, hcollected⟩ := collectReferences_of_types houtcome 0xFFFFFFFF 0
    refine ⟨fuel, Option.isSome_iff_exists.mp ?_⟩
    rw [destroyObject, browseSingle, hcollected]
    rfl

theorem destroyNode_ends_iff :
    (∃ fuel st', destroyNode host fuel st id n = some st') ↔ (n.nodeClass = .object → SearchEnds st.space) := by
  rw [Node.nodeClass]
  cases hbody : n.body with
  | object eventNotifier handle =>
      simp only [destroyNode, hbody, Body.nodeClass, forall_const]
      exact destroyObject_ends_iff
  | _ => exact iff_of_true ⟨0, st, by rw [destroyNode, hbody]⟩ (fun h => by cases h)

theorem deleteNodesSingle_eq (hn : st.space.get id = some n) : deleteNodesSingle host fuel st id true =
    (destroyNode host fuel { st with space := deleteMirrors id n.references.length 0 st.space } id n).map
      (fun st => (good, { st with space := st.space.remove id })) := by
  rw [deleteNodesSingle, hn]
  rfl

theorem deleteNodesSingle_ends_iff (hn : st.space.get id = some n) :
    (∃ fuel r, deleteNodesSingle host fuel st id true = some r) ↔ (n.nodeClass = .object → SearchEnds st.space) := by
  have hends : (∃ fuel st', destroyNode host fuel
      { st with space := deleteMirrors id n.references.length 0 st.space } id n = some st') ↔
        (n.nodeClass = .object → SearchEnds st.space) := by
    rw [destroyNode_ends_iff, searchEnds_deleteMirrors]
  rw [← hends]
  constructor
  · rintro ⟨fuel, r, hdelete⟩
    rw [deleteNodesSingle_eq hn] at hdelete
    obtain ⟨destroyed, hdestroyed, _⟩ := Option.map_eq_some_iff.mp hdelete
    exact ⟨fuel, destroyed, hdestroyed⟩
  · rintro ⟨fuel, destroyed, hdestroyed⟩
    exact ⟨fuel, _, by rw [deleteNodesSingle_eq hn, hdestroyed]; rfl⟩

theorem space_of_deleteNodesSingle {status : StatusCode} (hn : st.space.get id = some n)
    (h : deleteNodesSingle host fuel st id true = some (status, st')) :
    st'.space = (deleteMirrors id n.references.length 0 st.space).remove id := by
  rw [deleteNodesSingle_eq hn] at h
  obtain ⟨destroyed, hdestroyed, hst⟩ := Option.map_eq_some_iff.mp h
  cases hst
  rw [space_of_destroyNode hdestroyed]

theorem deleteNodesSingle_mono {deleteReferences : Bool} {r : StatusCode × State}
    (h : deleteNodesSingle host fuel st id deleteReferences = some r) (more : Nat) :
    deleteNodesSingle host (fuel + more) st id deleteReferences = some r := by
  rw [deleteNodesSingle] at h ⊢
  cases hn : st.space.get id with
  | none =>
      rw [hn] at h
      exact h
  | some n =>
      rw [hn] at h
      dsimp only at h ⊢
      obtain ⟨destroyed, hdestroyed, rfl⟩ := Option.map_eq_some_iff.mp h
      rw [destroyNode] at hdestroyed ⊢
      cases hbody : n.body with
      | object eventNotifier handle =>
          rw [hbody] at hdestroyed
          dsimp only at hdestroyed ⊢
          obtain ⟨browsed, hbrowse, rfl⟩ := Option.map_eq_some_iff.mp hdestroyed
          rw [destroyObject, browseSingle_mono hbrowse more]
          rfl
      | _ =>
          rw [hbody] at hdestroyed
          cases hdestroyed
          rfl

/-- The deletion clears the address space if and only if the references of the
node to others have no type and are all met, and the search for the types of an
object ends. -/
theorem deleted_cleared_iff (host : Host) (st : State) (id : NodeId) (n : Node) (hn : st.space.get id = some n)
    (hs : Mirrored st.space) :
    (∃ fuel status st', deleteNodesSingle host fuel st id true = some (status, st') ∧
        Cleared st.space id st'.space) ↔
      Visits id n.references ∧ (n.nodeClass = .object → SearchEnds st.space) := by
  have hends : (∃ fuel r, deleteNodesSingle host fuel st id true = some r) ↔
      (n.nodeClass = .object → SearchEnds st.space) := deleteNodesSingle_ends_iff hn
  rw [← cleared_iff_visits hs hn, ← hends]
  constructor
  · rintro ⟨fuel, status, st', hdelete, hcleared⟩
    rw [space_of_deleteNodesSingle hn hdelete] at hcleared
    exact ⟨hcleared, fuel, _, hdelete⟩
  · rintro ⟨hcleared, fuel, ⟨status, st'⟩, hdelete⟩
    refine ⟨fuel, status, st', hdelete, ?_⟩
    rw [space_of_deleteNodesSingle hn hdelete]
    exact hcleared

end Deletion

def sampleLink (referenceTypeId : NodeId) : State where
  space := (addReferencesSingle (sampleFolder []) ⟨numericId 1 1, referenceTypeId, true, none,
    ⟨numericId 1 2, none, 0⟩⟩).2
  session := ⟨[], 5⟩
  browses := 0
  inserts := 0
  calls := []

theorem mirrored_sampleLink (referenceTypeId : NodeId) : Mirrored (sampleLink referenceTypeId).space := by
  refine (extends_addReferences ⟨plainObject (numericId 1 2) [], rfl⟩).mirrored (mirrored_of_no_references ?_)
  simp [sampleFolder, plainObject, plainNode]

theorem deleted_cleared_sampleLink :
    ∃ fuel status st', deleteNodesSingle sampleHost fuel (sampleLink nullId) (numericId 1 2) true = some (status, st') ∧
      Cleared (sampleLink nullId).space (numericId 1 2) st'.space := by
  refine (deleted_cleared_iff sampleHost (sampleLink nullId) (numericId 1 2) _ rfl (mirrored_sampleLink nullId)).mpr
    ⟨?_, fun _ => ⟨0, .error badNoMatch, rfl⟩⟩
  unfold Visits
  decide

/-- A reference of the type Organizes to the deleted node is left. -/
theorem deleted_dangling :
    Mirrored (sampleLink (numericId 0 35)).space ∧
      ∃ st', deleteNodesSingle sampleHost 0 (sampleLink (numericId 0 35)) (numericId 1 2) true = some (good, st') ∧
        st'.space.get (numericId 1 2) = none ∧
        ∃ n, st'.space.get (numericId 1 1) = some n ∧ n.references = [organizes (numericId 1 2)] := by
  refine ⟨mirrored_sampleLink _, _, rfl, rfl, _, rfl, rfl⟩

end OpcUa.NodeDeletion
