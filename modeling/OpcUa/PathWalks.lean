import OpcUa.Browsing
import Mathlib.Data.List.TakeWhile

namespace OpcUa.PathWalks

open StatusCodes NodeIds DataTypes AddressSpaces SubTypes Browsing Worklists Relation

section Specification

def Matches (s : AddressSpace) (elem : RelativePathElement) (r : ReferenceNode) : Prop :=
  r.isInverse = elem.isInverse ∧ (isNull elem.referenceTypeId = true ∨
    ∃ id, nodeIdEqual r.referenceTypeId id = true ∧ (id = elem.referenceTypeId ∨
      elem.includeSubtypes = true ∧ ReflTransGen (HasSubtype s) elem.referenceTypeId id))

def Reaches (s : AddressSpace) : List RelativePathElement → Node → Node → Prop
  | [], n, m => n = m
  | elem :: rest, n, m => ∃ r ∈ n.references, Matches s elem r ∧
      ∃ next, s.get r.targetId.nodeId = some next ∧ hasTargetName elem next = true ∧ Reaches s rest next m

/-- The subtypes of something that is not a stored reference type. -/
def LookupFails (s : AddressSpace) (elem : RelativePathElement) : Prop :=
  isNull elem.referenceTypeId = false ∧ elem.includeSubtypes = true ∧
    ∀ n, s.get elem.referenceTypeId = some n → n.nodeClass ≠ .referenceType

/-- The start is missing, or the subtypes of an element have to be looked up
and cannot be. -/
def LookupFailed (s : AddressSpace) (start : NodeId) (path : List RelativePathElement) : Prop :=
  s.get start = none ∨ ∃ n pre elem rest m, s.get start = some n ∧ path = pre ++ elem :: rest ∧
    Reaches s pre n m ∧ LookupFails s elem

/-- Exactly the nodes at the end of the path are returned, and BADNOMATCH is
exactly for those paths without one on which no lookup failed. -/
def Exact (s : AddressSpace) (start : NodeId) (path : List RelativePathElement) (result : BrowsePathResult) : Prop :=
  (∀ id, (∃ t ∈ result.targets, t.targetId.nodeId = id) ↔
      ∃ n m, s.get start = some n ∧ Reaches s path n m ∧ m.nodeId = id) ∧
    (result.statusCode = badNoMatch ↔
      (∀ n m, s.get start = some n → ¬ Reaches s path n m) ∧ ¬ LookupFailed s start path)

end Specification

section Looseness

def MatchesLoosely (s : AddressSpace) (elem : RelativePathElement) (r : ReferenceNode) : Prop :=
  isNull elem.referenceTypeId = true ∨ r.isInverse = elem.isInverse ∧
    ∃ id, nodeIdEqual r.referenceTypeId id = true ∧ (id = elem.referenceTypeId ∨
      elem.includeSubtypes = true ∧ ReflTransGen (Follows s) elem.referenceTypeId id)

/-- The search for the types of the element ends with a list. -/
def LookupOk (s : AddressSpace) (elem : RelativePathElement) : Prop :=
  isNull elem.referenceTypeId = true ∨ elem.includeSubtypes = false ∨
    ∃ n, s.get elem.referenceTypeId = some n ∧ n.nodeClass = .referenceType ∧
      ∀ id, ReflTransGen (Follows s) elem.referenceTypeId id → ¬ TransGen (Follows s) id id

open Classical in
noncomputable def looseNexts (s : AddressSpace) (elem : RelativePathElement) (n : Node) : List Node :=
  n.references.filterMap (fun r => if MatchesLoosely s elem r then namedTarget s elem r else none)

/-- Where the code comes to, once for each way to get there. -/
noncomputable def looseEnds (s : AddressSpace) : List RelativePathElement → Node → List Node
  | [], n => [n]
  | elem :: rest, n => (looseNexts s elem n).flatMap (looseEnds s rest)

open Classical in
/-- The elements before the first one whose lookup does not end with a list,
and the elements from there on. -/
noncomputable def smoothPart (s : AddressSpace) (path : List RelativePathElement) : List RelativePathElement :=
  path.takeWhile (fun elem => decide (LookupOk s elem))

open Classical in
noncomputable def roughPart (s : AddressSpace) (path : List RelativePathElement) : List RelativePathElement :=
  path.dropWhile (fun elem => decide (LookupOk s elem))

variable {s : AddressSpace} {elem : RelativePathElement} {r : ReferenceNode} {n m next : Node}
  {path pre rest : List RelativePathElement} {start : NodeId}

theorem namedTarget_eq_some :
    namedTarget s elem r = some next ↔ s.get r.targetId.nodeId = some next ∧ hasTargetName elem next = true := by
  rw [namedTarget]
  cases h : s.get r.targetId.nodeId with
  | none => simp
  | some n =>
      by_cases hname : hasTargetName elem n = true
      · simp only [hname, if_true, Option.some.injEq]
        constructor
        · rintro rfl
          exact ⟨rfl, hname⟩
        · exact And.left
      · simp only [hname, Bool.false_eq_true, if_false, Option.some.injEq, reduceCtorEq, false_iff]
        rintro ⟨rfl, hnamed⟩
        exact hname hnamed

theorem mem_looseNexts : next ∈ looseNexts s elem n ↔ ∃ r ∈ n.references, MatchesLoosely s elem r ∧
    s.get r.targetId.nodeId = some next ∧ hasTargetName elem next = true := by
  rw [looseNexts, List.mem_filterMap]
  refine exists_congr fun r => and_congr_right fun _ => ?_
  split
  · rename_i hmatches
    rw [namedTarget_eq_some]
    exact (and_iff_right hmatches).symm
  · rename_i hmatches
    simp [hmatches]

theorem Matches.loosely (h : Matches s elem r) : MatchesLoosely s elem r := by
  obtain ⟨hdirection, hnull | ⟨id, hid, htype⟩⟩ := h
  · exact .inl hnull
  · refine .inr ⟨hdirection, id, hid, htype.imp_right (And.imp_right ?_)⟩
    exact ReflTransGen.mono (fun _ _ hab => follows_of_hasSubtype hab) _ _

theorem mem_looseEnds_of_reaches (h : Reaches s path n m) : m ∈ looseEnds s path n := by
  induction path generalizing n with
  | nil =>
      obtain rfl : n = m := h
      exact List.mem_singleton_self n
  | cons elem rest ih =>
      obtain ⟨r, hr, hmatches, next, hnext, hname, hrest⟩ := h
      rw [looseEnds, List.mem_flatMap]
      exact ⟨next, mem_looseNexts.mpr ⟨r, hr, hmatches.loosely, hnext, hname⟩, ih hrest⟩

theorem reaches_append : Reaches s (pre ++ rest) n m ↔ ∃ mid, Reaches s pre n mid ∧ Reaches s rest mid m := by
  induction pre generalizing n with
  | nil => simp [Reaches]
  | cons elem pre ih =>
      simp only [List.cons_append, Reaches, ih]
      constructor
      · rintro ⟨r, hr, hmatches, next, hnext, hname, mid, hpre, hrest⟩
        exact ⟨mid, ⟨r, hr, hmatches, next, hnext, hname, hpre⟩, hrest⟩
      · rintro ⟨mid, ⟨r, hr, hmatches, next, hnext, hname, hpre⟩, hrest⟩
        exact ⟨r, hr, hmatches, next, hnext, hname, mid, hpre, hrest⟩

end Looseness

section Lookups

variable {s : AddressSpace} {elem : RelativePathElement} {r : ReferenceNode} {relevant : RelevantTypes}
  {fuel : Nat} {root : NodeId}

theorem elementTypes_mono {outcome : Except StatusCode RelevantTypes} (h : elementTypes fuel s elem = some outcome)
    (more : Nat) : elementTypes (fuel + more) s elem = some outcome := by
  rw [elementTypes] at h ⊢
  split
  · rename_i hnull
    rwa [if_pos hnull] at h
  · rename_i hnull
    rw [if_neg hnull] at h
    split
    · rename_i hsubtypes
      rwa [if_pos hsubtypes] at h
    · rename_i hsubtypes
      rw [if_neg hsubtypes] at h
      obtain ⟨found, hfound, rfl⟩ := Option.map_eq_some_iff.mp h
      rw [findSubTypes_mono hfound more, Option.map_some]

theorem matchesElement_some {types : List NodeId} :
    matchesElement (some types) elem r = true ↔
      r.isInverse = elem.isInverse ∧ ∃ id, nodeIdEqual r.referenceTypeId id = true ∧ id ∈ types := by
  simp only [matchesElement, List.any_eq_true, Bool.and_eq_true, beq_iff_eq]
  constructor
  · rintro ⟨id, hmem, hdirection, hid⟩
    exact ⟨hdirection, id, hid, hmem⟩
  · rintro ⟨hdirection, id, hid, hmem⟩
    exact ⟨id, hmem, hdirection, hid⟩

theorem matchesElement_iff (h : elementTypes fuel s elem = some (.ok relevant)) :
    matchesElement relevant elem r = true ↔ MatchesLoosely s elem r := by
  rw [elementTypes] at h
  split at h
  · rename_i hnull
    cases h
    exact ⟨fun _ => .inl hnull, fun _ => rfl⟩
  · rename_i hnull
    have hloose : MatchesLoosely s elem r ↔ r.isInverse = elem.isInverse ∧
        ∃ id, nodeIdEqual r.referenceTypeId id = true ∧ (id = elem.referenceTypeId ∨
          elem.includeSubtypes = true ∧ ReflTransGen (Follows s) elem.referenceTypeId id) := or_iff_right hnull
    rw [hloose]
    split at h
    · rename_i hsubtypes
      cases h
      rw [matchesElement_some]
      simp only [List.mem_singleton, Bool.not_eq_true'] at hsubtypes ⊢
      simp [hsubtypes]
    · rename_i hsubtypes
      obtain ⟨outcome, hfound, hmap⟩ := Option.map_eq_some_iff.mp h
      cases outcome with
      | error status => cases hmap
      | ok types =>
          obtain rfl := Except.ok.inj hmap
          rw [matchesElement_some]
          simp only [Bool.not_eq_true', Bool.not_eq_false] at hsubtypes
          simp only [mem_findSubTypes hfound, hsubtypes, true_and]
          refine and_congr_right fun _ => exists_congr fun id => and_congr_right fun _ => ?_
          refine ⟨.inr, ?_⟩
          rintro (rfl | hreach)
          · exact .refl
          · exact hreach

theorem looseNexts_eq (h : elementTypes fuel s elem = some (.ok relevant)) (n : Node) :
    n.references.filterMap (nextNode s relevant elem) = looseNexts s elem n := by
  rw [looseNexts]
  congr 1
  funext r
  rw [nextNode]
  congr 1
  exact propext (matchesElement_iff h)

theorem elementTypes_eq_findSubTypes (hnull : isNull elem.referenceTypeId = false)
    (hsubtypes : elem.includeSubtypes = true) :
    elementTypes fuel s elem = (findSubTypes fuel s elem.referenceTypeId).map (·.map some) := by
  rw [elementTypes, hnull, hsubtypes]
  rfl

theorem elementTypes_of_ok (h : LookupOk s elem) : ∃ fuel relevant, elementTypes fuel s elem = some (.ok relevant) := by
  cases hnull : isNull elem.referenceTypeId with
  | true => exact ⟨0, none, by rw [elementTypes, if_pos hnull]⟩
  | false =>
      cases hsubtypes : elem.includeSubtypes with
      | false => exact ⟨0, _, by rw [elementTypes, hnull, hsubtypes]; rfl⟩
      | true =>
          rw [LookupOk, hnull, hsubtypes] at h
          obtain ⟨n, hn, hclass, hacyclic⟩ := (h.resolve_left (by decide)).resolve_left (by decide)
          obtain ⟨fuel, types, hfound⟩ := (findSubTypes_ends_iff hn hclass).mpr hacyclic
          exact ⟨fuel, some types, by rw [elementTypes_eq_findSubTypes hnull hsubtypes, hfound]; rfl⟩

theorem elementTypes_of_not_ok (h : ¬ LookupOk s elem) :
    ∃ outcome : Option StatusCode, (∀ fuel, elementTypes fuel s elem = outcome.map .error) ∧
      ((outcome = some badNoMatch ∧ LookupFails s elem ∧ s.get elem.referenceTypeId = none) ∨
        (outcome = some badReferenceTypeIdInvalid ∧ LookupFails s elem ∧
          ∃ n, s.get elem.referenceTypeId = some n ∧ n.nodeClass ≠ .referenceType) ∨
        (outcome = none ∧ ∃ n, s.get elem.referenceTypeId = some n ∧ n.nodeClass = .referenceType)) := by
  simp only [LookupOk, not_or, Bool.not_eq_true, Bool.not_eq_false] at h
  obtain ⟨hnull, hsubtypes, htype⟩ := h
  simp only [elementTypes_eq_findSubTypes hnull hsubtypes]
  cases hn : s.get elem.referenceTypeId with
  | none =>
      refine ⟨some badNoMatch, ?_, .inl ⟨rfl, ⟨hnull, hsubtypes, ?_⟩, rfl⟩⟩
      · intro fuel
        rw [findSubTypes, hn]
        rfl
      · intro n hn'
        rw [hn] at hn'
        cases hn'
  | some n =>
      by_cases hclass : n.nodeClass = .referenceType
      · refine ⟨none, ?_, .inr (.inr ⟨rfl, n, rfl, hclass⟩)⟩
        intro fuel
        cases hscan : scan (subTypes s) fuel [elem.referenceTypeId] 0 with
        | none =>
            rw [findSubTypes_eq hn hclass, hscan]
            rfl
        | some found =>
            refine absurd ⟨n, hn, hclass, (findSubTypes_ends_iff hn hclass).mp ⟨fuel, found, ?_⟩⟩ htype
            rw [findSubTypes_eq hn hclass, hscan]
            rfl
      · refine ⟨some badReferenceTypeIdInvalid, ?_, .inr (.inl ⟨rfl, ⟨hnull, hsubtypes, ?_⟩, n, rfl, hclass⟩)⟩
        · intro fuel
          rw [findSubTypes, hn]
          dsimp only
          rw [if_pos hclass]
          rfl
        · intro n' hn'
          obtain rfl := Option.some.inj (hn.symm.trans hn')
          exact hclass

theorem exists_fuel {path : List RelativePathElement} (h : ∀ elem ∈ path, LookupOk s elem) :
    ∃ fuel, ∀ more, ∀ elem ∈ path, ∃ relevant, elementTypes (fuel + more) s elem = some (.ok relevant) := by
  induction path with
  | nil => exact ⟨0, fun _ _ helem => absurd helem List.not_mem_nil⟩
  | cons elem rest ih =>
      obtain ⟨fuel, hrest⟩ := ih (fun e he => h e (List.mem_cons_of_mem _ he))
      obtain ⟨fuel', relevant, hfirst⟩ := elementTypes_of_ok (h elem List.mem_cons_self)
      refine ⟨fuel + fuel', ?_⟩
      intro more e he
      rcases List.mem_cons.mp he with rfl | he
      · refine ⟨relevant, ?_⟩
        rw [show fuel + fuel' + more = fuel' + (fuel + more) by omega]
        exact elementTypes_mono hfirst _
      · rw [Nat.add_assoc]
        exact hrest (fuel' + more) e he

end Lookups

section Walks

variable {s : AddressSpace} {fuel : Nat} {elem : RelativePathElement} {pre rest path : List RelativePathElement}
  {n : Node} {targets : List BrowsePathTarget}

def visitAll (visit : Node → List BrowsePathTarget → Option (Walk (StatusCode × List BrowsePathTarget))) :
    List Node → List BrowsePathTarget → Option (Walk (StatusCode × List BrowsePathTarget))
  | [], targets => some (.returned (good, targets))
  | n :: rest, targets =>
      match visit n targets with
      | some (.returned (status, targets')) =>
          if status = good then visitAll visit rest targets' else some (.returned (status, targets'))
      | other => other

variable {visit visit' : Node → List BrowsePathTarget → Option (Walk (StatusCode × List BrowsePathTarget))}

theorem walkReferences_eq (next : ReferenceNode → Option Node) (references : List ReferenceNode)
    (targets : List BrowsePathTarget) :
    walkReferences next visit references targets = visitAll visit (references.filterMap next) targets := by
  induction references generalizing targets with
  | nil => rfl
  | cons r references ih =>
      rw [walkReferences]
      cases hr : next r with
      | none =>
          rw [List.filterMap_cons_none hr]
          exact ih targets
      | some n =>
          rw [List.filterMap_cons_some hr, visitAll]
          dsimp only
          rcases visit n targets with _ | _ | ⟨status, targets'⟩
          · rfl
          · rfl
          · exact congrArg (fun w => if status = good then w else some (.returned (status, targets'))) (ih targets')

def addAll (ends : List Node) (targets : List BrowsePathTarget) : Walk (StatusCode × List BrowsePathTarget) :=
  if targets.length + ends.length ≤ capacity then .returned (good, targets ++ ends.map browseTarget) else .undefined

theorem visitAll_addAll {ends : Node → List Node}
    (hvisit : ∀ n targets, targets.length ≤ capacity → visit n targets = some (addAll (ends n) targets))
    (nodes : List Node) (hroom : targets.length ≤ capacity) :
    visitAll visit nodes targets = some (addAll (nodes.flatMap ends) targets) := by
  induction nodes generalizing targets with
  | nil => simp [visitAll, addAll, hroom]
  | cons n nodes ih =>
      rw [visitAll, hvisit n targets hroom, List.flatMap_cons]
      by_cases hfits : targets.length + (ends n).length ≤ capacity
      · have hlength : (targets ++ (ends n).map browseTarget).length = targets.length + (ends n).length := by
          rw [List.length_append, List.length_map]
        rw [addAll, if_pos hfits]
        dsimp only
        rw [if_pos rfl, ih (by rw [hlength]; exact hfits), addAll, addAll, hlength, List.length_append,
          List.map_append, Nat.add_assoc, List.append_assoc]
      · rw [addAll, if_neg hfits, addAll, if_neg (by rw [List.length_append]; omega)]

theorem walk_smooth (hpath : path ≠ [])
    (hfuel : ∀ elem ∈ path, ∃ relevant, elementTypes fuel s elem = some (.ok relevant))
    (n : Node) (hroom : targets.length ≤ capacity) :
    walkBrowsePath fuel s path n targets = some (addAll (looseEnds s path n) targets) := by
  induction path generalizing n targets with
  | nil => exact absurd rfl hpath
  | cons elem rest ih =>
      obtain ⟨relevant, htypes⟩ := hfuel elem List.mem_cons_self
      rw [walkBrowsePath, htypes]
      dsimp only
      rw [walkReferences_eq, looseNexts_eq htypes, looseEnds]
      refine visitAll_addAll ?_ _ hroom
      intro next targets hroom
      cases rest with
      | nil =>
          rw [if_neg (by simp), addTarget, addAll, looseEnds, List.length_singleton]
          by_cases hfull : targets.length ≥ capacity
          · rw [if_pos hfull, if_neg (by omega)]
          · rw [if_neg hfull, if_pos (by omega)]
            rfl
      | cons e rest =>
          rw [if_pos (by simp)]
          exact ih (by simp) (fun e he => hfuel e (List.mem_cons_of_mem _ he)) next hroom

/-- What a lookup that does not succeed makes of the walk. -/
def failure (outcome : Option StatusCode) (targets : List BrowsePathTarget) :
    Option (Walk (StatusCode × List BrowsePathTarget)) :=
  outcome.map (fun status => .returned (status, targets))

open Classical in
theorem visitAll_failure {ends : Node → List Node} {outcome : Option StatusCode} (hbad : outcome ≠ some good)
    (hvisit : ∀ n targets, visit n targets =
      if ends n = [] then some (.returned (good, targets)) else failure outcome targets)
    (nodes : List Node) :
    visitAll visit nodes targets =
      if nodes.flatMap ends = [] then some (.returned (good, targets)) else failure outcome targets := by
  induction nodes with
  | nil => rfl
  | cons n nodes ih =>
      rw [visitAll, hvisit, List.flatMap_cons]
      by_cases hends : ends n = []
      · rw [if_pos hends, hends, List.nil_append]
        exact ih
      · rw [if_neg hends, if_neg (by simp [hends])]
        cases outcome with
        | none => rfl
        | some status => exact if_neg (fun hgood => hbad (congrArg some hgood))

open Classical in
theorem walk_rough {outcome : Option StatusCode} (hbad : outcome ≠ some good)
    (hfuel : ∀ elem ∈ pre, ∃ relevant, elementTypes fuel s elem = some (.ok relevant))
    (helem : elementTypes fuel s elem = outcome.map .error) (rest : List RelativePathElement) (n : Node)
    (targets : List BrowsePathTarget) :
    walkBrowsePath fuel s (pre ++ elem :: rest) n targets =
      if looseEnds s pre n = [] then some (.returned (good, targets)) else failure outcome targets := by
  induction pre generalizing n targets with
  | nil =>
      rw [List.nil_append, walkBrowsePath, helem, if_neg (by simp [looseEnds])]
      cases outcome <;> rfl
  | cons e pre ih =>
      obtain ⟨relevant, htypes⟩ := hfuel e List.mem_cons_self
      rw [List.cons_append, walkBrowsePath, htypes]
      dsimp only
      rw [walkReferences_eq, looseNexts_eq htypes, looseEnds]
      refine visitAll_failure hbad ?_ _
      intro next targets
      rw [if_pos (List.length_pos_of_ne_nil (by simp))]
      exact ih (fun e he => hfuel e (List.mem_cons_of_mem _ he)) next targets

theorem visitAll_mono (hvisit : ∀ n targets w, visit n targets = some w → visit' n targets = some w)
    (nodes : List Node) {w : Walk (StatusCode × List BrowsePathTarget)} (h : visitAll visit nodes targets = some w) :
    visitAll visit' nodes targets = some w := by
  induction nodes generalizing targets with
  | nil => exact h
  | cons n nodes ih =>
      rw [visitAll] at h ⊢
      cases hn : visit n targets with
      | none =>
          rw [hn] at h
          cases h
      | some first =>
          rw [hn] at h
          rw [hvisit n targets first hn]
          cases first with
          | undefined => exact h
          | returned r =>
              dsimp only at h ⊢
              split
              · rename_i hgood
                rw [if_pos hgood] at h
                exact ih h
              · rename_i hgood
                rwa [if_neg hgood] at h

theorem walk_mono {w : Walk (StatusCode × List BrowsePathTarget)} (h : walkBrowsePath fuel s path n targets = some w)
    (more : Nat) : walkBrowsePath (fuel + more) s path n targets = some w := by
  induction path generalizing n targets w with
  | nil => exact h
  | cons elem rest ih =>
      rw [walkBrowsePath] at h ⊢
      cases htypes : elementTypes fuel s elem with
      | none =>
          rw [htypes] at h
          cases h
      | some outcome =>
          rw [htypes] at h
          rw [elementTypes_mono htypes more]
          cases outcome with
          | error status => exact h
          | ok relevant =>
              dsimp only at h ⊢
              rw [walkReferences_eq] at h ⊢
              refine visitAll_mono ?_ _ h
              intro next targets w hnext
              split
              · rename_i hrest
                rw [if_pos hrest] at hnext
                exact ih hnext
              · rename_i hrest
                rwa [if_neg hrest] at hnext

end Walks

section Translation

variable {s : AddressSpace} {start : NodeId} {elem : RelativePathElement} {pre rest path : List RelativePathElement}
  {n m : Node} {fuel : Nat}

theorem not_lookupFails_of_ok (h : LookupOk s elem) : ¬ LookupFails s elem := by
  rintro ⟨hnull, hsubtypes, htype⟩
  rcases h with hnull' | hsubtypes' | ⟨n, hn, hclass, _⟩
  · rw [hnull] at hnull'
    cases hnull'
  · rw [hsubtypes] at hsubtypes'
    cases hsubtypes'
  · exact htype n hn hclass

theorem not_lookupFailed (hstart : s.get start = some n) (hpre : ∀ elem ∈ pre, LookupOk s elem)
    (hnone : ∀ m, ¬ Reaches s pre n m) : ¬ LookupFailed s start (pre ++ rest) := by
  rintro (hmissing | ⟨n', pre', elem, rest', m, hstart', hsplit, hreaches, hfails⟩)
  · rw [hstart] at hmissing
    cases hmissing
  · rw [hstart] at hstart'
    obtain rfl := Option.some.inj hstart'
    rcases List.append_eq_append_iff.mp hsplit with ⟨a, rfl, _⟩ | ⟨a, rfl, ha⟩
    · obtain ⟨mid, hmid, _⟩ := reaches_append.mp hreaches
      exact hnone mid hmid
    · cases a with
      | nil =>
          rw [List.append_nil] at hnone
          exact hnone m hreaches
      | cons e a =>
          obtain ⟨rfl, _⟩ := List.cons.inj ha
          exact not_lookupFails_of_ok (hpre _ (by simp)) hfails

theorem mem_nodes_of_looseEnds (hn : n ∈ s.nodes) (hm : m ∈ looseEnds s path n) : m ∈ s.nodes := by
  induction path generalizing n with
  | nil =>
      obtain rfl := List.mem_singleton.mp hm
      exact hn
  | cons elem rest ih =>
      obtain ⟨next, hnext, hm⟩ := List.mem_flatMap.mp hm
      obtain ⟨r, _, _, hget, _⟩ := mem_looseNexts.mp hnext
      exact ih (get_eq_some.mp hget).1 hm

theorem translate_eq (hstart : s.get start = some n) (hpath : path ≠ []) :
    translateBrowsePath fuel s start path = (walkBrowsePath fuel s path n []).map finishWalk := by
  rw [translateBrowsePath, if_neg (by simpa using hpath), hstart]

theorem exact_iff_of_walk (hstart : s.get start = some n) (hpath : path ≠ [])
    {w : Walk (StatusCode × List BrowsePathTarget)} (hwalk : walkBrowsePath fuel s path n [] = some w) :
    (∃ fuel result, translateBrowsePath fuel s start path = some (.returned result) ∧ Exact s start path result) ↔
      ∃ r, w = .returned r ∧ Exact s start path (pathResult r) := by
  constructor
  · rintro ⟨fuel', result, hresult, hexact⟩
    rw [translate_eq hstart hpath] at hresult
    cases hwalk' : walkBrowsePath fuel' s path n [] with
    | none =>
        rw [hwalk'] at hresult
        cases hresult
    | some w' =>
        have hsame : w = w' := by
          have hmore := walk_mono hwalk fuel'
          have hmore' := walk_mono hwalk' fuel
          rw [Nat.add_comm] at hmore'
          exact Option.some.inj (hmore.symm.trans hmore')
        rw [hwalk'] at hresult
        cases w' with
        | undefined => cases hresult
        | returned r =>
            cases hresult
            exact ⟨r, hsame, hexact⟩
  · rintro ⟨r, rfl, hexact⟩
    exact ⟨fuel, pathResult r, by rw [translate_eq hstart hpath, hwalk]; rfl, hexact⟩

theorem exact_nil_iff (hstart : s.get start = some n) (path : List RelativePathElement) (status : StatusCode) :
    Exact s start path ⟨status, []⟩ ↔
      (∀ m, ¬ Reaches s path n m) ∧ (status = badNoMatch ↔ ¬ LookupFailed s start path) := by
  have hnone : (∀ n' m, s.get start = some n' → ¬ Reaches s path n' m) ↔ ∀ m, ¬ Reaches s path n m := by
    constructor
    · exact fun h m => h n m hstart
    · intro h n' m hn'
      obtain rfl := Option.some.inj (hstart.symm.trans hn')
      exact h m
  rw [Exact, hnone]
  constructor
  · rintro ⟨htargets, hstatus⟩
    have hempty : ∀ m, ¬ Reaches s path n m := by
      intro m hm
      obtain ⟨t, ht, _⟩ := (htargets m.nodeId).mpr ⟨n, m, hstart, hm, rfl⟩
      cases ht
    exact ⟨hempty, hstatus.trans (and_iff_right hempty)⟩
  · rintro ⟨hempty, hstatus⟩
    refine ⟨?_, hstatus.trans (and_iff_right hempty).symm⟩
    intro id
    constructor
    · rintro ⟨t, ht, _⟩
      cases ht
    · rintro ⟨n', m, hn', hm, _⟩
      exact absurd hm (hnone.mpr hempty n' m hn')

/-- The cases in which the code does what it should from a node. Where every
lookup succeeds, the ends must fit into the array, and none may be reached by
references that should not be followed. Otherwise it depends on the first
element whose lookup does not succeed. -/
noncomputable def Translates (s : AddressSpace) (path : List RelativePathElement) (n : Node) : Prop :=
  match roughPart s path with
  | [] => (looseEnds s path n).length ≤ capacity ∧ ∀ m ∈ looseEnds s path n, Reaches s path n m
  | elem :: _ =>
      looseEnds s (smoothPart s path) n = [] ∨
        (s.get elem.referenceTypeId = none ∧ ∀ m, ¬ Reaches s (smoothPart s path) n m) ∨
        ∃ t, s.get elem.referenceTypeId = some t ∧ t.nodeClass ≠ .referenceType ∧
          (∃ m, Reaches s (smoothPart s path) n m) ∧ ∀ m, ¬ Reaches s path n m

theorem smooth_append_rough (s : AddressSpace) (path : List RelativePathElement) :
    smoothPart s path ++ roughPart s path = path := List.takeWhile_append_dropWhile

theorem ok_of_mem_smoothPart (h : elem ∈ smoothPart s path) : LookupOk s elem := by
  simpa using List.mem_takeWhile_imp h

theorem not_ok_of_roughPart (h : roughPart s path = elem :: rest) : ¬ LookupOk s elem := by
  intro hok
  have hhead := List.head?_dropWhile_not (fun e => @decide (LookupOk s e) (Classical.propDecidable _)) path
  rw [show List.dropWhile _ path = elem :: rest from h] at hhead
  simp [hok] at hhead

theorem not_reaches_of_empty (h : looseEnds s path n = []) (m : Node) : ¬ Reaches s path n m := by
  intro hm
  have hmem := mem_looseEnds_of_reaches hm
  rw [h] at hmem
  cases hmem

theorem eq_of_looseEnds {m m' : Node} (hstart : s.get start = some n) (hm : m ∈ looseEnds s path n)
    (hm' : m' ∈ looseEnds s path n) (hid : nodeIdEqual m'.nodeId m.nodeId = true) : m' = m := by
  have hstored := (get_eq_some.mp hstart).1
  exact eq_of_mem (mem_nodes_of_looseEnds hstored hm') (mem_nodes_of_looseEnds hstored hm) hid

theorem exact_looseEnds_iff (hstart : s.get start = some n) (hsome : looseEnds s path n ≠ []) :
    Exact s start path ⟨good, (looseEnds s path n).map browseTarget⟩ ↔ ∀ m ∈ looseEnds s path n,
      Reaches s path n m := by
  constructor
  · rintro ⟨htargets, _⟩ m hm
    obtain ⟨n', m', hn', hm', hid⟩ := (htargets m.nodeId).mp ⟨browseTarget m, List.mem_map_of_mem hm, rfl⟩
    obtain rfl := Option.some.inj (hstart.symm.trans hn')
    have hsame : m' = m := by
      refine eq_of_looseEnds hstart hm (mem_looseEnds_of_reaches hm') ?_
      rw [hid]
      exact nodeIdEqual_refl _
    rw [← hsame]
    exact hm'
  · intro hall
    refine ⟨?_, ?_⟩
    · intro id
      constructor
      · rintro ⟨t, ht, hid⟩
        obtain ⟨m, hm, rfl⟩ := List.mem_map.mp ht
        exact ⟨n, m, hstart, hall m hm, hid⟩
      · rintro ⟨n', m, hn', hm, hid⟩
        obtain rfl := Option.some.inj (hstart.symm.trans hn')
        exact ⟨browseTarget m, List.mem_map_of_mem (mem_looseEnds_of_reaches hm), hid⟩
    · obtain ⟨m, hm⟩ := List.exists_mem_of_ne_nil _ hsome
      exact iff_of_false (show good ≠ badNoMatch by decide) (fun h => h.1 n m hstart (hall m hm))

theorem exact_smooth (hstart : s.get start = some n) (hpath : path ≠ []) (hok : ∀ elem ∈ path, LookupOk s elem) :
    (∃ fuel result, translateBrowsePath fuel s start path = some (.returned result) ∧ Exact s start path result) ↔
      (looseEnds s path n).length ≤ capacity ∧ ∀ m ∈ looseEnds s path n, Reaches s path n m := by
  obtain ⟨fuel, hfuel⟩ := exists_fuel hok
  rw [exact_iff_of_walk hstart hpath (walk_smooth hpath (hfuel 0) n (Nat.zero_le _)), addAll]
  have hfailed : ¬ LookupFailed s start path := by
    rintro (hmissing | ⟨n', pre, elem, rest, m, _, rfl, _, hfails⟩)
    · rw [hstart] at hmissing
      cases hmissing
    · exact not_lookupFails_of_ok (hok elem (by simp)) hfails
  by_cases hroom : (looseEnds s path n).length ≤ capacity
  · rw [if_pos (by simpa using hroom), List.nil_append]
    simp only [Walk.returned.injEq, exists_eq_left', and_iff_right hroom]
    by_cases hempty : looseEnds s path n = []
    · have hnil : Exact s start path ⟨badNoMatch, []⟩ :=
        (exact_nil_iff hstart path badNoMatch).mpr ⟨not_reaches_of_empty hempty, iff_of_true rfl hfailed⟩
      rw [hempty]
      exact iff_of_true hnil (fun m hm => absurd hm List.not_mem_nil)
    · have hresult : pathResult (good, (looseEnds s path n).map browseTarget) =
          ⟨good, (looseEnds s path n).map browseTarget⟩ := by
        simp [pathResult, hempty]
      rw [hresult]
      exact exact_looseEnds_iff hstart hempty
  · rw [if_neg (by simpa using hroom)]
    simp [hroom]

theorem lookupFailed_iff (hstart : s.get start = some n) (hok : ∀ e ∈ pre, LookupOk s e) (hfails : LookupFails s elem) :
    LookupFailed s start (pre ++ elem :: rest) ↔ ∃ m, Reaches s pre n m := by
  constructor
  · intro hfailed
    by_contra hnone
    exact not_lookupFailed hstart hok (not_exists.mp hnone) hfailed
  · rintro ⟨m, hm⟩
    exact .inr ⟨n, pre, elem, rest, m, hstart, rfl, hm, hfails⟩

theorem not_reaches_append (hnone : ∀ m, ¬ Reaches s pre n m) (m : Node) : ¬ Reaches s (pre ++ rest) n m := by
  intro hm
  obtain ⟨mid, hmid, _⟩ := reaches_append.mp hm
  exact hnone mid hmid

theorem not_translated {fuel : Nat} {result : BrowsePathResult} (hstart : s.get start = some n)
    (hfuel : ∀ more, ∀ e ∈ pre, ∃ relevant, elementTypes (fuel + more) s e = some (.ok relevant))
    (hnone : ∀ fuel, elementTypes fuel s elem = none) (hsome : looseEnds s pre n ≠ []) (fuel' : Nat) :
    translateBrowsePath fuel' s start (pre ++ elem :: rest) ≠ some (.returned result) := by
  intro hresult
  have hbad : (none : Option StatusCode) ≠ some good := nofun
  have hstuck := walk_rough hbad (hfuel fuel') (hnone _) rest n []
  rw [if_neg hsome] at hstuck
  rw [translate_eq hstart (by simp)] at hresult
  obtain ⟨w, hw, _⟩ := Option.map_eq_some_iff.mp hresult
  have hmore := walk_mono hw fuel
  rw [Nat.add_comm] at hmore
  cases hstuck.symm.trans hmore

theorem exact_rough (hstart : s.get start = some n) (hok : ∀ e ∈ pre, LookupOk s e) (hrough : ¬ LookupOk s elem)
    (rest : List RelativePathElement) :
    (∃ fuel result, translateBrowsePath fuel s start (pre ++ elem :: rest) = some (.returned result) ∧
        Exact s start (pre ++ elem :: rest) result) ↔
      looseEnds s pre n = [] ∨
        (s.get elem.referenceTypeId = none ∧ ∀ m, ¬ Reaches s pre n m) ∨
        ∃ t, s.get elem.referenceTypeId = some t ∧ t.nodeClass ≠ .referenceType ∧
          (∃ m, Reaches s pre n m) ∧ ∀ m, ¬ Reaches s (pre ++ elem :: rest) n m := by
  have hpath : pre ++ elem :: rest ≠ [] := by simp
  obtain ⟨fuel, hfuel⟩ := exists_fuel hok
  obtain ⟨outcome, htypes, hkinds⟩ := elementTypes_of_not_ok hrough
  have hbad : outcome ≠ some good := by
    rcases hkinds with ⟨rfl, _⟩ | ⟨rfl, _⟩ | ⟨rfl, _⟩ <;> decide
  have hwalk := walk_rough hbad (hfuel 0) (htypes _) rest n []
  by_cases hempty : looseEnds s pre n = []
  · -- the walk does not come to the element
    have hnone : ∀ m, ¬ Reaches s pre n m := not_reaches_of_empty hempty
    rw [if_pos hempty] at hwalk
    rw [exact_iff_of_walk hstart hpath hwalk]
    refine iff_of_true ⟨_, rfl, ?_⟩ (.inl hempty)
    exact (exact_nil_iff hstart _ badNoMatch).mpr
      ⟨not_reaches_append hnone, iff_of_true rfl (not_lookupFailed hstart hok hnone)⟩
  · rw [if_neg hempty] at hwalk
    rw [or_iff_right hempty]
    rcases hkinds with ⟨rfl, hfails, hunknown⟩ | ⟨rfl, hfails, t, ht, hclass⟩ | ⟨rfl, t, ht, hclass⟩
    · rw [exact_iff_of_walk hstart hpath hwalk]
      simp only [Walk.returned.injEq, exists_eq_left', hunknown, true_and, reduceCtorEq, false_and, exists_false,
        or_false]
      have hstatus : (badNoMatch = badNoMatch ↔ ¬ ∃ m, Reaches s pre n m) ↔ ∀ m, ¬ Reaches s pre n m := by
        rw [iff_true_left (rfl : badNoMatch = badNoMatch), not_exists]
      have hexact := exact_nil_iff hstart (pre ++ elem :: rest) badNoMatch
      rw [lookupFailed_iff hstart hok hfails, hstatus] at hexact
      exact hexact.trans ⟨And.right, fun hnone => ⟨not_reaches_append hnone, hnone⟩⟩
    · rw [exact_iff_of_walk hstart hpath hwalk]
      simp only [Walk.returned.injEq, exists_eq_left', ht, Option.some.injEq, reduceCtorEq, false_and, false_or]
      have hstatus : (badReferenceTypeIdInvalid = badNoMatch ↔ ¬ ∃ m, Reaches s pre n m) ↔
          ∃ m, Reaches s pre n m := by
        rw [iff_false_left (show ¬ badReferenceTypeIdInvalid = badNoMatch by decide), not_not]
      have hexact := exact_nil_iff hstart (pre ++ elem :: rest) badReferenceTypeIdInvalid
      rw [lookupFailed_iff hstart hok hfails, hstatus] at hexact
      exact hexact.trans ⟨fun h => ⟨hclass, h.2, h.1⟩, fun h => ⟨h.2.2, h.2.1⟩⟩
    · refine iff_of_false ?_ ?_
      · rintro ⟨fuel', result, hresult, _⟩
        exact not_translated hstart hfuel htypes hempty fuel' hresult
      · rintro (⟨hunknown, _⟩ | ⟨t', ht', hclass', _⟩)
        · rw [ht] at hunknown
          cases hunknown
        · obtain rfl := Option.some.inj (ht.symm.trans ht')
          exact hclass' hclass

/-- The translation is exact if and only if the start is missing or the path is
not empty and one of the good cases holds. -/
theorem translate_exact_iff (s : AddressSpace) (start : NodeId) (path : List RelativePathElement) :
    (∃ fuel result, translateBrowsePath fuel s start path = some (.returned result) ∧ Exact s start path result) ↔
      ∀ n, s.get start = some n → path ≠ [] ∧ Translates s path n := by
  cases hstart : s.get start with
  | none =>
      refine iff_of_true ?_ (fun n hn => by cases hn)
      have hexact : ∀ status, status ≠ badNoMatch → Exact s start path ⟨status, []⟩ := by
        intro status hstatus
        refine ⟨?_, iff_of_false hstatus (fun h => h.2 (.inl hstart))⟩
        intro id
        refine iff_of_false ?_ ?_
        · rintro ⟨t, ht, _⟩
          cases ht
        · rintro ⟨n, m, hn, _⟩
          rw [hstart] at hn
          cases hn
      by_cases hpath : path.length = 0
      · exact ⟨0, _, by rw [translateBrowsePath, if_pos hpath], hexact badNothingToDo (by decide)⟩
      · exact ⟨0, _, by rw [translateBrowsePath, if_neg hpath, hstart], hexact badNodeIdUnknown (by decide)⟩
  | some n =>
      simp only [Option.some.injEq, forall_eq']
      by_cases hpath : path = []
      · rw [hpath]
        refine iff_of_false ?_ (fun h => h.1 rfl)
        rintro ⟨fuel, result, hresult, htargets, _⟩
        cases hresult
        obtain ⟨t, ht, _⟩ := (htargets n.nodeId).mpr ⟨n, n, hstart, rfl, rfl⟩
        cases ht
      · rw [and_iff_right hpath, Translates]
        have hsplit := smooth_append_rough s path
        cases hrough : roughPart s path with
        | nil =>
            rw [hrough, List.append_nil] at hsplit
            refine exact_smooth hstart hpath ?_
            intro elem helem
            rw [← hsplit] at helem
            exact ok_of_mem_smoothPart helem
        | cons elem rest =>
            rw [hrough] at hsplit
            have hok : ∀ e ∈ smoothPart s path, LookupOk s e := fun e he => ok_of_mem_smoothPart he
            have hexact := exact_rough hstart hok (not_ok_of_roughPart hrough) rest
            rw [hsplit] at hexact
            exact hexact

end Translation

def sampleElement (referenceTypeId : NodeId) (isInverse includeSubtypes : Bool) : RelativePathElement :=
  ⟨referenceTypeId, isInverse, includeSubtypes, ⟨0, none⟩⟩

/-- Two forward references are followed where an inverse one is asked for, the
eleventh target is beyond the array, and a reference type that does not exist is
reported as a path without a match. -/
theorem translate_inexact :
    (translateBrowsePath 0 samplePair (numericId 1 1) [sampleElement nullId true false] = some (.returned
        ⟨good, [browseTarget (plainObject (numericId 1 2) []), browseTarget (plainObject (numericId 1 3) [])]⟩) ∧
      ∀ m, ¬ Reaches samplePair [sampleElement nullId true false] (plainObject (numericId 1 1)
        [organizes (numericId 1 2), organizes (numericId 1 3)]) m) ∧
    translateBrowsePath 0 (sampleFolder (List.replicate 11 (organizes (numericId 1 2)))) (numericId 1 1)
      [sampleElement nullId false false] = some .undefined ∧
    translateBrowsePath 0 samplePair (numericId 1 1) [sampleElement (numericId 1 9) false true] =
        some (.returned ⟨badNoMatch, []⟩) ∧
      LookupFailed samplePair (numericId 1 1) [sampleElement (numericId 1 9) false true] ∧
    ¬ ∃ fuel result, translateBrowsePath fuel samplePair (numericId 1 1) [sampleElement nullId true false] =
        some (.returned result) ∧ Exact samplePair (numericId 1 1) [sampleElement nullId true false] result := by
  have hstart : samplePair.get (numericId 1 1) = some
      (plainObject (numericId 1 1) [organizes (numericId 1 2), organizes (numericId 1 3)]) := rfl
  have hnone : ∀ m, ¬ Reaches samplePair [sampleElement nullId true false] (plainObject (numericId 1 1)
      [organizes (numericId 1 2), organizes (numericId 1 3)]) m := by
    rintro m ⟨r, hr, ⟨hdirection, _⟩, _⟩
    rcases List.mem_cons.mp hr with rfl | hr
    · cases hdirection
    · obtain rfl := List.mem_singleton.mp hr
      cases hdirection
  refine ⟨⟨rfl, hnone⟩, rfl, rfl, ?_, ?_⟩
  · exact .inr ⟨_, [], _, [], _, hstart, rfl, rfl, rfl, rfl, fun n hn => by cases hn⟩
  · rw [exact_iff_of_walk hstart (by simp) (show walkBrowsePath 0 samplePair _ _ [] = some _ from rfl)]
    rintro ⟨r, hr, htargets, _⟩
    cases hr
    obtain ⟨n, m, hn, hm, _⟩ := (htargets (numericId 1 2)).mp ⟨_, List.mem_cons_self, rfl⟩
    obtain rfl := Option.some.inj (hstart.symm.trans hn)
    exact hnone m hm

end OpcUa.PathWalks
