import OpcUa.References
import OpcUa.ServiceTable
import OpcUa.Worklists

namespace OpcUa.SubTypes

open StatusCodes NodeIds DataTypes ServiceTable AddressSpaces References Worklists Relation

def hasSubtype : UInt32 := 45

/-- The relation is matched on the numeric part of the type only. -/
def matchesSubtype (r : ReferenceNode) : Bool := numericBits r.referenceTypeId == hasSubtype && !r.isInverse

/-- The ids that one pass of `findSubTypes` adds to the array. -/
def subTypes (s : AddressSpace) (id : NodeId) : List NodeId :=
  match s.get id with
  | none => []
  | some n =>
      if n.nodeClass ≠ .referenceType then []
      else (n.references.filter matchesSubtype).map (·.targetId.nodeId)

/-- `none` if the fuel runs out before the end of the array is reached. -/
def findSubTypes (fuel : Nat) (s : AddressSpace) (root : NodeId) : Option (Except StatusCode (List NodeId)) :=
  match s.get root with
  | none => some (.error badNoMatch)
  | some n =>
      if n.nodeClass ≠ .referenceType then some (.error badReferenceTypeIdInvalid)
      else (scan (subTypes s) fuel [root] 0).map .ok

/-- One step of the hierarchy: a forward reference of the type HasSubtype from
a reference type. -/
def HasSubtype (s : AddressSpace) (a b : NodeId) : Prop :=
  ∃ n, s.get a = some n ∧ n.nodeClass = .referenceType ∧
    ∃ r ∈ n.references, r.isInverse = false ∧ nodeIdEqual r.referenceTypeId (numericId 0 hasSubtype) = true ∧
      r.targetId.nodeId = b

/-- What is followed: the number 45 is enough, in any namespace and in any kind
of id. -/
abbrev Follows (s : AddressSpace) : NodeId → NodeId → Prop := Child (subTypes s)

variable {s : AddressSpace} {n : Node} {root a b : NodeId} {fuel : Nat}

theorem follows_iff : Follows s a b ↔ ∃ n, s.get a = some n ∧ n.nodeClass = .referenceType ∧
    ∃ r ∈ n.references, matchesSubtype r = true ∧ r.targetId.nodeId = b := by
  change b ∈ subTypes s a ↔ _
  rw [subTypes]
  cases h : s.get a with
  | none => simp
  | some n =>
      by_cases hclass : n.nodeClass = .referenceType
      · simp [hclass, and_assoc]
      · simp [hclass]

theorem numericBits_of_equal {id : NodeId} {nsIndex : UInt16} {number : UInt32}
    (h : nodeIdEqual id (numericId nsIndex number) = true) : numericBits id = number := by
  obtain ⟨_, hcontent⟩ := (nodeIdEqual_iff id _).mp h
  rcases id with ⟨ns, identifier⟩
  cases identifier with
  | numeric i => exact UInt32.toNat_inj.mp (congrArg (fun x => x.2.1) hcontent)
  | string b => cases congrArg Prod.fst hcontent
  | guid g => cases congrArg Prod.fst hcontent
  | byteString b => cases congrArg Prod.fst hcontent

theorem follows_of_hasSubtype (h : HasSubtype s a b) : Follows s a b := by
  obtain ⟨n, hn, hclass, r, hr, hforward, htype, htarget⟩ := h
  refine follows_iff.mpr ⟨n, hn, hclass, r, hr, ?_, htarget⟩
  rw [matchesSubtype, numericBits_of_equal htype, hforward]
  rfl

theorem reachable_finite (s : AddressSpace) (root : NodeId) :
    {id | ReflTransGen (Follows s) root id}.Finite := by
  let targets : List NodeId := s.nodes.flatMap (fun n => n.references.map (·.targetId.nodeId))
  refine Set.Finite.subset (List.finite_toSet (root :: targets)) ?_
  intro id hid
  rcases ReflTransGen.cases_tail hid with rfl | ⟨a, _, hlast⟩
  · exact List.mem_cons_self
  · obtain ⟨n, hn, _, r, hr, _, htarget⟩ := follows_iff.mp hlast
    refine List.mem_cons_of_mem _ (List.mem_flatMap.mpr ⟨n, (get_eq_some.mp hn).1, ?_⟩)
    exact List.mem_map.mpr ⟨r, hr, htarget⟩

theorem findSubTypes_eq (hroot : s.get root = some n) (hclass : n.nodeClass = .referenceType) :
    findSubTypes fuel s root = (scan (subTypes s) fuel [root] 0).map .ok := by
  rw [findSubTypes, hroot]
  exact if_neg (not_not.mpr hclass)

theorem findSubTypes_mono {outcome : Except StatusCode (List NodeId)} (h : findSubTypes fuel s root = some outcome)
    (more : Nat) : findSubTypes (fuel + more) s root = some outcome := by
  rw [findSubTypes] at h ⊢
  cases hroot : s.get root with
  | none =>
      rw [hroot] at h
      exact h
  | some n =>
      rw [hroot] at h
      dsimp only at h ⊢
      by_cases hclass : n.nodeClass ≠ .referenceType
      · rw [if_pos hclass] at h ⊢
        exact h
      · rw [if_neg hclass] at h ⊢
        obtain ⟨found, hscan, rfl⟩ := Option.map_eq_some_iff.mp h
        rw [scan_mono hscan more]
        rfl

theorem findSubTypes_ends_iff (hroot : s.get root = some n) (hclass : n.nodeClass = .referenceType) :
    (∃ fuel types, findSubTypes fuel s root = some (.ok types)) ↔
      ∀ id, ReflTransGen (Follows s) root id → ¬ TransGen (Follows s) id id := by
  rw [← acc_iff_acyclic (reachable_finite s root), ← scan_ends_iff_acc]
  simp [findSubTypes_eq hroot hclass]

theorem mem_findSubTypes {types : List NodeId} (h : findSubTypes fuel s root = some (.ok types)) (id : NodeId) :
    id ∈ types ↔ ReflTransGen (Follows s) root id := by
  rw [findSubTypes] at h
  split at h
  · cases h
  split at h
  · cases h
  · obtain ⟨found, hscan, heq⟩ := Option.map_eq_some_iff.mp h
    obtain rfl := Except.ok.inj heq
    exact mem_scan_root hscan

/-- What is followed stays within what the hierarchy reaches. -/
def Contained (s : AddressSpace) (root : NodeId) : Prop :=
  ∀ a b, ReflTransGen (HasSubtype s) root a → Follows s a b → ReflTransGen (HasSubtype s) root b

theorem contained_iff : Contained s root ↔
    ∀ id, ReflTransGen (Follows s) root id ↔ ReflTransGen (HasSubtype s) root id := by
  constructor
  · intro h id
    constructor
    · intro hid
      induction hid with
      | refl => exact .refl
      | tail _ hstep ih => exact h _ _ ih hstep
    · intro hid
      exact ReflTransGen.mono (fun _ _ hab => follows_of_hasSubtype hab) root id hid
  · intro h a b ha hab
    exact (h b).mp (((h a).mpr ha).tail hab)

/-- The search ends with exactly the subtypes if and only if it meets no cycle
and no reference that only looks like HasSubtype leads out of the hierarchy. -/
theorem findSubTypes_exact_iff (s : AddressSpace) (root : NodeId) (n : Node) (hroot : s.get root = some n)
    (hclass : n.nodeClass = .referenceType) :
    (∃ fuel types, findSubTypes fuel s root = some (.ok types) ∧
        ∀ id, id ∈ types ↔ ReflTransGen (HasSubtype s) root id) ↔
      (∀ id, ReflTransGen (Follows s) root id → ¬ TransGen (Follows s) id id) ∧ Contained s root := by
  rw [← findSubTypes_ends_iff hroot hclass, contained_iff]
  constructor
  · rintro ⟨fuel, types, hfound, hexact⟩
    exact ⟨⟨fuel, types, hfound⟩, fun id => (mem_findSubTypes hfound id).symm.trans (hexact id)⟩
  · rintro ⟨⟨fuel, types, hfound⟩, hsame⟩
    exact ⟨fuel, types, hfound, fun id => (mem_findSubTypes hfound id).trans (hsame id)⟩

def plainNode (id : NodeId) (body : Body) : Node where
  nodeId := id
  browseName := ⟨0, none⟩
  displayName := ⟨none, none⟩
  description := ⟨none, none⟩
  writeMask := 0
  userWriteMask := 0
  references := []
  body := body

def plainReferenceType (id : NodeId) : Node := plainNode id (.referenceType 0 0 ⟨none, none⟩)

def sampleTypes : AddressSpace where
  nodes := [plainReferenceType (numericId 1 1), plainReferenceType (numericId 1 2)]
  distinct := by decide

/-- The request to make the second type a subtype of the given one. -/
def subtypeItem (source target referenceType : NodeId) : AddReferencesItem :=
  ⟨source, referenceType, true, none, ⟨target, none, 0⟩⟩

def sampleHierarchy : AddressSpace :=
  (addReferencesSingle sampleTypes (subtypeItem (numericId 1 1) (numericId 1 2) (numericId 0 45))).2

theorem sampleHierarchy_nodes : sampleHierarchy.nodes =
    [{ plainReferenceType (numericId 1 1) with
        references := [⟨numericId 0 45, false, ⟨numericId 1 2, none, 0⟩⟩] },
      { plainReferenceType (numericId 1 2) with
        references := [⟨numericId 0 45, true, ⟨numericId 1 1, none, 0⟩⟩] }] := rfl

theorem sampleHierarchy_follows (h : Follows sampleHierarchy a b) :
    nodeIdEqual (numericId 1 1) a = true ∧ b = numericId 1 2 := by
  obtain ⟨n, hn, _, r, hr, hmatches, htarget⟩ := follows_iff.mp h
  obtain ⟨hmem, hid⟩ := get_eq_some.mp hn
  rw [sampleHierarchy_nodes, List.mem_cons, List.mem_singleton] at hmem
  rcases hmem with rfl | rfl
  · obtain rfl := List.mem_singleton.mp hr
    exact ⟨hid, htarget.symm⟩
  · obtain rfl := List.mem_singleton.mp hr
    cases hmatches

theorem findSubTypes_exact_sampleHierarchy :
    ∃ fuel types, findSubTypes fuel sampleHierarchy (numericId 1 1) = some (.ok types) ∧
      ∀ id, id ∈ types ↔ ReflTransGen (HasSubtype sampleHierarchy) (numericId 1 1) id := by
  have hfirst : sampleHierarchy.get (numericId 1 1) = some
      { plainReferenceType (numericId 1 1) with
        references := [⟨numericId 0 45, false, ⟨numericId 1 2, none, 0⟩⟩] } := rfl
  refine (findSubTypes_exact_iff sampleHierarchy (numericId 1 1) _ hfirst rfl).mpr ⟨?_, ?_⟩
  · intro id _ hcycle
    obtain ⟨c, hlast, hc⟩ := TransGen.tail'_iff.mp hcycle
    obtain ⟨_, rfl⟩ := sampleHierarchy_follows hc
    obtain ⟨d, hd, _⟩ := TransGen.head'_iff.mp hcycle
    have hsame := (sampleHierarchy_follows hd).1
    revert hsame
    decide
  · intro c d _ hcd
    obtain ⟨_, rfl⟩ := sampleHierarchy_follows hcd
    refine .single ⟨_, hfirst, rfl, _, List.mem_singleton_self _, rfl, ?_, rfl⟩
    decide

/-- A reference type is made a subtype of itself, and the search does not end.
A reference of the type 45 of the namespace 1 is followed as well. -/
theorem findSubTypes_unending :
    (addReferencesSingle sampleTypes (subtypeItem (numericId 1 1) (numericId 1 1) (numericId 0 45))).1 = good ∧
      (∀ fuel, findSubTypes fuel
        (addReferencesSingle sampleTypes (subtypeItem (numericId 1 1) (numericId 1 1) (numericId 0 45))).2
        (numericId 1 1) = none) ∧
      findSubTypes 3
        (addReferencesSingle sampleTypes (subtypeItem (numericId 1 1) (numericId 1 2) (numericId 1 45))).2
        (numericId 1 1) = some (.ok [numericId 1 1, numericId 1 2]) ∧
      ∀ b, ¬ HasSubtype
        (addReferencesSingle sampleTypes (subtypeItem (numericId 1 1) (numericId 1 2) (numericId 1 45))).2
        (numericId 1 1) b := by
  refine ⟨rfl, ?_, rfl, ?_⟩
  · intro fuel
    have hself : Follows
        (addReferencesSingle sampleTypes (subtypeItem (numericId 1 1) (numericId 1 1) (numericId 0 45))).2
        (numericId 1 1) (numericId 1 1) :=
      follows_iff.mpr ⟨_, rfl, rfl, _, List.mem_cons_self, rfl, rfl⟩
    cases hscan : scan (subTypes
        (addReferencesSingle sampleTypes (subtypeItem (numericId 1 1) (numericId 1 1) (numericId 0 45))).2)
        fuel [numericId 1 1] 0 with
    | none => rw [findSubTypes_eq rfl rfl, hscan, Option.map_none]
    | some found => exact (not_self_of_acc (scan_ends_iff_acc.mp ⟨fuel, found, hscan⟩) hself).elim
  · rintro b ⟨n, hn, _, r, hr, _, htype, _⟩
    obtain rfl := Option.some.inj hn
    obtain rfl := List.mem_singleton.mp hr
    cases htype

end OpcUa.SubTypes
