import OpcUa.NodeStoreGrowth

namespace OpcUa.FreshIds

open StatusCodes NodeIds OpenAddressing NodeStores NodeStoreSizes NodeStoreResize NodeMaps NodeStoreProbing
  NodeStoreGrowth

variable {α : Type} {ns ns' : NodeStore α}

def nextIdentifier (size increase identifier : Nat) : Nat :=
  let next := u32 (identifier + increase)
  if i32 next ≥ i32 size then sub32 next size else next

def identifierFrom (size increase start : Nat) : Nat → Nat
  | 0 => start
  | j + 1 => nextIdentifier size increase (identifierFrom size increase start j)

/-- The number that an insert tries after `j` others. -/
def triedIdentifier (ns : NodeStore α) : Nat → Nat :=
  identifierFrom ns.size (mod2 (u32 (ns.count + 1)) ns.size) (u32 (ns.count + 1))

def triedId (ns : NodeStore α) (nsIndex : UInt16) (j : Nat) : NodeId :=
  numericId nsIndex (UInt32.ofNat (triedIdentifier ns j))

def Found (ns : NodeStore α) (id : NodeId) : Prop := ∃ s, containsNodeId ns id = some (true, s)

def AllFound (ns : NodeStore α) (nsIndex : UInt16) (k : Nat) : Prop :=
  ∀ j < k, Found ns (triedId ns nsIndex j)

/-- The first tried id that the search does not find is not the number 0, and
no node is stored under it that the search misses. -/
def WalkSound (ns : NodeStore α) (nsIndex : UInt16) : Prop :=
  ∀ k, AllFound ns nsIndex k → Found ns (triedId ns nsIndex k) ∨
    (triedIdentifier ns k ≠ 0 ∧ ¬ Used ns.entries (triedId ns nsIndex k))

/-- In the largest table the tried ids are not all found. -/
def WalkEnds (ns : NodeStore α) (nsIndex : UInt16) : Prop :=
  ns.size = 2147483647 → ∃ k, ¬ Found ns (triedId ns nsIndex k)

def assignedNamespace (node : Node α) : UInt16 :=
  if node.nodeId.namespaceIndex = 0 then 1 else node.nodeId.namespaceIndex

def enlarged (mem : Option Nat) (ns : NodeStore α) : NodeStore α :=
  match makeRoom mem ns with
  | some (_, ns') => ns'
  | none => ns

/-- The insert returns and stores the node under an unused number that is not
0, in the requested namespace or in namespace 1. -/
def StoresUnderFreshId (mem : Option Nat) (ns : NodeStore α) (node : Node α) : Prop :=
  ∃ o p i, insert mem ns node = some o ∧ o.status = good ∧ o.inserted = some p ∧
    deref o.store p = some { node with nodeId := numericId (assignedNamespace node) i } ∧
    assignedNamespace node ≠ 0 ∧ i ≠ 0 ∧
    ¬ Used ns.entries (numericId (assignedNamespace node) i)

theorem assignedNamespace_ne_zero (node : Node α) : assignedNamespace node ≠ 0 := by
  unfold assignedNamespace
  split
  · decide
  · assumption

theorem u32_lt (n : Nat) : u32 n < 4294967296 := Nat.mod_lt _ (by decide)

theorem sub32_lt (a b : Nat) : sub32 a b < 4294967296 := Nat.mod_lt _ (by decide)

theorem triedIdentifier_lt (ns : NodeStore α) (j : Nat) : triedIdentifier ns j < 4294967296 := by
  cases j with
  | zero => exact u32_lt _
  | succ j =>
      simp only [triedIdentifier, identifierFrom, nextIdentifier]
      split
      · exact sub32_lt _ _
      · exact u32_lt _

theorem triedId_inj {nsIndex : UInt16} {i j : Nat} (h : triedId ns nsIndex i = triedId ns nsIndex j) :
    triedIdentifier ns i = triedIdentifier ns j := by
  simp only [triedId, numericId, NodeId.mk.injEq, Identifier.numeric.injEq, true_and] at h
  have hn := congrArg UInt32.toNat h
  rwa [UInt32.toNat_ofNat_of_lt' (triedIdentifier_lt ns i),
    UInt32.toNat_ofNat_of_lt' (triedIdentifier_lt ns j)] at hn

theorem triedIdentifier_add {i j : Nat} (h : triedIdentifier ns i = triedIdentifier ns j) (t : Nat) :
    triedIdentifier ns (i + t) = triedIdentifier ns (j + t) := by
  induction t with
  | zero => exact h
  | succ t ih => exact congrArg (nextIdentifier ns.size _) ih

section Walking

variable {nsIndex : UInt16} {k : Nat}

theorem tried_injective (hall : AllFound ns nsIndex k) (hk : ¬ Found ns (triedId ns nsIndex k))
    {i j : Nat} (hij : i < j) (hj : j < k) : triedIdentifier ns i ≠ triedIdentifier ns j := by
  intro heq
  have hsame := triedIdentifier_add heq (k - j)
  rw [Nat.add_sub_cancel' hj.le] at hsame
  have hfound := hall (i + (k - j)) (by omega)
  rw [triedId, hsame] at hfound
  exact hk hfound

theorem first_le_size (hsize : TableSize ns.size) (hall : AllFound ns nsIndex k)
    (hk : ¬ Found ns (triedId ns nsIndex k)) : k ≤ ns.size := by
  choose f hf using fun j : Fin k => hall j j.isLt
  let g : Fin k → Fin ns.size := fun j => ⟨f j, containsNodeId_lt hsize (hf j)⟩
  have hinj : Function.Injective g := by
    intro i j hij
    have hslots : f i = f j := congrArg Fin.val hij
    obtain ⟨_, e, hi, hie⟩ | ⟨hfalse, _⟩ := containsNodeId_sound (hf i)
    · obtain ⟨_, w, hw, hwe⟩ | ⟨hfalse, _⟩ := containsNodeId_sound (hf j)
      · rw [hslots, hw] at hi
        cases hi
        have hids : triedId ns nsIndex i = triedId ns nsIndex j :=
          (eq_of_nodeIdEqual_numeric hie).symm.trans (eq_of_nodeIdEqual_numeric hwe)
        have hnum := triedId_inj hids
        rcases Nat.lt_trichotomy i.val j.val with hlt | heq | hgt
        · exact absurd hnum (tried_injective hall hk hlt j.isLt)
        · exact Fin.ext heq
        · exact absurd hnum.symm (tried_injective hall hk hgt i.isLt)
      · cases hfalse
    · cases hfalse
  simpa using Fintype.card_le_of_injective g hinj

theorem freshId_first {s : Nat} (hall : AllFound ns nsIndex k)
    (hk : containsNodeId ns (triedId ns nsIndex k) = some (false, s)) (fuel i : Nat) (hi : i ≤ k)
    (hf : k < i + fuel) :
    freshId ns nsIndex (mod2 (u32 (ns.count + 1)) ns.size) fuel (triedIdentifier ns i) =
      some (triedIdentifier ns k, s) := by
  induction fuel generalizing i with
  | zero => omega
  | succ fuel ih =>
      rw [freshId]
      by_cases hik : i = k
      · subst hik
        rw [triedId] at hk
        rw [hk]
      · obtain ⟨t, ht⟩ := hall i (by omega)
        rw [triedId] at ht
        rw [ht]
        exact ih (i + 1) (by omega) (by omega)

theorem not_found_iff (h : Uncrowded ns) (id : NodeId) :
    ¬ Found ns id ↔ ∃ s, containsNodeId ns id = some (false, s) := by
  obtain ⟨s, _, hfind⟩ := h.search id
  unfold Found
  rw [hfind]
  cases (slot ns.entries s).isSome <;> simp

theorem freshId_of_first (h : Uncrowded ns) (hall : AllFound ns nsIndex k)
    (hk : ¬ Found ns (triedId ns nsIndex k)) :
    ∃ s, containsNodeId ns (triedId ns nsIndex k) = some (false, s) ∧
      freshId ns nsIndex (mod2 (u32 (ns.count + 1)) ns.size) (ns.size + 1) (u32 (ns.count + 1)) =
        some (triedIdentifier ns k, s) := by
  obtain ⟨s, hs⟩ := (not_found_iff h _).mp hk
  have hle := first_le_size h.tableSize hall hk
  exact ⟨s, hs, freshId_first hall hs (ns.size + 1) 0 (Nat.zero_le _) (by omega)⟩

theorem first_of_freshId {fuel i identifier s : Nat}
    (hrun : freshId ns nsIndex (mod2 (u32 (ns.count + 1)) ns.size) fuel (triedIdentifier ns i) =
      some (identifier, s)) (hall : AllFound ns nsIndex i) :
    ∃ k, AllFound ns nsIndex k ∧ identifier = triedIdentifier ns k ∧
      containsNodeId ns (triedId ns nsIndex k) = some (false, s) := by
  induction fuel generalizing i with
  | zero => simp [freshId] at hrun
  | succ fuel ih =>
      rw [freshId] at hrun
      cases hfind : containsNodeId ns (triedId ns nsIndex i) with
      | none =>
          rw [triedId] at hfind
          simp [hfind] at hrun
      | some r =>
          obtain ⟨found, t⟩ := r
          cases found with
          | false =>
              have hfind' := hfind
              rw [triedId] at hfind'
              simp only [hfind', Option.some.injEq, Prod.mk.injEq] at hrun
              obtain ⟨rfl, rfl⟩ := hrun
              exact ⟨i, hall, rfl, hfind⟩
          | true =>
              have hfind' := hfind
              rw [triedId] at hfind'
              simp only [hfind'] at hrun
              refine ih (i := i + 1) hrun ?_
              intro j hj
              rcases Nat.lt_succ_iff_lt_or_eq.mp hj with hlt | rfl
              · exact hall j hlt
              · exact ⟨t, hfind⟩

theorem triedIdentifier_eq_walk (hsmall : ns.size ∈ smallPrimes) (hroom : ns.count + 1 < ns.size)
    (j : Nat) :
    triedIdentifier ns j = walk (ns.count + 1) (mod2 (ns.count + 1) ns.size) ns.size j := by
  have hmax := (size_bounds hsmall).2
  unfold maxSize at hmax
  have hstart : u32 (ns.count + 1) = ns.count + 1 := u32_of_lt (by omega)
  have hd := (mod2_bounds (tableSize_of_small hsmall) (ns.count + 1)).2
  induction j with
  | zero =>
      simp only [triedIdentifier, identifierFrom, hstart, walk, Nat.zero_mul, Nat.add_zero]
      exact (Nat.mod_eq_of_lt hroom).symm
  | succ j ih =>
      simp only [triedIdentifier, identifierFrom, hstart] at ih ⊢
      rw [ih, nextIdentifier, identifier_step hsmall hd]

theorem exists_not_found (h : Uncrowded ns) (hroom : ns.count + 1 < ns.size)
    (hsmall : ns.size ∈ smallPrimes) : ∃ k, ¬ Found ns (triedId ns nsIndex k) := by
  obtain ⟨hd, hds⟩ := mod2_bounds h.tableSize (ns.count + 1)
  obtain ⟨k, _, hk⟩ := exists_unused ⟨hsmall, h.entries_length, h.free⟩ nsIndex hd hds
    (a := ns.count + 1)
  refine ⟨k, ?_⟩
  rintro ⟨s, hs⟩
  rw [triedId, triedIdentifier_eq_walk hsmall hroom] at hs
  exact hk (used_of_found hs)

theorem exists_first (h : Uncrowded ns) (hroom : ns.count + 1 < ns.size)
    (hends : WalkEnds ns nsIndex) :
    ∃ k, AllFound ns nsIndex k ∧ ¬ Found ns (triedId ns nsIndex k) := by
  classical
  have hex : ∃ k, ¬ Found ns (triedId ns nsIndex k) := by
    obtain hsmall | hlast := tablePrimes_cases _ h.size_mem
    · exact exists_not_found h hroom hsmall
    · exact hends hlast
  refine ⟨Nat.find hex, ?_, Nat.find_spec hex⟩
  intro j hj
  by_contra hnot
  exact Nat.find_min hex hj hnot

end Walking

theorem insertEntry_fresh_iff (h : Uncrowded ns) (hload : 4 * (ns.count + 1) ≤ 3 * ns.size + 3)
    {node : Node α} (hnull : hasNullIdentifier node.nodeId = true) :
    (∃ o p i, insertEntry ns node = some o ∧ o.status = good ∧ o.inserted = some p ∧
      deref o.store p = some { node with nodeId := numericId (assignedNamespace node) i } ∧
      assignedNamespace node ≠ 0 ∧ i ≠ 0 ∧
      ¬ Used ns.entries (numericId (assignedNamespace node) i)) ↔
    WalkSound ns (assignedNamespace node) ∧ WalkEnds ns (assignedNamespace node) := by
  have hmin := h.tableSize.seven_le
  have hns := assignedNamespace_ne_zero node
  have hentry : insertEntry ns node =
      (freshId ns (assignedNamespace node) (mod2 (u32 (ns.count + 1)) ns.size) (ns.size + 1)
        (u32 (ns.count + 1))).map (fun found => store ns found.2
          { node with nodeId := numericId (assignedNamespace node) (UInt32.ofNat found.1) }) := by
    have hassigned : (if node.nodeId.namespaceIndex = 0 then 1 else node.nodeId.namespaceIndex) =
        assignedNamespace node := rfl
    rw [insertEntry, if_pos hnull]
    dsimp only
    rw [hassigned]
    cases freshId ns (assignedNamespace node) (mod2 (u32 (ns.count + 1)) ns.size) (ns.size + 1)
        (u32 (ns.count + 1)) <;> rfl
  constructor
  · rintro ⟨o, p, i, hrun, _, hp, hstored, _, hi, hunused⟩
    rw [hentry] at hrun
    cases hfresh : freshId ns (assignedNamespace node) (mod2 (u32 (ns.count + 1)) ns.size)
        (ns.size + 1) (u32 (ns.count + 1)) with
    | none =>
        rw [hfresh] at hrun
        cases hrun
    | some r =>
        obtain ⟨identifier, s⟩ := r
        rw [hfresh] at hrun
        cases hrun
        cases hp
        obtain ⟨k, hall, rfl, hk⟩ := first_of_freshId (i := 0) hfresh (by intro j hj; omega)
        have hs : s < ns.entries.length := h.entries_length ▸ containsNodeId_lt h.tableSize hk
        have hid : UInt32.ofNat (triedIdentifier ns k) = i := by
          simp only [deref, store, fillEntry, if_true, slot_set_self hs, Option.some.injEq,
            Node.mk.injEq, numericId, NodeId.mk.injEq, Identifier.numeric.injEq] at hstored
          exact hstored.1.2
        subst hid
        have hmiss : ¬ Found ns (triedId ns (assignedNamespace node) k) :=
          (not_found_iff h _).mpr ⟨s, hk⟩
        refine ⟨?_, fun _ => ⟨k, hmiss⟩⟩
        intro m hm
        rcases Nat.lt_trichotomy m k with hlt | rfl | hgt
        · exact Or.inl (hall m hlt)
        · refine Or.inr ⟨?_, hunused⟩
          intro hzero
          exact hi (by rw [hzero]; rfl)
        · exact absurd (hm k hgt) hmiss
  · rintro ⟨hsound, hends⟩
    obtain ⟨k, hall, hmiss⟩ := exists_first h (by omega) hends
    obtain ⟨s, hk, hfresh⟩ := freshId_of_first h hall hmiss
    obtain ⟨hne, hunused⟩ := (hsound k hall).resolve_left hmiss
    have hs : s < ns.entries.length := h.entries_length ▸ containsNodeId_lt h.tableSize hk
    refine ⟨store ns s { node with nodeId := triedId ns (assignedNamespace node) k }, ⟨ns.block, s⟩,
      UInt32.ofNat (triedIdentifier ns k), ?_, rfl, rfl, ?_, hns, ?_, hunused⟩
    · rw [hentry, hfresh]
      rfl
    · simp only [deref, store, fillEntry, if_true]
      exact slot_set_self hs _
    · intro hzero
      have hn := congrArg UInt32.toNat hzero
      rw [UInt32.toNat_ofNat_of_lt' (triedIdentifier_lt ns k)] at hn
      exact hne hn

/-- An insert of a node without an id succeeds exactly if the table can grow
where it has to and the walk through the numbers ends at a proper one. -/
theorem insert_fresh_iff {block : Nat} (h : Reachable block ns) (mem : Option Nat) {node : Node α}
    (hnull : hasNullIdentifier node.nodeId = true) :
    StoresUnderFreshId mem ns node ↔ ¬ ResizeFails mem ns ∧
      WalkSound (enlarged mem ns) (assignedNamespace node) ∧
      WalkEnds (enlarged mem ns) (assignedNamespace node) := by
  obtain ⟨status, ns', hroom, hun, _, hused, hload, hfails⟩ := makeRoom_resized h.uncrowded mem
  have henlarged : enlarged mem ns = ns' := by rw [enlarged, hroom]
  rw [StoresUnderFreshId, insert_eq, hroom, henlarged, ← hfails]
  dsimp only
  by_cases hgood : status = good
  · simp only [hgood, true_and, ← hused]
    exact insertEntry_fresh_iff hun (hload hgood) hnull
  · simp only [hgood, false_and, iff_false]
    rintro ⟨o, p, i, hrun, hstatus, _⟩
    cases hrun
    exact absurd (show badInternalError = good from hstatus) (by decide)

def after : NodeStore α → List (Op α) → Option (NodeStore α)
  | ns, [] => some ns
  | ns, op :: ops => match perform ns op with
      | none => none
      | some (_, ns') => after ns' ops

theorem reachable_after {block : Nat} {ops : List (Op α)} (h : Reachable block ns)
    (hrun : after ns ops = some ns') : Reachable block ns' := by
  induction ops generalizing ns with
  | nil =>
      cases hrun
      exact h
  | cons op ops ih =>
      rw [after] at hrun
      cases hcall : perform ns op with
      | none => simp [hcall] at hrun
      | some r =>
          simp only [hcall] at hrun
          exact ih (h.call hcall) hrun

/-- A store that holds a node under the number with which the walk starts. -/
def secondTaken : NodeStore Unit := (after (new 0) [.insert none ⟨numericId 1 2, .object, ()⟩]).getD (new 0)

theorem after_secondTaken : after (new 0) [.insert none ⟨numericId 1 2, .object, ()⟩] = some secondTaken := by
  decide +kernel

theorem insert_fresh_secondTaken : StoresUnderFreshId none secondTaken ⟨nullId, .object, ()⟩ := by
  refine (insert_fresh_iff (reachable_after .new after_secondTaken) none (by decide)).mpr ?_
  have henlarged : enlarged none secondTaken = secondTaken := by decide +kernel
  rw [henlarged]
  have htaken : (containsNodeId secondTaken (triedId secondTaken 1 0)).map (·.1) = some true := by decide +kernel
  have hfree : (containsNodeId secondTaken (triedId secondTaken 1 1)).map (·.1) = some false := by decide +kernel
  have hmiss : ¬ Found secondTaken (triedId secondTaken 1 1) := by
    rintro ⟨s, hs⟩
    rw [hs] at hfree
    cases hfree
  refine ⟨?_, ?_, fun _ => ⟨1, hmiss⟩⟩
  · rintro ⟨hfull, _⟩
    exact absurd hfull (by decide +kernel)
  · intro k hk
    match k with
    | 0 =>
        obtain ⟨⟨_, s⟩, hs, rfl⟩ := Option.map_eq_some_iff.mp htaken
        exact .inl ⟨s, hs⟩
    | 1 =>
        refine .inr ⟨by decide +kernel, ?_⟩
        rw [used_iff_contents]
        decide +kernel
    | k + 2 => exact absurd (hk 1 (by omega)) hmiss

/-- After the first two calls the table has 7 slots. With two more nodes the
walk starts at the used number 3 and steps by 4. -/
def zeroCalls : List (Op Unit) :=
  [.insert none ⟨numericId 1 1, .object, ()⟩, .remove (some 1) (numericId 1 1),
   .insert none ⟨numericId 1 3, .object, ()⟩, .insert none ⟨numericId 1 5, .object, ()⟩]

/-- The store of `zeroCalls`, and what it does with a node without an id. -/
theorem zeroCalls_insert : ((after (new 0) zeroCalls).bind (insert none · ⟨nullId, .object, ()⟩)).map
      (fun o => (o.status, o.inserted, o.inserted.bind (deref o.store))) =
    some (good, some ⟨1, 0⟩, some ⟨numericId 1 0, .object, ()⟩) := by
  decide +kernel

/-- The insert answers good and stores the node under the number 0. -/
theorem insert_stores_zero : ¬ ∀ (ns : NodeStore Unit), Reachable 0 ns →
    ∀ (mem : Option Nat) (node : Node Unit), hasNullIdentifier node.nodeId = true →
      StoresUnderFreshId mem ns node := by
  intro hall
  cases hrun : after (new 0 : NodeStore Unit) zeroCalls with
  | none =>
      have hzero := zeroCalls_insert
      simp [hrun] at hzero
  | some ns =>
      obtain ⟨o, p, i, hins, _, hp, hstored, _, hi, _⟩ :=
        hall ns (reachable_after Reachable.new hrun) none ⟨nullId, .object, ()⟩ (by decide)
      have hzero := zeroCalls_insert
      simp only [hrun, Option.bind_some, hins, Option.map_some, hp, hstored, Option.some.injEq,
        Prod.mk.injEq, Node.mk.injEq, numericId, NodeId.mk.injEq, Identifier.numeric.injEq] at hzero
      exact hi hzero.2.2.1.2

end OpcUa.FreshIds
