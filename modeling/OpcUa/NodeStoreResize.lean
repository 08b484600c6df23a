import OpcUa.NodeStoreSizes

namespace OpcUa.NodeStoreResize

open StatusCodes NodeIds OpenAddressing NodeStores NodeStoreSizes LittleEndian

section Tables

variable {α : Type}

/-- The entries are a table of `n` nodes in which every node is found along
its own probe path. The field `count` is not involved: while the table is
rebuilt it runs ahead of the entries. -/
structure Table (ns : NodeStore α) (n : Nat) : Prop where
  size_mem : ns.size ∈ smallPrimes
  entries_length : ns.entries.length = ns.size
  contents_length : (contents ns.entries).length = n
  linked : Linked (probeNode ns.size) ns.entries
  separated : Separated sameNode ns.entries

structure Wf (ns : NodeStore α) : Prop where
  table : Table ns ns.count
  room : ns.count < ns.size

def Fresh (entries : List (Option (Node α))) (node : Node α) : Prop :=
  ∀ s e, slot entries s = some e → sameNode e node = false

theorem sameNode_comm (a b : Node α) : sameNode a b = sameNode b a := nodeIdEqual_comm _ _

theorem Table.searchable {ns : NodeStore α} {n : Nat} (h : Table ns n) (hn : n < ns.size) :
    Searchable ns := by
  refine ⟨h.size_mem, h.entries_length, ?_⟩
  have hlt : (contents ns.entries).length < ns.entries.length := by
    rw [h.contents_length, h.entries_length]
    exact hn
  obtain ⟨s, hs, hfree⟩ := exists_free hlt
  exact ⟨s, h.entries_length ▸ hs, hfree⟩

theorem Table.place {ns : NodeStore α} {n : Nat} (h : Table ns n) (hn : n < ns.size)
    {node : Node α} (hnew : Fresh ns.entries node) :
    ∃ s < ns.size, containsNodeId ns node.nodeId = some (false, s) ∧ slot ns.entries s = none ∧
      Table (fillEntry ns s node) (n + 1) ∧
      (contents (fillEntry ns s node).entries).Perm (node :: contents ns.entries) := by
  obtain ⟨s, hs, hfind, hfree, hlead⟩ := containsNodeId_absent (h.searchable hn) hnew
  have hlen : s < ns.entries.length := h.entries_length ▸ hs
  have hperm := contents_fill hlen hfree node
  have hsep : Separated sameNode (ns.entries.set s (some node)) := by
    refine h.separated.fill hlen ?_ ?_
    · intro t w _ hw
      rw [sameNode_comm]
      exact hnew t w hw
    · intro t w _ hw
      exact hnew t w hw
  refine ⟨s, hs, hfind, hfree, ⟨h.size_mem, ?_, ?_, h.linked.fill hlen hlead, hsep⟩, hperm⟩
  · simpa [fillEntry] using h.entries_length
  · change (contents (ns.entries.set s (some node))).length = n + 1
    rw [hperm.length_eq, List.length_cons, h.contents_length]

theorem Table.found {ns : NodeStore α} {n : Nat} (h : Table ns n) (hn : n < ns.size)
    {id : NodeId} {s : Nat} {e : Node α} (hs : slot ns.entries s = some e)
    (heq : nodeIdEqual e.nodeId id = true) (hash_eq : hash e.nodeId = hash id) :
    containsNodeId ns id = some (true, s) := by
  have hpath : probe ns.size id = probeNode ns.size e := by
    simp only [probeNode, probe, hash_eq]
  exact containsNodeId_present (h.searchable hn) h.separated hs heq (hpath ▸ h.linked s e hs)

theorem table_replicate {ns : NodeStore α} (hsize : ns.size ∈ smallPrimes)
    (hentries : ns.entries = List.replicate ns.size none) : Table ns 0 := by
  refine ⟨hsize, ?_, ?_, ?_, ?_⟩
  · rw [hentries, List.length_replicate]
  · rw [hentries, contents_replicate]
    rfl
  · rw [hentries]
    exact linked_replicate _ _
  · rw [hentries]
    exact separated_replicate _ _

theorem wf_new (block : Nat) : Wf (new block : NodeStore α) := by
  have hsize : (new block : NodeStore α).size ∈ smallPrimes := by
    have : (new block : NodeStore α).size = 127 := by
      simp only [new]
      decide
    rw [this]
    decide
  refine ⟨table_replicate hsize rfl, ?_⟩
  have := (size_bounds hsize).1
  exact Nat.lt_of_lt_of_le (show 0 < 7 by decide) this

/-- The loop of `expand` moves all remaining nodes. -/
theorem refill_spec {count : Nat} (rest : List (Option (Node α))) (j : Nat) (ns : NodeStore α)
    (h : Table ns j) (hcount : j + (contents rest).length = count) (hroom : count < ns.size)
    (hrest : (contents rest).Pairwise (fun a b => sameNode a b = false))
    (hnew : ∀ e ∈ contents rest, Fresh ns.entries e) :
    ∃ ns', refill count rest j ns = some ns' ∧ Table ns' count ∧ ns'.size = ns.size ∧
      ns'.count = ns.count ∧ (contents ns'.entries).Perm (contents rest ++ contents ns.entries) := by
  induction rest generalizing j ns with
  | nil =>
      have hj : j = count := by simpa [contents] using hcount
      exact ⟨ns, rfl, hj ▸ h, rfl, rfl, List.Perm.refl _⟩
  | cons x rest ih =>
      cases x with
      | none =>
          by_cases hj : j < count
          · rw [refill, if_pos hj]
            exact ih j ns h hcount hroom hrest hnew
          · have hempty : contents rest = [] := List.eq_nil_of_length_eq_zero (by
              have : j + (contents rest).length = count := hcount
              omega)
            have hjc : j = count := by
              rw [← hcount]
              change j = j + (contents rest).length
              rw [hempty]
              rfl
            refine ⟨ns, by rw [refill, if_neg hj], hjc ▸ h, rfl, rfl, ?_⟩
            change (contents ns.entries).Perm (contents rest ++ contents ns.entries)
            rw [hempty]
            exact List.Perm.refl _
      | some e =>
          have hlen : j + ((contents rest).length + 1) = count := hcount
          have hpair : (e :: contents rest).Pairwise (fun a b => sameNode a b = false) := hrest
          rw [List.pairwise_cons] at hpair
          obtain ⟨s, _, hfind, hfree, htable, hperm⟩ :=
            h.place (by omega) (hnew e List.mem_cons_self)
          have hstill : ∀ w ∈ contents rest, Fresh (fillEntry ns s e).entries w := by
            intro w hw t v hv
            by_cases hts : t = s
            · subst t
              rw [fillEntry, slot_set_self (by simpa [fillEntry] using lt_length_of_slot hv)] at hv
              cases hv
              exact hpair.1 w hw
            · rw [fillEntry, slot_set_of_ne hts] at hv
              exact hnew w (List.mem_cons_of_mem e hw) t v hv
          obtain ⟨ns', hrun, htab, hsize, hcnt, hall⟩ := ih (j + 1) (fillEntry ns s e) htable
            (by omega) hroom hpair.2 hstill
          refine ⟨ns', ?_, htab, hsize, hcnt, ?_⟩
          · rw [refill, if_pos (by omega), hfind]
            exact hrun
          · exact hall.trans ((hperm.append_left _).trans List.perm_middle)

end Tables

section Resizes

variable {α : Type}

/-- The guard with which `expand` leaves the table as it is. -/
def KeepsTable (ns : NodeStore α) : Prop :=
  ns.count * 2 < ns.size ∧ (ns.count * 8 > ns.size ∨ ns.size ≤ minSize)

theorem i32_of_lt {n : Nat} (h : n < 2147483648) : i32 n = n := by
  rw [i32, toInt32, u32_of_lt (by omega), if_pos h]

theorem sub32_of_le {a b : Nat} (hba : b ≤ a) (ha : a < 4294967296) : sub32 a b = a - b := by
  unfold sub32
  omega

theorem expand_keeps {ns : NodeStore α} {mem : Option Nat} (hcount : ns.count < 2 ^ 28)
    (h : KeepsTable ns) : expand mem ns = some (good, ns) := by
  have hk : ns.count * 2 < ns.size ∧ (ns.count * 8 > ns.size ∨ ns.size ≤ minSize) := h
  rw [expand, u32_of_lt (by omega), u32_of_lt (by omega), if_pos hk]

theorem expand_rebuilds {ns : NodeStore α} (block : Nat) (hcount : ns.count < 2 ^ 28)
    (hlen : (contents ns.entries).length = ns.count) (hsep : Separated sameNode ns.entries)
    (h : ¬ KeepsTable ns) :
    ∃ ns', expand (some block) ns = some (good, ns') ∧ Wf ns' ∧ ns.count * 2 ≤ ns'.size ∧
      ns'.count = ns.count ∧ (contents ns'.entries).Perm (contents ns.entries) := by
  have hk : ¬ (ns.count * 2 < ns.size ∧ (ns.count * 8 > ns.size ∨ ns.size ≤ minSize)) := h
  obtain ⟨hindex, hbig⟩ := higherPrimeIndex_spec (n := ns.count * 2) (by
    unfold maxSize
    omega)
  have hmem := getD_mem_smallPrimes hindex
  obtain ⟨hmin, hmax⟩ := size_bounds hmem
  have halloc : calloc (some block) (primes.getD (higherPrimeIndex (ns.count * 2)) 0) =
      some block := by
    rw [calloc, i32_of_lt (by simp only [maxSize] at hmax; omega), if_pos (by omega)]
  obtain ⟨ns', hrun, htable, hsize, hcnt, hperm⟩ := refill_spec ns.entries 0
    { entries := List.replicate (primes.getD (higherPrimeIndex (ns.count * 2)) 0) none,
      block := block, size := primes.getD (higherPrimeIndex (ns.count * 2)) 0,
      count := ns.count, sizePrimeIndex := higherPrimeIndex (ns.count * 2) }
    (table_replicate hmem rfl) ((Nat.zero_add _).trans hlen) (by dsimp only; omega)
    (contents_pairwise hsep)
    (by
      intro e _ s w hw
      simp [slot_replicate] at hw)
  refine ⟨ns', ?_, ⟨hcnt ▸ htable, ?_⟩, hsize ▸ hbig, hcnt, ?_⟩
  · rw [expand, u32_of_lt (by omega), u32_of_lt (by omega), if_neg hk]
    simp only [halloc, hrun]
  · rw [hsize, hcnt]
    dsimp only
    omega
  · simpa only [contents_replicate, List.append_nil] using hperm

theorem eq_of_nodeIdEqual_numeric {id : NodeId} {nsIndex : UInt16} {i : UInt32}
    (h : nodeIdEqual id (numericId nsIndex i) = true) : id = numericId nsIndex i := by
  rcases id with ⟨ns, ident⟩
  cases ident <;> simp_all [nodeIdEqual, numericId]

/-- The ids that `insert` tries for a node without one. -/
def candidate (nsIndex : UInt16) (a d size k : Nat) : NodeId :=
  numericId nsIndex (UInt32.ofNat (walk a d size k))

def Used (entries : List (Option (Node α))) (id : NodeId) : Prop :=
  ∃ s e, slot entries s = some e ∧ nodeIdEqual e.nodeId id = true

theorem candidate_injective {nsIndex : UInt16} {a d size : Nat} (hsize : size ∈ smallPrimes)
    (hd : 0 < d) (hds : d < size) {j k : Nat} (hj : j < size) (hk : k < size)
    (h : candidate nsIndex a d size j = candidate nsIndex a d size k) : j = k := by
  obtain ⟨hmin, hmax⟩ := size_bounds hsize
  simp only [maxSize] at hmax
  have hlt (n : Nat) : walk a d size n < 4294967296 :=
    (Nat.mod_lt _ (by omega)).trans_le (by omega)
  simp only [candidate, numericId, NodeId.mk.injEq, Identifier.numeric.injEq, true_and] at h
  have hw := congrArg UInt32.toNat h
  rw [UInt32.toNat_ofNat_of_lt' (hlt j), UInt32.toNat_ofNat_of_lt' (hlt k)] at hw
  exact walk_injective (tableSize_of_small hsize).prime hd hds hj hk hw

theorem exists_unused {ns : NodeStore α} (h : Searchable ns) (nsIndex : UInt16) {a d : Nat}
    (hd : 0 < d) (hds : d < ns.size) :
    ∃ k < ns.size, ¬ Used ns.entries (candidate nsIndex a d ns.size k) := by
  by_contra hall
  push Not at hall
  choose f e hslot heq using fun k : Fin ns.size => hall k k.isLt
  have hinj : Function.Injective f := by
    intro j k hjk
    have hejk : e j = e k := by
      have hk := hslot k
      rw [← hjk, hslot j] at hk
      exact Option.some.inj hk
    have hsame : candidate nsIndex a d ns.size j = candidate nsIndex a d ns.size k := by
      have hj : (e j).nodeId = candidate nsIndex a d ns.size j := eq_of_nodeIdEqual_numeric (heq j)
      have hk : (e k).nodeId = candidate nsIndex a d ns.size k := eq_of_nodeIdEqual_numeric (heq k)
      rw [← hj, ← hk, hejk]
    exact Fin.ext (candidate_injective h.size_mem hd hds j.isLt k.isLt hsame)
  have hlt (k : Fin ns.size) : f k < ns.size := by
    rw [← h.entries_length]
    exact lt_length_of_slot (hslot k)
  have hinj' : Function.Injective (fun k => (⟨f k, hlt k⟩ : Fin ns.size)) := by
    intro j k hjk
    exact hinj (congrArg Fin.val hjk)
  obtain ⟨s, hs, hfree⟩ := h.free
  obtain ⟨k, hk⟩ := Finite.surjective_of_injective hinj' ⟨s, hs⟩
  have hval : f k = s := congrArg Fin.val hk
  rw [← hval, hslot k] at hfree
  cases hfree

theorem identifier_step {size : Nat} (h : size ∈ smallPrimes) {a d : Nat} (hd : d < size) (k : Nat) :
    (if i32 (u32 (walk a d size k + d)) ≥ i32 size then
        sub32 (u32 (walk a d size k + d)) size
      else u32 (walk a d size k + d)) = walk a d size (k + 1) := by
  obtain ⟨hmin, hmax⟩ := size_bounds h
  simp only [maxSize] at hmax
  have hlt : walk a d size k < size := Nat.mod_lt _ (by omega)
  rw [walk_succ, u32_of_lt (n := walk a d size k + d) (by omega), i32_of_lt (by omega),
    i32_of_lt (by omega)]
  by_cases hge : walk a d size k + d ≥ size
  · rw [if_pos (by omega), Nat.mod_eq_sub_mod hge, Nat.mod_eq_of_lt (by omega),
      sub32_of_le hge (by omega)]
  · rw [if_neg (by omega), Nat.mod_eq_of_lt (by omega)]

theorem freshId_spec {ns : NodeStore α} {n : Nat} (h : Table ns n) (hn : n < ns.size)
    (nsIndex : UInt16) {a d k s : Nat} (hd : d < ns.size)
    (hused : ∀ j < k, Used ns.entries (candidate nsIndex a d ns.size j))
    (hfree : containsNodeId ns (candidate nsIndex a d ns.size k) = some (false, s))
    (fuel i : Nat) (hi : i ≤ k) (hf : k < i + fuel) :
    freshId ns nsIndex d fuel (walk a d ns.size i) = some (walk a d ns.size k, s) := by
  induction fuel generalizing i with
  | zero => omega
  | succ fuel ih =>
      rw [freshId]
      by_cases hik : i = k
      · subst hik
        rw [candidate] at hfree
        rw [hfree]
      · obtain ⟨t, e, ht, he⟩ := hused i (by omega)
        have hfound := h.found hn ht he (by rw [eq_of_nodeIdEqual_numeric he, candidate])
        rw [candidate] at hfound
        simp only [hfound, identifier_step h.size_mem hd]
        exact ih (i + 1) (by omega) (by omega)

theorem freshId_unused {ns : NodeStore α} {n : Nat} (h : Table ns n) (hn : n < ns.size)
    (nsIndex : UInt16) {a : Nat} (ha : a < ns.size) :
    ∃ identifier s, freshId ns nsIndex (mod2 a ns.size) (ns.size + 1) a = some (identifier, s) ∧
      ¬ Used ns.entries (numericId nsIndex (UInt32.ofNat identifier)) ∧
      containsNodeId ns (numericId nsIndex (UInt32.ofNat identifier)) = some (false, s) := by
  classical
  obtain ⟨hd, hds⟩ := mod2_bounds (tableSize_of_small h.size_mem) a
  have hex := exists_unused (h.searchable hn) nsIndex hd hds (a := a)
  obtain ⟨hk, hunused⟩ := Nat.find_spec hex
  have hbefore : ∀ j < Nat.find hex, Used ns.entries
      (candidate nsIndex a (mod2 a ns.size) ns.size j) := by
    intro j hj
    by_contra hnot
    exact Nat.find_min hex hj ⟨hj.trans hk, hnot⟩
  have habs : ∀ t e, slot ns.entries t = some e → nodeIdEqual e.nodeId
      (candidate nsIndex a (mod2 a ns.size) ns.size (Nat.find hex)) = false := by
    intro t e he
    by_contra hsame
    exact hunused ⟨t, e, he, by simpa using hsame⟩
  obtain ⟨s, _, hfind, _, _⟩ := containsNodeId_absent (h.searchable hn) habs
  have hrun := freshId_spec h hn nsIndex hds hbefore hfind (ns.size + 1) 0 (Nat.zero_le _)
    (by omega)
  have hstart : walk a (mod2 a ns.size) ns.size 0 = a := by
    rw [walk, Nat.zero_mul, Nat.add_zero, Nat.mod_eq_of_lt ha]
  rw [hstart] at hrun
  exact ⟨_, s, hrun, hunused, hfind⟩

end Resizes

end OpcUa.NodeStoreResize
