import OpcUa.NodeStoreRuns

namespace OpcUa.NodeStoreProbing

open StatusCodes NodeIds OpenAddressing NodeStores NodeStoreSizes NodeStoreResize NodeMaps

variable {α : Type} {ns : NodeStore α}

def taken (ns : NodeStore α) : Nat := (contents ns.entries).length

/-- What is left of the order of the table when removals break the probe
chains: it is not full. -/
structure Roomy (ns : NodeStore α) : Prop where
  size_mem : ns.size ∈ smallPrimes
  entries_length : ns.entries.length = ns.size
  taken_le : taken ns ≤ ns.count
  room : ns.count < ns.size
  bounded : ns.count ≤ 2 ^ 28

theorem free_of_taken (hlen : ns.entries.length = ns.size) (h : taken ns < ns.size) :
    ∃ t < ns.size, slot ns.entries t = none := by
  rw [← hlen]
  apply exists_free
  rw [hlen]
  exact h

theorem searchable_of_taken (hsize : ns.size ∈ smallPrimes) (hlen : ns.entries.length = ns.size)
    (h : taken ns < ns.size) : Searchable ns :=
  ⟨hsize, hlen, free_of_taken hlen h⟩

theorem Roomy.searchable (h : Roomy ns) : Searchable ns :=
  searchable_of_taken h.size_mem h.entries_length (h.taken_le.trans_lt h.room)

theorem containsNodeId_returns_of_free (hsize : TableSize ns.size)
    (hfree : ∃ t < ns.size, slot ns.entries t = none) (id : NodeId) :
    ∃ s < ns.size, containsNodeId ns id = some ((slot ns.entries s).isSome, s) := by
  obtain ⟨t, ht, hfree⟩ := hfree
  obtain ⟨m, hm, rfl⟩ := probe_covers hsize id ht
  obtain ⟨n, hn, hstop⟩ := exists_stopsAt (hasId id) hfree
  refine ⟨_, probe_lt hsize id n, ?_⟩
  rw [containsNodeId_eq_scan hsize,
    scan_stops hstop (ns.size + 1) 0 (Nat.zero_le _) (by omega)]
  rfl

theorem containsNodeId_returns (h : Searchable ns) (id : NodeId) :
    ∃ s < ns.size, containsNodeId ns id = some ((slot ns.entries s).isSome, s) :=
  containsNodeId_returns_of_free h.tableSize h.free id

theorem taken_fill {s : Nat} (hs : s < ns.entries.length) (node : Node α) :
    taken (fillEntry ns s node) + (slot ns.entries s).toList.length = taken ns + 1 := by
  have hperm := (contents_set hs (some node)).length_eq
  rw [List.length_append, List.length_append] at hperm
  have hone : (some node).toList.length = 1 := rfl
  have hset : taken (fillEntry ns s node) = (contents (ns.entries.set s (some node))).length := rfl
  have htaken : taken ns = (contents ns.entries).length := rfl
  omega

theorem taken_vacate {s : Nat} {e : Node α} (hs : slot ns.entries s = some e) :
    taken (deleteEntry ns s) + 1 = taken ns := by
  have hperm := (contents_vacate hs).length_eq
  rw [List.length_cons] at hperm
  exact hperm.symm

theorem taken_store {s : Nat} (hs : s < ns.entries.length) (node : Node α) :
    taken (store ns s node).store ≤ taken ns + 1 := by
  have hfill := taken_fill hs node
  have htaken : taken (store ns s node).store = taken (fillEntry ns s node) := rfl
  omega

theorem taken_exchange {s : Nat} {e : Node α} (hs : slot ns.entries s = some e) (node : Node α) :
    taken (fillEntry (deleteEntry ns s) s node) = taken ns := by
  have hlt := lt_length_of_slot hs
  have hfree : slot (deleteEntry ns s).entries s = none := slot_set_self hlt none
  have hlt' : s < (deleteEntry ns s).entries.length := by simpa [deleteEntry] using hlt
  have hfill := taken_fill hlt' node
  have hvacate := taken_vacate hs
  rw [hfree] at hfill
  exact hfill.trans hvacate

section Resizing

/-- Every search of the loop of `expand` returns. Two nodes with one id end up
in one slot, so that fewer slots than nodes may be taken. -/
theorem refill_returns {count : Nat} (rest : List (Option (Node α))) (j : Nat) (ns : NodeStore α)
    (hsize : TableSize ns.size) (hlen : ns.entries.length = ns.size) (htaken : taken ns ≤ j)
    (hj : j ≤ count) (hroom : count < ns.size) :
    ∃ ns', refill count rest j ns = some ns' ∧ ns'.size = ns.size ∧ ns'.count = ns.count ∧
      ns'.entries.length = ns'.size ∧ taken ns' ≤ count := by
  induction rest generalizing j ns with
  | nil => exact ⟨ns, rfl, rfl, rfl, hlen, htaken.trans hj⟩
  | cons x rest ih =>
      by_cases hlt : j < count
      swap
      · refine ⟨ns, ?_, rfl, rfl, hlen, htaken.trans hj⟩
        cases x with
        | none => rw [refill, if_neg hlt]
        | some e => rw [refill, if_neg hlt]
      cases x with
      | none =>
          rw [refill, if_pos hlt]
          exact ih j ns hsize hlen htaken hj hroom
      | some e =>
          obtain ⟨s, hs, hfind⟩ := containsNodeId_returns_of_free hsize
            (free_of_taken hlen (by omega)) e.nodeId
          have hfill := taken_fill (hlen ▸ hs) e
          rw [refill, if_pos hlt, hfind]
          exact ih (j + 1) (fillEntry ns s e) hsize (by simpa [fillEntry] using hlen) (by omega) hlt hroom

theorem expand_returns (h : Roomy ns) (mem : Option Nat) :
    ∃ status ns', expand mem ns = some (status, ns') ∧ Roomy ns' ∧ ns'.count = ns.count ∧
      (status = good → ¬ ns.count * 2 < ns.size → ns.count * 2 ≤ ns'.size) := by
  have hbound := h.bounded
  by_cases hkeep : ns.count * 2 < ns.size ∧ (ns.count * 8 > ns.size ∨ ns.size ≤ minSize)
  · refine ⟨good, ns, ?_, h, rfl, fun _ hnot => absurd hkeep.1 hnot⟩
    rw [expand, u32_of_lt (by omega), u32_of_lt (by omega), if_pos hkeep]
  obtain ⟨hindex, hbig⟩ := higherPrimeIndex_spec (n := ns.count * 2) (by
    unfold maxSize
    omega)
  have hmem := getD_mem_smallPrimes hindex
  obtain ⟨hmin, hmax⟩ := size_bounds hmem
  rw [expand, u32_of_lt (by omega), u32_of_lt (by omega), if_neg hkeep]
  dsimp only
  cases hcalloc : calloc mem (primes.getD (higherPrimeIndex (ns.count * 2)) 0) with
  | none => exact ⟨badOutOfMemory, ns, rfl, h, rfl, fun hgood => absurd hgood (by decide)⟩
  | some block =>
      obtain ⟨ns', hrun, hsize, hcount, hlen, htaken⟩ := refill_returns ns.entries 0
        { entries := List.replicate (primes.getD (higherPrimeIndex (ns.count * 2)) 0) none,
          block := block, size := primes.getD (higherPrimeIndex (ns.count * 2)) 0,
          count := ns.count, sizePrimeIndex := higherPrimeIndex (ns.count * 2) }
        (tableSize_of_small hmem) (List.length_replicate ..) (by simp [taken, contents_replicate])
          (Nat.zero_le ns.count)
        (by dsimp only; omega)
      dsimp only
      rw [hrun]
      refine ⟨good, ns', rfl, ⟨hsize ▸ hmem, hlen, hcount ▸ htaken, ?_, ?_⟩, hcount, fun _ _ => hsize ▸ hbig⟩
      · rw [hsize, hcount]
        dsimp only
        omega
      · rw [hcount]
        exact hbound

end Resizing

section Calls

theorem roomy_new (block : Nat) : Roomy (new block : NodeStore α) := by
  obtain ⟨htable, hroom⟩ := wf_new (α := α) block
  exact ⟨htable.size_mem, htable.entries_length, htable.contents_length.le, hroom, Nat.zero_le _⟩

theorem roomy_store (h : Roomy ns) (hroom : ns.count + 1 < ns.size) (hbound : ns.count < 2 ^ 28) {s : Nat}
    (hs : s < ns.size) (node : Node α) : Roomy (store ns s node).store := by
  have hmax := (size_bounds h.size_mem).2
  simp only [maxSize] at hmax
  have hcount : (store ns s node).store.count = ns.count + 1 := u32_of_lt (by omega)
  refine ⟨h.size_mem, ?_, ?_, ?_, ?_⟩
  · simpa [store, fillEntry] using h.entries_length
  · rw [hcount]
    exact (taken_store (h.entries_length ▸ hs) node).trans (Nat.succ_le_succ h.taken_le)
  · rw [hcount]
    exact hroom
  · rw [hcount]
    exact hbound

theorem freshId_returns (h : Searchable ns) (nsIndex : UInt16) {a d k : Nat} (hd : d < ns.size)
    (hfree : ¬ Used ns.entries (candidate nsIndex a d ns.size k)) (fuel i : Nat) (hi : i ≤ k) (hf : k < i + fuel) :
    ∃ identifier s, freshId ns nsIndex d fuel (walk a d ns.size i) = some (identifier, s) ∧ s < ns.size := by
  induction fuel generalizing i with
  | zero => omega
  | succ fuel ih =>
      obtain ⟨s, hs, hfind⟩ := containsNodeId_returns h (candidate nsIndex a d ns.size i)
      cases hslot : slot ns.entries s with
      | none =>
          rw [hslot, candidate] at hfind
          refine ⟨walk a d ns.size i, s, ?_, hs⟩
          rw [freshId, hfind]
          rfl
      | some e =>
          have hik : i ≠ k := by
            rintro rfl
            have hnone : ∀ t w, slot ns.entries t = some w →
                nodeIdEqual w.nodeId (candidate nsIndex a d ns.size i) = false := by
              intro t w hw
              by_contra hsame
              exact hfree ⟨t, w, hw, by simpa using hsame⟩
            obtain ⟨t, _, habsent, _⟩ := containsNodeId_absent h hnone
            rw [hfind, hslot] at habsent
            cases habsent
          rw [hslot, candidate] at hfind
          obtain ⟨identifier, t, hrun, ht⟩ := ih (i + 1) (by omega) (by omega)
          refine ⟨identifier, t, ?_, ht⟩
          rw [freshId, hfind, Option.isSome_some]
          dsimp only
          rw [identifier_step h.size_mem hd]
          exact hrun

theorem insertEntry_returns (h : Roomy ns) (hroom : ns.count + 1 < ns.size) (hbound : ns.count < 2 ^ 28)
    (node : Node α) : ∃ o, insertEntry ns node = some o ∧ Roomy o.store := by
  have hsearch := h.searchable
  by_cases hnull : hasNullIdentifier node.nodeId = true
  · generalize hns : (if node.nodeId.namespaceIndex = 0 then 1 else node.nodeId.namespaceIndex) = nsIndex
    have hstart : u32 (ns.count + 1) = ns.count + 1 := u32_of_lt (by omega)
    obtain ⟨hd, hds⟩ := mod2_bounds hsearch.tableSize (ns.count + 1)
    obtain ⟨k, hk, hfree⟩ := exists_unused hsearch nsIndex hd hds (a := ns.count + 1)
    obtain ⟨identifier, s, hrun, hs⟩ := freshId_returns hsearch nsIndex hds hfree (ns.size + 1) 0
      (Nat.zero_le _) (by omega)
    have hwalk : walk (ns.count + 1) (mod2 (ns.count + 1) ns.size) ns.size 0 = ns.count + 1 := by
      rw [walk, Nat.zero_mul, Nat.add_zero, Nat.mod_eq_of_lt hroom]
    rw [hwalk] at hrun
    refine ⟨store ns s { node with nodeId := numericId nsIndex (UInt32.ofNat identifier) }, ?_,
      roomy_store h hroom hbound hs _⟩
    rw [insertEntry, if_pos hnull]
    dsimp only
    rw [hns, hstart, hrun]
  · obtain ⟨s, hs, hfind⟩ := containsNodeId_returns hsearch node.nodeId
    rw [insertEntry, if_neg hnull, hfind]
    cases slot ns.entries s with
    | none => exact ⟨store ns s node, rfl, roomy_store h hroom hbound hs node⟩
    | some e => exact ⟨.fail badNodeIdExists ns, rfl, h⟩

theorem insert_returns (h : Roomy ns) (hbound : ns.count < 2 ^ 28) (mem : Option Nat) (node : Node α) :
    ∃ o, insert mem ns node = some o ∧ Roomy o.store := by
  obtain ⟨hmin, hmax⟩ := size_bounds h.size_mem
  simp only [maxSize] at hmax
  rw [NodeStores.insert, u32_of_lt (by omega), u32_of_lt (by omega)]
  by_cases hfull : ns.size * 3 ≤ ns.count * 4
  · obtain ⟨status, ns', hrun, hroomy, hcount, hgrown⟩ := expand_returns h mem
    rw [if_pos hfull, hrun]
    dsimp only
    by_cases hgood : status = good
    · have hsize := hgrown hgood (by omega)
      rw [if_pos hgood]
      exact insertEntry_returns hroomy (by omega) (by omega) node
    · rw [if_neg hgood]
      exact ⟨_, rfl, hroomy⟩
  · rw [if_neg hfull]
    exact insertEntry_returns h (by omega) hbound node

theorem replace_returns (h : Roomy ns) (oldNode : NodePtr) (node : Node α) :
    ∃ o, replace ns oldNode node = some o ∧ Roomy o.store := by
  obtain ⟨s, hs, hfind⟩ := containsNodeId_returns h.searchable node.nodeId
  rw [replace, hfind]
  cases hslot : slot ns.entries s with
  | none => exact ⟨_, rfl, h⟩
  | some e =>
      dsimp only [Option.isSome_some]
      split
      · exact ⟨_, rfl, h⟩
      · refine ⟨_, rfl, h.size_mem, ?_, ?_, h.room, h.bounded⟩
        · simpa [fillEntry, deleteEntry] using h.entries_length
        · exact (taken_exchange hslot node).trans_le h.taken_le

theorem remove_returns (h : Roomy ns) (mem : Option Nat) (nodeid : NodeId) :
    ∃ o, remove mem ns nodeid = some o ∧ Roomy o.store := by
  obtain ⟨s, hs, hfind⟩ := containsNodeId_returns h.searchable nodeid
  rw [remove, hfind]
  cases hslot : slot ns.entries s with
  | none => exact ⟨_, rfl, h⟩
  | some e =>
      have hvacate := taken_vacate hslot
      have hle := h.taken_le
      have hbound := h.bounded
      have hroom := h.room
      have hcount : sub32 ns.count 1 = ns.count - 1 := sub32_of_le (by omega) (by omega)
      dsimp only [Option.isSome_some]
      rw [hcount]
      have hroomy : Roomy { deleteEntry ns s with count := ns.count - 1 } := by
        refine ⟨h.size_mem, ?_, ?_, ?_, ?_⟩
        · simpa [deleteEntry] using h.entries_length
        · have htaken : taken (deleteEntry ns s) ≤ ns.count - 1 := by omega
          exact htaken
        · exact (Nat.sub_le _ _).trans_lt hroom
        · exact (Nat.sub_le _ _).trans hbound
      rw [downsize]
      split
      · obtain ⟨status, ns', hrun, hroomy', _⟩ := expand_returns hroomy mem
        rw [hrun]
        exact ⟨_, rfl, hroomy'⟩
      · exact ⟨_, rfl, hroomy⟩

theorem perform_returns (h : Roomy ns) (hbound : ns.count < 2 ^ 28) (op : Op α) :
    ∃ reply ns', perform ns op = some (reply, ns') ∧ Roomy ns' := by
  cases op with
  | insert mem node =>
      obtain ⟨o, hrun, hroomy⟩ := insert_returns h hbound mem node
      exact ⟨_, o.store, by rw [perform, hrun]; rfl, hroomy⟩
  | replace oldNode node =>
      obtain ⟨o, hrun, hroomy⟩ := replace_returns h oldNode node
      exact ⟨_, o.store, by rw [perform, hrun]; rfl, hroomy⟩
  | get id =>
      obtain ⟨s, _, hfind⟩ := containsNodeId_returns h.searchable id
      rw [perform, NodeStores.get, hfind]
      cases slot ns.entries s with
      | none => exact ⟨_, ns, rfl, h⟩
      | some e => exact ⟨_, ns, rfl, h⟩
  | remove mem id =>
      obtain ⟨o, hrun, hroomy⟩ := remove_returns h mem id
      exact ⟨_, o.store, by rw [perform, hrun]; rfl, hroomy⟩
  | iterate => exact ⟨_, ns, rfl, h⟩

end Calls

/-- The search returns for every id, also the searches of a resize. -/
structure Probes (ns : NodeStore α) : Prop where
  size_prime : ns.size ∈ primes
  taken_le : taken ns ≤ ns.count
  room : ns.count < ns.size
  free : ∃ s < ns.size, slot ns.entries s = none
  search : ∀ id, ∃ found s, containsNodeId ns id = some (found, s)
  resize : ∀ mem, ∃ status ns', expand mem ns = some (status, ns')

theorem Roomy.probes (h : Roomy ns) : Probes ns := by
  refine ⟨List.mem_of_mem_take h.size_mem, h.taken_le, h.room, h.searchable.free, ?_, ?_⟩
  · intro id
    obtain ⟨s, _, hfind⟩ := containsNodeId_returns h.searchable id
    exact ⟨_, s, hfind⟩
  · intro mem
    obtain ⟨status, ns', hrun, _⟩ := expand_returns h mem
    exact ⟨status, ns', hrun⟩

/-- Every call of the run returns, and every store in between has the property. -/
def Throughout (P : NodeStore α → Prop) : NodeStore α → List (Op α) → Prop
  | ns, [] => P ns
  | ns, op :: ops => P ns ∧ ∃ reply ns', perform ns op = some (reply, ns') ∧ Throughout P ns' ops

theorem throughout_of_roomy (ops : List (Op α)) {ns : NodeStore α} (h : Roomy ns)
    (hops : Along (fun ns _ => ns.count < 2 ^ 28) ns ops) : Throughout Probes ns ops := by
  induction ops generalizing ns with
  | nil => exact h.probes
  | cons op ops ih =>
      obtain ⟨hbound, hrest⟩ := hops
      obtain ⟨reply, ns', hrun, hroomy⟩ := perform_returns h hbound op
      rw [hrun] at hrest
      exact ⟨h.probes, reply, ns', hrun, ih hroomy hrest⟩

/-- In a run over fewer than `2 ^ 28` nodes, with any outcome of the
allocations, every search ends. -/
theorem probing_terminates (block : Nat) (ops : List (Op α))
    (h : Along (fun ns _ => ns.count < 2 ^ 28) (new block) ops) : Throughout Probes (new block) ops :=
  throughout_of_roomy ops (roomy_new block) h

/-- The run of a removal that cuts a probe chain, with failing allocations and
with a second node of the id behind the cut. -/
def sampleDuplicates : List (Op Unit) :=
  [.insert none ⟨numericId 1 1, .object, ()⟩, .remove (some 2) (numericId 1 1),
   .insert none ⟨numericId 1 1, .object, ()⟩, .insert none ⟨numericId 1 4, .object, ()⟩,
   .remove none (numericId 1 1), .insert none ⟨numericId 1 4, .object, ()⟩, .remove none (numericId 1 9)]

theorem probing_terminates_sampleDuplicates : Throughout Probes (new 0) sampleDuplicates :=
  probing_terminates 0 sampleDuplicates (by decide +kernel)

section Visits

variable {size : UInt32}

/-- The next index of the loop in `containsNodeId`. -/
def nextIndex (size hash2 index : UInt32) : UInt32 :=
  let index := index + hash2
  if index ≥ size then index - size else index

/-- The indices that `containsNodeId` visits for a hash value, in 32 bits. -/
def visited (h size : UInt32) : Nat → UInt32
  | 0 => h % size
  | n + 1 => nextIndex size (1 + h % (size - 2)) (visited h size n)

theorem toNat_mod2 (hsize : TableSize size.toNat) (h : UInt32) :
    (1 + h % (size - 2)).toNat = mod2 h.toNat size.toNat := by
  have hmin := hsize.seven_le
  have htwo : (size - 2).toNat = size.toNat - 2 :=
    UInt32.toNat_sub_of_le _ _ (UInt32.le_iff_toNat_le.mpr (show 2 ≤ size.toNat by omega))
  have hlt := (mod2_bounds hsize h.toNat).2
  have hint := hsize.lt_int
  rw [UInt32.toNat_add, UInt32.toNat_mod, htwo]
  exact Nat.mod_eq_of_lt (by simp only [mod2] at hlt; simp; omega)

theorem toNat_visited (hsize : TableSize size.toNat) (h : UInt32) (n : Nat) :
    (visited h size n).toNat = walk h.toNat (mod2 h.toNat size.toNat) size.toNat n := by
  induction n with
  | zero => simp [visited, walk]
  | succ n ih =>
      obtain ⟨hpos, hlt⟩ := mod2_bounds hsize h.toNat
      have hint := hsize.lt_int
      have hindex : walk h.toNat (mod2 h.toNat size.toNat) size.toNat n < size.toNat := Nat.mod_lt _ hsize.prime.pos
      have hsum : (visited h size n + (1 + h % (size - 2))).toNat =
          walk h.toNat (mod2 h.toNat size.toNat) size.toNat n + mod2 h.toNat size.toNat := by
        rw [UInt32.toNat_add, ih, toNat_mod2 hsize]
        exact Nat.mod_eq_of_lt (by omega)
      rw [visited, nextIndex, walk_succ, ← hsum]
      split
      · next hge =>
        have hle := UInt32.le_iff_toNat_le.mp hge
        rw [UInt32.toNat_sub_of_le _ _ hge, Nat.mod_eq_sub_mod hle, Nat.mod_eq_of_lt (by omega)]
      · next hless =>
        exact (Nat.mod_eq_of_lt (UInt32.lt_iff_toNat_lt.mp (UInt32.not_le.mp hless))).symm

theorem tablePrimes_of_lt : ∀ p ∈ primes, p < 2147483648 → p ∈ tablePrimes := by
  decide

/-- Within as many steps as there are slots, every slot is visited once. -/
theorem visited_permutation (size h : UInt32) (hsize : size.toNat ∈ primes) (hint : size.toNat < 2147483648) :
    ((List.range size.toNat).map (visited h size)).Nodup ∧
      (∀ index < size, ∃ n < size.toNat, visited h size n = index) ∧
      ∀ (ns : NodeStore α) (id : NodeId), ns.size = size.toNat → hash id = h → containsNodeId ns id =
        (scan ns.entries (hasId id) (fun n => (visited h size n).toNat) (ns.size + 1) 0).map
          (fun i => ((slot ns.entries i).isSome, i)) := by
  have htable : TableSize size.toNat := tableSize_of_mem (tablePrimes_of_lt _ hsize hint)
  obtain ⟨hpos, hlt⟩ := mod2_bounds htable h.toNat
  refine ⟨?_, ?_, ?_⟩
  · apply List.Nodup.map_on ?_ List.nodup_range
    intro i hi j hj heq
    apply walk_injective htable.prime hpos hlt (List.mem_range.mp hi) (List.mem_range.mp hj)
    rw [← toNat_visited htable, ← toNat_visited htable, heq]
  · intro index hindex
    obtain ⟨n, hn, hwalk⟩ := walk_covers htable.prime hpos hlt (UInt32.lt_iff_toNat_lt.mp hindex)
    refine ⟨n, hn, UInt32.toNat_inj.mp ?_⟩
    rw [toNat_visited htable, hwalk]
  · rintro ns id hns rfl
    have hpath : (fun n => (visited (hash id) size n).toNat) = probe ns.size id := by
      funext n
      rw [toNat_visited htable, hns]
      rfl
    rw [hpath, containsNodeId_eq_scan (hns ▸ htable)]

theorem visited_permutation_seven : ((List.range 7).map (visited 4294967295 7)).Nodup ∧
    ∀ index < 7, ∃ n < 7, visited 4294967295 7 n = index := by
  obtain ⟨hdistinct, hcover, _⟩ := @visited_permutation Unit 7 4294967295 (by decide) (by decide)
  exact ⟨hdistinct, hcover⟩

end Visits

end OpcUa.NodeStoreProbing
