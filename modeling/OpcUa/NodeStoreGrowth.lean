import OpcUa.NodeStoreProbing

namespace OpcUa.NodeStoreGrowth

open StatusCodes LittleEndian NodeIds OpenAddressing NodeStores NodeStoreSizes NodeStoreResize NodeMaps
  NodeStoreProbing

variable {α : Type} {ns ns' : NodeStore α}

/-- The stores of all runs, with any outcome of the allocations and any number
of nodes. -/
inductive Reachable (block : Nat) : NodeStore α → Prop
  | new : Reachable block (new block)
  | call {ns ns' : NodeStore α} {op : Op α} {reply : Reply α} (h : Reachable block ns)
      (hcall : perform ns op = some (reply, ns')) : Reachable block ns'

/-- What every call keeps. The bound on `count` is the one that an insert
leaves behind, also where the products of its test wrap around. -/
structure Uncrowded (ns : NodeStore α) : Prop where
  size_mem : ns.size ∈ tablePrimes
  entries_length : ns.entries.length = ns.size
  taken_le : taken ns ≤ ns.count
  load : 4 * ns.count ≤ 3 * ns.size + 3

/-- The head of `UA_NodeStore_insert`. -/
def makeRoom (mem : Option Nat) (ns : NodeStore α) : Option (StatusCode × NodeStore α) :=
  if u32 (ns.size * 3) ≤ u32 (ns.count * 4) then expand mem ns else some (good, ns)

/-- An insert has to resize the table and gets no memory for it. -/
def ResizeFails (mem : Option Nat) (ns : NodeStore α) : Prop :=
  u32 (ns.size * 3) ≤ u32 (ns.count * 4) ∧
    ¬ (u32 (ns.count * 2) < ns.size ∧ (u32 (ns.count * 8) > ns.size ∨ ns.size ≤ minSize)) ∧
    calloc mem (primes.getD (higherPrimeIndex (u32 (ns.count * 2))) 0) = none

theorem insert_eq (mem : Option Nat) (ns : NodeStore α) (node : Node α) :
    insert mem ns node = match makeRoom mem ns with
      | none => none
      | some (status, ns) =>
          if status = good then insertEntry ns node else some (.fail badInternalError ns) := by
  unfold NodeStores.insert makeRoom
  split
  · rfl
  · simp

section Searching

theorem probe_sound {entries : List (Option (Node α))} {id : NodeId} {t s : Nat} {found : Bool}
    {rest : Option (Bool × Nat)}
    (h : (match slot entries t with
      | none => some (false, t)
      | some e => if nodeIdEqual e.nodeId id then some (true, t) else rest) = some (found, s)) :
    (found = true ∧ ∃ e, slot entries s = some e ∧ nodeIdEqual e.nodeId id = true) ∨
      (found = false ∧ slot entries s = none) ∨ rest = some (found, s) := by
  cases ht : slot entries t with
  | none =>
      rw [ht] at h
      cases h
      exact .inr (.inl ⟨rfl, ht⟩)
  | some e =>
      rw [ht] at h
      by_cases he : nodeIdEqual e.nodeId id = true
      · simp only [he, if_true, Option.some.injEq, Prod.mk.injEq] at h
        obtain ⟨rfl, rfl⟩ := h
        exact .inl ⟨rfl, e, ht, he⟩
      · simp only [he] at h
        exact .inr (.inr h)

theorem containsLoop_sound {entries : List (Option (Node α))} {size hash2 : Nat} {id : NodeId}
    {fuel index s : Nat} {found : Bool}
    (h : containsLoop entries size hash2 id fuel index = some (found, s)) :
    (found = true ∧ ∃ e, slot entries s = some e ∧ nodeIdEqual e.nodeId id = true) ∨
      (found = false ∧ slot entries s = none) := by
  induction fuel generalizing index with
  | zero => simp [containsLoop] at h
  | succ fuel ih =>
      rw [containsLoop] at h
      rcases probe_sound h with hfound | hfree | hrest
      · exact .inl hfound
      · exact .inr hfree
      · exact ih hrest

theorem containsNodeId_sound {id : NodeId} {found : Bool} {s : Nat}
    (h : containsNodeId ns id = some (found, s)) :
    (found = true ∧ ∃ e, slot ns.entries s = some e ∧ nodeIdEqual e.nodeId id = true) ∨
      (found = false ∧ slot ns.entries s = none) := by
  rw [containsNodeId] at h
  rcases probe_sound h with hfound | hfree | hrest
  · exact .inl hfound
  · exact .inr hfree
  · exact containsLoop_sound hrest

theorem scan_on_path {V : Type} {table : List (Option V)} {p : V → Bool} {path : Nat → Nat}
    {fuel i s : Nat} (h : scan table p path fuel i = some s) : ∃ n, path n = s := by
  induction fuel generalizing i with
  | zero => simp [scan] at h
  | succ fuel ih =>
      rw [scan] at h
      cases hv : slot table (path i) with
      | none =>
          rw [hv] at h
          exact ⟨i, Option.some.inj h⟩
      | some v =>
          simp only [hv] at h
          by_cases hp : p v = true
          · rw [if_pos hp] at h
            exact ⟨i, Option.some.inj h⟩
          · rw [if_neg hp] at h
            exact ih h

theorem containsNodeId_lt (hsize : TableSize ns.size) {id : NodeId} {found : Bool} {s : Nat}
    (h : containsNodeId ns id = some (found, s)) : s < ns.size := by
  rw [containsNodeId_eq_scan hsize, Option.map_eq_some_iff] at h
  obtain ⟨t, hscan, ht⟩ := h
  cases ht
  obtain ⟨n, rfl⟩ := scan_on_path hscan
  exact probe_lt hsize id n

theorem used_of_found {id : NodeId} {s : Nat} (h : containsNodeId ns id = some (true, s)) :
    Used ns.entries id := by
  obtain ⟨_, e, hs, he⟩ | ⟨hfalse, _⟩ := containsNodeId_sound h
  · exact ⟨s, e, hs, he⟩
  · cases hfalse

theorem used_iff_contents {entries : List (Option (Node α))} {id : NodeId} :
    Used entries id ↔ ∃ e ∈ contents entries, nodeIdEqual e.nodeId id = true := by
  constructor
  · rintro ⟨s, e, hs, he⟩
    exact ⟨e, mem_contents.mpr ⟨s, hs⟩, he⟩
  · rintro ⟨e, hmem, he⟩
    obtain ⟨s, hs⟩ := mem_contents.mp hmem
    exact ⟨s, e, hs, he⟩

theorem used_fillEntry {e : Node α} {found : Bool} {s : Nat}
    (hs : s < ns.entries.length) (hfind : containsNodeId ns e.nodeId = some (found, s))
    (id : NodeId) : Used (fillEntry ns s e).entries id ↔
      Used ns.entries id ∨ nodeIdEqual e.nodeId id = true := by
  constructor
  · rintro ⟨t, w, ht, hw⟩
    by_cases hts : t = s
    · subst t
      rw [fillEntry, slot_set_self hs] at ht
      cases ht
      exact Or.inr hw
    · rw [fillEntry, slot_set_of_ne hts] at ht
      exact Or.inl ⟨t, w, ht, hw⟩
  · rintro (⟨t, w, ht, hw⟩ | he)
    · by_cases hts : t = s
      · subst t
        refine ⟨s, e, slot_set_self hs _, ?_⟩
        obtain ⟨_, v, hv, hsame⟩ | ⟨_, hnone⟩ := containsNodeId_sound hfind
        · rw [hv] at ht
          cases ht
          rw [nodeIdEqual_comm] at hsame
          exact nodeIdEqual_trans hsame hw
        · rw [hnone] at ht
          cases ht
      · exact ⟨t, w, by rw [fillEntry, slot_set_of_ne hts]; exact ht, hw⟩
    · exact ⟨s, e, slot_set_self hs _, he⟩

end Searching

namespace Uncrowded

theorem tableSize (h : Uncrowded ns) : TableSize ns.size := tableSize_of_mem h.size_mem

theorem room (h : Uncrowded ns) : ns.count < ns.size := by
  have hload := h.load
  have hmin := h.tableSize.seven_le
  omega

theorem free (h : Uncrowded ns) : ∃ t < ns.size, slot ns.entries t = none :=
  free_of_taken h.entries_length (h.taken_le.trans_lt h.room)

theorem search (h : Uncrowded ns) (id : NodeId) :
    ∃ s < ns.size, containsNodeId ns id = some ((slot ns.entries s).isSome, s) :=
  containsNodeId_returns_of_free h.tableSize h.free id

theorem of_new (block : Nat) : Uncrowded (new block : NodeStore α) := by
  obtain ⟨hsize, hlen, htaken, _, _⟩ := roomy_new (α := α) block
  exact ⟨smallPrimes_subset _ hsize, hlen, htaken, Nat.zero_le _⟩

end Uncrowded

section Resizing

theorem refill_used {count : Nat} (rest : List (Option (Node α))) (j : Nat) (ns : NodeStore α)
    (hsize : TableSize ns.size) (hlen : ns.entries.length = ns.size)
    (hcount : j + (contents rest).length ≤ count)
    (hrun : refill count rest j ns = some ns') (id : NodeId) :
    Used ns'.entries id ↔
      Used ns.entries id ∨ ∃ e ∈ contents rest, nodeIdEqual e.nodeId id = true := by
  induction rest generalizing j ns with
  | nil =>
      cases hrun
      simp [contents]
  | cons x rest ih =>
      cases x with
      | none =>
          rw [refill] at hrun
          by_cases hj : j < count
          · rw [if_pos hj] at hrun
            exact ih j ns hsize hlen hcount hrun
          · rw [if_neg hj] at hrun
            cases hrun
            have hzero : (contents (none :: rest)).length = 0 := by omega
            rw [List.eq_nil_of_length_eq_zero hzero]
            simp
      | some e =>
          have hcons : contents (some e :: rest) = e :: contents rest := rfl
          rw [hcons, List.length_cons] at hcount
          rw [refill, if_pos (by omega)] at hrun
          cases hfind : containsNodeId ns e.nodeId with
          | none =>
              rw [hfind] at hrun
              cases hrun
          | some r =>
              obtain ⟨found, s⟩ := r
              rw [hfind] at hrun
              have hlt : s < ns.entries.length := hlen ▸ containsNodeId_lt hsize hfind
              have hlen' : (fillEntry ns s e).entries.length = (fillEntry ns s e).size := by
                simpa [fillEntry] using hlen
              rw [ih (j + 1) (fillEntry ns s e) hsize hlen' (by omega) hrun,
                used_fillEntry hlt hfind, hcons]
              simp [or_assoc]

/-- What a resize leaves: a table of the same ids, with room for twice the
count unless it gets no memory. -/
structure Resized (mem : Option Nat) (ns : NodeStore α) (status : StatusCode) (ns' : NodeStore α) :
    Prop where
  uncrowded : Uncrowded ns'
  count_eq : ns'.count = ns.count
  used : ∀ id, Used ns'.entries id ↔ Used ns.entries id
  room : status = good → 2 * ns.count ≤ ns'.size

theorem calloc_size {mem : Option Nat} {n b : Nat} (h : calloc mem (primes.getD n 0) = some b)
    (hn : n < 30) : n < 29 := by
  by_contra hge
  have hlast : n = 29 := by omega
  subst hlast
  cases mem <;> simp [calloc, primes, i32, u32, toInt32] at h

/-- The three ends of `expand`: the table stays, the new one gets no memory,
or all nodes are moved. -/
theorem expand_resized (h : Uncrowded ns) (mem : Option Nat) :
    ∃ status ns', expand mem ns = some (status, ns') ∧ Resized mem ns status ns' ∧
      (status = good ↔
        ¬ (¬ (u32 (ns.count * 2) < ns.size ∧
            (u32 (ns.count * 8) > ns.size ∨ ns.size ≤ minSize)) ∧
          calloc mem (primes.getD (higherPrimeIndex (u32 (ns.count * 2))) 0) = none)) := by
  have hload := h.load
  have hint := h.tableSize.lt_int
  have htwice : u32 (ns.count * 2) = ns.count * 2 := u32_of_lt (by omega)
  rw [expand]
  by_cases hkeep : u32 (ns.count * 2) < ns.size ∧
      (u32 (ns.count * 8) > ns.size ∨ ns.size ≤ minSize)
  · rw [if_pos hkeep]
    rw [htwice] at hkeep
    exact ⟨good, ns, rfl, ⟨h, rfl, fun _ => Iff.rfl, fun _ => by omega⟩, by simp [hkeep, htwice]⟩
  rw [if_neg hkeep, htwice]
  dsimp only
  obtain ⟨hindex, hbig⟩ := higherPrimeLoop_spec (n := ns.count * 2) (b := 29) (by decide)
    (show ns.count * 2 ≤ 4294967291 by omega) primes.length 0 primes.length (Nat.zero_le _)
    (by omega) (Nat.zero_le _) (le_refl _) (fun hlt => absurd hlt (Nat.lt_irrefl _))
  change higherPrimeIndex (ns.count * 2) ≤ 29 at hindex
  change ns.count * 2 ≤ primes.getD (higherPrimeIndex (ns.count * 2)) 0 at hbig
  cases hcalloc : calloc mem (primes.getD (higherPrimeIndex (ns.count * 2)) 0) with
  | none =>
      refine ⟨badOutOfMemory, ns, rfl, ⟨h, rfl, fun _ => Iff.rfl, ?_⟩, ?_⟩
      · intro hgood
        exact absurd hgood (by decide)
      · rw [htwice] at hkeep
        simp [hkeep, badOutOfMemory, good]
  | some block =>
      have hlt := calloc_size hcalloc (by omega)
      have hmem : primes.getD (higherPrimeIndex (ns.count * 2)) 0 ∈ tablePrimes :=
        getD_mem_tablePrimes hlt
      have hsize := tableSize_of_mem hmem
      have hmin := hsize.seven_le
      obtain ⟨ns', hrun, hsize', hcount', hlen', htaken'⟩ := refill_returns ns.entries 0
        { entries := List.replicate (primes.getD (higherPrimeIndex (ns.count * 2)) 0) none,
          block := block, size := primes.getD (higherPrimeIndex (ns.count * 2)) 0,
          count := ns.count, sizePrimeIndex := higherPrimeIndex (ns.count * 2) }
        hsize (List.length_replicate ..) (by simp [taken, contents_replicate]) (Nat.zero_le ns.count)
        (by dsimp only; omega)
      have hused := refill_used ns.entries 0 _ hsize (List.length_replicate ..)
        (by have := h.taken_le; unfold taken at this; omega) hrun
      dsimp only at hsize' hcount'
      refine ⟨good, ns', by dsimp only; rw [hrun], ⟨⟨hsize' ▸ hmem, hlen', hcount' ▸ htaken', ?_⟩, hcount', ?_, ?_⟩,
        by simp⟩
      · rw [hsize', hcount']
        omega
      · intro id
        rw [hused id, used_iff_contents, used_iff_contents]
        simp [contents_replicate]
      · intro _
        omega

theorem makeRoom_resized (h : Uncrowded ns) (mem : Option Nat) :
    ∃ status ns', makeRoom mem ns = some (status, ns') ∧ Uncrowded ns' ∧
      ns'.count = ns.count ∧ (∀ id, Used ns'.entries id ↔ Used ns.entries id) ∧
      (status = good → 4 * (ns'.count + 1) ≤ 3 * ns'.size + 3) ∧
      (status = good ↔ ¬ ResizeFails mem ns) := by
  have hload := h.load
  have hmin := h.tableSize.seven_le
  have hint := h.tableSize.lt_int
  unfold makeRoom ResizeFails
  by_cases hfull : u32 (ns.size * 3) ≤ u32 (ns.count * 4)
  · obtain ⟨status, ns', hrun, hres, hgood⟩ := expand_resized h mem
    have hmin' := hres.uncrowded.tableSize.seven_le
    rw [if_pos hfull]
    refine ⟨status, ns', hrun, hres.uncrowded, hres.count_eq, hres.used, ?_, ?_⟩
    · intro hg
      have hroom := hres.room hg
      have hcount := hres.count_eq
      omega
    · rw [hgood]
      simp [hfull]
  · rw [if_neg hfull]
    refine ⟨good, ns, rfl, h, rfl, fun _ => Iff.rfl, fun _ => ?_, by simp [hfull]⟩
    obtain hsmall | hlast := tablePrimes_cases _ h.size_mem
    · have hmax := (size_bounds hsmall).2
      unfold maxSize at hmax
      rw [u32_of_lt (by omega), u32_of_lt (by omega)] at hfull
      omega
    · unfold u32 at hfull
      omega

end Resizing

section Calls

theorem uncrowded_store (h : Uncrowded ns) (hload : 4 * (ns.count + 1) ≤ 3 * ns.size + 3) {s : Nat}
    (hs : s < ns.size) (node : Node α) : Uncrowded (store ns s node).store := by
  have hint := h.tableSize.lt_int
  have hcount : (store ns s node).store.count = ns.count + 1 := u32_of_lt (by omega)
  refine ⟨h.size_mem, ?_, ?_, ?_⟩
  · simpa [store, fillEntry] using h.entries_length
  · rw [hcount]
    exact (taken_store (h.entries_length ▸ hs) node).trans (Nat.succ_le_succ h.taken_le)
  · rw [hcount]
    exact hload

theorem freshId_free {nsIndex : UInt16} {increase fuel i identifier s : Nat}
    (h : freshId ns nsIndex increase fuel i = some (identifier, s)) :
    containsNodeId ns (numericId nsIndex (UInt32.ofNat identifier)) = some (false, s) := by
  induction fuel generalizing i with
  | zero => simp [freshId] at h
  | succ fuel ih =>
      rw [freshId] at h
      cases hfind : containsNodeId ns (numericId nsIndex (UInt32.ofNat i)) with
      | none => simp [hfind] at h
      | some r =>
          obtain ⟨found, t⟩ := r
          cases found with
          | false =>
              simp only [hfind, Option.some.injEq, Prod.mk.injEq] at h
              obtain ⟨rfl, rfl⟩ := h
              exact hfind
          | true =>
              simp only [hfind] at h
              exact ih h

theorem uncrowded_insertEntry (h : Uncrowded ns) (hload : 4 * (ns.count + 1) ≤ 3 * ns.size + 3)
    {node : Node α} {o : Outcome α} (hrun : insertEntry ns node = some o) : Uncrowded o.store := by
  rw [insertEntry] at hrun
  split at hrun
  · dsimp only at hrun
    split at hrun
    · cases hrun
    · next identifier s hfresh =>
        cases hrun
        exact uncrowded_store h hload (containsNodeId_lt h.tableSize (freshId_free hfresh)) _
  · split at hrun
    · cases hrun
    · cases hrun
      exact h
    · next s hfind =>
        cases hrun
        exact uncrowded_store h hload (containsNodeId_lt h.tableSize hfind) _

theorem uncrowded_insert (h : Uncrowded ns) {mem : Option Nat} {node : Node α} {o : Outcome α}
    (hrun : insert mem ns node = some o) : Uncrowded o.store := by
  obtain ⟨status, ns', hroom, hun, _, _, hload, _⟩ := makeRoom_resized h mem
  rw [insert_eq, hroom] at hrun
  dsimp only at hrun
  by_cases hgood : status = good
  · rw [if_pos hgood] at hrun
    exact uncrowded_insertEntry hun (hload hgood) hrun
  · rw [if_neg hgood] at hrun
    cases hrun
    exact hun

theorem uncrowded_replace (h : Uncrowded ns) {oldNode : NodePtr} {node : Node α} {o : Outcome α}
    (hrun : replace ns oldNode node = some o) : Uncrowded o.store := by
  rw [replace] at hrun
  split at hrun
  · cases hrun
  · cases hrun
    exact h
  · next s hfind =>
      split at hrun
      · cases hrun
        exact h
      · cases hrun
        obtain ⟨_, e, hslot, _⟩ | ⟨hfalse, _⟩ := containsNodeId_sound hfind
        · refine ⟨h.size_mem, ?_, ?_, h.load⟩
          · simpa [fillEntry, deleteEntry] using h.entries_length
          · exact (taken_exchange hslot node).trans_le h.taken_le
        · cases hfalse

theorem uncrowded_remove (h : Uncrowded ns) {mem : Option Nat} {nodeid : NodeId} {o : Outcome α}
    (hrun : remove mem ns nodeid = some o) : Uncrowded o.store := by
  rw [remove] at hrun
  split at hrun
  · cases hrun
  · cases hrun
    exact h
  · next s hfind =>
      obtain ⟨_, e, hslot, _⟩ | ⟨hfalse, _⟩ := containsNodeId_sound hfind
      · have hvacate := taken_vacate hslot
        have hle := h.taken_le
        have hload := h.load
        have hint := h.tableSize.lt_int
        have hdec : sub32 ns.count 1 = ns.count - 1 := sub32_of_le (by omega) (by omega)
        have hun : Uncrowded { deleteEntry ns s with count := sub32 ns.count 1 } := by
          rw [hdec]
          refine ⟨h.size_mem, ?_, ?_, ?_⟩
          · simpa [deleteEntry] using h.entries_length
          · have htaken : taken (deleteEntry ns s) ≤ ns.count - 1 := by omega
            exact htaken
          · dsimp only [deleteEntry]
            omega
        rw [downsize] at hrun
        split at hrun
        · obtain ⟨status, ns', hexp, hres, _⟩ := expand_resized hun mem
          rw [hexp] at hrun
          cases hrun
          exact hres.uncrowded
        · cases hrun
          exact hun
      · cases hfalse

theorem uncrowded_perform (h : Uncrowded ns) {op : Op α} {reply : Reply α}
    (hrun : perform ns op = some (reply, ns')) : Uncrowded ns' := by
  cases op with
  | insert mem node =>
      obtain ⟨o, ho, hr⟩ := Option.map_eq_some_iff.mp hrun
      cases hr
      exact uncrowded_insert h ho
  | replace oldNode node =>
      obtain ⟨o, ho, hr⟩ := Option.map_eq_some_iff.mp hrun
      cases hr
      exact uncrowded_replace h ho
  | get id =>
      obtain ⟨o, ho, hr⟩ := Option.map_eq_some_iff.mp hrun
      cases hr
      exact h
  | remove mem id =>
      obtain ⟨o, ho, hr⟩ := Option.map_eq_some_iff.mp hrun
      cases hr
      exact uncrowded_remove h ho
  | iterate =>
      cases hrun
      exact h

theorem Reachable.uncrowded {block : Nat} (h : Reachable block ns) : Uncrowded ns := by
  induction h with
  | new => exact Uncrowded.of_new block
  | call _ hcall ih => exact uncrowded_perform ih hcall

end Calls

end OpcUa.NodeStoreGrowth
