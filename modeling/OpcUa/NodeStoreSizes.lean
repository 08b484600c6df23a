import OpcUa.NodeStores
import OpcUa.OpenAddressing

namespace OpcUa.NodeStoreSizes

open NodeStores OpenAddressing NodeIds

/-- The largest size that a store of fewer than `2 ^ 28` nodes can grow to. -/
def maxSize : Nat := 1073741789

def smallPrimes : List Nat := primes.take 28

/-- Every size that a table can have: the last prime is no `Int32`, so that
`UA_calloc` fails for it. -/
def tablePrimes : List Nat := primes.take 29

/-- What the arithmetic of the search needs of a size. -/
structure TableSize (size : Nat) : Prop where
  prime : size.Prime
  seven_le : 7 ≤ size
  lt_int : size < 2147483648

theorem tablePrimes_noOddDivisor :
    tablePrimes.all (fun p => noOddDivisor p (p.sqrt / 2)) = true := by
  decide +kernel

theorem tablePrimes_odd : ∀ p ∈ tablePrimes, p % 2 = 1 ∧ 7 ≤ p ∧ p < 2147483648 := by
  decide

theorem smallPrimes_subset : ∀ p ∈ smallPrimes, p ∈ tablePrimes := by
  decide

/-- Only the largest table is outside the range of `smallPrimes`. -/
theorem tablePrimes_cases : ∀ p ∈ tablePrimes, p ∈ smallPrimes ∨ p = 2147483647 := by
  decide

theorem smallPrimes_odd : ∀ p ∈ smallPrimes, p % 2 = 1 ∧ 7 ≤ p ∧ p ≤ maxSize := by
  decide

theorem prime_of_mem_tablePrimes {p : Nat} (h : p ∈ tablePrimes) : p.Prime := by
  obtain ⟨hodd, hmin, _⟩ := tablePrimes_odd p h
  have hroot : p < (p.sqrt + 1) * (p.sqrt + 1) := Nat.lt_succ_sqrt p
  have hcover : p.sqrt + 1 ≤ 2 * (p.sqrt / 2) + 3 := by omega
  exact prime_of_noOddDivisor hodd (by omega)
    (hroot.trans_le (Nat.mul_le_mul hcover hcover))
    (List.all_eq_true.mp tablePrimes_noOddDivisor p h)

theorem tableSize_of_mem {p : Nat} (h : p ∈ tablePrimes) : TableSize p :=
  ⟨prime_of_mem_tablePrimes h, (tablePrimes_odd p h).2.1, (tablePrimes_odd p h).2.2⟩

theorem tableSize_of_small {p : Nat} (h : p ∈ smallPrimes) : TableSize p :=
  tableSize_of_mem (smallPrimes_subset p h)

theorem primes_sorted : primes.Pairwise (· < ·) := by
  decide

theorem primes_getD_le {i j : Nat} (hij : i ≤ j) (hj : j < primes.length) :
    primes.getD i 0 ≤ primes.getD j 0 := by
  have hi : i < primes.length := hij.trans_lt hj
  simp only [List.getD_eq_getElem?_getD, List.getElem?_eq_getElem hi,
    List.getElem?_eq_getElem hj, Option.getD_some]
  rcases hij.eq_or_lt with rfl | hlt
  · exact le_refl _
  · exact (List.pairwise_iff_getElem.mp primes_sorted i j hi hj hlt).le

/-- The prime at `high` is always large enough, and `low` never runs past the
index `b` of a prime that is. -/
theorem higherPrimeLoop_spec {n b : Nat} (hb : b < primes.length) (hn : n ≤ primes.getD b 0)
    (fuel low high : Nat) (hle : low ≤ high) (hfuel : high - low ≤ fuel) (hlow : low ≤ b)
    (hlen : high ≤ primes.length) (hhigh : high < primes.length → n ≤ primes.getD high 0) :
    higherPrimeLoop n fuel low high ≤ b ∧
      n ≤ primes.getD (higherPrimeLoop n fuel low high) 0 := by
  induction fuel generalizing low high with
  | zero =>
      have he : low = high := by omega
      subst he
      exact ⟨hlow, hhigh (by omega)⟩
  | succ fuel ih =>
      rw [higherPrimeLoop]
      by_cases he : low = high
      · subst he
        simpa using ⟨hlow, hhigh (by omega)⟩
      · rw [if_neg he]
        by_cases hmid : n > primes.getD (low + (high - low) / 2) 0
        · simp only [hmid, if_true]
          have hlt : low + (high - low) / 2 < b := by
            by_contra hge
            have := primes_getD_le (Nat.le_of_not_lt hge) (by omega)
            omega
          exact ih _ _ (by omega) (by omega) hlt hlen hhigh
        · simp only [hmid, if_false]
          exact ih _ _ (by omega) (by omega) hlow (by omega) (fun _ => Nat.le_of_not_lt hmid)

theorem higherPrimeIndex_spec {n : Nat} (hn : n ≤ maxSize) :
    higherPrimeIndex n < 28 ∧ n ≤ primes.getD (higherPrimeIndex n) 0 := by
  have h := higherPrimeLoop_spec (b := 27) (by decide) hn primes.length 0 primes.length
    (by omega) (by omega) (by omega) (le_refl _) (fun h => absurd h (lt_irrefl _))
  exact ⟨Nat.lt_succ_of_le h.1, h.2⟩

theorem getD_mem_tablePrimes {i : Nat} (h : i < 29) : primes.getD i 0 ∈ tablePrimes := by
  have hi : i < primes.length := h.trans (by decide)
  rw [List.getD_eq_getElem?_getD, List.getElem?_eq_getElem hi, Option.getD_some, tablePrimes,
    List.mem_take_iff_getElem]
  exact ⟨i, by simpa using ⟨h, hi⟩, rfl⟩

theorem getD_mem_smallPrimes {i : Nat} (h : i < 28) : primes.getD i 0 ∈ smallPrimes := by
  have hi : i < primes.length := h.trans (by decide)
  rw [List.getD_eq_getElem?_getD, List.getElem?_eq_getElem hi, Option.getD_some, smallPrimes,
    List.mem_take_iff_getElem]
  exact ⟨i, by simpa using ⟨h, hi⟩, rfl⟩

section Search

variable {α : Type}

def probe (size : Nat) (id : NodeId) : Nat → Nat :=
  walk (hash id).toNat (mod2 (hash id).toNat size) size

def probeNode (size : Nat) (node : Node α) : Nat → Nat := probe size node.nodeId

def hasId (id : NodeId) (node : Node α) : Bool := nodeIdEqual node.nodeId id

def sameNode (a b : Node α) : Bool := nodeIdEqual a.nodeId b.nodeId

/-- What the search needs: a prime size, entries of that size and a free one. -/
structure Searchable (ns : NodeStore α) : Prop where
  size_mem : ns.size ∈ smallPrimes
  entries_length : ns.entries.length = ns.size
  free : ∃ s < ns.size, slot ns.entries s = none

theorem Searchable.tableSize {ns : NodeStore α} (h : Searchable ns) : TableSize ns.size :=
  tableSize_of_small h.size_mem

theorem size_bounds {size : Nat} (h : size ∈ smallPrimes) : 7 ≤ size ∧ size ≤ maxSize :=
  (smallPrimes_odd size h).2

theorem mod2_bounds {size : Nat} (h : TableSize size) (a : Nat) :
    0 < mod2 a size ∧ mod2 a size < size := by
  have hmin := h.seven_le
  have := Nat.mod_lt a (show 0 < size - 2 by omega)
  unfold mod2
  omega

theorem u32_of_lt {n : Nat} (h : n < 4294967296) : u32 n = n := Nat.mod_eq_of_lt h

theorem probe_step {size : Nat} (h : TableSize size) (id : NodeId) (n : Nat) :
    (if u32 (probe size id n + mod2 (hash id).toNat size) ≥ size then
        u32 (probe size id n + mod2 (hash id).toNat size) - size
      else u32 (probe size id n + mod2 (hash id).toNat size)) = probe size id (n + 1) := by
  have hd := (mod2_bounds h (hash id).toNat).2
  obtain ⟨_, hmin, hmax⟩ := h
  have hlt : probe size id n < size := Nat.mod_lt _ (by omega)
  have hsucc : probe size id (n + 1) = (probe size id n + mod2 (hash id).toNat size) % size :=
    walk_succ _ _ _ _
  rw [hsucc, u32_of_lt (by omega)]
  by_cases hge : probe size id n + mod2 (hash id).toNat size ≥ size
  · rw [if_pos hge, Nat.mod_eq_sub_mod hge, Nat.mod_eq_of_lt (by omega)]
  · rw [if_neg hge, Nat.mod_eq_of_lt (by omega)]

theorem containsLoop_eq_scan {size : Nat} (h : TableSize size)
    (entries : List (Option (Node α))) (id : NodeId) (fuel n : Nat) :
    containsLoop entries size (mod2 (hash id).toNat size) id fuel (probe size id n) =
      (scan entries (hasId id) (probe size id) fuel (n + 1)).map
        (fun i => ((slot entries i).isSome, i)) := by
  induction fuel generalizing n with
  | zero => rfl
  | succ fuel ih =>
      simp only [containsLoop, scan, probe_step h]
      cases hs : slot entries (probe size id (n + 1)) with
      | none => simp [hs]
      | some e =>
          by_cases he : nodeIdEqual e.nodeId id = true
          · simp [hasId, he, hs]
          · simp [hasId, he, ih (n + 1)]

theorem containsNodeId_eq_scan {ns : NodeStore α} (h : TableSize ns.size) (id : NodeId) :
    containsNodeId ns id = (scan ns.entries (hasId id) (probe ns.size id) (ns.size + 1) 0).map
      (fun i => ((slot ns.entries i).isSome, i)) := by
  have hstart : mod (hash id).toNat ns.size = probe ns.size id 0 := by
    simp [probe, walk, mod]
  rw [containsNodeId, hstart, scan]
  cases hs : slot ns.entries (probe ns.size id 0) with
  | none => simp [hs]
  | some e =>
      by_cases he : nodeIdEqual e.nodeId id = true
      · simp [hasId, he, hs]
      · simp [hasId, he, containsLoop_eq_scan h ns.entries id ns.size 0]

theorem probe_covers {size : Nat} (h : TableSize size) (id : NodeId) {s : Nat} (hs : s < size) :
    ∃ n < size, probe size id n = s :=
  walk_covers h.prime (mod2_bounds h _).1 (mod2_bounds h _).2 hs

theorem probe_lt {size : Nat} (h : TableSize size) (id : NodeId) (n : Nat) :
    probe size id n < size :=
  Nat.mod_lt _ h.prime.pos

/-- No stored node has an equal id: the search ends in a free slot, and every
slot probed before it is taken. -/
theorem containsNodeId_absent {ns : NodeStore α} (h : Searchable ns) {id : NodeId}
    (habs : ∀ s e, slot ns.entries s = some e → nodeIdEqual e.nodeId id = false) :
    ∃ s < ns.size, containsNodeId ns id = some (false, s) ∧ slot ns.entries s = none ∧
      Leads ns.entries (probe ns.size id) s := by
  obtain ⟨t, ht, hfree⟩ := h.free
  obtain ⟨m, hm, rfl⟩ := probe_covers h.tableSize id ht
  obtain ⟨n, hn, hstop⟩ := exists_stopsAt (hasId id) hfree
  have hnone : slot ns.entries (probe ns.size id n) = none := by
    cases hs : slot ns.entries (probe ns.size id n) with
    | none => rfl
    | some e =>
        have heq := hstop.1 e hs
        rw [hasId, habs _ e hs] at heq
        cases heq
  refine ⟨_, probe_lt h.tableSize id n, ?_, hnone, leads_of_stopsAt hstop hnone⟩
  rw [containsNodeId_eq_scan h.tableSize,
    scan_stops hstop (ns.size + 1) 0 (Nat.zero_le _) (by omega)]
  simp [hnone]

/-- The probe path leads to the one stored node with an equal id: the search
ends there. -/
theorem containsNodeId_present {ns : NodeStore α} (h : Searchable ns)
    (hsep : Separated sameNode ns.entries) {id : NodeId} {s : Nat} {e : Node α}
    (hs : slot ns.entries s = some e) (heq : nodeIdEqual e.nodeId id = true)
    (hlead : Leads ns.entries (probe ns.size id) s) :
    containsNodeId ns id = some (true, s) := by
  have honly : ∀ t w, slot ns.entries t = some w → hasId id w = true → t = s := by
    intro t w hw hwid
    refine hsep t s w e hw hs ?_
    rw [sameNode, nodeIdEqual_congr_right heq]
    exact hwid
  obtain ⟨n, hn, hstop, hfirst⟩ := stopsAt_of_leads hlead hs heq honly
  obtain ⟨k, hk, hks⟩ := probe_covers h.tableSize id (h.entries_length ▸ lt_length_of_slot hs)
  have hle : n ≤ k := by
    by_contra hgt
    exact hfirst k (Nat.lt_of_not_le hgt) hks
  rw [containsNodeId_eq_scan h.tableSize,
    scan_stops hstop (ns.size + 1) 0 (Nat.zero_le _) (by omega)]
  simp [hn, hs]

end Search

end OpcUa.NodeStoreSizes
