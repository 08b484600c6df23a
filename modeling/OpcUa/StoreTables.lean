import OpcUa.NodeStores

namespace OpcUa.StoreTables

open StatusCodes NodeStores

/-- The members of `UA_NodeStore` that decide where its nodes are. `block`
counts the arrays of entries. -/
structure Table where
  size : Nat
  count : Nat
  block : Nat
deriving DecidableEq, Repr

variable {α : Type} (memory : Nat → Bool) (t : Table)

def Table.nextSize : Nat := primes.getD (higherPrimeIndex (u32 (t.count * 2))) 0

/-- `expand` leaves the table as it is. -/
abbrev Table.Fits : Prop := u32 (t.count * 2) < t.size ∧ (u32 (t.count * 8) > t.size ∨ t.size ≤ minSize)

/-- The threshold of `UA_NodeStore_insert`. -/
abbrev Table.Full : Prop := u32 (t.size * 3) ≤ u32 (t.count * 4)

/-- `expand`. `memory` says for which sizes `UA_calloc` finds memory; `none`
if it fails. -/
def Table.expand : Option Table :=
  if t.Fits then some t
  else if 0 ≤ i32 t.nextSize ∧ memory t.nextSize then some { t with size := t.nextSize, block := t.block + 1 }
  else none

/-- What `UA_NodeStore_insert` does first. -/
def Table.reserve : Option Table :=
  if t.Full then t.expand memory else some t

def Table.counted : Table := { t with count := u32 (t.count + 1) }

/-- What `UA_NodeStore_remove` does with an entry that it finds. -/
def Table.remove : Table :=
  let t := { t with count := sub32 t.count 1 }
  if u32 (t.count * 8) < t.size ∧ t.size > 32 then (t.expand memory).getD t else t

section Stores

def tableOf (ns : NodeStore α) : Table := ⟨ns.size, ns.count, ns.block⟩

/-- The block that `UA_calloc` returns to `expand`. -/
def callocAnswer (ns : NodeStore α) : Option Nat :=
  if memory (tableOf ns).nextSize then some (ns.block + 1) else none

variable {memory} {ns ns' : NodeStore α} {node : Node α} {o : Outcome α}

theorem tableOf_refill {count j : Nat} {entries : List (Option (Node α))} (h : refill count entries j ns = some ns') :
    tableOf ns' = tableOf ns := by
  induction entries generalizing j ns with
  | nil =>
      cases h
      rfl
  | cons entry entries ih =>
      cases entry with
      | none =>
          rw [refill] at h
          split at h
          · exact ih h
          · cases h
            rfl
      | some e =>
          rw [refill] at h
          split at h
          · split at h
            · cases h
            · exact (ih h).trans rfl
          · cases h
            rfl

theorem tableOf_expand {status : StatusCode} (h : NodeStores.expand (callocAnswer memory ns) ns = some (status, ns')) :
    (tableOf ns).expand memory = none ∧ status = badOutOfMemory ∧ tableOf ns' = tableOf ns ∨
      (tableOf ns).expand memory = some (tableOf ns') ∧ status = good := by
  rw [NodeStores.expand] at h
  rw [Table.expand]
  split at h
  · next hkeeps =>
    cases h
    exact .inr ⟨if_pos hkeeps, rfl⟩
  · next hgrows =>
    have hgrows : ¬ (tableOf ns).Fits := hgrows
    rw [if_neg hgrows]
    have hcalloc : calloc (callocAnswer memory ns) (tableOf ns).nextSize =
        if 0 ≤ i32 (tableOf ns).nextSize ∧ memory (tableOf ns).nextSize then some (ns.block + 1) else none := by
      rw [calloc, callocAnswer]
      by_cases hsign : 0 ≤ i32 (tableOf ns).nextSize
      · by_cases hmemory : memory (tableOf ns).nextSize = true
        · rw [if_pos hsign, if_pos hmemory, if_pos ⟨hsign, hmemory⟩]
        · rw [if_pos hsign, if_neg hmemory, if_neg (fun hboth => hmemory hboth.2)]
      · rw [if_neg hsign, if_neg (fun hboth => hsign hboth.1)]
    have hsize : primes.getD (higherPrimeIndex (u32 (ns.count * 2))) 0 = (tableOf ns).nextSize := rfl
    dsimp only at h
    rw [hsize, hcalloc] at h
    by_cases hgranted : 0 ≤ i32 (tableOf ns).nextSize ∧ memory (tableOf ns).nextSize
    · rw [if_pos hgranted] at h ⊢
      dsimp only at h
      split at h
      · cases h
      · next hrefill =>
        cases h
        refine .inr ⟨?_, rfl⟩
        rw [tableOf_refill hrefill]
        rfl
    · rw [if_neg hgranted] at h ⊢
      cases h
      exact .inl ⟨rfl, rfl, rfl⟩

theorem tableOf_insertEntry (h : insertEntry ns node = some o) :
    o.status = good ∧ tableOf o.store = (tableOf ns).counted ∨ o.status = badNodeIdExists ∧
      tableOf o.store = tableOf ns := by
  rw [insertEntry] at h
  split at h
  · dsimp only at h
    split at h
    · cases h
    · cases h
      exact .inl ⟨rfl, rfl⟩
  · split at h
    · cases h
    · cases h
      exact .inr ⟨rfl, rfl⟩
    · cases h
      exact .inl ⟨rfl, rfl⟩

theorem tableOf_insert (h : NodeStores.insert (callocAnswer memory ns) ns node = some o) :
    (tableOf ns).reserve memory = none ∧ o.status = badInternalError ∧ tableOf o.store = tableOf ns ∨
      ∃ t, (tableOf ns).reserve memory = some t ∧ (o.status = good ∧ tableOf o.store = t.counted ∨
        o.status = badNodeIdExists ∧ tableOf o.store = t) := by
  rw [NodeStores.insert] at h
  rw [Table.reserve]
  split at h
  · next hfull =>
    have hfull : (tableOf ns).Full := hfull
    rw [if_pos hfull]
    split at h
    · cases h
    · next status ns' hexpand =>
      rcases tableOf_expand hexpand with ⟨hnone, rfl, hsame⟩ | ⟨hsome, rfl⟩
      · rw [if_neg (by decide)] at h
        cases h
        exact .inl ⟨hnone, rfl, hsame⟩
      · rw [if_pos rfl] at h
        exact .inr ⟨_, hsome, tableOf_insertEntry h⟩
  · next hroom => exact .inr ⟨_, if_neg hroom, tableOf_insertEntry h⟩

theorem tableOf_downsize {i : Nat} (h : downsize
    (callocAnswer memory { deleteEntry ns i with count := sub32 ns.count 1 })
    { deleteEntry ns i with count := sub32 ns.count 1 } = some o) : tableOf o.store = (tableOf ns).remove memory := by
  rw [downsize] at h
  rw [Table.remove]
  split at h
  · next hempty =>
    refine Eq.trans ?_ (if_pos hempty).symm
    split at h
    · cases h
    · next hexpand =>
      cases h
      rcases tableOf_expand hexpand with ⟨hnone, _, hsame⟩ | ⟨hsome, _⟩
      · exact hsame.trans (congrArg (fun x => Option.getD x _) hnone).symm
      · exact (congrArg (fun x => Option.getD x _) hsome).symm
  · next hfilled =>
    cases h
    exact (if_neg hfilled).symm

end Stores

section Moves

variable {memory} {t t' : Table}

theorem reserve_cases (h : t.reserve memory = some t') : t' = t ∨ t'.block = t.block + 1 := by
  rw [Table.reserve] at h
  split at h
  · rw [Table.expand] at h
    split at h
    · exact .inl (Option.some.inj h).symm
    · split at h
      · cases h
        exact .inr rfl
      · cases h
  · exact .inl (Option.some.inj h).symm

theorem eq_of_reserve (h : t.reserve memory = some t') (hblock : t'.block = t.block) : t' = t := by
  rcases reserve_cases h with hsame | hmoved
  · exact hsame
  · omega

end Moves

end OpcUa.StoreTables
