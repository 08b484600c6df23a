import Mathlib.Data.Fintype.EquivFin
import Mathlib.Data.List.Basic
import Mathlib.Data.Nat.ModEq
import Mathlib.Data.Nat.Prime.Basic

namespace OpcUa.OpenAddressing

section Probing

variable {V : Type}

/-- Contents of a slot; an index outside the table counts as free. -/
def slot (table : List (Option V)) (i : Nat) : Option V := table[i]?.join

/-- Follow a probe path until a free slot or an accepted value, for at most
`fuel` further steps. The answer is the slot at which the search stops. -/
def scan (table : List (Option V)) (p : V → Bool) (path : Nat → Nat) : Nat → Nat → Option Nat
  | 0, _ => none
  | fuel + 1, i =>
      match slot table (path i) with
      | none => some (path i)
      | some v => if p v then some (path i) else scan table p path fuel (i + 1)

def StopsAt (table : List (Option V)) (p : V → Bool) (path : Nat → Nat) (n : Nat) : Prop :=
  (∀ v, slot table (path n) = some v → p v = true) ∧
    ∀ j < n, ∃ v, slot table (path j) = some v ∧ p v = false

/-- Every position of the path before `s` is taken. -/
def Leads (table : List (Option V)) (path : Nat → Nat) (s : Nat) : Prop :=
  ∃ n, path n = s ∧ ∀ j < n, (slot table (path j)).isSome = true ∧ path j ≠ s

/-- The path reaches `s` before it reaches `t`. -/
def Passes (path : Nat → Nat) (s t : Nat) : Prop :=
  ∃ i j, i < j ∧ path i = s ∧ path j = t ∧ ∀ k < j, path k ≠ t

/-- Every stored value can be reached along its own probe path. -/
def Linked (path : V → Nat → Nat) (table : List (Option V)) : Prop :=
  ∀ s v, slot table s = some v → Leads table (path v) s

def Separated (same : V → V → Bool) (table : List (Option V)) : Prop :=
  ∀ s t v w, slot table s = some v → slot table t = some w → same v w = true → s = t

theorem slot_set_self {table : List (Option V)} {s : Nat} (hs : s < table.length) (x : Option V) :
    slot (table.set s x) s = x := by
  simp [slot, hs]

theorem slot_vacated (table : List (Option V)) (s : Nat) : slot (table.set s none) s = none := by
  by_cases hs : s < table.length
  · exact slot_set_self hs none
  · have hlen : (table.set s none).length ≤ s := by simpa using hs
    rw [slot, List.getElem?_eq_none hlen]
    rfl

theorem slot_set_of_ne {table : List (Option V)} {s t : Nat} (hst : t ≠ s) (x : Option V) :
    slot (table.set s x) t = slot table t := by
  simp [slot, List.getElem?_set_ne (Ne.symm hst)]

theorem lt_length_of_slot {table : List (Option V)} {s : Nat} {v : V}
    (h : slot table s = some v) : s < table.length := by
  by_contra hge
  simp [slot, List.getElem?_eq_none (Nat.le_of_not_lt hge)] at h

theorem slot_replicate (n i : Nat) : slot (List.replicate n (none : Option V)) i = none := by
  by_cases h : i < n <;> simp [slot, h]

theorem linked_replicate (path : V → Nat → Nat) (n : Nat) :
    Linked path (List.replicate n none) := by
  intro s v h
  simp [slot_replicate] at h

theorem separated_replicate (same : V → V → Bool) (n : Nat) :
    Separated same (List.replicate n none) := by
  intro s t v w h
  simp [slot_replicate] at h

theorem scan_stops {table : List (Option V)} {p : V → Bool} {path : Nat → Nat} {n : Nat}
    (h : StopsAt table p path n) (fuel i : Nat) (hi : i ≤ n) (hf : n < i + fuel) :
    scan table p path fuel i = some (path n) := by
  induction fuel generalizing i with
  | zero => omega
  | succ fuel ih =>
      by_cases hin : i = n
      · subst i
        cases hs : slot table (path n) with
        | none => simp [scan, hs]
        | some v => simp [scan, hs, h.1 v hs]
      · obtain ⟨v, hv, hp⟩ := h.2 i (by omega)
        simp only [scan, hv, hp, Bool.false_eq_true, if_false]
        exact ih (i + 1) (by omega) (by omega)

theorem exists_stopsAt {table : List (Option V)} (p : V → Bool) {path : Nat → Nat} {m : Nat}
    (hfree : slot table (path m) = none) : ∃ n ≤ m, StopsAt table p path n := by
  classical
  have hex : ∃ n, ∀ v, slot table (path n) = some v → p v = true := ⟨m, by simp [hfree]⟩
  refine ⟨Nat.find hex, Nat.find_min' hex (by simp [hfree]), Nat.find_spec hex, ?_⟩
  intro j hj
  have hmin := Nat.find_min hex hj
  push Not at hmin
  obtain ⟨v, hv, hp⟩ := hmin
  exact ⟨v, hv, by simpa using hp⟩

/-- An accepted value that the path leads to is where the search stops, as
long as no other stored value is accepted. -/
theorem stopsAt_of_leads {table : List (Option V)} {p : V → Bool} {path : Nat → Nat} {s : Nat} {v : V}
    (hl : Leads table path s) (hs : slot table s = some v) (hv : p v = true)
    (honly : ∀ t w, slot table t = some w → p w = true → t = s) :
    ∃ n, path n = s ∧ StopsAt table p path n ∧ ∀ j < n, path j ≠ s := by
  obtain ⟨n, rfl, hn⟩ := hl
  refine ⟨n, rfl, ⟨?_, ?_⟩, fun j hj => (hn j hj).2⟩
  · intro w hw
    rw [hs] at hw
    cases hw
    exact hv
  · intro j hj
    obtain ⟨w, hw⟩ := Option.isSome_iff_exists.mp (hn j hj).1
    refine ⟨w, hw, ?_⟩
    by_contra hp
    exact (hn j hj).2 (honly _ w hw (by simpa using hp))

theorem leads_of_stopsAt {table : List (Option V)} {p : V → Bool} {path : Nat → Nat} {n : Nat}
    (h : StopsAt table p path n) (hfree : slot table (path n) = none) :
    Leads table path (path n) := by
  refine ⟨n, rfl, fun j hj => ?_⟩
  obtain ⟨v, hv, _⟩ := h.2 j hj
  refine ⟨by simp [hv], fun he => ?_⟩
  rw [he, hfree] at hv
  cases hv

theorem Leads.set_free {table : List (Option V)} {path : Nat → Nat} {s t : Nat} (v : V)
    (hl : Leads table path t) (hs : s < table.length) :
    Leads (table.set s (some v)) path t := by
  obtain ⟨n, hn, hpre⟩ := hl
  refine ⟨n, hn, fun j hj => ⟨?_, (hpre j hj).2⟩⟩
  by_cases he : path j = s
  · rw [he, slot_set_self hs]
    rfl
  · rw [slot_set_of_ne he]
    exact (hpre j hj).1

theorem Linked.fill {path : V → Nat → Nat} {table : List (Option V)} (h : Linked path table)
    {s : Nat} {v : V} (hs : s < table.length) (hl : Leads table (path v) s) :
    Linked path (table.set s (some v)) := by
  intro t w hw
  by_cases ht : t = s
  · subst t
    rw [slot_set_self hs] at hw
    cases hw
    exact hl.set_free _ hs
  · rw [slot_set_of_ne ht] at hw
    exact (h t w hw).set_free _ hs

/-- Vacating a slot keeps the links of the values whose path does not pass
through it. -/
theorem Linked.vacate {path : V → Nat → Nat} {table : List (Option V)} (h : Linked path table)
    {s : Nat} (havoid : ∀ t w, t ≠ s → slot table t = some w → ¬ Passes (path w) s t) :
    Linked path (table.set s none) := by
  intro t w hw
  by_cases ht : t = s
  · subst t
    simp [slot_vacated] at hw
  · rw [slot_set_of_ne ht] at hw
    obtain ⟨n, hn, hpre⟩ := h t w hw
    refine ⟨n, hn, fun j hj => ⟨?_, (hpre j hj).2⟩⟩
    have hne : path w j ≠ s := fun he =>
      havoid t w ht hw ⟨j, n, hj, he, hn, fun k hk => (hpre k hk).2⟩
    rw [slot_set_of_ne hne]
    exact (hpre j hj).1

theorem Separated.fill {same : V → V → Bool} {table : List (Option V)} (h : Separated same table)
    {s : Nat} {v : V} (hs : s < table.length)
    (hleft : ∀ t w, t ≠ s → slot table t = some w → same v w = false)
    (hright : ∀ t w, t ≠ s → slot table t = some w → same w v = false) :
    Separated same (table.set s (some v)) := by
  intro t u x y hx hy hxy
  by_cases ht : t = s
  · subst t
    by_cases hu : u = s
    · exact hu.symm
    · rw [slot_set_self hs] at hx
      rw [slot_set_of_ne hu] at hy
      cases hx
      simp [hleft u y hu hy] at hxy
  · rw [slot_set_of_ne ht] at hx
    by_cases hu : u = s
    · subst u
      rw [slot_set_self hs] at hy
      cases hy
      simp [hright t x ht hx] at hxy
    · rw [slot_set_of_ne hu] at hy
      exact h t u x y hx hy hxy

theorem Separated.vacate {same : V → V → Bool} {table : List (Option V)} (h : Separated same table)
    (s : Nat) : Separated same (table.set s none) := by
  have hold : ∀ t v, slot (table.set s none) t = some v → slot table t = some v := by
    intro t v hv
    by_cases ht : t = s
    · subst t
      simp [slot_vacated] at hv
    · rwa [slot_set_of_ne ht] at hv
  intro t u x y hx hy
  exact h t u x y (hold t x hx) (hold u y hy)

/-- The probe path of double hashing: start at `a`, step by `d` modulo `m`. -/
def walk (a d m n : Nat) : Nat := (a + n * d) % m

theorem walk_succ (a d m n : Nat) : walk a d m (n + 1) = (walk a d m n + d) % m := by
  rw [walk, walk, Nat.mod_add_mod, Nat.add_mul, Nat.one_mul, Nat.add_assoc]

theorem walk_injective {a d m : Nat} (hm : m.Prime) (hd : 0 < d) (hdm : d < m) {i j : Nat}
    (hi : i < m) (hj : j < m) (h : walk a d m i = walk a d m j) : i = j := by
  have hcop : m.gcd d = 1 := Nat.coprime_of_lt_prime hd.ne' hdm hm
  have hmod : i * d ≡ j * d [MOD m] := Nat.ModEq.add_left_cancel' a h
  exact (Nat.ModEq.cancel_right_of_coprime hcop hmod).eq_of_lt_of_lt hi hj

/-- With a prime table size every slot is probed within `m` steps. -/
theorem walk_covers {a d m : Nat} (hm : m.Prime) (hd : 0 < d) (hdm : d < m) {s : Nat} (hs : s < m) :
    ∃ n < m, walk a d m n = s := by
  let f : Fin m → Fin m := fun i => ⟨walk a d m i, Nat.mod_lt _ hm.pos⟩
  have hinj : Function.Injective f := by
    intro i j hij
    exact Fin.ext (walk_injective hm hd hdm i.isLt j.isLt (congrArg Fin.val hij))
  obtain ⟨n, hn⟩ := Finite.surjective_of_injective hinj ⟨s, hs⟩
  exact ⟨n, n.isLt, congrArg Fin.val hn⟩

end Probing

/-- None of the odd numbers `3, 5, …, 2 * n + 1` divides `p`. Written with
`cond` and `Nat.beq`, which the kernel evaluates on literals. -/
def noOddDivisor (p : Nat) : Nat → Bool
  | 0 => true
  | n + 1 => cond (Nat.beq (p % (2 * n + 3)) 0) false (noOddDivisor p n)

theorem noOddDivisor_sound {p : Nat} (n : Nat) (h : noOddDivisor p n = true) :
    ∀ k < n, ¬ 2 * k + 3 ∣ p := by
  induction n with
  | zero => intro k hk; omega
  | succ n ih =>
      intro k hk hd
      have hmod : p % (2 * k + 3) = 0 := Nat.mod_eq_zero_of_dvd hd
      rw [noOddDivisor] at h
      by_cases hkn : k = n
      · subst k
        rw [hmod] at h
        simp at h
      · have hrest : noOddDivisor p n = true := by
          cases hb : Nat.beq (p % (2 * n + 3)) 0 with
          | true => simp [hb] at h
          | false => simpa [hb] using h
        exact ih hrest k (by omega) hd

theorem prime_of_noOddDivisor {p n : Nat} (hodd : p % 2 = 1) (hp : 3 ≤ p)
    (hn : p < (2 * n + 3) * (2 * n + 3)) (h : noOddDivisor p n = true) : p.Prime := by
  by_contra hnp
  have hsq := Nat.minFac_sq_le_self (by omega) hnp
  have hdvd := Nat.minFac_dvd p
  have hprime := Nat.minFac_prime (show p ≠ 1 by omega)
  have hlt : p.minFac < 2 * n + 3 := by
    by_contra hge
    have := Nat.mul_le_mul (Nat.le_of_not_lt hge) (Nat.le_of_not_lt hge)
    rw [pow_two] at hsq
    omega
  rcases hprime.eq_two_or_odd with htwo | hfac
  · rw [htwo] at hdvd
    omega
  · have htwo := hprime.two_le
    obtain ⟨k, hk⟩ : ∃ k, p.minFac = 2 * k + 3 := ⟨(p.minFac - 3) / 2, by omega⟩
    rw [hk] at hdvd hlt
    exact noOddDivisor_sound n h k (by omega) hdvd

section Contents

variable {V : Type}

def contents (table : List (Option V)) : List V := table.filterMap id

theorem contents_replicate (n : Nat) : contents (List.replicate n (none : Option V)) = [] := by
  induction n with
  | zero => rfl
  | succ n ih => simp [contents]

theorem slot_zero (x : Option V) (table : List (Option V)) : slot (x :: table) 0 = x := rfl

theorem mem_contents {table : List (Option V)} {v : V} :
    v ∈ contents table ↔ ∃ s, slot table s = some v := by
  induction table with
  | nil => simp [contents, slot]
  | cons x table ih =>
      have hcons : v ∈ contents (x :: table) ↔ x = some v ∨ v ∈ contents table := by
        cases x <;> simp [contents, eq_comm]
      rw [hcons, ih]
      constructor
      · rintro (hx | ⟨s, hs⟩)
        · exact ⟨0, hx⟩
        · exact ⟨s + 1, hs⟩
      · rintro ⟨s, hs⟩
        cases s with
        | zero => exact Or.inl hs
        | succ s => exact Or.inr ⟨s, hs⟩

/-- Overwriting slot `s` exchanges one stored value for another. -/
theorem contents_set {table : List (Option V)} {s : Nat} (hs : s < table.length) (x : Option V) :
    ((slot table s).toList ++ contents (table.set s x)).Perm (x.toList ++ contents table) := by
  induction table generalizing s with
  | nil => simp at hs
  | cons y table ih =>
      cases s with
      | zero =>
          have hcons (z : Option V) : contents (z :: table) = z.toList ++ contents table := by
            cases z <;> rfl
          rw [List.set_cons_zero, hcons, hcons, slot_zero]
          exact List.perm_append_comm_assoc _ _ _
      | succ s =>
          have hstep := ih (s := s) (by simpa using hs)
          cases y with
          | none => exact hstep
          | some v =>
              exact List.perm_middle.trans ((hstep.cons v).trans List.perm_middle.symm)

theorem contents_fill {table : List (Option V)} {s : Nat} (hs : s < table.length)
    (hfree : slot table s = none) (v : V) :
    (contents (table.set s (some v))).Perm (v :: contents table) := by
  simpa [hfree] using contents_set hs (some v)

theorem contents_vacate {table : List (Option V)} {s : Nat} {v : V} (hs : slot table s = some v) :
    (contents table).Perm (v :: contents (table.set s none)) := by
  simpa [hs] using (contents_set (lt_length_of_slot hs) none).symm

theorem exists_free {table : List (Option V)} (h : (contents table).length < table.length) :
    ∃ s < table.length, slot table s = none := by
  induction table with
  | nil => simp at h
  | cons x table ih =>
      cases x with
      | none => exact ⟨0, by simp, rfl⟩
      | some v =>
          have hlt : (contents table).length < table.length := by
            simpa [contents] using h
          obtain ⟨s, hs, hfree⟩ := ih hlt
          exact ⟨s + 1, by simpa using hs, hfree⟩

theorem contents_pairwise {same : V → V → Bool} {table : List (Option V)}
    (h : Separated same table) : (contents table).Pairwise (fun v w => same v w = false) := by
  induction table with
  | nil => exact List.Pairwise.nil
  | cons x table ih =>
      have hrest : Separated same table := by
        intro s t v w hv hw hvw
        have := h (s + 1) (t + 1) v w hv hw hvw
        omega
      cases x with
      | none => exact ih hrest
      | some v =>
          refine List.Pairwise.cons ?_ (ih hrest)
          intro w hw
          obtain ⟨t, ht⟩ := mem_contents.mp hw
          by_contra hsame
          have := h 0 (t + 1) v w rfl ht (by simpa using hsame)
          omega

end Contents

end OpcUa.OpenAddressing
