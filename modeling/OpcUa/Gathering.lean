import Mathlib.Data.List.Nodup
import Mathlib.Logic.Nontrivial.Basic
import OpcUa.Buffers

namespace OpcUa.Gathering

open Buffers

variable {α : Type} {data data' out array : List α} {ps qs : List Nat}

/-- The elements at the given positions, all of which are there. -/
def Reads (data : List α) (ps : List Nat) (out : List α) : Prop := ps.map (fun p => data[p]?) = out.map some

def scatter : List Nat → List α → List α → List α
  | p :: ps, a :: array, data => scatter ps array (data.set p a)
  | _, _, data => data

/-- The elements are at their positions and everything else is as it was. -/
structure Stored (ps : List Nat) (array data data' : List α) : Prop where
  length_eq : data'.length = data.length
  written : Reads data' ps array
  unchanged : ∀ p, p ∉ ps → data'[p]? = data[p]?

@[simp] theorem length_scatter (ps : List Nat) (array data : List α) :
  (scatter ps array data).length = data.length := by
  induction ps generalizing array data with
  | nil => rfl
  | cons p ps ih =>
      cases array with
      | nil => rfl
      | cons a array => rw [scatter, ih, List.length_set]

theorem scatter_append (ps qs : List Nat) (xs ys data : List α) (h : ps.length = xs.length) :
    scatter (ps ++ qs) (xs ++ ys) data = scatter qs ys (scatter ps xs data) := by
  induction ps generalizing xs data with
  | nil =>
      obtain rfl : xs = [] := List.eq_nil_of_length_eq_zero h.symm
      rfl
  | cons p ps ih =>
      cases xs with
      | nil => cases h
      | cons x xs =>
          rw [List.cons_append, List.cons_append, scatter, scatter]
          exact ih xs _ (Nat.succ.inj h)

theorem scatter_frame {p : Nat} (h : p ∉ ps) (array data : List α) : (scatter ps array data)[p]? = data[p]? := by
  induction ps generalizing array data with
  | nil => rfl
  | cons q ps ih =>
      cases array with
      | nil => rfl
      | cons a array =>
          rw [List.mem_cons, not_or] at h
          rw [scatter, ih h.2, List.getElem?_set_ne (Ne.symm h.1)]

theorem reads_scatter (hnodup : ps.Nodup) (hlt : ∀ p ∈ ps, p < data.length) (hlength : ps.length = array.length) :
    Reads (scatter ps array data) ps array := by
  induction ps generalizing array data with
  | nil =>
      obtain rfl : array = [] := List.eq_nil_of_length_eq_zero hlength.symm
      rfl
  | cons p ps ih =>
      cases array with
      | nil => cases hlength
      | cons a array =>
          obtain ⟨hp, hps⟩ := List.nodup_cons.mp hnodup
          have hrest : Reads (scatter ps array (data.set p a)) ps array :=
            ih hps (fun q hq => by rw [List.length_set]; exact hlt q (List.mem_cons_of_mem _ hq)) (Nat.succ.inj hlength)
          rw [Reads, List.map_cons, List.map_cons, scatter, scatter_frame hp,
            List.getElem?_set_self (hlt p (List.mem_cons_self ..))]
          exact congrArg _ hrest

theorem stored_scatter (hnodup : ps.Nodup) (hlt : ∀ p ∈ ps, p < data.length) (hlength : ps.length = array.length) :
    Stored ps array data (scatter ps array data) :=
  ⟨length_scatter _ _ _, reads_scatter hnodup hlt hlength, fun _ hp => scatter_frame hp _ _⟩

theorem scatter_of_reads (h : Reads data ps array) : scatter ps array data = data := by
  induction ps generalizing array with
  | nil => rfl
  | cons p ps ih =>
      cases array with
      | nil => cases h
      | cons a array =>
          obtain ⟨ha, hrest⟩ := List.cons.inj h
          rw [scatter]
          have hset : data.set p a = data := by
            obtain ⟨hp, rfl⟩ := List.getElem?_eq_some_iff.mp ha
            exact List.set_getElem_self hp
          rw [hset]
          exact ih hrest

theorem Reads.unique (h : Reads data ps out) (h' : Reads data ps array) : out = array := by
  have hsome : out.map some = array.map some := h.symm.trans h'
  exact List.map_injective_iff.mpr (Option.some_injective α) hsome

theorem Reads.lt (h : Reads data ps out) {p : Nat} (hp : p ∈ ps) : p < data.length := by
  induction ps generalizing out with
  | nil => cases hp
  | cons q ps ih =>
      cases out with
      | nil => cases h
      | cons a out =>
          obtain ⟨ha, hrest⟩ := List.cons.inj h
          rcases List.mem_cons.mp hp with rfl | hp
          · exact (List.getElem?_eq_some_iff.mp ha).1
          · exact ih hrest hp

theorem exists_reads (h : ∀ p ∈ ps, p < data.length) : ∃ out, Reads data ps out := by
  induction ps with
  | nil => exact ⟨[], rfl⟩
  | cons p ps ih =>
      obtain ⟨out, hout⟩ := ih (fun q hq => h q (List.mem_cons_of_mem _ hq))
      have hp := h p (List.mem_cons_self ..)
      cases hget : data[p]? with
      | none =>
          rw [List.getElem?_eq_none_iff] at hget
          omega
      | some a => exact ⟨a :: out, by rw [Reads, List.map_cons, List.map_cons, hget, hout]⟩

theorem Reads.append {out' : List α} (h : Reads data ps out) (h' : Reads data qs out') :
    Reads data (ps ++ qs) (out ++ out') := by
  rw [Reads, List.map_append, List.map_append, h, h']

theorem Reads.length_eq (h : Reads data ps out) : out.length = ps.length := by
  have hlength := congrArg List.length h
  rw [List.length_map, List.length_map] at hlength
  exact hlength.symm

theorem reads_range' {pos n : Nat} (h : pos + n ≤ data.length) :
    Reads data (List.range' pos n) ((data.drop pos).take n) := by
  rw [Reads]
  apply List.ext_getElem
  · rw [List.length_map, List.length_map, List.length_range', List.length_take, List.length_drop]
    omega
  · intro i hi hi'
    rw [List.length_map, List.length_range'] at hi
    rw [List.getElem_map, List.getElem_map, List.getElem_range', List.getElem_take, List.getElem_drop, Nat.one_mul,
      List.getElem?_eq_getElem]

theorem scatter_range' {pos : Nat} {xs : List α} (h : pos + xs.length ≤ data.length) :
    scatter (List.range' pos xs.length) xs data = overwrite data pos xs := by
  induction xs generalizing pos data with
  | nil =>
      change data = overwrite data pos []
      induction data generalizing pos with
      | nil => cases pos <;> rfl
      | cons d data ih =>
          cases pos with
          | zero => rfl
          | succ pos =>
              rw [overwrite, ← ih (by simpa using h)]
  | cons x xs ih =>
      rw [List.length_cons] at h
      rw [List.length_cons, List.range'_succ, scatter, ih (by rw [List.length_set]; omega)]
      induction data generalizing pos with
      | nil => simp at h
      | cons d data ih' =>
          cases pos with
          | zero => rfl
          | succ pos =>
              rw [List.set_cons_succ, overwrite, overwrite]
              rw [ih' (by rw [List.length_cons] at h; omega)]

/-- Lists of positions at which every array of a length has the same
elements are the same. -/
theorem eq_of_lookups [Nontrivial α] {n : Nat} (hps : ∀ p ∈ ps, p < n) (hqs : ∀ q ∈ qs, q < n)
    (h : ∀ data : List α, data.length = n → ps.map (fun p => data[p]?) = qs.map (fun q => data[q]?)) : ps = qs := by
  obtain ⟨x, y, hxy⟩ := exists_pair_ne α
  induction ps generalizing qs with
  | nil =>
      have hnil := h (List.replicate n x) (List.length_replicate ..)
      exact (List.map_eq_nil_iff.mp hnil.symm).symm
  | cons p ps ih =>
      cases qs with
      | nil => cases h (List.replicate n x) (List.length_replicate ..)
      | cons q qs =>
          have hpq : p = q := by
            by_contra hne
            have hlookup : ((List.replicate n y).set p x)[p]? = ((List.replicate n y).set p x)[q]? :=
              (List.cons.inj (h ((List.replicate n y).set p x) (by simp))).1
            rw [List.getElem?_set_self (by simpa using hps p (List.mem_cons_self ..)),
              List.getElem?_set_ne hne, List.getElem?_replicate, if_pos (hqs q (List.mem_cons_self ..))] at hlookup
            exact hxy (Option.some.inj hlookup)
          subst hpq
          rw [ih (fun r hr => hps r (List.mem_cons_of_mem _ hr)) (fun r hr => hqs r (List.mem_cons_of_mem _ hr))
            (fun data hdata => (List.cons.inj (h data hdata)).2)]

end OpcUa.Gathering
