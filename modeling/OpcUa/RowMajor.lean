import Mathlib.Algebra.BigOperators.Group.List.Basic
import Mathlib.Algebra.Group.Action.Defs
import Mathlib.Algebra.Order.BigOperators.Group.List
import Mathlib.Data.List.Nodup
import Mathlib.Data.List.Range
import Mathlib.Tactic.Ring

namespace OpcUa.RowMajor

/-- One dimension of an array with the part of it that is selected. -/
structure Axis where
  dim : Nat
  first : Nat
  extent : Nat
  extent_pos : 0 < extent
  fits : first + extent ≤ dim
deriving DecidableEq

def Axis.whole (a : Axis) : Bool := a.extent == a.dim

def volume (axes : List Axis) : Nat := (axes.map Axis.dim).prod

def count (axes : List Axis) : Nat := (axes.map Axis.extent).prod

def origin : List Axis → Nat
  | [] => 0
  | a :: axes => a.first * volume axes + origin axes

/-- The positions of the selected elements, the last dimension moving fastest. -/
def positions : List Axis → List Nat
  | [] => [0]
  | a :: axes => (List.range' a.first a.extent).flatMap (fun i => (positions axes).map (i * volume axes + ·))

def Contiguous : List Axis → Prop
  | [] => True
  | a :: axes => (∀ x ∈ axes, x.whole = true) ∨ a.extent = 1 ∧ Contiguous axes

instance decidableContiguous : (axes : List Axis) → Decidable (Contiguous axes)
  | [] => .isTrue trivial
  | a :: axes =>
      have := decidableContiguous axes
      inferInstanceAs (Decidable ((∀ x ∈ axes, x.whole = true) ∨ a.extent = 1 ∧ Contiguous axes))

variable {a : Axis} {axes outer inner : List Axis}

@[simp] theorem volume_nil : volume [] = 1 := rfl

@[simp] theorem volume_cons (a : Axis) (axes : List Axis) : volume (a :: axes) = a.dim * volume axes := List.prod_cons

@[simp] theorem count_nil : count [] = 1 := rfl

@[simp] theorem count_cons (a : Axis) (axes : List Axis) : count (a :: axes) = a.extent * count axes := List.prod_cons

theorem volume_append (outer inner : List Axis) : volume (outer ++ inner) = volume outer * volume inner := by
  rw [volume, List.map_append, List.prod_append]
  rfl

theorem count_append (outer inner : List Axis) : count (outer ++ inner) = count outer * count inner := by
  rw [count, List.map_append, List.prod_append]
  rfl

theorem Axis.dim_pos (a : Axis) : 0 < a.dim := by
  have := a.extent_pos
  have := a.fits
  omega

theorem Axis.first_of_whole (h : a.whole = true) : a.first = 0 := by
  have hdim : a.extent = a.dim := by simpa [Axis.whole] using h
  have := a.fits
  omega

theorem volume_pos (axes : List Axis) : 0 < volume axes := by
  induction axes with
  | nil => exact Nat.one_pos
  | cons a axes ih =>
      rw [volume_cons]
      exact Nat.mul_pos a.dim_pos ih

theorem count_pos (axes : List Axis) : 0 < count axes := by
  induction axes with
  | nil => exact Nat.one_pos
  | cons a axes ih =>
      rw [count_cons]
      exact Nat.mul_pos a.extent_pos ih

theorem count_le_volume (axes : List Axis) : count axes ≤ volume axes := by
  induction axes with
  | nil => exact le_refl 1
  | cons a axes ih =>
      have := a.fits
      rw [count_cons, volume_cons]
      exact Nat.mul_le_mul (by omega) ih

theorem count_of_whole (h : ∀ x ∈ axes, x.whole = true) : count axes = volume axes := by
  induction axes with
  | nil => rfl
  | cons a axes ih =>
      have hdim : a.extent = a.dim := by simpa [Axis.whole] using h a (List.mem_cons_self ..)
      rw [count_cons, volume_cons, hdim, ih (fun x hx => h x (List.mem_cons_of_mem _ hx))]

theorem whole_of_count (h : count axes = volume axes) : ∀ x ∈ axes, x.whole = true := by
  induction axes with
  | nil => exact fun x hx => by cases hx
  | cons a axes ih =>
      rw [count_cons, volume_cons] at h
      have hle := count_le_volume axes
      have hpos := count_pos axes
      have hextent : a.extent ≤ a.dim := (Nat.le_add_left _ _).trans a.fits
      have hdim : a.extent = a.dim := by
        by_contra hne
        have hlt : a.extent * count axes < a.dim * count axes :=
          Nat.mul_lt_mul_of_pos_right (lt_of_le_of_ne hextent hne) hpos
        have hmul := Nat.mul_le_mul_left a.dim hle
        omega
      rw [hdim] at h
      have hrest := ih (Nat.eq_of_mul_eq_mul_left a.dim_pos h)
      intro x hx
      rcases List.mem_cons.mp hx with rfl | hx
      · simp [Axis.whole, hdim]
      · exact hrest x hx

theorem origin_of_whole (h : ∀ x ∈ axes, x.whole = true) : origin axes = 0 := by
  induction axes with
  | nil => rfl
  | cons a axes ih =>
      rw [origin, Axis.first_of_whole (h a (List.mem_cons_self ..)), Nat.zero_mul,
        ih (fun x hx => h x (List.mem_cons_of_mem _ hx))]

theorem origin_append (outer inner : List Axis) :
    origin (outer ++ inner) = origin outer * volume inner + origin inner := by
  induction outer with
  | nil => simp [origin]
  | cons a outer ih =>
      rw [List.cons_append, origin, origin, ih, volume_append]
      ring

theorem origin_add_count_le (axes : List Axis) : origin axes + count axes ≤ volume axes := by
  induction axes with
  | nil => exact le_refl 1
  | cons a axes ih =>
      obtain ⟨e, he⟩ : ∃ e, a.extent = e + 1 := ⟨a.extent - 1, by have := a.extent_pos; omega⟩
      have hmul : e * count axes ≤ e * volume axes := Nat.mul_le_mul_left e (count_le_volume axes)
      calc a.first * volume axes + origin axes + count (a :: axes)
          = a.first * volume axes + (e * count axes + (origin axes + count axes)) := by
            rw [count_cons, he]
            ring
        _ ≤ a.first * volume axes + (e * volume axes + volume axes) := by omega
        _ = (a.first + a.extent) * volume axes := by
            rw [he]
            ring
        _ ≤ volume (a :: axes) := by
            rw [volume_cons]
            exact Nat.mul_le_mul_right _ a.fits

theorem length_positions (axes : List Axis) : (positions axes).length = count axes := by
  induction axes with
  | nil => rfl
  | cons a axes ih =>
      simp only [positions, List.length_flatMap, List.length_map, ih, List.map_const', List.length_range',
        List.sum_replicate, smul_eq_mul, count_cons]

theorem positions_head (axes : List Axis) : ∃ rest, positions axes = origin axes :: rest := by
  induction axes with
  | nil => exact ⟨[], rfl⟩
  | cons a axes ih =>
      obtain ⟨rest, hrest⟩ := ih
      obtain ⟨e, he⟩ : ∃ e, a.extent = e + 1 := ⟨a.extent - 1, by have := a.extent_pos; omega⟩
      rw [positions, he, List.range'_succ, List.flatMap_cons, hrest, List.map_cons, List.cons_append]
      exact ⟨_, rfl⟩

theorem lt_volume_of_mem {p : Nat} (h : p ∈ positions axes) : p < volume axes := by
  induction axes generalizing p with
  | nil =>
      obtain rfl : p = 0 := List.mem_singleton.mp h
      exact Nat.one_pos
  | cons a axes ih =>
      rw [positions, List.mem_flatMap] at h
      obtain ⟨i, hi, hp⟩ := h
      obtain ⟨q, hq, rfl⟩ := List.mem_map.mp hp
      have hlt := ih hq
      have hi' : i + 1 ≤ a.dim := by
        have := List.mem_range'_1.mp hi
        have := a.fits
        omega
      calc i * volume axes + q < (i + 1) * volume axes := by
            rw [Nat.succ_mul]
            omega
        _ ≤ volume (a :: axes) := by
            rw [volume_cons]
            exact Nat.mul_le_mul_right _ hi'

theorem nodup_positions (axes : List Axis) : (positions axes).Nodup := by
  induction axes with
  | nil => exact List.nodup_singleton 0
  | cons a axes ih =>
      rw [positions, List.nodup_flatMap]
      refine ⟨fun i _ => ih.map (add_right_injective _), ?_⟩
      refine List.Pairwise.imp ?_ (show (List.range' a.first a.extent).Nodup from List.nodup_range')
      intro i j hij p hp hp'
      obtain ⟨q, hq, rfl⟩ := List.mem_map.mp hp
      obtain ⟨q', hq', heq⟩ := List.mem_map.mp hp'
      have hlt := lt_volume_of_mem hq
      have hlt' := lt_volume_of_mem hq'
      apply hij
      have hdiv : (i * volume axes + q) / volume axes = (j * volume axes + q') / volume axes :=
        congrArg (· / volume axes) heq.symm
      rw [Nat.mul_comm i, Nat.mul_comm j, Nat.mul_add_div (volume_pos axes), Nat.mul_add_div (volume_pos axes),
        Nat.div_eq_of_lt hlt, Nat.div_eq_of_lt hlt'] at hdiv
      exact hdiv

theorem positions_append (outer inner : List Axis) :
    positions (outer ++ inner) =
      (positions outer).flatMap (fun r => (positions inner).map (r * volume inner + ·)) := by
  induction outer with
  | nil => simp [positions]
  | cons a outer ih =>
      rw [List.cons_append, positions, positions, List.flatMap_assoc]
      apply List.flatMap_congr
      intro i _
      rw [ih, List.map_flatMap, List.flatMap_map]
      apply List.flatMap_congr
      intro r _
      rw [List.map_map]
      apply List.map_congr_left
      intro p _
      rw [Function.comp_apply, volume_append]
      ring

theorem positions_singleton (a : Axis) : positions [a] = List.range' a.first a.extent := by
  simp only [positions, volume_nil, Nat.mul_one, List.map_cons, List.map_nil, Nat.add_zero, List.flatMap_singleton']

theorem map_add_range (s n : Nat) : (List.range n).map (s + ·) = List.range' s n := by
  rw [List.range_eq_range', List.map_add_range', Nat.add_zero]

theorem flatMap_runs (first n size : Nat) :
    (List.range' first n).flatMap (fun i => (List.range size).map (i * size + ·)) =
      List.range' (first * size) (n * size) := by
  induction n generalizing first with
  | zero => simp
  | succ n ih =>
      rw [List.range'_succ, List.flatMap_cons, ih, map_add_range, Nat.succ_mul, List.range'_append_1, Nat.succ_mul,
        Nat.add_comm size]

theorem positions_of_whole (h : ∀ x ∈ axes, x.whole = true) : positions axes = List.range (volume axes) := by
  induction axes with
  | nil => rfl
  | cons a axes ih =>
      have hdim : a.extent = a.dim := by simpa [Axis.whole] using h a (List.mem_cons_self ..)
      rw [positions, ih (fun x hx => h x (List.mem_cons_of_mem _ hx)), flatMap_runs,
        Axis.first_of_whole (h a (List.mem_cons_self ..)), hdim, Nat.zero_mul, ← List.range_eq_range', volume_cons]

/-- The selected elements are the next ones behind the first if and only if
no dimension that is selected in part lies inside one with several indices. -/
theorem positions_eq_range'_iff (axes : List Axis) :
    positions axes = List.range' (origin axes) (count axes) ↔ Contiguous axes := by
  induction axes with
  | nil => exact ⟨fun _ => trivial, fun _ => rfl⟩
  | cons a axes ih =>
      constructor
      · intro h
        obtain ⟨rest, hrest⟩ := positions_head axes
        by_cases hone : a.extent = 1
        · refine .inr ⟨hone, ih.mp ?_⟩
          rw [positions, hone, count_cons, hone, Nat.one_mul, origin, ← List.map_add_range'] at h
          simp only [List.range'_one, List.flatMap_cons, List.flatMap_nil, List.append_nil] at h
          exact List.map_injective_iff.mpr (add_right_injective _) h
        · left
          obtain ⟨e, he⟩ : ∃ e, a.extent = e + 2 := ⟨a.extent - 2, by have := a.extent_pos; omega⟩
          apply whole_of_count
          -- the first element of the second run stands behind the whole first run
          have hget := congrArg (·[count axes]?) h
          have hpos := count_pos axes
          have hlt : count axes < count (a :: axes) := by
            rw [count_cons, he, Nat.succ_mul]
            exact Nat.lt_add_of_pos_left (Nat.mul_pos (Nat.succ_pos e) hpos)
          rw [positions, he, List.range'_succ, List.range'_succ, List.flatMap_cons, List.flatMap_cons,
            List.getElem?_append_right (by rw [List.length_map, length_positions]), List.length_map,
            length_positions, Nat.sub_self, hrest, List.map_cons, List.cons_append, List.getElem?_cons_zero,
            List.getElem?_range' hlt, Nat.succ_mul, origin] at hget
          have := Option.some.inj hget
          omega
      · rintro (hwhole | ⟨hone, hrest⟩)
        · rw [positions, positions_of_whole hwhole, flatMap_runs, origin, origin_of_whole hwhole, Nat.add_zero,
            count_cons, count_of_whole hwhole]
        · rw [positions, hone, count_cons, hone, Nat.one_mul, origin, ← List.map_add_range', ih.mpr hrest]
          simp only [List.range'_one, List.flatMap_cons, List.flatMap_nil, List.append_nil]

section Blocks

theorem flatMap_injective {α β : Type} {f : α → List β} {n : Nat} (hlen : ∀ x, (f x).length = n) (hn : 0 < n)
    (hf : Function.Injective f) : Function.Injective (fun l : List α => l.flatMap f) := by
  intro l l' h
  dsimp only at h
  induction l generalizing l' with
  | nil =>
      cases l' with
      | nil => rfl
      | cons x l' =>
          have hlength := congrArg List.length h
          rw [List.flatMap_cons, List.length_append, hlen, List.flatMap_nil, List.length_nil] at hlength
          omega
  | cons x l ih =>
      cases l' with
      | nil =>
          have hlength := congrArg List.length h
          rw [List.flatMap_cons, List.length_append, hlen, List.flatMap_nil, List.length_nil] at hlength
          omega
      | cons x' l' =>
          rw [List.flatMap_cons, List.flatMap_cons] at h
          obtain ⟨hx, hrest⟩ := List.append_inj h (by rw [hlen, hlen])
          rw [hf hx, ih hrest]

/-- Several dimensions taken for one, in which the elements behind the first
one are selected. -/
def collapse (outer : List Axis) : Axis :=
  ⟨volume outer, origin outer, count outer, count_pos outer, origin_add_count_le outer⟩

theorem volume_collapse (outer inner : List Axis) : volume (collapse outer :: inner) = volume (outer ++ inner) := by
  rw [volume_cons, volume_append]
  rfl

theorem count_collapse (outer inner : List Axis) : count (collapse outer :: inner) = count (outer ++ inner) := by
  rw [count_cons, count_append]
  rfl

/-- The outer dimensions can be taken for one if and only if what they select
lies side by side. -/
theorem positions_collapse_iff (outer inner : List Axis) :
    positions (collapse outer :: inner) = positions (outer ++ inner) ↔ Contiguous outer := by
  obtain ⟨rest, hrest⟩ := positions_head inner
  have hlen : ∀ r, ((positions inner).map (r * volume inner + ·)).length = count inner := by
    intro r
    rw [List.length_map, length_positions]
  have hinjective : Function.Injective (fun r => (positions inner).map (r * volume inner + ·)) := by
    intro r r' hr
    have hhead := congrArg List.head? hr
    simp only [hrest, List.map_cons, List.head?_cons, Option.some.injEq, Nat.add_right_cancel_iff] at hhead
    exact Nat.eq_of_mul_eq_mul_right (volume_pos inner) hhead
  rw [positions_append, ← positions_eq_range'_iff]
  constructor
  · intro heq
    exact (flatMap_injective hlen (count_pos inner) hinjective heq).symm
  · intro heq
    rw [heq]
    rfl

def blocks (rows block stride first : Nat) : List Nat :=
  (List.range rows).flatMap (fun i => List.range' (first + i * stride) block)

theorem blocks_succ (rows block stride first : Nat) :
    blocks (rows + 1) block stride first = List.range' first block ++ blocks rows block stride (first + stride) := by
  rw [blocks, blocks, List.range_succ_eq_map, List.flatMap_cons, List.flatMap_map, Nat.zero_mul, Nat.add_zero]
  congr 1
  apply List.flatMap_congr
  intro i _
  rw [Nat.succ_mul, Nat.add_comm (i * stride), Nat.add_assoc]

/-- The runs that begin in one dimension, inside of which everything is
selected, are those of a selection in which the dimensions outside of it are
taken for one. -/
theorem blocks_eq_positions (h : ∀ x ∈ inner, x.whole = true) :
    blocks (count outer) (a.extent * volume inner) (a.dim * volume inner) (origin (outer ++ a :: inner)) =
      positions (collapse outer :: a :: inner) := by
  have hrow : ∀ r, (positions (a :: inner)).map (r * volume (a :: inner) + ·) =
      List.range' (r * (a.dim * volume inner) + a.first * volume inner) (a.extent * volume inner) := by
    intro r
    rw [positions, positions_of_whole h, flatMap_runs, List.map_add_range', volume_cons]
  have hcollapse : positions (collapse outer :: a :: inner) =
      (List.range' (origin outer) (count outer)).flatMap
        (fun r => (positions (a :: inner)).map (r * volume (a :: inner) + ·)) := rfl
  rw [hcollapse, blocks, ← map_add_range, List.flatMap_map]
  apply List.flatMap_congr
  intro i _
  rw [hrow, origin_append, origin, origin_of_whole h, volume_cons, Nat.add_zero]
  congr 1
  ring

theorem blocks_single (n : Nat) : blocks n 1 1 0 = List.range n := by
  have hrun : ∀ i : Nat, List.range' (0 + i * 1) 1 = [i] := by
    intro i
    rw [Nat.zero_add, Nat.mul_one, List.range'_one]
  simp only [blocks, hrun, List.flatMap_singleton']

theorem mem_blocks {rows block stride first p : Nat} :
    p ∈ blocks rows block stride first ↔ ∃ i j, i < rows ∧ j < block ∧ p = first + i * stride + j := by
  rw [blocks, List.mem_flatMap]
  constructor
  · rintro ⟨i, hi, hp⟩
    obtain ⟨hle, hlt⟩ := List.mem_range'_1.mp hp
    exact ⟨i, p - (first + i * stride), List.mem_range.mp hi, by omega, by omega⟩
  · rintro ⟨i, j, hi, hj, rfl⟩
    exact ⟨i, List.mem_range.mpr hi, List.mem_range'_1.mpr ⟨by omega, by omega⟩⟩

end Blocks

end OpcUa.RowMajor
