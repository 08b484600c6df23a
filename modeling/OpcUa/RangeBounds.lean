import OpcUa.RangeReduction

namespace OpcUa.RangeBounds

open StatusCodes RowMajor VariantRanges RangeReduction

variable {α : Type}

/-- `block` divides `total` and no block reaches beyond the array. -/
def InBounds (r : Blocks) (arrayLength : Nat) : Prop :=
  r.block.toNat ∣ r.total.toNat ∧ ∀ i j, i < r.total.toNat / r.block.toNat → j < r.block.toNat →
    r.first.toNat + i * r.stride.toNat + j < arrayLength

def LeavesOut (v : Variant α) (range : NumericRange) : Prop :=
  ∃ d ∈ range.zip (dims v), d.1.min ≠ 0 ∨ d.1.max + 1 ≠ d.2

theorem leavesOut_iff {dims : List UInt32} {range : NumericRange} {axes : List Axis}
    (h : Selects (dims.map UInt32.toNat) range axes) :
    (∃ d ∈ range.zip dims, d.1.min ≠ 0 ∨ d.1.max + 1 ≠ d.2) ↔ axes.all Axis.whole = false := by
  induction dims generalizing range axes with
  | nil =>
      obtain ⟨rfl, rfl⟩ := h.nil_left
      simp
  | cons d dims ih =>
      cases range with
      | nil => cases h.length_eq
      | cons r range =>
          obtain ⟨a, rest, rfl, hdim, hfirst, hlast, hrest⟩ := h.cons
          have hwhole := whole_eq hdim hfirst hlast
          have ha : (r.min ≠ 0 ∨ r.max + 1 ≠ d) ↔ a.whole = false := by
            rw [← Bool.not_eq_true', ← hwhole]
            simp
          rw [List.zip_cons_cons, List.all_cons, Bool.and_eq_false_iff, ← ih hrest, ← ha]
          simp

theorem inBounds_of_split {elements arrayLength : Nat} {axes : List Axis} {r : Blocks}
    (h : Reduced elements axes r) (hvolume : volume axes ≤ arrayLength) (hall : axes.all Axis.whole = false) :
    InBounds r arrayLength := by
  obtain ⟨outer, a, inner, rfl, -, hinner, hblock, hstride⟩ := h.split hall
  have htotal : r.total.toNat = count outer * r.block.toNat := by
    rw [h.total, hblock, count_append, count_cons, count_of_whole hinner]
  have hpos : 0 < r.block.toNat := by
    rw [hblock]
    exact Nat.mul_pos a.extent_pos (volume_pos inner)
  refine ⟨⟨count outer, by rw [htotal, Nat.mul_comm]⟩, ?_⟩
  intro i j hi hj
  rw [htotal, Nat.mul_div_cancel _ hpos] at hi
  rw [hblock] at hj
  have hmem : origin (outer ++ a :: inner) + i * (a.dim * volume inner) + j ∈
      positions (collapse outer :: a :: inner) := by
    rw [← blocks_eq_positions hinner]
    exact mem_blocks.mpr ⟨i, j, hi, hj, rfl⟩
  have hlt := lt_volume_of_mem hmem
  rw [volume_collapse] at hlt
  rw [h.first, hstride]
  exact hlt.trans_le hvolume

theorem inBounds_whole_iff {arrayLength : Nat} {axes : List Axis} {r : Blocks} (h : Reduced arrayLength axes r)
    (hvolume : volume axes = arrayLength) (hall : axes.all Axis.whole = true) :
    InBounds r arrayLength ↔ arrayLength = 1 := by
  obtain ⟨hblock, hstride⟩ := h.whole hall
  have hwhole := List.all_eq_true.mp hall
  have htotal : r.total.toNat = arrayLength := by
    rw [h.total, count_of_whole hwhole, hvolume]
  have hfirst : r.first.toNat = 0 := by
    rw [h.first, origin_of_whole hwhole]
  have hpos : 0 < arrayLength := by
    rw [← hvolume]
    exact volume_pos axes
  rw [InBounds, hblock, hstride, htotal, hfirst, Nat.div_one]
  constructor
  · intro hbounds
    by_contra hne
    have hsecond := hbounds.2 1 0 (by omega) Nat.one_pos
    omega
  · rintro rfl
    refine ⟨one_dvd _, ?_⟩
    intro i j hi hj
    omega

theorem inBounds_whole_of_plain {arrayLength : Nat} {axes : List Axis} {r : Blocks} (h : Reduced 1 axes r)
    (hvolume : volume axes ≤ arrayLength) (hall : axes.all Axis.whole = true) : InBounds r arrayLength := by
  obtain ⟨hblock, hstride⟩ := h.whole hall
  have hwhole := List.all_eq_true.mp hall
  rw [InBounds, hblock, hstride, h.total, count_of_whole hwhole, h.first, origin_of_whole hwhole, Nat.div_one]
  refine ⟨one_dvd _, ?_⟩
  intro i j hi hj
  omega

theorem elements_of_plain {v : Variant α} (h : v.arrayDimensions = []) : elements v = 1 := by
  rw [elements, h]
  rfl

theorem elements_toNat {v : Variant α} (h : v.arrayDimensions ≠ []) :
    (elements v).toNat = ((dims v).map UInt32.toNat).prod % 2 ^ 32 := by
  rw [elements, if_pos (List.length_pos_iff.mpr h), foldl_mul_toNat, UInt32.toNat_one, Nat.one_mul]

theorem inBounds_iff_of_exact {v : Variant α} (hexact : Exact v) {range : NumericRange} {r : Blocks}
    (h : processRangeDefinition v range = some (.ok r)) :
    InBounds r v.arrayLength.toNat ↔ v.arrayDimensions = [] ∨ v.arrayLength = 1 ∨ LeavesOut v range := by
  obtain ⟨axes, haxes, hreduced, hvolume⟩ := reduced_of_exact hexact h
  rw [LeavesOut, leavesOut_iff haxes]
  cases hall : axes.all Axis.whole with
  | false => exact ⟨fun _ => .inr (.inr rfl), fun _ => inBounds_of_split hreduced hvolume hall⟩
  | true =>
      by_cases hplain : v.arrayDimensions = []
      · rw [elements_of_plain hplain] at hreduced
        exact ⟨fun _ => .inl hplain, fun _ => inBounds_whole_of_plain hreduced hvolume hall⟩
      · have hprod := hexact.resolve_left hplain
        have hlength : (elements v).toNat = v.arrayLength.toNat := by
          rw [← UInt32.toNat_toUInt64, (processRangeDefinition_ok h).1 (List.length_pos_iff.mpr hplain)]
        rw [hlength] at hreduced
        rw [inBounds_whole_iff hreduced (by rw [haxes.volume_eq, hprod]) hall, ← UInt64.toNat_inj, UInt64.toNat_one]
        simp [hplain]

section Wrapping

def coordinates : List UInt32 → Nat → NumericRange
  | [], _ => []
  | _ :: dims, n =>
      let rest := (dims.map UInt32.toNat).prod
      ⟨UInt32.ofNat (n / rest), UInt32.ofNat (n / rest)⟩ :: coordinates dims (n % rest)

theorem coordinates_selects (dims : List UInt32) {n : Nat} (h : n < (dims.map UInt32.toNat).prod) :
    ∃ axes, Selects (dims.map UInt32.toNat) (coordinates dims n) axes ∧ origin axes = n ∧
      ∀ a ∈ axes, a.extent = 1 := by
  induction dims generalizing n with
  | nil =>
      refine ⟨[], ⟨rfl, rfl, rfl⟩, ?_, fun a ha => by cases ha⟩
      rw [List.map_nil, List.prod_nil] at h
      exact (Nat.lt_one_iff.mp h).symm
  | cons d dims ih =>
      rw [List.map_cons, List.prod_cons] at h
      have hpos : 0 < (dims.map UInt32.toNat).prod := Nat.pos_of_ne_zero (fun hzero => by rw [hzero] at h; omega)
      obtain ⟨axes, haxes, horigin, hextents⟩ := ih (Nat.mod_lt n hpos)
      have hlt : n / (dims.map UInt32.toNat).prod < d.toNat := Nat.div_lt_of_lt_mul (by rw [Nat.mul_comm]; exact h)
      have hword : (UInt32.ofNat (n / (dims.map UInt32.toNat).prod)).toNat = n / (dims.map UInt32.toNat).prod :=
        UInt32.toNat_ofNat_of_lt' (hlt.trans d.toNat_lt)
      refine ⟨⟨d.toNat, n / (dims.map UInt32.toNat).prod, 1, Nat.one_pos, hlt⟩ :: axes, ⟨?_, ?_, ?_⟩, ?_, ?_⟩
      · rw [List.map_cons, haxes.dims_eq, List.map_cons]
      · rw [List.map_cons, haxes.first_eq, coordinates, List.map_cons, hword]
      · rw [List.map_cons, haxes.last_eq, coordinates, List.map_cons, hword]
      · rw [origin, horigin, haxes.volume_eq]
        exact Nat.div_add_mod' n _
      · intro a ha
        rcases List.mem_cons.mp ha with rfl | ha
        · rfl
        · exact hextents a ha

theorem testRange_of_selects {dims : List UInt32} {range : NumericRange} {axes : List Axis} (count : UInt64)
    (h : Selects (dims.map UInt32.toNat) range axes) : ∃ result, testRange count (range.zip dims) = .ok result := by
  induction dims generalizing range axes count with
  | nil =>
      obtain ⟨rfl, rfl⟩ := h.nil_left
      exact ⟨count, rfl⟩
  | cons d dims ih =>
      cases range with
      | nil => cases h.length_eq
      | cons r range =>
          obtain ⟨a, rest, rfl, hdim, hfirst, hlast, hrest⟩ := h.cons
          have hfits := a.fits
          have hpos := a.extent_pos
          have hmin : ¬ r.min > r.max := by
            rw [gt_iff_lt, UInt32.lt_iff_toNat_lt]
            omega
          have hmax : ¬ r.max ≥ d := by
            rw [ge_iff_le, UInt32.le_iff_toNat_le]
            omega
          rw [List.zip_cons_cons, testRange, if_neg hmin, if_neg hmax]
          exact ih _ hrest

theorem count_of_ones {axes : List Axis} (h : ∀ a ∈ axes, a.extent = 1) : count axes = 1 := by
  induction axes with
  | nil => rfl
  | cons a axes ih =>
      rw [count_cons, h a (List.mem_cons_self ..), ih (fun x hx => h x (List.mem_cons_of_mem _ hx))]

/-- Dimensions whose product wraps around to the length of the array let the
element behind the array be selected. -/
theorem outOfBounds_of_wrapping {v : Variant α} (hexact : ¬ Exact v)
    (helements : (elements v).toUInt64 = v.arrayLength) :
    ∃ range r, processRangeDefinition v range = some (.ok r) ∧ ¬ InBounds r v.arrayLength.toNat := by
  obtain ⟨hplain, hprod⟩ := not_or.mp hexact
  have hlength : v.arrayLength.toNat = ((dims v).map UInt32.toNat).prod % 2 ^ 32 := by
    rw [← helements, UInt32.toNat_toUInt64, elements_toNat hplain]
  have hlt : v.arrayLength.toNat < ((dims v).map UInt32.toNat).prod := by
    have hle := Nat.mod_le ((dims v).map UInt32.toNat).prod (2 ^ 32)
    omega
  obtain ⟨axes, haxes, horigin, hextents⟩ := coordinates_selects (dims v) hlt
  obtain ⟨total, htest⟩ := testRange_of_selects 1 haxes
  have hranges : (coordinates (dims v) v.arrayLength.toNat).length = (dims v).length := by
    rw [haxes.length_eq, List.length_map]
  have hcount : dimsCount v ≠ 0 := by
    intro hzero
    have hnil : dims v = [] := List.eq_nil_of_length_eq_zero (by rw [length_dims, hzero]; rfl)
    rw [hnil] at hlength hprod
    exact hprod hlength.symm
  have hok : ∃ r, processRangeDefinition v (coordinates (dims v) v.arrayLength.toNat) = some (.ok r) := by
    rw [processRangeDefinition, if_neg (fun hne => hne.2 helements), if_neg (by rw [hranges, length_dims]; simp), htest]
    dsimp only
    rw [if_neg hcount]
    exact ⟨_, rfl⟩
  obtain ⟨r, hr⟩ := hok
  refine ⟨_, r, hr, ?_⟩
  obtain ⟨-, -, axes', x, haxes', htotal, hsearched, hblock, hstride, hfirst⟩ := processRangeDefinition_ok hr
  obtain rfl := haxes.unique haxes'
  have hone : r.total.toNat = 1 := by
    rw [htotal, count_of_ones hextents]
    rfl
  have hstart : r.first.toNat = v.arrayLength.toNat := by
    rw [hfirst, hsearched.first, horigin, Nat.mod_eq_of_lt v.arrayLength.toNat_lt]
  have hblock' : r.block.toNat = 1 := by
    cases hall : axes.all Axis.whole with
    | true =>
        rw [hblock, (hsearched.whole hall).1]
        rfl
    | false =>
        obtain ⟨outer, a, inner, rfl, -, hinner, hb, -⟩ := hsearched.split hall
        have hinner' : volume inner = 1 := by
          rw [← count_of_whole hinner]
          exact count_of_ones (fun y hy => hextents y (by simp [hy]))
        rw [hblock, hb, hinner', hextents a (by simp)]
        rfl
  intro hbounds
  have hindex := hbounds.2 0 0 (by rw [hone, hblock']; exact Nat.one_pos) (by rw [hblock']; exact Nat.one_pos)
  omega

end Wrapping

/-- The blocks of an accepted range stay in the array unless the array has
dimensions and more than one element and the range covers all of them. That
is so as long as the dimensions multiply to the length of the array, which
the 32 bit product of the source does not ensure. -/
theorem processRangeDefinition_inBounds_iff (v : Variant α) :
    (Exact v → ∀ range r, processRangeDefinition v range = some (.ok r) →
      (InBounds r v.arrayLength.toNat ↔ v.arrayDimensions = [] ∨ v.arrayLength = 1 ∨ LeavesOut v range)) ∧
    (¬ Exact v → (elements v).toUInt64 = v.arrayLength →
      ∃ range r, processRangeDefinition v range = some (.ok r) ∧ ¬ InBounds r v.arrayLength.toNat) :=
  ⟨fun hexact _ _ h => inBounds_iff_of_exact hexact h, outOfBounds_of_wrapping⟩

theorem processRangeDefinition_inBounds_sample :
    ∃ r, processRangeDefinition (⟨[1, 2, 3, 4, 5, 6], 6, [2, 3]⟩ : Variant Nat) [⟨0, 1⟩, ⟨1, 2⟩] = some (.ok r) ∧
      InBounds r 6 :=
  ⟨⟨4, 2, 3, 1⟩, by decide, ((processRangeDefinition_inBounds_iff (⟨[1, 2, 3, 4, 5, 6], 6, [2, 3]⟩ : Variant Nat)).1
    (.inr rfl) [⟨0, 1⟩, ⟨1, 2⟩] _ (by decide)).mpr (.inr (.inr ⟨(⟨1, 2⟩, 3), by decide, by decide⟩))⟩

/-- A range that covers an array with one explicit dimension, and a range of
one element in an array of 65536 by 65537 elements that has only 65536. -/
theorem processRangeDefinition_outOfBounds :
    (∃ r, processRangeDefinition (⟨[1, 2, 3], 3, [3]⟩ : Variant Nat) [⟨0, 2⟩] = some (.ok r) ∧ ¬ InBounds r 3) ∧
      ∃ r, processRangeDefinition (⟨List.replicate 65536 0, 65536, [65536, 65537]⟩ : Variant Nat)
        [⟨0, 0⟩, ⟨65536, 65536⟩] = some (.ok r) ∧ ¬ InBounds r 65536 := by
  refine ⟨⟨⟨3, 1, 3, 0⟩, by decide, ?_⟩, ⟨⟨1, 1, 65537, 65536⟩, by decide, ?_⟩⟩
  · intro hbounds
    have hindex := hbounds.2 1 0 (by decide) (by decide)
    exact absurd hindex (by decide)
  · intro hbounds
    have hindex := hbounds.2 0 0 (by decide) (by decide)
    exact absurd hindex (by decide)

end OpcUa.RangeBounds
