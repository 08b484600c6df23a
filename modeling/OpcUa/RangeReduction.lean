import OpcUa.RowMajor
import OpcUa.VariantRanges

namespace OpcUa.RangeReduction

open StatusCodes RowMajor VariantRanges

variable {α : Type}

/-- The selection that a range makes in an array of the given dimensions. -/
structure Selects (dims : List Nat) (range : NumericRange) (axes : List Axis) : Prop where
  dims_eq : axes.map Axis.dim = dims
  first_eq : axes.map Axis.first = range.map (·.min.toNat)
  last_eq : axes.map (fun a => a.first + a.extent) = range.map (·.max.toNat + 1)

theorem Selects.cons {d : Nat} {dims : List Nat} {r : RangeDimension} {range : NumericRange} {axes : List Axis}
    (h : Selects (d :: dims) (r :: range) axes) :
    ∃ a rest, axes = a :: rest ∧ a.dim = d ∧ a.first = r.min.toNat ∧ a.first + a.extent = r.max.toNat + 1 ∧
      Selects dims range rest := by
  cases axes with
  | nil => cases h.dims_eq
  | cons a rest =>
      obtain ⟨hdim, hdims⟩ := List.cons.inj h.dims_eq
      obtain ⟨hfirst, hfirsts⟩ := List.cons.inj h.first_eq
      obtain ⟨hlast, hlasts⟩ := List.cons.inj h.last_eq
      exact ⟨a, rest, rfl, hdim, hfirst, hlast, hdims, hfirsts, hlasts⟩

theorem Selects.nil_left {range : NumericRange} {axes : List Axis} (h : Selects [] range axes) :
    axes = [] ∧ range = [] := by
  obtain rfl : axes = [] := List.map_eq_nil_iff.mp h.dims_eq
  exact ⟨rfl, List.map_eq_nil_iff.mp h.first_eq.symm⟩

theorem Selects.length_eq {dims : List Nat} {range : NumericRange} {axes : List Axis} (h : Selects dims range axes) :
    range.length = dims.length := by
  have hdims := congrArg List.length h.dims_eq
  have hrange := congrArg List.length h.first_eq
  rw [List.length_map] at hdims
  rw [List.length_map, List.length_map] at hrange
  omega

theorem Selects.volume_eq {dims : List Nat} {range : NumericRange} {axes : List Axis} (h : Selects dims range axes) :
    volume axes = dims.prod := by
  rw [volume, h.dims_eq]

theorem Selects.unique {dims : List Nat} {range : NumericRange} {axes axes' : List Axis}
    (h : Selects dims range axes) (h' : Selects dims range axes') : axes = axes' := by
  induction dims generalizing range axes axes' with
  | nil => rw [h.nil_left.1, h'.nil_left.1]
  | cons d dims ih =>
      cases range with
      | nil => cases h.length_eq
      | cons r range =>
          obtain ⟨a, rest, rfl, hdim, hfirst, hlast, hrest⟩ := h.cons
          obtain ⟨a', rest', rfl, hdim', hfirst', hlast', hrest'⟩ := h'.cons
          have hextent : a.extent = a'.extent := by omega
          obtain rfl : a = a' := by
            cases a
            cases a'
            simp_all
          rw [ih hrest hrest']

section Machine

theorem extent_toNat {r : RangeDimension} {a : Axis} (hfirst : a.first = r.min.toNat)
    (hlast : a.first + a.extent = r.max.toNat + 1) (hdim : a.dim < 2 ^ 32) :
    (r.max - r.min + 1).toNat = a.extent := by
  have hfits := a.fits
  have hpos := a.extent_pos
  have hle : r.min ≤ r.max := UInt32.le_iff_toNat_le.mpr (by omega)
  rw [UInt32.toNat_add, UInt32.toNat_sub_of_le _ _ hle, UInt32.toNat_one, Nat.mod_eq_of_lt (by omega)]
  omega

/-- The test of the range passes if and only if the range selects something
in the array, and then counts the elements. -/
theorem testRange_eq {count : UInt64} {dims : List UInt32} {range : NumericRange} {result : UInt64}
    (hlength : range.length = dims.length) (h : testRange count (range.zip dims) = .ok result) :
    ∃ axes, Selects (dims.map UInt32.toNat) range axes ∧
      result.toNat = count.toNat * RowMajor.count axes % 2 ^ 64 := by
  induction dims generalizing count range with
  | nil =>
      obtain rfl : range = [] := List.eq_nil_of_length_eq_zero hlength
      obtain rfl := Except.ok.inj h
      refine ⟨[], ⟨rfl, rfl, rfl⟩, ?_⟩
      rw [count_nil, Nat.mul_one, Nat.mod_eq_of_lt count.toNat_lt]
  | cons d dims ih =>
      cases range with
      | nil => cases hlength
      | cons r range =>
          rw [List.zip_cons_cons, testRange] at h
          split at h
          · cases h
          rename_i hmin
          split at h
          · cases h
          rename_i hmax
          have hmin' : r.min.toNat ≤ r.max.toNat := UInt32.le_iff_toNat_le.mp (UInt32.not_lt.mp hmin)
          have hmax' : r.max.toNat < d.toNat := UInt32.lt_iff_toNat_lt.mp (UInt32.not_le.mp hmax)
          have hd := d.toNat_lt
          obtain ⟨axes, haxes, hresult⟩ := ih (Nat.succ.inj hlength) h
          let a : Axis := ⟨d.toNat, r.min.toNat, r.max.toNat + 1 - r.min.toNat, by omega, by omega⟩
          have hlast : a.first + a.extent = r.max.toNat + 1 := by
            change r.min.toNat + (r.max.toNat + 1 - r.min.toNat) = _
            omega
          refine ⟨a :: axes, ⟨congrArg _ haxes.dims_eq, congrArg _ haxes.first_eq, ?_⟩, ?_⟩
          · rw [List.map_cons, List.map_cons, hlast, haxes.last_eq]
          · rw [hresult, count_cons, UInt64.toNat_mul, UInt32.toNat_toUInt64,
              extent_toNat (show a.first = r.min.toNat from rfl) hlast hd, Nat.mod_mul_mod, Nat.mul_assoc]

/-- What the last loop has found when it has gone through the given part. -/
structure Searched (elements : UInt64) (axes : List Axis) (x : Search) : Prop where
  running : x.runningDimssize.toNat = volume axes % 2 ^ 64
  first : x.f.toNat = origin axes % 2 ^ 64
  found : x.foundContiguous = !axes.all Axis.whole
  whole : axes.all Axis.whole = true → x.b = 1 ∧ x.s = elements
  split : axes.all Axis.whole = false → ∃ outer a inner, axes = outer ++ a :: inner ∧ a.whole = false ∧
    (∀ y ∈ inner, y.whole = true) ∧ x.b.toNat = a.extent * volume inner % 2 ^ 64 ∧
      x.s.toNat = a.dim * volume inner % 2 ^ 64

theorem whole_eq {r : RangeDimension} {d : UInt32} {a : Axis} (hdim : a.dim = d.toNat) (hfirst : a.first = r.min.toNat)
    (hlast : a.first + a.extent = r.max.toNat + 1) : (r.min != 0 || r.max + 1 != d) = !a.whole := by
  have hfits := a.fits
  have hd := d.toNat_lt
  have hnext : (r.max + 1).toNat = r.max.toNat + 1 := by
    rw [UInt32.toNat_add, UInt32.toNat_one, Nat.mod_eq_of_lt (by omega)]
  have hmin : r.min = 0 ↔ a.first = 0 := by
    rw [← UInt32.toNat_inj, UInt32.toNat_zero, hfirst]
  have hmax : r.max + 1 = d ↔ a.first + a.extent = a.dim := by
    rw [← UInt32.toNat_inj, hnext, hlast, hdim]
  rw [Bool.eq_iff_iff]
  simp only [Bool.or_eq_true, bne_iff_ne, ne_eq, hmin, hmax, Axis.whole, Bool.not_eq_true', beq_eq_false_iff_ne]
  omega

theorem searched_step {elements : UInt64} {r : RangeDimension} {d : UInt32} {a : Axis} {axes : List Axis} {x : Search}
    (hdim : a.dim = d.toNat) (hfirst : a.first = r.min.toNat) (hlast : a.first + a.extent = r.max.toNat + 1)
    (h : Searched elements axes x) : Searched elements (a :: axes) (searchStep (r, d) x) := by
  have hd : a.dim < 2 ^ 32 := by
    rw [hdim]
    exact d.toNat_lt
  have hfound : (!x.foundContiguous && (r.min != 0 || r.max + 1 != d)) = (axes.all Axis.whole && !a.whole) := by
    rw [whole_eq hdim hfirst hlast, h.found, Bool.not_not]
  refine ⟨?_, ?_, ?_, ?_, ?_⟩
  · rw [searchStep, UInt64.toNat_mul, h.running, UInt32.toNat_toUInt64, volume_cons, Nat.mod_mul_mod, hdim,
      Nat.mul_comm]
  · rw [searchStep, UInt64.toNat_add, UInt64.toNat_mul, h.running, h.first, UInt32.toNat_toUInt64, ← hfirst, origin,
      Nat.mod_mul_mod, ← Nat.add_mod, Nat.mul_comm, Nat.add_comm]
  · rw [searchStep]
    dsimp only
    rw [hfound, h.found, List.all_cons]
    cases axes.all Axis.whole <;> cases a.whole <;> rfl
  · intro hall
    rw [List.all_cons, Bool.and_eq_true] at hall
    rw [searchStep]
    dsimp only
    rw [hfound, hall.1, hall.2]
    exact h.whole hall.2
  · intro hall
    rw [searchStep]
    dsimp only
    rw [hfound]
    cases haxes : axes.all Axis.whole with
    | true =>
        have ha : a.whole = false := by
          rw [List.all_cons, haxes, Bool.and_true] at hall
          exact hall
        refine ⟨[], a, axes, rfl, ha, List.all_eq_true.mp haxes, ?_, ?_⟩
        · rw [ha, Bool.not_false, Bool.and_true, if_pos rfl, UInt64.toNat_mul, UInt32.toNat_toUInt64,
            extent_toNat hfirst hlast hd, h.running, Nat.mul_mod_mod]
        · rw [ha, Bool.not_false, Bool.and_true, if_pos rfl, UInt64.toNat_mul, UInt32.toNat_toUInt64, h.running,
            Nat.mul_mod_mod, hdim]
    | false =>
        obtain ⟨outer, a', inner, rfl, ha', hinner, hb, hs⟩ := h.split haxes
        exact ⟨a :: outer, a', inner, rfl, ha', hinner, hb, hs⟩

theorem searched_fold {elements : UInt64} {dims : List UInt32} {range : NumericRange} {axes : List Axis}
    (h : Selects (dims.map UInt32.toNat) range axes) :
    Searched elements axes ((range.zip dims).foldr searchStep ⟨1, elements, 0, 1, false⟩) := by
  induction dims generalizing range axes with
  | nil =>
      obtain ⟨rfl, rfl⟩ := h.nil_left
      exact ⟨rfl, rfl, rfl, fun _ => ⟨rfl, rfl⟩, fun hall => by cases hall⟩
  | cons d dims ih =>
      cases range with
      | nil => cases h.length_eq
      | cons r range =>
          obtain ⟨a, rest, rfl, hdim, hfirst, hlast, hrest⟩ := h.cons
          exact searched_step hdim hfirst hlast (ih hrest)

theorem foldl_mul_toNat (dims : List UInt32) (x : UInt32) :
    (dims.foldl (· * ·) x).toNat = x.toNat * (dims.map UInt32.toNat).prod % 2 ^ 32 := by
  induction dims generalizing x with
  | nil =>
      rw [List.foldl_nil, List.map_nil, List.prod_nil, Nat.mul_one, Nat.mod_eq_of_lt x.toNat_lt]
  | cons d dims ih =>
      rw [List.foldl_cons, ih, UInt32.toNat_mul, Nat.mod_mul_mod, List.map_cons, List.prod_cons, Nat.mul_assoc]

theorem length_dims (v : Variant α) : (dims v).length = (dimsCount v).toNat := by
  rw [dims]
  split
  · rename_i hdims
    rw [List.length_take, dimsCount, if_pos hdims, UInt32.toNat_ofNat']
    exact Nat.min_eq_left (Nat.mod_le _ _)
  · rename_i hdims
    rw [dimsCount, if_neg hdims]
    rfl

theorem processRangeDefinition_ok {v : Variant α} {range : NumericRange} {r : Blocks}
    (h : processRangeDefinition v range = some (.ok r)) :
    (v.arrayDimensions.length > 0 → (elements v).toUInt64 = v.arrayLength) ∧ dims v ≠ [] ∧
      ∃ axes x, Selects ((dims v).map UInt32.toNat) range axes ∧ r.total.toNat = count axes % 2 ^ 64 ∧
        Searched (elements v).toUInt64 axes x ∧ r.block = x.b ∧ r.stride = x.s ∧ r.first = x.f := by
  rw [processRangeDefinition] at h
  split at h
  · cases h
  rename_i helements
  split at h
  · cases h
  rename_i hlength
  split at h
  · cases h
  rename_i count htest
  split at h
  · cases h
  rename_i hcount
  obtain rfl := Except.ok.inj (Option.some.inj h)
  have hlength' : range.length = (dims v).length := by
    rw [length_dims]
    exact not_not.mp hlength
  obtain ⟨axes, haxes, htotal⟩ := testRange_eq hlength' htest
  refine ⟨fun hdims => not_not.mp (fun hne => helements ⟨hdims, hne⟩), ?_, axes, _, haxes, ?_, searched_fold haxes,
    rfl, rfl, rfl⟩
  · intro hnil
    have hzero := length_dims v
    rw [hnil] at hzero
    exact hcount (UInt32.toNat_inj.mp hzero.symm)
  · rw [htotal, UInt64.toNat_one, Nat.one_mul]

end Machine

section Exact

/-- The dimensions that are used do not wrap around when they are multiplied. -/
def Exact (v : Variant α) : Prop :=
  v.arrayDimensions = [] ∨ ((dims v).map UInt32.toNat).prod = v.arrayLength.toNat

/-- Without wrapping, the values that the loops compute. -/
structure Reduced (elements : Nat) (axes : List Axis) (r : Blocks) : Prop where
  total : r.total.toNat = count axes
  first : r.first.toNat = origin axes
  whole : axes.all Axis.whole = true → r.block.toNat = 1 ∧ r.stride.toNat = elements
  split : axes.all Axis.whole = false → ∃ outer a inner, axes = outer ++ a :: inner ∧ a.whole = false ∧
    (∀ y ∈ inner, y.whole = true) ∧ r.block.toNat = a.extent * volume inner ∧
      r.stride.toNat = a.dim * volume inner

theorem reduced_of_searched {elements : UInt64} {axes : List Axis} {x : Search} {r : Blocks}
    (h : Searched elements axes x) (htotal : r.total.toNat = count axes % 2 ^ 64) (hblock : r.block = x.b)
    (hstride : r.stride = x.s) (hfirst : r.first = x.f) (hvolume : volume axes < 2 ^ 64) :
    Reduced elements.toNat axes r := by
  have hcount := count_le_volume axes
  have horigin := origin_add_count_le axes
  refine ⟨?_, ?_, ?_, ?_⟩
  · rw [htotal, Nat.mod_eq_of_lt (by omega)]
  · rw [hfirst, h.first, Nat.mod_eq_of_lt (by omega)]
  · intro hall
    obtain ⟨hb, hs⟩ := h.whole hall
    rw [hblock, hstride, hb, hs]
    exact ⟨rfl, rfl⟩
  · intro hall
    obtain ⟨outer, a, inner, rfl, ha, hinner, hb, hs⟩ := h.split hall
    have hdim : a.dim * volume inner < 2 ^ 64 := by
      rw [volume_append, volume_cons] at hvolume
      exact (Nat.le_mul_of_pos_left _ (volume_pos outer)).trans_lt hvolume
    have hextent : a.extent * volume inner ≤ a.dim * volume inner :=
      Nat.mul_le_mul_right _ ((Nat.le_add_left _ _).trans a.fits)
    refine ⟨outer, a, inner, rfl, ha, hinner, ?_, ?_⟩
    · rw [hblock, hb, Nat.mod_eq_of_lt (by omega)]
    · rw [hstride, hs, Nat.mod_eq_of_lt hdim]

theorem reduced_of_exact {v : Variant α} {range : NumericRange} {r : Blocks} (hexact : Exact v)
    (h : processRangeDefinition v range = some (.ok r)) :
    ∃ axes, Selects ((dims v).map UInt32.toNat) range axes ∧ Reduced (elements v).toNat axes r ∧
      volume axes ≤ v.arrayLength.toNat := by
  obtain ⟨-, -, axes, x, haxes, htotal, hsearched, hblock, hstride, hfirst⟩ := processRangeDefinition_ok h
  have hvolume : volume axes ≤ v.arrayLength.toNat := by
    rw [haxes.volume_eq]
    rcases hexact with hnil | hprod
    · rw [dims, hnil]
      simp only [List.length_nil, gt_iff_lt, Nat.lt_irrefl, if_false, List.map_cons, List.map_nil, List.prod_cons,
        List.prod_nil, Nat.mul_one, UInt64.toNat_toUInt32]
      exact Nat.mod_le _ _
    · rw [hprod]
  have hlt := hvolume.trans_lt v.arrayLength.toNat_lt
  have hreduced := reduced_of_searched hsearched htotal hblock hstride hfirst hlt
  rw [UInt32.toNat_toUInt64] at hreduced
  exact ⟨axes, haxes, hreduced, hvolume⟩

end Exact

end OpcUa.RangeReduction
