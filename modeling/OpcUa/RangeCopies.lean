import OpcUa.Gathering
import OpcUa.RangeBounds

namespace OpcUa.RangeCopies

open StatusCodes ValueDecoding RowMajor VariantRanges RangeReduction RangeBounds Gathering

variable {α : Type} {data : List α} {v : Variant α} {range : NumericRange} {r : Blocks} {axes : List Axis}

section Loops

variable {copy : Nat → StatusCode} {block stride : Nat}

theorem copyBlocks_reads {n pos : Nat} {out : List α} (h : copyBlocks data block stride n pos = some out) :
    Reads data (blocks n block stride pos) out := by
  induction n generalizing pos out with
  | zero =>
      obtain rfl := Option.some.inj h
      rfl
  | succ n ih =>
      rw [copyBlocks] at h
      split at h
      · rename_i hfits
        obtain ⟨rest, hrest, rfl⟩ := Option.map_eq_some_iff.mp h
        rw [blocks_succ]
        exact (reads_range' hfits).append (ih hrest)
      · cases h

theorem fits_of_blocks {n pos : Nat} (hblock : 0 < block)
    (h : ∀ p ∈ blocks (n + 1) block stride pos, p < data.length) :
    pos + block ≤ data.length ∧ ∀ p ∈ blocks n block stride (pos + stride), p < data.length := by
  rw [blocks_succ] at h
  refine ⟨?_, fun p hp => h p (List.mem_append_right _ hp)⟩
  have hlast := h (pos + block - 1) (List.mem_append_left _ (List.mem_range'_1.mpr ⟨by omega, by omega⟩))
  omega

theorem exists_copyBlocks {n pos : Nat} (hblock : 0 < block)
    (h : ∀ p ∈ blocks n block stride pos, p < data.length) : ∃ out, copyBlocks data block stride n pos = some out := by
  induction n generalizing pos with
  | zero => exact ⟨[], rfl⟩
  | succ n ih =>
      obtain ⟨hfits, hrest⟩ := fits_of_blocks hblock h
      obtain ⟨out, hout⟩ := ih hrest
      rw [copyBlocks, if_pos hfits, hout]
      exact ⟨_, rfl⟩

theorem copyElements_reads {n pos : Nat} {retval : StatusCode} {copied out : List α}
    (h : copyElements copy data n pos (retval, copied) = some (good, out)) :
    retval = good ∧ ∃ more, out = copied ++ more ∧ Reads data (List.range' pos n) more := by
  induction n generalizing pos retval copied with
  | zero =>
      obtain ⟨rfl, rfl⟩ := Prod.mk.inj (Option.some.inj h)
      exact ⟨rfl, [], (List.append_nil _).symm, rfl⟩
  | succ n ih =>
      rw [copyElements] at h
      split at h
      · rename_i hbad
        exact absurd (Prod.mk.inj (Option.some.inj h)).1 hbad
      rename_i hgood
      split at h
      · cases h
      rename_i a ha
      obtain ⟨hcode, more, rfl, hmore⟩ := ih h
      refine ⟨not_not.mp hgood, a :: more, ?_, ?_⟩
      · rw [if_pos hcode, List.append_assoc]
        rfl
      · rw [Reads, List.range'_succ, List.map_cons, List.map_cons, ha, hmore]

theorem exists_copyElements (copy : Nat → StatusCode) {n pos : Nat} (x : StatusCode × List α)
    (h : pos + n ≤ data.length) :
    ∃ y, copyElements copy data n pos x = some y ∧ ((∀ k, copy k = good) → x.1 = good → y.1 = good) := by
  induction n generalizing pos x with
  | zero => exact ⟨x, rfl, fun _ hx => hx⟩
  | succ n ih =>
      obtain ⟨retval, copied⟩ := x
      rw [copyElements]
      split
      · exact ⟨_, rfl, fun _ hx => hx⟩
      rename_i hgood
      cases hget : data[pos]? with
      | none =>
          rw [List.getElem?_eq_none_iff] at hget
          omega
      | some a =>
          obtain ⟨y, hy, hstatus⟩ := ih (copy copied.length, if copy copied.length =
            good then copied ++ [a] else copied)
            (show pos + 1 + n ≤ data.length by omega)
          exact ⟨y, hy, fun hcopy _ => hstatus hcopy (hcopy _)⟩

theorem copyElementBlocks_reads {n pos : Nat} {retval : StatusCode} {copied out : List α}
    (h : copyElementBlocks copy data block stride n pos (retval, copied) = some (good, out)) :
    retval = good ∧ ∃ more, out = copied ++ more ∧ Reads data (blocks n block stride pos) more := by
  induction n generalizing pos retval copied with
  | zero =>
      obtain ⟨rfl, rfl⟩ := Prod.mk.inj (Option.some.inj h)
      exact ⟨rfl, [], (List.append_nil _).symm, rfl⟩
  | succ n ih =>
      rw [copyElementBlocks] at h
      obtain ⟨⟨retval', copied'⟩, hfirst, hrest⟩ := Option.bind_eq_some_iff.mp h
      obtain ⟨rfl, more, rfl, hmore⟩ := ih hrest
      obtain ⟨hretval, first, rfl, hreads⟩ := copyElements_reads hfirst
      refine ⟨hretval, first ++ more, List.append_assoc _ _ _, ?_⟩
      rw [blocks_succ]
      exact hreads.append hmore

theorem exists_copyElementBlocks (copy : Nat → StatusCode) {n pos : Nat} (x : StatusCode × List α) (hblock : 0 < block)
    (h : ∀ p ∈ blocks n block stride pos, p < data.length) :
    ∃ y, copyElementBlocks copy data block stride n pos x = some y ∧
      ((∀ k, copy k = good) → x.1 = good → y.1 = good) := by
  induction n generalizing pos x with
  | zero => exact ⟨x, rfl, fun _ hx => hx⟩
  | succ n ih =>
      obtain ⟨hfits, hrest⟩ := fits_of_blocks hblock h
      obtain ⟨y, hy, hstatus⟩ := exists_copyElements copy x hfits
      obtain ⟨z, hz, hstatus'⟩ := ih y hrest
      refine ⟨z, ?_, fun hcopy hx => hstatus' hcopy (hstatus hcopy hx)⟩
      rw [copyElementBlocks, hy]
      exact hz

end Loops

/-- All memory that is asked for is given, and every element can be copied. -/
def Copying.Succeeds (env : Copying) : Prop :=
  env.memory = true ∧ (∀ n, env.copy n = good) ∧ env.dimensions = true

def visited (r : Blocks) : List Nat :=
  blocks (r.total / r.block).toNat r.block.toNat r.stride.toNat r.first.toNat

/-- Dimensions that `UA_Array_new` gives. -/
def Dimensioned (v : Variant α) : Prop := 4 * v.arrayDimensions.length ≤ maxArraySize

instance (v : Variant α) : Decidable (Dimensioned v) := inferInstanceAs (Decidable (_ ≤ _))

theorem newDimensions_eq (env : Copying) (v : Variant α) :
    newDimensions env v.arrayDimensions.length = true ↔ Dimensioned v ∧ env.dimensions = true := by
  simp only [newDimensions, Dimensioned, Bool.and_eq_true, Bool.not_eq_true', Bool.or_eq_false_iff,
    decide_eq_false_iff_not,
    Nat.not_lt, gt_iff_lt]
  refine ⟨fun h => ⟨h.1.2, h.2⟩, fun h => ⟨⟨?_, h.1⟩, h.2⟩⟩
  have := h.1
  omega

theorem copyRange_ok {type : ElementType α} {env : Copying} {w : Variant α}
    (hr : processRangeDefinition v range = some (.ok r)) (h : copyRange type env v range = some (.ok w)) :
    Reads v.data (visited r) w.data ∧ w.arrayLength = r.total ∧
      (v.arrayDimensions = [] ∧ w.arrayDimensions = [] ∨
        v.arrayDimensions ≠ [] ∧ Dimensioned v ∧ w.arrayDimensions = extents range) := by
  rw [copyRange, hr] at h
  dsimp only at h
  split at h
  · cases h
  split at h
  · cases h
  split at h
  · cases h
  rename_i retval out hcopied
  split at h
  · cases h
  rename_i hgood
  obtain rfl : retval = good := not_not.mp hgood
  have hreads : Reads v.data (visited r) out := by
    split at hcopied
    · obtain ⟨out', hout, heq⟩ := Option.map_eq_some_iff.mp hcopied
      obtain rfl := (Prod.mk.inj heq).2
      exact copyBlocks_reads hout
    · obtain ⟨-, more, rfl, hmore⟩ := copyElementBlocks_reads hcopied
      exact hmore
  split at h
  · rename_i hplain
    obtain rfl := Except.ok.inj (Option.some.inj h)
    exact ⟨hreads, rfl, .inl ⟨List.eq_nil_of_length_eq_zero hplain, rfl⟩⟩
  rename_i hne
  split at h
  · cases h
  rename_i hnew
  obtain rfl := Except.ok.inj (Option.some.inj h)
  rw [Bool.not_eq_true', Bool.not_eq_false, newDimensions_eq] at hnew
  exact ⟨hreads, rfl, .inr ⟨fun hnil => hne (by rw [hnil]; rfl), hnew.1, rfl⟩⟩

/-- With all visited positions in the array something is copied or memory is
missing. -/
theorem copyRange_total (type : ElementType α) (env : Copying) (hr : processRangeDefinition v range = some (.ok r))
    (hblock : 0 < r.block.toNat) (hvisited : ∀ p ∈ visited r, p < v.data.length)
    (hdims : v.arrayDimensions = [] ∨ Dimensioned v) :
    (∃ w, copyRange type env v range = some (.ok w)) ∨
      ¬ Copying.Succeeds env ∧ ∃ code, copyRange type env v range = some (.error code) := by
  have hzero : r.block ≠ 0 := by
    rintro heq
    rw [heq] at hblock
    exact absurd hblock (Nat.lt_irrefl 0)
  rw [copyRange, hr]
  dsimp only
  by_cases hmemory : (!env.memory) = true
  · rw [if_pos hmemory]
    refine .inr ⟨fun hsucceeds => ?_, _, rfl⟩
    rw [hsucceeds.1] at hmemory
    cases hmemory
  rw [if_neg hmemory, if_neg hzero]
  have hcopied : ∃ y : StatusCode × List α,
      (if type.fixedSize = true then
        (copyBlocks v.data r.block.toNat r.stride.toNat (r.total / r.block).toNat r.first.toNat).map (good, ·)
      else copyElementBlocks env.copy v.data r.block.toNat r.stride.toNat (r.total / r.block).toNat r.first.toNat
        (good, [])) = some y ∧ ((∀ k, env.copy k = good) → y.1 = good) := by
    split
    · obtain ⟨out, hout⟩ := exists_copyBlocks hblock hvisited
      exact ⟨(good, out), by rw [hout]; rfl, fun _ => rfl⟩
    · obtain ⟨y, hy, hstatus⟩ := exists_copyElementBlocks env.copy (good, []) hblock hvisited
      exact ⟨y, hy, fun hcopy => hstatus hcopy rfl⟩
  obtain ⟨⟨retval, out⟩, hy, hstatus⟩ := hcopied
  rw [hy]
  dsimp only
  by_cases hretval : retval ≠ good
  · rw [if_pos hretval]
    exact .inr ⟨fun hsucceeds => hretval (hstatus hsucceeds.2.1), _, rfl⟩
  rw [if_neg hretval]
  by_cases hplain : v.arrayDimensions.length = 0
  · rw [if_pos hplain]
    exact .inl ⟨_, rfl⟩
  rw [if_neg hplain]
  have hlimit := hdims.resolve_left (fun hnil => hplain (by rw [hnil]; rfl))
  by_cases hnew : (!newDimensions env v.arrayDimensions.length) = true
  · rw [if_pos hnew]
    refine .inr ⟨fun hsucceeds => ?_, _, rfl⟩
    rw [(newDimensions_eq env v).mpr ⟨hlimit, hsucceeds.2.2⟩] at hnew
    cases hnew
  · rw [if_neg hnew]
    exact .inl ⟨_, rfl⟩

section Shapes

/-- One element, or dimensions that can be described by blocks at equal
distances: outside of the innermost dimension that is selected in part, what
is selected lies side by side. -/
def Reducible (axes : List Axis) : Prop :=
  volume axes = 1 ∨ ∃ outer a inner, axes = outer ++ a :: inner ∧ a.whole = false ∧
    (∀ x ∈ inner, x.whole = true) ∧ Contiguous outer

theorem split_unique {outer outer' inner inner' : List Axis} {a a' : Axis} (ha : a.whole = false)
    (ha' : a'.whole = false) (hinner : ∀ x ∈ inner, x.whole = true) (hinner' : ∀ x ∈ inner', x.whole = true)
    (h : outer ++ a :: inner = outer' ++ a' :: inner') : outer = outer' := by
  rcases List.append_eq_append_iff.mp h with ⟨t, rfl, ht⟩ | ⟨t, rfl, ht⟩
  · cases t with
    | nil => rw [List.append_nil]
    | cons x t =>
        have hmem : a' ∈ inner := by
          rw [(List.cons.inj ht).2]
          exact List.mem_append_right _ (List.mem_cons_self ..)
        rw [hinner a' hmem] at ha'
        cases ha'
  · cases t with
    | nil => rw [List.append_nil]
    | cons x t =>
        have hmem : a ∈ inner' := by
          rw [(List.cons.inj ht).2]
          exact List.mem_append_right _ (List.mem_cons_self ..)
        rw [hinner' a hmem] at ha
        cases ha

theorem visited_eq (r : Blocks) :
    visited r = blocks (r.total.toNat / r.block.toNat) r.block.toNat r.stride.toNat r.first.toNat := by
  rw [visited, UInt64.toNat_div]

theorem visited_whole {elements : Nat} (h : Reduced elements axes r) (hall : axes.all Axis.whole = true) :
    visited r = blocks (volume axes) 1 elements 0 := by
  obtain ⟨hblock, hstride⟩ := h.whole hall
  have hwhole := List.all_eq_true.mp hall
  rw [visited_eq, hblock, hstride, h.total, h.first, count_of_whole hwhole, origin_of_whole hwhole, Nat.div_one]

theorem visited_split {elements : Nat} (h : Reduced elements axes r) (hall : axes.all Axis.whole = false) :
    ∃ outer a inner, axes = outer ++ a :: inner ∧ a.whole = false ∧ (∀ x ∈ inner, x.whole = true) ∧
      visited r = positions (collapse outer :: a :: inner) := by
  obtain ⟨outer, a, inner, rfl, ha, hinner, hblock, hstride⟩ := h.split hall
  have hpos : 0 < r.block.toNat := by
    rw [hblock]
    exact Nat.mul_pos a.extent_pos (volume_pos inner)
  have hrows : r.total.toNat / r.block.toNat = count outer := by
    rw [h.total, count_append, count_cons, count_of_whole hinner, ← hblock, Nat.mul_div_cancel _ hpos]
  refine ⟨outer, a, inner, rfl, ha, hinner, ?_⟩
  rw [visited_eq, hrows, hblock, hstride, h.first, blocks_eq_positions hinner]

theorem block_pos {elements : Nat} (h : Reduced elements axes r) : 0 < r.block.toNat := by
  cases hall : axes.all Axis.whole with
  | true =>
      rw [(h.whole hall).1]
      exact Nat.one_pos
  | false =>
      obtain ⟨outer, a, inner, rfl, -, -, hblock, -⟩ := h.split hall
      rw [hblock]
      exact Nat.mul_pos a.extent_pos (volume_pos inner)

/-- With dimensions, the visited positions are the selected ones if and only
if the selection is reducible. -/
theorem visited_iff (h : Reduced (volume axes) axes r) :
    (∀ p ∈ visited r, p < volume axes) ∧ visited r = positions axes ↔ Reducible axes := by
  cases hall : axes.all Axis.whole with
  | true =>
      have hwhole := List.all_eq_true.mp hall
      rw [visited_whole h hall, positions_of_whole hwhole]
      constructor
      · intro hvisited
        left
        by_contra hne
        have hpos := volume_pos axes
        have hlt := hvisited.1 (volume axes) (mem_blocks.mpr ⟨1, 0, by omega, Nat.one_pos, by omega⟩)
        exact Nat.lt_irrefl _ hlt
      · rintro (hone | ⟨outer, a, inner, rfl, ha, -⟩)
        · rw [hone, blocks_single]
          exact ⟨fun p hp => List.mem_range.mp hp, rfl⟩
        · rw [hwhole a (by simp)] at ha
          cases ha
  | false =>
      obtain ⟨outer, a, inner, rfl, ha, hinner, hvisited⟩ := visited_split h hall
      rw [hvisited]
      constructor
      · intro heq
        exact .inr ⟨outer, a, inner, rfl, ha, hinner, (positions_collapse_iff _ _).mp heq.2⟩
      · rintro (hone | ⟨outer', a', inner', heq, ha', hinner', hcontiguous⟩)
        · have hcount : count (outer ++ a :: inner) = volume (outer ++ a :: inner) := by
            have hpos := count_pos (outer ++ a :: inner)
            have hle := count_le_volume (outer ++ a :: inner)
            omega
          rw [whole_of_count hcount a (by simp)] at ha
          cases ha
        · obtain rfl := split_unique ha ha' hinner hinner' heq
          refine ⟨fun p hp => ?_, (positions_collapse_iff _ _).mpr hcontiguous⟩
          rw [← volume_collapse]
          exact lt_volume_of_mem hp

theorem visited_of_plain {a : Axis} (h : Reduced 1 [a] r) : visited r = positions [a] := by
  cases hall : [a].all Axis.whole with
  | true => rw [visited_whole h hall, blocks_single, positions_of_whole (List.all_eq_true.mp hall)]
  | false =>
      obtain ⟨outer, a', inner, heq, -, -, hvisited⟩ := visited_split h hall
      cases outer with
      | nil => rw [hvisited, heq, (positions_collapse_iff [] _).mpr trivial, List.nil_append]
      | cons x outer =>
          have hnil := (List.cons.inj heq).2
          cases outer <;> cases hnil

end Shapes

section Correctness

def dimensions (v : Variant α) : List Nat :=
  if v.arrayDimensions = [] then [v.arrayLength.toNat] else v.arrayDimensions.map UInt32.toNat

def Consistent (v : Variant α) : Prop :=
  v.arrayDimensions = [] ∨ (v.arrayDimensions.map UInt32.toNat).prod = v.arrayLength.toNat

/-- The selected elements in row-major order, with the extents as dimensions
if the array has dimensions. -/
structure IsRange (v : Variant α) (axes : List Axis) (w : Variant α) : Prop where
  data : Reads v.data (positions axes) w.data
  arrayLength : w.arrayLength.toNat = count axes
  arrayDimensions : w.arrayDimensions.map UInt32.toNat =
    if v.arrayDimensions = [] then [] else axes.map Axis.extent

/-- `UA_Variant_copyRange` copies the hyper-rectangle unless memory is missing. -/
def Copies (type : ElementType α) (v : Variant α) (range : NumericRange) : Prop :=
  ∃ axes, Selects (dimensions v) range axes ∧ ∀ env : Copying,
    (∃ w, copyRange type env v range = some (.ok w) ∧ IsRange v axes w) ∨
      ¬ Copying.Succeeds env ∧ ∃ code, copyRange type env v range = some (.error code)

/-- There are no dimensions, or not more than `UA_Array_new` gives and a
selection that can be described by blocks. -/
def Reduces (v : Variant α) (range : NumericRange) : Prop :=
  v.arrayDimensions = [] ∨ Dimensioned v ∧ ∃ axes, Selects (dimensions v) range axes ∧ Reducible axes

theorem extents_eq {dims : List UInt32} (h : Selects (dims.map UInt32.toNat) range axes) :
    (extents range).map UInt32.toNat = axes.map Axis.extent := by
  induction dims generalizing range axes with
  | nil =>
      obtain ⟨rfl, rfl⟩ := h.nil_left
      rfl
  | cons d dims ih =>
      cases range with
      | nil => cases h.length_eq
      | cons r range =>
          obtain ⟨a, rest, rfl, hdim, hfirst, hlast, hrest⟩ := h.cons
          have hd : a.dim < 2 ^ 32 := by
            rw [hdim]
            exact d.toNat_lt
          have hrest' := ih hrest
          rw [extents] at hrest' ⊢
          rw [List.map_cons, List.map_cons, List.map_cons, extent_toNat hfirst hlast hd, hrest']

theorem accepted_plain (hplain : v.arrayDimensions = []) (hr : processRangeDefinition v range = some (.ok r)) :
    ∃ axes, Selects (dimensions v) range axes ∧ r.total.toNat = count axes ∧ visited r = positions axes ∧
      0 < r.block.toNat ∧ ∀ p ∈ visited r, p < v.arrayLength.toNat := by
  obtain ⟨axes, haxes, hreduced, hvolume⟩ := reduced_of_exact (.inl hplain) hr
  rw [elements_of_plain hplain] at hreduced
  have hdims : (dims v).map UInt32.toNat = [v.arrayLength.toUInt32.toNat] := by
    rw [dims, hplain]
    rfl
  rw [hdims] at haxes
  cases range with
  | nil => cases haxes.length_eq
  | cons d range =>
      obtain ⟨a, rest, rfl, hdim, hfirst, hlast, hrest⟩ := haxes.cons
      obtain ⟨rfl, rfl⟩ := hrest.nil_left
      rw [volume_cons, volume_nil, Nat.mul_one] at hvolume
      let a' : Axis := ⟨v.arrayLength.toNat, a.first, a.extent, a.extent_pos, a.fits.trans hvolume⟩
      have hpositions : positions [a'] = positions [a] := by
        rw [positions_singleton, positions_singleton]
      have hdims' : dimensions v = [v.arrayLength.toNat] := by
        rw [dimensions, if_pos hplain]
      refine ⟨[a'], ⟨hdims'.symm, haxes.first_eq, haxes.last_eq⟩, hreduced.total, ?_, block_pos hreduced, ?_⟩
      · rw [hpositions, visited_of_plain hreduced]
      · intro p hp
        rw [visited_of_plain hreduced] at hp
        have hlt := lt_volume_of_mem hp
        rw [volume_cons, volume_nil, Nat.mul_one] at hlt
        exact hlt.trans_le hvolume

theorem Dimensioned.length_lt (h : Dimensioned v) : v.arrayDimensions.length < 2 ^ 32 := by
  rw [Dimensioned, maxArraySize] at h
  omega

theorem dims_of_length_lt (hne : v.arrayDimensions ≠ []) (hlt : v.arrayDimensions.length < 2 ^ 32) :
    dims v = v.arrayDimensions := by
  have hpos := List.length_pos_iff.mpr hne
  rw [dims, if_pos hpos, dimsCount, if_pos hpos, UInt32.toNat_ofNat_of_lt' hlt, List.take_length]

theorem accepted_dimensioned (hne : v.arrayDimensions ≠ []) (hlt : v.arrayDimensions.length < 2 ^ 32)
    (hconsistent : Consistent v)
    (hr : processRangeDefinition v range = some (.ok r)) :
    ∃ axes, Selects (dimensions v) range axes ∧ (extents range).map UInt32.toNat = axes.map Axis.extent ∧
      Reduced (volume axes) axes r ∧ volume axes = v.arrayLength.toNat := by
  have hdims := dims_of_length_lt hne hlt
  have hprod := hconsistent.resolve_left hne
  have hexact : Exact v := .inr (by rw [hdims]; exact hprod)
  obtain ⟨axes, haxes, hreduced, -⟩ := reduced_of_exact hexact hr
  have helements : (elements v).toNat = v.arrayLength.toNat := by
    rw [← UInt32.toNat_toUInt64, (processRangeDefinition_ok hr).1 (List.length_pos_iff.mpr hne)]
  have hvolume : volume axes = v.arrayLength.toNat := by
    rw [haxes.volume_eq, hdims, hprod]
  have hspec : dimensions v = (dims v).map UInt32.toNat := by
    rw [dimensions, if_neg hne, hdims]
  rw [helements, ← hvolume] at hreduced
  refine ⟨axes, ?_, extents_eq haxes, hreduced, hvolume⟩
  rw [hspec]
  exact haxes

theorem copies_of_visited (type : ElementType α) (hr : processRangeDefinition v range = some (.ok r))
    (haxes : Selects (dimensions v) range axes) (hblock : 0 < r.block.toNat) (htotal : r.total.toNat = count axes)
    (hvisited : visited r = positions axes) (hlt : ∀ p ∈ visited r, p < v.data.length)
    (hdims : v.arrayDimensions = [] ∨
      Dimensioned v ∧ (extents range).map UInt32.toNat = axes.map Axis.extent) : Copies type v range := by
  refine ⟨axes, haxes, fun env => ?_⟩
  rcases copyRange_total type env hr hblock hlt (hdims.imp id And.left) with ⟨w, hw⟩ | herror
  · refine .inl ⟨w, hw, ?_⟩
    obtain ⟨hreads, hlength, hwdims⟩ := copyRange_ok hr hw
    rw [hvisited] at hreads
    refine ⟨hreads, by rw [hlength, htotal], ?_⟩
    rcases hwdims with ⟨hplain, hnil⟩ | ⟨hne, -, hextents⟩
    · rw [if_pos hplain, hnil]
      rfl
    · rw [if_neg hne, hextents, (hdims.resolve_left hne).2]
  · exact .inr herror

def unlimited : Copying := ⟨true, fun _ => good, true⟩

theorem succeeds_unlimited : Copying.Succeeds unlimited := ⟨rfl, fun _ => rfl, rfl⟩

theorem copies_of_reduces (type : ElementType α) (hconsistent : Consistent v)
    (hdata : v.data.length = v.arrayLength.toNat)
    (hr : processRangeDefinition v range = some (.ok r)) (h : Reduces v range) : Copies type v range := by
  by_cases hplain : v.arrayDimensions = []
  · obtain ⟨axes, haxes, htotal, hvisited, hblock, hlt⟩ := accepted_plain hplain hr
    exact copies_of_visited type hr haxes hblock htotal hvisited (fun p hp => by rw [hdata]; exact hlt p hp)
      (.inl hplain)
  · obtain ⟨hlimit, axes', haxes', hreducible⟩ := h.resolve_left hplain
    obtain ⟨axes, haxes, hextents, hreduced, hvolume⟩ := accepted_dimensioned hplain hlimit.length_lt hconsistent hr
    obtain rfl := haxes.unique haxes'
    obtain ⟨hlt, hvisited⟩ := (visited_iff hreduced).mpr hreducible
    refine copies_of_visited type hr haxes (block_pos hreduced) hreduced.total hvisited (fun p hp => ?_)
      (.inr ⟨hlimit, hextents⟩)
    rw [hdata, ← hvolume]
    exact hlt p hp

/-- The hyper-rectangle is copied from every array of the given shape if and
only if the shape and the range can be described by blocks. -/
theorem copyRange_copies_iff [Nontrivial α] (type : ElementType α) (v : Variant α) (range : NumericRange) (r : Blocks)
    (hconsistent : Consistent v) (hr : processRangeDefinition v range = some (.ok r)) :
    (∀ data : List α, data.length = v.arrayLength.toNat → Copies type { v with data := data } range) ↔
      Reduces v range := by
  constructor
  · intro h
    by_cases hplain : v.arrayDimensions = []
    · exact .inl hplain
    have hcopied : ∀ data : List α, data.length = v.arrayLength.toNat → ∃ axes w,
        Selects (dimensions v) range axes ∧ Dimensioned v ∧ Reads data (visited r) w.data ∧
          Reads data (positions axes) (w : Variant α).data := by
      intro data hdata
      obtain ⟨axes, haxes, henv⟩ := h data hdata
      obtain ⟨w, hw, hrange⟩ := (henv unlimited).resolve_right (fun hfails => hfails.1 succeeds_unlimited)
      have hr' : processRangeDefinition { v with data := data } range = some (.ok r) := hr
      obtain ⟨hreads, -, hdims⟩ := copyRange_ok hr' hw
      exact ⟨axes, w, haxes, (hdims.resolve_left (fun hnil => hplain hnil.1)).2.1, hreads, hrange.data⟩
    obtain ⟨x, -⟩ := exists_pair_ne α
    obtain ⟨_, w, _, hlimit, hreads, _⟩ := hcopied (List.replicate v.arrayLength.toNat x) (List.length_replicate ..)
    obtain ⟨axes, haxes, hextents, hreduced, hvolume⟩ := accepted_dimensioned hplain hlimit.length_lt hconsistent hr
    have hlt : ∀ p ∈ visited r, p < volume axes := by
      intro p hp
      have hbound := hreads.lt hp
      rw [List.length_replicate, ← hvolume] at hbound
      exact hbound
    refine .inr ⟨hlimit, axes, haxes, (visited_iff hreduced).mp ⟨hlt, ?_⟩⟩
    refine eq_of_lookups hlt (fun p hp => lt_volume_of_mem hp) (fun (data : List α) hdata => ?_)
    obtain ⟨axes', w', haxes', -, hvisited, hselected⟩ := hcopied data (hdata.trans hvolume)
    obtain rfl := haxes.unique haxes'
    exact hvisited.trans hselected.symm
  · intro h data hdata
    have hr' : processRangeDefinition { v with data := data } range = some (.ok r) := hr
    exact copies_of_reduces type hconsistent hdata hr' h

def sampleType : ElementType Nat := ⟨true, 0⟩

/-- Two rows of three, of which the last two columns are selected. -/
theorem copyRange_copies_sample :
    Copies sampleType ⟨[0, 1, 2, 3, 4, 5], 6, [2, 3]⟩ [⟨0, 1⟩, ⟨1, 2⟩] :=
  (copyRange_copies_iff sampleType ⟨[], 6, [2, 3]⟩ [⟨0, 1⟩, ⟨1, 2⟩] ⟨4, 2, 3, 1⟩ (.inr rfl) (by decide)).mpr
    (.inr ⟨by decide, [⟨2, 0, 2, by decide, by decide⟩, ⟨3, 1, 2, by decide, by decide⟩], ⟨rfl, rfl, rfl⟩,
      .inr ⟨[⟨2, 0, 2, by decide, by decide⟩], ⟨3, 1, 2, by decide, by decide⟩, [], rfl, rfl, by decide, by decide⟩⟩)
    [0, 1, 2, 3, 4, 5] rfl

/-- Of an array of 2 by 3 by 2 elements the range selects 0, 2, 6 and 8, but
0, 2, 4 and 6 are copied. An array of three elements with one dimension
cannot be copied as a whole. -/
theorem copyRange_copies_other_elements :
    (∃ w, copyRange sampleType unlimited ⟨[0, 1, 2, 3, 4, 5, 6, 7, 8, 9, 10, 11], 12, [2, 3, 2]⟩
        [⟨0, 1⟩, ⟨0, 1⟩, ⟨0, 0⟩] = some (.ok w) ∧ w.data = [0, 2, 4, 6]) ∧
      ¬ Copies sampleType ⟨[0, 1, 2, 3, 4, 5, 6, 7, 8, 9, 10, 11], 12, [2, 3, 2]⟩ [⟨0, 1⟩, ⟨0, 1⟩, ⟨0, 0⟩] ∧
      (∃ r, processRangeDefinition (⟨[0, 1, 2], 3, [3]⟩ : Variant Nat) [⟨0, 2⟩] = some (.ok r)) ∧
      ¬ Copies sampleType ⟨[0, 1, 2], 3, [3]⟩ [⟨0, 2⟩] := by
  have hcopy : copyRange sampleType unlimited ⟨[0, 1, 2, 3, 4, 5, 6, 7, 8, 9, 10, 11], 12, [2, 3, 2]⟩
      [⟨0, 1⟩, ⟨0, 1⟩, ⟨0, 0⟩] = some (.ok ⟨[0, 2, 4, 6], 4, [2, 2, 1]⟩) := rfl
  have hundefined : copyRange sampleType unlimited ⟨[0, 1, 2], 3, [3]⟩ [⟨0, 2⟩] = none := rfl
  refine ⟨⟨_, hcopy, rfl⟩, ?_, ⟨⟨3, 1, 3, 0⟩, rfl⟩, ?_⟩
  · rintro ⟨axes, haxes, henv⟩
    obtain ⟨w, hw, hrange⟩ := (henv unlimited).resolve_right (fun hfails => hfails.1 succeeds_unlimited)
    have hexpected : Selects [2, 3, 2] [⟨0, 1⟩, ⟨0, 1⟩, ⟨0, 0⟩] [⟨2, 0, 2, by decide, by decide⟩,
        ⟨3, 0, 2, by decide, by decide⟩, ⟨2, 0, 1, by decide, by decide⟩] := ⟨rfl, rfl, rfl⟩
    obtain rfl := Selects.unique haxes hexpected
    rw [hcopy] at hw
    obtain rfl := Except.ok.inj (Option.some.inj hw)
    have hreads := hrange.data
    rw [Reads] at hreads
    exact absurd hreads (by decide)
  · rintro ⟨axes, haxes, henv⟩
    obtain ⟨w, hw, -⟩ := (henv unlimited).resolve_right (fun hfails => hfails.1 succeeds_unlimited)
    rw [hundefined] at hw
    cases hw

end Correctness

end OpcUa.RangeCopies
