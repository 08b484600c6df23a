import OpcUa.RangeCopies

namespace OpcUa.RangeWrites

open StatusCodes Buffers RowMajor VariantRanges RangeReduction RangeBounds Gathering RangeCopies

variable {α : Type} {data array : List α} {v : Variant α} {range : NumericRange} {r : Blocks} {axes : List Axis}

section Loops

variable {type : ElementType α} {copy : Nat → StatusCode} {block stride : Nat}

theorem length_blocks (rows block stride first : Nat) : (blocks rows block stride first).length = rows * block := by
  induction rows generalizing first with
  | zero => rw [Nat.zero_mul]; rfl
  | succ rows ih => rw [blocks_succ, List.length_append, List.length_range', ih, Nat.succ_mul, Nat.add_comm]

theorem writeBlocks_eq {n pos : Nat} (hblock : 0 < block) (hlength : array.length = n * block)
    (h : ∀ p ∈ blocks n block stride pos, p < data.length) :
    writeBlocks block stride n pos array data = some (scatter (blocks n block stride pos) array data) := by
  induction n generalizing pos array data with
  | zero => rfl
  | succ n ih =>
      obtain ⟨hfits, hrest⟩ := fits_of_blocks hblock h
      rw [Nat.succ_mul] at hlength
      have htake : (array.take block).length = block := by
        rw [List.length_take]
        omega
      have hfirst : overwrite data pos (array.take block) =
          scatter (List.range' pos block) (array.take block) data := by
        rw [← scatter_range' (by rw [htake]; exact hfits), htake]
      have hdrop : (array.drop block).length = n * block := by
        rw [List.length_drop]
        omega
      rw [writeBlocks, if_pos ⟨hfits, by omega⟩, hfirst,
        ih hdrop (fun p hp => by rw [length_scatter]; exact hrest p hp), blocks_succ,
        ← scatter_append _ _ _ _ _ (by rw [List.length_range', htake]), List.take_append_drop]

theorem lt_of_writeBlocks {n pos : Nat} {data' : List α} (h : writeBlocks block stride n pos array data = some data') :
    ∀ p ∈ blocks n block stride pos, p < data.length := by
  induction n generalizing pos array data with
  | zero => exact fun p hp => by cases hp
  | succ n ih =>
      rw [writeBlocks] at h
      split at h
      · rename_i hfits
        intro p hp
        rw [blocks_succ, List.mem_append] at hp
        rcases hp with hp | hp
        · have := List.mem_range'_1.mp hp
          omega
        · have hlt := ih h p hp
          rw [length_overwrite] at hlt
          exact hlt
      · cases h

/-- What arrives in the array of the copies of some elements. -/
def received (type : ElementType α) (copy : Nat → StatusCode) (calls : Nat) (array : List α) : List α :=
  (array.zipIdx calls).map (fun x => if copy x.2 = good then x.1 else type.zero)

theorem received_of_good {calls : Nat} (h : ∀ k, calls ≤ k → k < calls + array.length → copy k = good) :
    received type copy calls array = array := by
  induction array generalizing calls with
  | nil => rfl
  | cons a array ih =>
      rw [List.length_cons] at h
      have hrest : received type copy (calls + 1) array = array := ih (fun k hle hlt => h k (by omega) (by omega))
      rw [received] at hrest ⊢
      rw [List.zipIdx_cons, List.map_cons, if_pos (h calls (le_refl _) (by omega)), hrest]

theorem length_received (calls : Nat) (array : List α) : (received type copy calls array).length = array.length := by
  rw [received, List.length_map, List.length_zipIdx]

/-- `n` elements have been copied to the given positions. -/
structure Written (type : ElementType α) (copy : Nat → StatusCode) (n : Nat) (ps : List Nat) (x y : Writing α) :
    Prop where
  calls : y.calls = x.calls + n
  array : y.array = x.array.drop n
  data : y.data = scatter ps (received type copy x.calls (x.array.take n)) x.data
  retval : y.retval = good ↔ x.retval = good ∧ ∀ k, x.calls ≤ k → k < x.calls + n → copy k = good

theorem Written.refl (x : Writing α) : Written type copy 0 [] x x :=
  ⟨rfl, rfl, rfl, ⟨fun h => ⟨h, fun k hle hlt => by omega⟩, And.left⟩⟩

theorem Written.trans {n m : Nat} {ps qs : List Nat} {x y z : Writing α} (h : Written type copy n ps x y)
    (h' : Written type copy m qs y z) (hps : ps.length = n) (hn : n ≤ x.array.length) :
    Written type copy (n + m) (ps ++ qs) x z := by
  have htake : (x.array.take n).length = n := by
    rw [List.length_take]
    omega
  refine ⟨?_, ?_, ?_, ?_⟩
  · rw [h'.calls, h.calls, Nat.add_assoc]
  · rw [h'.array, h.array, List.drop_drop]
  · have hsplit : received type copy x.calls (x.array.take (n + m)) =
        received type copy x.calls (x.array.take n) ++ received type copy y.calls (y.array.take m) := by
      rw [received, received, received, List.take_add, List.zipIdx_append, List.map_append, htake, h.calls, h.array]
    rw [h'.data, h.data, hsplit, scatter_append _ _ _ _ _ (by rw [hps, length_received, htake])]
  · rw [h'.retval, h.retval, h.calls]
    constructor
    · rintro ⟨⟨hx, hfirst⟩, hsecond⟩
      refine ⟨hx, fun k hle hlt => ?_⟩
      by_cases hk : k < x.calls + n
      · exact hfirst k hle hk
      · exact hsecond k (by omega) (by omega)
    · rintro ⟨hx, hall⟩
      exact ⟨⟨hx, fun k hle hlt => hall k hle (by omega)⟩, fun k hle hlt => hall k (by omega) (by omega)⟩

theorem written_step {pos : Nat} {x : Writing α} {a : α} {rest : List α} (harray : x.array = a :: rest) :
    Written type copy 1 [pos] x ⟨x.retval ||| copy x.calls, x.calls + 1, rest,
      x.data.set pos (if copy x.calls = good then a else type.zero)⟩ := by
  refine ⟨rfl, ?_, ?_, ?_⟩
  · rw [harray]
    rfl
  · rw [harray]
    rfl
  · rw [or_eq_good]
    refine and_congr_right (fun _ => ⟨fun hcode k hle hlt => ?_, fun hall => hall _ (le_refl _) (by omega)⟩)
    obtain rfl : k = x.calls := by omega
    exact hcode

theorem writeElements_written (type : ElementType α) (copy : Nat → StatusCode) {n : Nat} (pos : Nat) (x : Writing α)
    (hn : n ≤ x.array.length) (h : pos + n ≤ x.data.length) :
    ∃ y, writeElements type copy n pos x = some y ∧ Written type copy n (List.range' pos n) x y := by
  induction n generalizing pos x with
  | zero => exact ⟨x, rfl, Written.refl x⟩
  | succ n ih =>
      cases harray : x.array with
      | nil =>
          rw [harray] at hn
          cases hn
      | cons a rest =>
          have hstep : Written type copy 1 [pos] x _ := written_step harray
          rw [harray, List.length_cons] at hn
          obtain ⟨y, hy, hwritten⟩ := ih (pos + 1)
            ⟨x.retval ||| copy x.calls, x.calls + 1, rest,
              x.data.set pos (if copy x.calls = good then a else type.zero)⟩
            (show n ≤ rest.length by omega) (by rw [List.length_set]; omega)
          refine ⟨y, ?_, ?_⟩
          · rw [writeElements, harray]
            dsimp only
            rw [if_pos (show pos < x.data.length by omega)]
            exact hy
          · have hboth := hstep.trans hwritten rfl (by rw [harray, List.length_cons]; omega)
            rw [Nat.add_comm 1 n] at hboth
            exact hboth

theorem writeElementBlocks_written (type : ElementType α) (copy : Nat → StatusCode) {n : Nat} (pos : Nat)
    (x : Writing α) (hblock : 0 < block) (hn : n * block ≤ x.array.length)
    (h : ∀ p ∈ blocks n block stride pos, p < x.data.length) :
    ∃ y, writeElementBlocks type copy block stride n pos x = some y ∧
      Written type copy (n * block) (blocks n block stride pos) x y := by
  induction n generalizing pos x with
  | zero =>
      refine ⟨x, rfl, ?_⟩
      rw [Nat.zero_mul]
      exact Written.refl x
  | succ n ih =>
      obtain ⟨hfits, hrest⟩ := fits_of_blocks hblock h
      rw [Nat.succ_mul] at hn
      obtain ⟨y, hy, hfirst⟩ := writeElements_written type copy pos x (show block ≤ x.array.length by omega) hfits
      have hlength : y.data.length = x.data.length := by rw [hfirst.data, length_scatter]
      obtain ⟨z, hz, hsecond⟩ := ih (pos + stride) y
        (by rw [hfirst.array, List.length_drop]; omega) (fun p hp => by rw [hlength]; exact hrest p hp)
      refine ⟨z, ?_, ?_⟩
      · rw [writeElementBlocks, hy]
        exact hz
      · have hboth := hfirst.trans hsecond List.length_range' (by omega)
        rw [blocks_succ, Nat.succ_mul, Nat.add_comm (n * block)]
        exact hboth

end Loops

section Rejections

theorem testRange_error {count : UInt64} {l : List (RangeDimension × UInt32)} {code : StatusCode}
    (h : testRange count l = .error code) : code ≠ good := by
  induction l generalizing count with
  | nil => cases h
  | cons d l ih =>
      rw [testRange] at h
      split at h
      · obtain rfl := Except.error.inj h
        decide
      split at h
      · obtain rfl := Except.error.inj h
        decide
      · exact ih h

theorem processRangeDefinition_error {code : StatusCode} (h : processRangeDefinition v range = some (.error code)) :
    code ≠ good := by
  rw [processRangeDefinition] at h
  split at h
  · obtain rfl := Except.error.inj (Option.some.inj h)
    decide
  split at h
  · obtain rfl := Except.error.inj (Option.some.inj h)
    decide
  split at h
  · rename_i htest
    obtain rfl := Except.error.inj (Option.some.inj h)
    exact testRange_error htest
  split at h
  · cases h
  · cases h

end Rejections

section Correctness

theorem length_visited {elements : Nat} (h : Reduced elements axes r) : (visited r).length = r.total.toNat := by
  cases hall : axes.all Axis.whole with
  | true =>
      rw [visited_whole h hall, length_blocks, Nat.mul_one, h.total, count_of_whole (List.all_eq_true.mp hall)]
  | false =>
      obtain ⟨outer, a, inner, rfl, -, -, hvisited⟩ := visited_split h hall
      rw [hvisited, length_positions, count_collapse, h.total]

/-- The given elements are in the range, the others are as they were, and
reading the range gives the elements. -/
structure Holds (type : ElementType α) (v : Variant α) (range : NumericRange) (axes : List Axis)
    (array data' : List α) : Prop where
  stored : Stored (positions axes) array v.data data'
  copied : ∀ env, Copying.Succeeds env →
    ∃ w, copyRange type env { v with data := data' } range = some (.ok w) ∧ w.data = array

/-- Both functions store the elements in the hyper-rectangle. In the place of
an element that `UA_copy` fails to copy there is another one, and the status
says so. -/
def Writes (type : ElementType α) (v : Variant α) (array : List α) (range : NumericRange) : Prop :=
  ∃ axes, Selects (dimensions v) range axes ∧
    (∃ data', setRange v array range = some (good, { v with data := data' }) ∧ Holds type v range axes array data') ∧
    ∀ copy, ∃ retval stored data', setRangeCopy type copy v array range = some (retval, { v with data := data' }) ∧
      Holds type v range axes stored data' ∧ (retval = good → stored = array) ∧
        (type.fixedSize = true ∨ (∀ k, copy k = good) → retval = good)

variable {type : ElementType α}

theorem block_ne_zero (h : 0 < r.block.toNat) : r.block ≠ 0 := by
  intro hzero
  rw [hzero] at h
  exact absurd h (Nat.lt_irrefl 0)

theorem setRange_eq (hr : processRangeDefinition v range = some (.ok r)) (hlength : array.length = r.total.toNat)
    (hblock : 0 < r.block.toNat) (hvisited : (visited r).length = r.total.toNat)
    (hlt : ∀ p ∈ visited r, p < v.data.length) :
    setRange v array range = some (good, { v with data := scatter (visited r) array v.data }) := by
  have hrows : array.length = (r.total / r.block).toNat * r.block.toNat := by
    rw [hlength, ← hvisited, visited, length_blocks]
  rw [setRange, hr]
  dsimp only
  rw [if_neg (by rw [hlength]; simp), if_neg (block_ne_zero hblock), writeBlocks_eq hblock hrows hlt]
  rfl

theorem lt_of_setRange {v' : Variant α} (hr : processRangeDefinition v range = some (.ok r))
    (h : setRange v array range = some (good, v')) : ∀ p ∈ visited r, p < v.data.length := by
  rw [setRange, hr] at h
  dsimp only at h
  split at h
  · have hbad := (Prod.mk.inj (Option.some.inj h)).1
    exact absurd hbad (by decide)
  split at h
  · cases h
  obtain ⟨data', hdata', -⟩ := Option.map_eq_some_iff.mp h
  exact lt_of_writeBlocks hdata'

theorem setRangeCopy_eq (type : ElementType α) (copy : Nat → StatusCode)
    (hr : processRangeDefinition v range = some (.ok r)) (hlength : array.length = r.total.toNat)
    (hblock : 0 < r.block.toNat) (hvisited : (visited r).length = r.total.toNat)
    (hlt : ∀ p ∈ visited r, p < v.data.length) :
    ∃ retval stored, setRangeCopy type copy v array range =
        some (retval, { v with data := scatter (visited r) stored v.data }) ∧ stored.length = array.length ∧
      (retval = good → stored = array) ∧ (type.fixedSize = true ∨ (∀ k, copy k = good) → retval = good) := by
  have hrows : array.length = (r.total / r.block).toNat * r.block.toNat := by
    rw [hlength, ← hvisited, visited, length_blocks]
  rw [setRangeCopy, hr]
  dsimp only
  rw [if_neg (by rw [hlength]; simp), if_neg (block_ne_zero hblock)]
  by_cases hfixed : type.fixedSize = true
  · refine ⟨good, array, ?_, rfl, fun _ => rfl, fun _ => rfl⟩
    rw [if_pos hfixed, writeBlocks_eq hblock hrows hlt]
    rfl
  · obtain ⟨y, hy, hwritten⟩ := writeElementBlocks_written type copy r.first.toNat ⟨good, 0, array, v.data⟩ hblock
      (le_of_eq hrows.symm) hlt
    have hdata : y.data = scatter (visited r) (received type copy 0 array) v.data := by
      rw [hwritten.data, ← hrows, List.take_length]
      rfl
    refine ⟨y.retval, received type copy 0 array, ?_, length_received _ _, ?_, ?_⟩
    · rw [if_neg hfixed, hy, ← hdata]
      rfl
    · intro hgood
      obtain ⟨-, hcopies⟩ := hwritten.retval.mp hgood
      rw [← hrows] at hcopies
      exact received_of_good hcopies
    · rintro (hfixed' | hcopy)
      · exact absurd hfixed' hfixed
      · exact hwritten.retval.mpr ⟨rfl, fun k _ _ => hcopy k⟩

theorem holds_scatter (hcopies : ∀ data : List α,
      data.length = v.data.length → Copies type { v with data := data } range)
    (haxes : Selects (dimensions v) range axes) (hlength : array.length = count axes)
    (hlt : ∀ p ∈ positions axes, p < v.data.length) :
    Holds type v range axes array (scatter (positions axes) array v.data) := by
  have hstored : Stored (positions axes) array v.data (scatter (positions axes) array v.data) :=
    stored_scatter (nodup_positions axes) hlt (by rw [length_positions, hlength])
  refine ⟨hstored, fun env henv => ?_⟩
  obtain ⟨axes', haxes', hall⟩ := hcopies _ (length_scatter (positions axes) array v.data)
  obtain ⟨w, hw, hrange⟩ := (hall env).resolve_right (fun hfails => hfails.1 henv)
  obtain rfl := haxes.unique haxes'
  exact ⟨w, hw, hrange.data.unique hstored.written⟩

theorem writes_of_visited (hr : processRangeDefinition v range = some (.ok r)) (hcopies : ∀ data : List α,
      data.length = v.data.length → Copies type { v with data := data } range)
    (haxes : Selects (dimensions v) range axes) (hblock : 0 < r.block.toNat) (htotal : r.total.toNat = count axes)
    (hvisited : visited r = positions axes) (hlt : ∀ p ∈ visited r, p < v.data.length)
    (hlength : array.length = r.total.toNat) : Writes type v array range := by
  have hlen : (visited r).length = r.total.toNat := by
    rw [hvisited, length_positions, htotal]
  have hpositions : ∀ p ∈ positions axes, p < v.data.length := by
    rw [← hvisited]
    exact hlt
  refine ⟨axes, haxes, ?_, fun copy => ?_⟩
  · refine ⟨_, setRange_eq hr hlength hblock hlen hlt, ?_⟩
    rw [hvisited]
    exact holds_scatter hcopies haxes (hlength.trans htotal) hpositions
  · obtain ⟨retval, stored, heq, hstored, hgood, hsucceeds⟩ := setRangeCopy_eq type copy hr hlength hblock hlen hlt
    refine ⟨retval, stored, _, heq, ?_, hgood, hsucceeds⟩
    rw [hvisited]
    exact holds_scatter hcopies haxes (hstored.trans (hlength.trans htotal)) hpositions

theorem writes_of_reduces (hconsistent : Consistent v) (hdata : v.data.length = v.arrayLength.toNat)
    (hr : processRangeDefinition v range = some (.ok r)) (h : Reduces v range)
    (hlength : array.length = r.total.toNat) : Writes type v array range := by
  have hcopies : ∀ data : List α, data.length = v.data.length → Copies type { v with data := data } range := by
    intro data hlen
    have hr' : processRangeDefinition { v with data := data } range = some (.ok r) := hr
    exact copies_of_reduces type hconsistent (hlen.trans hdata) hr' h
  by_cases hplain : v.arrayDimensions = []
  · obtain ⟨axes, haxes, htotal, hvisited, hblock, hlt⟩ := accepted_plain hplain hr
    exact writes_of_visited hr hcopies haxes hblock htotal hvisited (fun p hp => by rw [hdata]; exact hlt p hp) hlength
  · obtain ⟨hlimit, axes', haxes', hreducible⟩ := h.resolve_left hplain
    obtain ⟨axes, haxes, hextents, hreduced, hvolume⟩ := accepted_dimensioned hplain hlimit.length_lt hconsistent hr
    obtain rfl := haxes.unique haxes'
    obtain ⟨hlt, hvisited⟩ := (visited_iff hreduced).mpr hreducible
    refine writes_of_visited hr hcopies haxes (block_pos hreduced) hreduced.total hvisited (fun p hp => ?_) hlength
    rw [hdata, ← hvolume]
    exact hlt p hp

/-- A selection in the dimensions of the array has as many elements as the
source counts. -/
theorem total_eq (hconsistent : Consistent v) (hr : processRangeDefinition v range = some (.ok r))
    (haxes : Selects (dimensions v) range axes) : r.total.toNat = count axes := by
  by_cases hplain : v.arrayDimensions = []
  · obtain ⟨axes', haxes', htotal, -⟩ := accepted_plain hplain hr
    rw [htotal, haxes.unique haxes']
  · have hlength : range.length = v.arrayDimensions.length := by
      rw [haxes.length_eq, dimensions, if_neg hplain, List.length_map]
    have hcount : range.length = (dimsCount v).toNat := by
      obtain ⟨-, -, axes', x, haxes', -⟩ := processRangeDefinition_ok hr
      rw [haxes'.length_eq, List.length_map, length_dims]
    have hlt : v.arrayDimensions.length < 2 ^ 32 := by
      rw [← hlength, hcount]
      exact (dimsCount v).toNat_lt
    obtain ⟨axes', haxes', -, hreduced, -⟩ := accepted_dimensioned hplain hlt hconsistent hr
    rw [hreduced.total, haxes.unique haxes']

theorem reduces_of_writes [Nontrivial α] (hconsistent : Consistent v)
    (hr : processRangeDefinition v range = some (.ok r))
    (h : ∀ data array : List α, data.length = v.arrayLength.toNat → array.length = r.total.toNat →
      Writes type { v with data := data } array range) : Reduces v range := by
  by_cases hplain : v.arrayDimensions = []
  · exact .inl hplain
  have hr' : ∀ data : List α, processRangeDefinition { v with data := data } range = some (.ok r) := fun _ => hr
  obtain ⟨x, -⟩ := exists_pair_ne α
  obtain ⟨_, _, ⟨data', hset, hholds⟩, _⟩ := h (List.replicate v.arrayLength.toNat x) (List.replicate r.total.toNat x)
    (List.length_replicate ..) (List.length_replicate ..)
  obtain ⟨w, hw, _⟩ := hholds.copied unlimited succeeds_unlimited
  have hlimit : Dimensioned v := by
    have hdims := (copyRange_ok (hr' data') hw).2.2
    exact (hdims.resolve_left (fun hnil => hplain hnil.1)).2.1
  obtain ⟨axes, haxes, hextents, hreduced, hvolume⟩ := accepted_dimensioned hplain hlimit.length_lt hconsistent hr
  have hlt : ∀ p ∈ visited r, p < volume axes := by
    intro p hp
    have hbound := lt_of_setRange (hr' _) hset p hp
    rw [List.length_replicate, ← hvolume] at hbound
    exact hbound
  refine .inr ⟨hlimit, axes, haxes, (visited_iff hreduced).mp ⟨hlt, ?_⟩⟩
  refine eq_of_lookups hlt (fun p hp => lt_volume_of_mem hp) (fun (data : List α) hdata => ?_)
  -- what is read at the visited positions is stored again
  have hlt' : ∀ p ∈ visited r, p < data.length := by
    rw [hdata]
    exact hlt
  obtain ⟨array, harray⟩ := exists_reads hlt'
  have hlength : array.length = r.total.toNat := by
    rw [harray.length_eq, length_visited hreduced]
  obtain ⟨axes', haxes', ⟨data₁, hset₁, hholds₁⟩, _⟩ := h data array (hdata.trans hvolume) hlength
  obtain rfl := haxes.unique haxes'
  rw [setRange_eq (hr' data) hlength (block_pos hreduced) (length_visited hreduced) hlt',
    scatter_of_reads harray] at hset₁
  obtain rfl : data = data₁ := congrArg Variant.data (Prod.mk.inj (Option.some.inj hset₁)).2
  exact harray.trans hholds₁.stored.written.symm

/-- A range that is rejected, or that has another number of elements, leaves
the array alone. Otherwise the elements are stored in the hyper-rectangle of
every array of the given shape if and only if the shape and the range can be
described by blocks. -/
theorem setRange_writes_iff [Nontrivial α] (type : ElementType α) (v : Variant α) (range : NumericRange)
    (hconsistent : Consistent v) :
    (∀ code, processRangeDefinition v range = some (.error code) → code ≠ good ∧ ∀ array copy,
      setRange v array range = some (code, v) ∧ setRangeCopy type copy v array range = some (code, v)) ∧
    ∀ r, processRangeDefinition v range = some (.ok r) →
      (∀ axes, Selects (dimensions v) range axes → r.total.toNat = count axes) ∧
      (∀ array copy, array.length ≠ r.total.toNat → setRange v array range = some (badIndexRangeInvalid, v) ∧
        setRangeCopy type copy v array range = some (badIndexRangeInvalid, v)) ∧
      ((∀ data array : List α, data.length = v.arrayLength.toNat → array.length = r.total.toNat →
        Writes type { v with data := data } array range) ↔ Reduces v range) := by
  refine ⟨fun code hcode => ⟨processRangeDefinition_error hcode, fun array copy => ?_⟩, fun r hr => ⟨?_, ?_, ?_⟩⟩
  · rw [setRange, setRangeCopy, hcode]
    exact ⟨rfl, rfl⟩
  · exact fun axes haxes => total_eq hconsistent hr haxes
  · intro array copy hne
    rw [setRange, setRangeCopy, hr]
    dsimp only
    rw [if_pos hne.symm, if_pos hne.symm]
    exact ⟨rfl, rfl⟩
  · refine ⟨reduces_of_writes hconsistent hr, fun h data array hdata hlength => ?_⟩
    have hr' : processRangeDefinition { v with data := data } range = some (.ok r) := hr
    exact writes_of_reduces hconsistent hdata hr' h hlength

theorem setRange_writes_sample :
    Writes sampleType ⟨[0, 1, 2, 3, 4, 5], 6, [2, 3]⟩ [10, 20, 30, 40] [⟨0, 1⟩, ⟨1, 2⟩] :=
  ((setRange_writes_iff sampleType ⟨[], 6, [2, 3]⟩ [⟨0, 1⟩, ⟨1, 2⟩] (.inr rfl)).2 ⟨4, 2, 3, 1⟩ (by decide)).2.2.mpr
    (.inr ⟨by decide, [⟨2, 0, 2, by decide, by decide⟩, ⟨3, 1, 2, by decide, by decide⟩], ⟨rfl, rfl, rfl⟩,
      .inr ⟨[⟨2, 0, 2, by decide, by decide⟩], ⟨3, 1, 2, by decide, by decide⟩, [], rfl, rfl, by decide, by decide⟩⟩)
    [0, 1, 2, 3, 4, 5] [10, 20, 30, 40] rfl rfl

/-- The third and the fourth element are stored at 4 and 6, which are not in
the range, instead of 6 and 8. -/
theorem setRange_writes_other_elements :
    setRange (⟨[0, 1, 2, 3, 4, 5, 6, 7, 8, 9, 10, 11], 12, [2, 3, 2]⟩ : Variant Nat) [20, 21, 22, 23]
        [⟨0, 1⟩, ⟨0, 1⟩, ⟨0, 0⟩] =
      some (good, ⟨[20, 1, 21, 3, 22, 5, 23, 7, 8, 9, 10, 11], 12, [2, 3, 2]⟩) ∧
      ¬ Writes sampleType ⟨[0, 1, 2, 3, 4, 5, 6, 7, 8, 9, 10, 11], 12, [2, 3, 2]⟩ [20, 21, 22, 23]
        [⟨0, 1⟩, ⟨0, 1⟩, ⟨0, 0⟩] := by
  have hset : setRange (⟨[0, 1, 2, 3, 4, 5, 6, 7, 8, 9, 10, 11], 12, [2, 3, 2]⟩ : Variant Nat) [20, 21, 22, 23]
      [⟨0, 1⟩, ⟨0, 1⟩, ⟨0, 0⟩] = some (good, ⟨[20, 1, 21, 3, 22, 5, 23, 7, 8, 9, 10, 11], 12, [2, 3, 2]⟩) := rfl
  refine ⟨hset, ?_⟩
  rintro ⟨axes, haxes, ⟨data', hset', hholds⟩, _⟩
  have hexpected : Selects [2, 3, 2] [⟨0, 1⟩, ⟨0, 1⟩, ⟨0, 0⟩] [⟨2, 0, 2, by decide, by decide⟩,
      ⟨3, 0, 2, by decide, by decide⟩, ⟨2, 0, 1, by decide, by decide⟩] := ⟨rfl, rfl, rfl⟩
  obtain rfl := Selects.unique haxes hexpected
  rw [hset] at hset'
  obtain rfl := congrArg Variant.data (Prod.mk.inj (Option.some.inj hset')).2
  have hwritten := hholds.stored.written
  rw [Reads] at hwritten
  exact absurd hwritten (by decide)

end Correctness

end OpcUa.RangeWrites
