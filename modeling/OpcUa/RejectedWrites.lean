import OpcUa.RangeWrites
import OpcUa.WrittenAttributes

namespace OpcUa.RejectedWrites

open StatusCodes NodeIds DataTypes Values VariantRanges AddressSpaces References ValueRanges AttributeReads
  AttributeWrites
open RangeWrites (testRange_error)
open WrittenAttributes (sourceOf refuses_membersEdit listVals_valsList)

section Ranges

variable {α : Type} {v v' : Variant α} {range : NumericRange} {type : ElementType α} {array : List α}

/-- The range selects elements of the array. -/
structure Within (v : Variant α) (range : NumericRange) : Prop where
  exact : v.arrayDimensions.length > 0 → (elements v).toUInt64 = v.arrayLength
  length : range.length = (dimsCount v).toNat
  inside : ∀ p ∈ range.zip (dims v), p.1.min ≤ p.1.max ∧ p.1.max < p.2

def count (l : List (RangeDimension × UInt32)) (start : UInt64) : UInt64 :=
  l.foldl (fun count p => count * (p.1.max - p.1.min + 1).toUInt64) start

/-- A range that is not within the array, or not as large as what is written. -/
def RefusesRange (v : Variant α) (range : NumericRange) (size : Nat) : Prop :=
  ¬ Within v range ∨ dimsCount v ≠ 0 ∧ (count (range.zip (dims v)) 1).toNat ≠ size

theorem testRange_ok {l : List (RangeDimension × UInt32)} {start : UInt64}
    (h : ∀ p ∈ l, p.1.min ≤ p.1.max ∧ p.1.max < p.2) : testRange start l = .ok (count l start) := by
  induction l generalizing start with
  | nil => rfl
  | cons p l ih =>
      obtain ⟨r, dim⟩ := p
      obtain ⟨hmin, hmax⟩ := h (r, dim) List.mem_cons_self
      rw [testRange, if_neg (UInt32.not_lt.mpr hmin), if_neg (UInt32.not_le.mpr hmax)]
      exact ih (fun p hp => h p (List.mem_cons_of_mem _ hp))

theorem inside_of_testRange {l : List (RangeDimension × UInt32)} {start total : UInt64}
    (h : testRange start l = .ok total) : ∀ p ∈ l, p.1.min ≤ p.1.max ∧ p.1.max < p.2 := by
  induction l generalizing start with
  | nil =>
      intro p hp
      cases hp
  | cons p l ih =>
      obtain ⟨r, dim⟩ := p
      rw [testRange] at h
      split at h
      · cases h
      · next hmin =>
        split at h
        · cases h
        · next hmax =>
          intro p hp
          rcases List.mem_cons.mp hp with rfl | hp
          · exact ⟨UInt32.not_lt.mp hmin, UInt32.not_le.mp hmax⟩
          · exact ih h p hp

theorem process_of_not_within (h : ¬ Within v range) :
    ∃ code, code ≠ good ∧ processRangeDefinition v range = some (.error code) := by
  rw [processRangeDefinition]
  split
  · exact ⟨badInternalError, by decide, rfl⟩
  · next hexact =>
    split
    · exact ⟨badIndexRangeInvalid, by decide, rfl⟩
    · next hlength =>
      cases htest : testRange 1 (range.zip (dims v)) with
      | error code => exact ⟨code, testRange_error htest, rfl⟩
      | ok total =>
          exfalso
          apply h
          refine ⟨fun hpos => ?_, not_not.mp hlength, inside_of_testRange htest⟩
          by_contra hne
          exact hexact ⟨hpos, hne⟩

theorem process_of_within (h : Within v range) : (dimsCount v = 0 ∧ processRangeDefinition v range = none) ∨
    dimsCount v ≠ 0 ∧ ∃ r, processRangeDefinition v range = some (.ok r) ∧ r.total = count (range.zip (dims v)) 1 := by
  have hexact : ¬ (v.arrayDimensions.length > 0 ∧ (elements v).toUInt64 ≠ v.arrayLength) := by
    rintro ⟨hpos, hne⟩
    exact hne (h.exact hpos)
  rw [processRangeDefinition, if_neg hexact, if_neg (not_not.mpr h.length), testRange_ok h.inside]
  dsimp only
  by_cases hcount : dimsCount v = 0
  · exact .inl ⟨hcount, if_pos hcount⟩
  · exact .inr ⟨hcount, _, if_neg hcount, rfl⟩

theorem setRangeCopy_of_refuses (type : ElementType α) (copy : Nat → StatusCode)
    (h : RefusesRange v range array.length) :
    ∃ code, code ≠ good ∧ setRangeCopy type copy v array range = some (code, v) := by
  rcases h with hwithin | ⟨hcount, hsize⟩
  · obtain ⟨code, hbad, hprocess⟩ := process_of_not_within hwithin
    rw [setRangeCopy, hprocess]
    exact ⟨code, hbad, rfl⟩
  · by_cases hwithin : Within v range
    · rcases process_of_within hwithin with ⟨hzero, _⟩ | ⟨_, r, hprocess, htotal⟩
      · exact absurd hzero hcount
      · rw [setRangeCopy, hprocess]
        refine ⟨badIndexRangeInvalid, by decide, ?_⟩
        dsimp only
        rw [htotal, if_pos hsize]
    · obtain ⟨code, hbad, hprocess⟩ := process_of_not_within hwithin
      rw [setRangeCopy, hprocess]
      exact ⟨code, hbad, rfl⟩

section Copies

variable {copy : Nat → StatusCode} (hcopy : ∀ k, copy k = good)
include hcopy

theorem retval_writeElements {n pos : Nat} {x y : Writing α} (h : writeElements type copy n pos x = some y) :
    y.retval = x.retval := by
  induction n generalizing pos x with
  | zero =>
      cases h
      rfl
  | succ n ih =>
      rw [writeElements] at h
      split at h
      · cases h
      · split at h
        · rw [ih h, hcopy]
          exact or_good x.retval
        · cases h

theorem retval_writeElementBlocks {block stride n pos : Nat} {x y : Writing α}
    (h : writeElementBlocks type copy block stride n pos x = some y) : y.retval = x.retval := by
  induction n generalizing pos x with
  | zero =>
      cases h
      rfl
  | succ n ih =>
      rw [writeElementBlocks] at h
      obtain ⟨z, hfirst, hrest⟩ := Option.bind_eq_some_iff.mp h
      rw [ih hrest, retval_writeElements hcopy hfirst]

theorem setRangeCopy_of_not_refuses (h : ¬ RefusesRange v range array.length) {code : StatusCode}
    (hset : setRangeCopy type copy v array range = some (code, v')) : code = good := by
  have hwithin : Within v range := by
    by_contra hnot
    exact h (.inl hnot)
  rw [setRangeCopy] at hset
  rcases process_of_within hwithin with ⟨_, hprocess⟩ | ⟨hcount, r, hprocess, htotal⟩
  · rw [hprocess] at hset
    cases hset
  · rw [hprocess] at hset
    have hsize : r.total.toNat = array.length := by
      by_contra hne
      rw [htotal] at hne
      exact h (.inr ⟨hcount, hne⟩)
    dsimp only at hset
    rw [if_neg (not_not.mpr hsize)] at hset
    split at hset
    · cases hset
    · split at hset
      · obtain ⟨data, _, heq⟩ := Option.map_eq_some_iff.mp hset
        exact (congrArg Prod.fst heq).symm
      · obtain ⟨y, hy, heq⟩ := Option.map_eq_some_iff.mp hset
        have hcode : y.retval = code := congrArg Prod.fst heq
        rw [← hcode]
        exact retval_writeElementBlocks hcopy hy

end Copies

end Ranges

section Values

variable {value new stored : Val .variant} {range : NumericRange} {code : StatusCode}

/-- The old value is no array, or the range does not fit the new one. -/
def RefusesValue (value new : Val .variant) (range : NumericRange) : Prop :=
  match value with
  | .arrayVariant t data dimensions =>
      ∃ array, newElements t new = some array ∧ RefusesRange (arrayElements data dimensions) range array.length
  | _ => True

theorem not_within_of_empty {α : Type} {data : List α} : ¬ Within (⟨data, 0, []⟩ : Variant α) range := by
  rintro ⟨_, hlength, hinside⟩
  match range, hlength, hinside with
  | [r], _, hinside =>
      obtain ⟨_, hmax⟩ := hinside (r, 0) List.mem_cons_self
      exact UInt32.not_lt_zero hmax

theorem refill_arrList {t : DataType} (data : Arr t) : refill data (arrList data) = data := by
  cases data with
  | null => rfl
  | items vs => exact congrArg Arr.items (listVals_valsList vs)

theorem setValueRange_of_refuses (h : RefusesValue value new range) :
    ∃ code, code ≠ good ∧ setValueRange value new range = some (code, value) := by
  cases value with
  | emptyVariant =>
      have hempty : ¬ Within (⟨([] : List (Val TypeTable.byte)), 0, []⟩ : Variant _) range := not_within_of_empty
      obtain ⟨code, hbad, hprocess⟩ := process_of_not_within hempty
      refine ⟨code, hbad, ?_⟩
      rw [setValueRange, variantElements, hprocess]
      · rfl
      · intro t data dimensions heq
        cases heq
  | scalarVariant t data =>
      have hempty : ¬ Within (⟨[data], 0, []⟩ : Variant (Val t)) range := not_within_of_empty
      obtain ⟨code, hbad, hprocess⟩ := process_of_not_within hempty
      refine ⟨code, hbad, ?_⟩
      rw [setValueRange, variantElements, hprocess]
      · rfl
      · intro t data dimensions heq
        cases heq
  | arrayVariant t data dimensions =>
      obtain ⟨array, harray, hrefuses⟩ := h
      obtain ⟨code, hbad, hset⟩ := setRangeCopy_of_refuses (elementType t) (fun _ => good) hrefuses
      refine ⟨code, hbad, ?_⟩
      rw [setValueRange, harray, Option.bind_some, hset, Option.map_some]
      change some (code, Val.arrayVariant t (refill data (arrList data)) dimensions) = _
      rw [refill_arrList]

theorem setValueRange_of_not_refuses (h : ¬ RefusesValue value new range)
    (hset : setValueRange value new range = some (code, stored)) : code = good := by
  cases value with
  | emptyVariant | scalarVariant t data => exact absurd trivial h
  | arrayVariant t data dimensions =>
      rw [setValueRange] at hset
      obtain ⟨array, harray, hset⟩ := Option.bind_eq_some_iff.mp hset
      obtain ⟨r, hr, heq⟩ := Option.map_eq_some_iff.mp hset
      have hcode : r.1 = code := congrArg Prod.fst heq
      rw [← hcode]
      refine setRangeCopy_of_not_refuses (fun _ => rfl) (fun hrefuses => ?_) hr
      exact h ⟨array, harray, hrefuses⟩

end Values

section Writes

variable {outside : Outside} {calls calls' made : List ValueCall} {w : WriteValue} {s s' : AddressSpace} {n : Node}
  {nodeId : NodeId} {code : StatusCode}

def isOnWrite : ValueCall → Bool
  | .onWrite _ _ _ _ => true
  | _ => false

/-- The calls that were made are those before and others, none of them to
onWrite. -/
def Quiet (calls calls' : List ValueCall) : Prop := ∃ made, calls' = calls ++ made ∧ ∀ call ∈ made,
    isOnWrite call = false

def RejectedWithoutEffect (outside : Outside) (calls : List ValueCall) (w : WriteValue) (s : AddressSpace) : Prop :=
  ∀ status s' calls', writeSingle outside calls w s = some (status, s', calls') → status ≠ good →
    s' = s ∧ Quiet calls calls'

/-- The value has a callback, and the range is refused after everything else
has been accepted. -/
def AnnouncesRefusal (w : WriteValue) (n : Node) : Prop :=
  ∃ value onRead handle range new, w.value.hasValue = true ∧ attributeOf w.attributeId = some .value ∧
    sourceOf n = some (.variant value onRead (some handle)) ∧ parseIndexRange w.indexRange = .ok (some range) ∧
      castValue w.pointed value w.value.value = some (.ok new) ∧ RefusesValue value new range

theorem Quiet.refl (calls : List ValueCall) : Quiet calls calls :=
  ⟨[], (List.append_nil calls).symm, fun _ hcall => absurd hcall List.not_mem_nil⟩

theorem not_quiet {call : ValueCall} (h : isOnWrite call = true) : ¬ Quiet calls (calls ++ [call]) := by
  rintro ⟨made, heq, hquiet⟩
  have hmem : call ∈ made := by
    rw [← List.append_cancel_left heq]
    exact List.mem_singleton_self call
  rw [hquiet call hmem] at h
  cases h

theorem copyValue_of_refuses (outside : Outside) (calls : List ValueCall) (nodeId : NodeId)
    (onRead onWrite : Option Nat) {value new : Val .variant} {range : NumericRange}
    (hrange : parseIndexRange w.indexRange = .ok (some range))
    (hcast : castValue w.pointed value w.value.value = some (.ok new))
    (h : RefusesValue value new range) : ∃ code, code ≠ good ∧
      copyValueIntoNode outside calls nodeId w value onRead onWrite = some (code, .variant value onRead onWrite,
        calls ++ (onWrite.map (.onWrite · nodeId value (some range))).toList) := by
  obtain ⟨code, hbad, hset⟩ := setValueRange_of_refuses h
  refine ⟨code, hbad, ?_⟩
  rw [copyValueIntoNode, hrange]
  dsimp only
  rw [hcast, Option.bind_some]
  dsimp only
  rw [hset]
  rfl

theorem copyValue_rejected {value : Val .variant} {onRead onWrite : Option Nat} {source : ValueSource}
    (h : copyValueIntoNode outside calls nodeId w value onRead onWrite = some (code, source, calls'))
    (hbad : code ≠ good) :
    source = .variant value onRead onWrite ∧
      (calls' = calls ∨ ∃ range new, parseIndexRange w.indexRange = .ok (some range) ∧
      castValue w.pointed value w.value.value = some (.ok new) ∧ RefusesValue value new range ∧
        calls' = calls ++ (onWrite.map (.onWrite · nodeId value (some range))).toList) := by
  have hresult := h
  rw [copyValueIntoNode] at h
  split at h
  · cases h
    exact ⟨rfl, .inl rfl⟩
  · next range hrange =>
    obtain ⟨cast, hcast, h⟩ := Option.bind_eq_some_iff.mp h
    cases cast with
    | error code =>
        cases h
        exact ⟨rfl, .inl rfl⟩
    | ok new =>
        obtain ⟨r, hstored, heq⟩ := Option.map_eq_some_iff.mp h
        cases range with
        | none =>
            cases hstored
            have hgood : good = code := congrArg Prod.fst heq
            exact absurd hgood.symm hbad
        | some range =>
            have hcode : r.1 = code := congrArg Prod.fst heq
            by_cases hrefuses : RefusesValue value new range
            · obtain ⟨code', _, hcopy⟩ := copyValue_of_refuses outside calls nodeId onRead onWrite hrange hcast hrefuses
              rw [hresult] at hcopy
              cases hcopy
              exact ⟨rfl, .inr ⟨range, new, hrange, hcast, hrefuses, rfl⟩⟩
            · exact absurd (hcode ▸ setValueRange_of_not_refuses hrefuses hstored) hbad

theorem writeValue_rejected {members members' : ValueMembers}
    (h : writeValue outside calls nodeId w members = some (code, members', calls')) (hbad : code ≠ good) :
    members' = members ∧ (Quiet calls calls' ∨ ∃ value onRead handle range new,
      members.value = .variant value onRead (some handle) ∧ parseIndexRange w.indexRange = .ok (some range) ∧
        castValue w.pointed value w.value.value = some (.ok new) ∧ RefusesValue value new range) := by
  rw [writeValue] at h
  cases hsource : members.value with
  | dataSource source =>
      rw [hsource] at h
      cases h
      refine ⟨rfl, .inl ?_⟩
      rw [writeDataSource]
      split
      · exact .refl calls
      · refine ⟨_, rfl, fun call hcall => ?_⟩
        rw [List.mem_singleton.mp hcall]
        rfl
  | variant value onRead onWrite =>
      rw [hsource] at h
      obtain ⟨⟨code', source, made⟩, hcopy, heq⟩ := Option.map_eq_some_iff.mp h
      cases heq
      obtain ⟨rfl, hcalls⟩ := copyValue_rejected hcopy hbad
      refine ⟨by rw [← hsource], ?_⟩
      rcases hcalls with rfl | ⟨range, new, hrange, hcast, hrefuses, rfl⟩
      · exact .inl (.refl _)
      · cases onWrite with
        | none => exact .inl ⟨[], rfl, fun _ hcall => absurd hcall List.not_mem_nil⟩
        | some handle => exact .inr ⟨value, onRead, handle, range, new, rfl, hrange, hcast, hrefuses⟩

theorem valueEdit_rejected {edit : Edit} (h : valueEdit outside calls w n = some edit) (hbad : edit.retval ≠ good) :
    edit.members = n.toNodeMembers ∧ (Quiet calls edit.calls ∨ ∃ value onRead handle range new,
      sourceOf n = some (.variant value onRead (some handle)) ∧ parseIndexRange w.indexRange = .ok (some range) ∧
        castValue w.pointed value w.value.value = some (.ok new) ∧ RefusesValue value new range) := by
  obtain ⟨⟨browseName, displayName, description, writeMask, userWriteMask, references, body⟩, nodeId⟩ := n
  cases body with
  | «variable» members =>
      obtain ⟨⟨code, members', made⟩, hwrite, rfl⟩ := Option.map_eq_some_iff.mp h
      obtain ⟨rfl, hcalls⟩ := writeValue_rejected hwrite hbad
      refine ⟨rfl, hcalls.imp_right ?_⟩
      rintro ⟨value, onRead, handle, range, new, hsource, hrest⟩
      exact ⟨value, onRead, handle, range, new, congrArg some hsource, hrest⟩
  | variableType members isAbstract =>
      obtain ⟨⟨code, members', made⟩, hwrite, rfl⟩ := Option.map_eq_some_iff.mp h
      obtain ⟨rfl, hcalls⟩ := writeValue_rejected hwrite hbad
      refine ⟨rfl, hcalls.imp_right ?_⟩
      rintro ⟨value, onRead, handle, range, new, hsource, hrest⟩
      exact ⟨value, onRead, handle, range, new, congrArg some hsource, hrest⟩
  | _ =>
      cases h
      exact ⟨rfl, .inl (.refl calls)⟩

theorem copyAttribute_rejected {edit : Edit} (h : copyAttributeIntoNode outside calls w n = some edit)
    (hbad : edit.retval ≠ good) : edit.members = n.toNodeMembers ∧ (Quiet calls edit.calls ∨ AnnouncesRefusal w n) := by
  rw [copyAttributeIntoNode] at h
  split at h
  · cases h
    exact ⟨rfl, .inl (.refl calls)⟩
  · next hvalue =>
    have hhas : w.value.hasValue = true := by simpa using hvalue
    split at h
    · cases h
      exact ⟨rfl, .inl (.refl calls)⟩
    · next hattribute =>
      obtain ⟨hmembers, hcalls⟩ := valueEdit_rejected h hbad
      refine ⟨hmembers, hcalls.imp_right ?_⟩
      rintro ⟨value, onRead, handle, range, new, hrest⟩
      exact ⟨value, onRead, handle, range, new, hhas, hattribute, hrest⟩
    · split at h
      · cases h
        exact ⟨rfl, .inl (.refl calls)⟩
      · cases h
        exact absurd rfl hbad

theorem writeSingle_of_announces (outside : Outside) (calls : List ValueCall) (hn : s.get w.nodeId = some n)
    (h : AnnouncesRefusal w n) :
    ∃ status s' call, status ≠ good ∧ isOnWrite call = true ∧
      writeSingle outside calls w s = some (status, s', calls ++ [call]) := by
  obtain ⟨value, onRead, handle, range, new, hhas, hattribute, hsource, hrange, hcast, hrefuses⟩ := h
  obtain ⟨code, hbad, hcopy⟩ := copyValue_of_refuses outside calls n.nodeId onRead (some handle) hrange hcast hrefuses
  have hwrite : ∀ members : ValueMembers, members.value = .variant value onRead (some handle) →
      writeValue outside calls n.nodeId w members =
        some (code, { members with value := .variant value onRead (some handle) },
          calls ++ [.onWrite handle n.nodeId value (some range)]) := by
    intro members hvalue
    rw [writeValue, hvalue]
    dsimp only
    rw [hcopy]
    rfl
  have hedit : ∃ members, copyAttributeIntoNode outside calls w n =
      some ⟨code, members, calls ++ [.onWrite handle n.nodeId value (some range)]⟩ := by
    rw [copyAttributeIntoNode, hhas, if_neg (by decide), hattribute]
    dsimp only
    rw [valueEdit]
    rw [sourceOf] at hsource
    split
    · next members hbody =>
      rw [hbody] at hsource
      rw [hwrite members.toValueMembers (Option.some.inj hsource)]
      exact ⟨_, rfl⟩
    · next members isAbstract hbody =>
      rw [hbody] at hsource
      rw [hwrite members (Option.some.inj hsource)]
      exact ⟨_, rfl⟩
    · next hvariable htype =>
      cases hbody : n.body with
      | «variable» members => exact absurd hbody (hvariable members)
      | variableType members isAbstract => exact absurd hbody (htype members isAbstract)
      | _ =>
          rw [hbody] at hsource
          cases hsource
  obtain ⟨members, hedit⟩ := hedit
  refine ⟨code, s.edit w.nodeId (fun _ => members), .onWrite handle n.nodeId value (some range), hbad, rfl, ?_⟩
  rw [writeSingle, hn]
  dsimp only
  rw [hedit, Option.map_some, editNode, hn]

/-- A write that is rejected changes nothing, but the callback of a value is
called also for a refused range. -/
theorem rejected_writes_iff (outside : Outside) (calls : List ValueCall) (w : WriteValue) (s : AddressSpace) :
    RejectedWithoutEffect outside calls w s ↔ ∀ n, s.get w.nodeId = some n → ¬ AnnouncesRefusal w n := by
  constructor
  · intro h n hn hannounces
    obtain ⟨status, s', call, hbad, hcall, hwrite⟩ :=
      writeSingle_of_announces outside calls hn hannounces
    exact not_quiet hcall (h status s' _ hwrite hbad).2
  · intro h status s' calls' hwrite hbad
    rw [writeSingle] at hwrite
    cases hn : s.get w.nodeId with
    | none =>
        rw [hn] at hwrite
        cases hwrite
        exact ⟨rfl, .refl calls⟩
    | some n =>
        rw [hn] at hwrite
        obtain ⟨edit, hedit, heq⟩ := Option.map_eq_some_iff.mp hwrite
        rw [editNode, hn] at heq
        cases heq
        obtain ⟨hmembers, hcalls⟩ := copyAttribute_rejected hedit hbad
        refine ⟨?_, hcalls.resolve_right (h n hn)⟩
        dsimp only
        rw [hmembers]
        exact edit_self hn

end Writes

section Example

open WrittenAttributes (sampleNode sampleSpace sampleWrite)

def watchedArray : Body :=
  .variable ⟨⟨1, .variant (.arrayVariant TypeTable.int32 (.items (.cons (.simple (5 : UInt32)) .nil)) []) none
    (some 7)⟩,
    3, 3, 0, 0⟩

def writeBehind : WriteValue :=
  { sampleWrite .value (.arrayVariant TypeTable.int32 (.items (.cons (.simple (6 : UInt32)) .nil)) []) with
    indexRange := some [49] }

theorem refused_write_announced : ¬ RejectedWithoutEffect sampleOutside [] writeBehind (sampleSpace watchedArray) := by
  have hrange : parseIndexRange writeBehind.indexRange = .ok (some [⟨1, 1⟩]) := by
    have hparse : parseNumericRange [49] = .ok [⟨1, 1⟩] := by
      rw [parseNumericRange]
      rfl
    change (parseNumericRange [49]).map some = _
    rw [hparse]
    rfl
  have hrefuses : RefusesValue (.arrayVariant TypeTable.int32 (.items (.cons (.simple (5 : UInt32)) .nil)) [])
      writeBehind.value.value [⟨1, 1⟩] := by
    refine ⟨[.simple (6 : UInt32)], rfl, .inl ?_⟩
    rintro ⟨_, _, hinside⟩
    obtain ⟨_, hmax⟩ := hinside (⟨1, 1⟩, 1) List.mem_cons_self
    exact absurd hmax (by decide)
  have hnode : (sampleSpace watchedArray).get writeBehind.nodeId = some (sampleNode watchedArray) := rfl
  have hannounces : AnnouncesRefusal writeBehind (sampleNode watchedArray) :=
    ⟨_, none, 7, _, _, rfl, rfl, rfl, hrange, rfl, hrefuses⟩
  obtain ⟨status, s', call, hbad, hcall, hwrite⟩ :=
    writeSingle_of_announces sampleOutside [] hnode hannounces
  intro h
  exact not_quiet hcall (h status s' _ hwrite hbad).2

end Example

end OpcUa.RejectedWrites
