import OpcUa.AttributeReads

namespace OpcUa.ArgumentChecks

open StatusCodes NodeIds DataTypes Values AttributeReads

section Checks

/-- A `UA_Variant`. The flag tells if the pointer to no dimensions is another
than NULL. -/
structure ArgumentValue where
  value : Val .variant
  emptyDimensions : Bool

/-- The members of `UA_Argument` that are checked. -/
structure Argument where
  dataType : NodeId
  valueRank : Int
  arrayDimensions : List UInt32
deriving DecidableEq, Repr

def arrayLength : Val .variant → Nat
  | .arrayVariant _ data _ => data.length
  | _ => 0

/-- The pointer `arrayDimensions` with its size, `none` if it is NULL. -/
def arrayDimensions (v : ArgumentValue) : Option (List UInt32) :=
  if dimensionsOf v.value = [] ∧ !v.emptyDimensions then none else some (dimensionsOf v.value)

def varDims (v : ArgumentValue) : Option (List UInt32) :=
  match arrayDimensions v with
  | none => if isScalar v.value then none else some [UInt32.ofNat (arrayLength v.value)]
  | some dimensions => some dimensions

/-- What the switch over the value rank refuses. A rank without a case is not
looked at. -/
def refusesRank (valueRank : Int) (scalar : Bool) (varDims : Option (List UInt32)) : Bool :=
  match valueRank with
  | -3 => (varDims.getD []).length > 1
  | -2 => false
  | -1 => !scalar
  | 0 => scalar || varDims.isNone
  | _ => false

def satisfySignature (v : ArgumentValue) (arg : Argument) : Option StatusCode :=
  (typeOf v.value).map fun type =>
    let size := (dimensionsOf v.value).length
    if !nodeIdEqual type.typeId arg.dataType then badInvalidArgument
    else if arg.arrayDimensions.length > 0 ∧ size > 0 ∧ size ≠ arg.arrayDimensions.length then badInvalidArgument
    else if refusesRank arg.valueRank (isScalar v.value) (varDims v) then badInvalidArgument
    else if arg.arrayDimensions ≠ (varDims v).getD [] then badInvalidArgument
    else good

end Checks

section Documentation

inductive Shape
  | scalar
  | array (dimensions : List Nat)
deriving DecidableEq, Repr

/-- An array without explicit dimensions is one-dimensional. -/
def shape (v : ArgumentValue) : Shape :=
  if isScalar v.value then .scalar
  else if dimensionsOf v.value = [] then .array [arrayLength v.value]
  else .array ((dimensionsOf v.value).map UInt32.toNat)

def Allows (valueRank : Int) : Shape → Prop
  | .scalar => valueRank = -1 ∨ valueRank = -2 ∨ valueRank = -3
  | .array dimensions =>
      1 ≤ valueRank ∧ valueRank = dimensions.length ∨ valueRank = 0 ∨ valueRank = -2 ∨
        valueRank = -3 ∧ dimensions.length = 1

instance (valueRank : Int) : ∀ shape, Decidable (Allows valueRank shape)
  | .scalar => inferInstanceAs (Decidable (_ ∨ _))
  | .array _ => inferInstanceAs (Decidable (_ ∨ _))

def SameType (v : ArgumentValue) (arg : Argument) : Prop :=
  ∃ type, typeOf v.value = some type ∧ nodeIdEqual type.typeId arg.dataType = true

structure Conforms (v : ArgumentValue) (arg : Argument) : Prop where
  dataType : SameType v arg
  valueRank : Allows arg.valueRank (shape v)
  arrayDimensions : arg.arrayDimensions ≠ [] → shape v = .array (arg.arrayDimensions.map UInt32.toNat)

def ChecksExactly (v : ArgumentValue) (arg : Argument) : Prop :=
  ∃ status, satisfySignature v arg = some status ∧ (status = good ↔ Conforms v arg)

/-- The cases in which the comparison of the dimensions and the value rank come
to the same. -/
structure Comparable (v : ArgumentValue) (arg : Argument) : Prop where
  unchecked : arg.arrayDimensions = (varDims v).getD [] → 1 ≤ arg.valueRank ∨ arg.valueRank < -3 →
    Allows arg.valueRank (shape v)
  undeclared : arg.arrayDimensions = [] → (varDims v).getD [] ≠ [] → ¬ Allows arg.valueRank (shape v)
  truncated : arrayDimensions v = none → arg.arrayDimensions = (varDims v).getD [] → arg.valueRank ≠ -1 →
    arrayLength v.value < 4294967296
  lost : arrayDimensions v = some [] → shape v = .array (arg.arrayDimensions.map UInt32.toNat) →
    ¬ Allows arg.valueRank (shape v)

end Documentation

section Results

variable {v : ArgumentValue} {arg : Argument} {valueRank : Int} {scalar : Bool} {dimensions : Option (List UInt32)}

theorem refusesRank_eq_false_iff : refusesRank valueRank scalar dimensions = false ↔
    (valueRank = -3 → (dimensions.getD []).length ≤ 1) ∧ (valueRank = -1 → scalar = true) ∧
      (valueRank = 0 → scalar = false ∧ dimensions ≠ none) := by
  unfold refusesRank
  split
  · simp
  · simp
  · simp
  · cases scalar <;> cases dimensions <;> simp
  · next h3 _ h1 h0 =>
    exact ⟨fun _ => ⟨fun h => absurd h h3, fun h => absurd h h1, fun h => absurd h h0⟩, fun _ => rfl⟩

def Accepted (v : ArgumentValue) (arg : Argument) : Prop :=
  refusesRank arg.valueRank (isScalar v.value) (varDims v) = false ∧ arg.arrayDimensions = (varDims v).getD []

theorem satisfySignature_eq_good (arg : Argument) {type : DataType} (htype : typeOf v.value = some type) :
    ∃ status, satisfySignature v arg = some status ∧
      (status = good ↔ nodeIdEqual type.typeId arg.dataType = true ∧ Accepted v arg) := by
  rw [satisfySignature, htype]
  refine ⟨_, rfl, ?_⟩
  have hbad : badInvalidArgument ≠ good := by decide
  dsimp only
  rw [Accepted]
  cases hid : nodeIdEqual type.typeId arg.dataType with
  | false => simp [hbad]
  | true =>
      simp only [Bool.not_true, Bool.false_eq_true, if_false, true_and]
      split
      · next hsizes =>
        simp only [hbad, false_iff, not_and]
        intro _ heq
        apply hsizes.2.2
        have hexplicit : varDims v = some (dimensionsOf v.value) := by
          rw [varDims, arrayDimensions, if_neg]
          intro hnone
          rw [hnone.1] at hsizes
          exact absurd hsizes.2.1 (Nat.lt_irrefl 0)
        rw [heq, hexplicit]
        rfl
      · cases hrank : refusesRank arg.valueRank (isScalar v.value) (varDims v) with
        | true => simp [hbad]
        | false =>
            simp only [Bool.false_eq_true, if_false, true_and]
            split
            · next hne => simp [hbad, hne]
            · next heq => simp [not_not.mp heq]

/-- The value rank and the dimensions, as they are documented. -/
def Documented (v : ArgumentValue) (arg : Argument) : Prop :=
  Allows arg.valueRank (shape v) ∧ (arg.arrayDimensions ≠ [] → shape v = .array (arg.arrayDimensions.map UInt32.toNat))

theorem scalar_iff {type : DataType} {data : Val type} {b : Bool} :
    (Accepted ⟨.scalarVariant type data, b⟩ arg ↔ Documented ⟨.scalarVariant type data, b⟩ arg) ↔
      Comparable ⟨.scalarVariant type data, b⟩ arg := by
  have hdims : ((varDims ⟨.scalarVariant type data, b⟩).getD []) = [] := by cases b <;> rfl
  have haccepted : Accepted ⟨.scalarVariant type data, b⟩ arg ↔ arg.valueRank ≠ 0 ∧ arg.arrayDimensions = [] := by
    rw [Accepted, refusesRank_eq_false_iff, hdims]
    simp [isScalar]
  have hdocumented : Documented ⟨.scalarVariant type data, b⟩ arg ↔
      (arg.valueRank = -1 ∨ arg.valueRank = -2 ∨ arg.valueRank = -3) ∧ arg.arrayDimensions = [] := by
    rw [Documented]
    simp [shape, isScalar, Allows]
  rw [haccepted, hdocumented]
  constructor
  · intro h
    refine ⟨fun hempty hrank => ?_, fun _ hne => absurd hdims hne, fun _ _ _ => ?_, fun _ hshape => ?_⟩
    · exact (h.mp ⟨by omega, hempty.trans hdims⟩).1
    · exact Nat.zero_lt_succ _
    · cases hshape
  · intro h
    constructor
    · rintro ⟨hrank, hempty⟩
      refine ⟨?_, hempty⟩
      by_contra hnot
      have hallows := h.unchecked (hempty.trans hdims.symm) (by omega)
      exact hnot hallows
    · rintro ⟨hrank, hempty⟩
      exact ⟨by omega, hempty⟩

theorem map_toNat_inj {ds ds' : List UInt32} : ds.map UInt32.toNat = ds'.map UInt32.toNat ↔ ds = ds' :=
  (List.map_injective_iff.mpr (fun _ _ h => UInt32.toNat_inj.mp h)).eq_iff

theorem explicit_iff {type : DataType} {data : Arr type} {ds : List UInt32} {b : Bool} (hne : ds ≠ []) :
    (Accepted ⟨.arrayVariant type data ds, b⟩ arg ↔ Documented ⟨.arrayVariant type data ds, b⟩ arg) ↔
      Comparable ⟨.arrayVariant type data ds, b⟩ arg := by
  have hpointer : arrayDimensions ⟨.arrayVariant type data ds, b⟩ = some ds := if_neg (fun h => hne h.1)
  have hdims : varDims ⟨.arrayVariant type data ds, b⟩ = some ds := by rw [varDims, hpointer]
  have hshape : shape ⟨.arrayVariant type data ds, b⟩ = .array (ds.map UInt32.toNat) := by
    simp [shape, isScalar, dimensionsOf, hne]
  have hlength : 0 < ds.length := List.length_pos_iff.mpr hne
  have haccepted : Accepted ⟨.arrayVariant type data ds, b⟩ arg ↔
      (arg.valueRank = -3 → ds.length ≤ 1) ∧ arg.valueRank ≠ -1 ∧ arg.arrayDimensions = ds := by
    rw [Accepted, refusesRank_eq_false_iff, hdims]
    simp [isScalar, and_assoc]
  have hdocumented : Documented ⟨.arrayVariant type data ds, b⟩ arg ↔
      Allows arg.valueRank (.array (ds.map UInt32.toNat)) ∧ (arg.arrayDimensions ≠ [] → arg.arrayDimensions = ds) := by
    rw [Documented, hshape, Shape.array.injEq, map_toNat_inj, eq_comm]
  rw [haccepted, hdocumented]
  constructor
  · intro h
    refine ⟨fun hcompared hrank => ?_, fun hundeclared _ hallows => ?_, fun hnone => ?_, fun hlost => ?_⟩
    · rw [hdims, Option.getD_some] at hcompared
      rw [hshape]
      exact (h.mp ⟨by omega, by omega, hcompared⟩).1
    · rw [hshape] at hallows
      obtain ⟨_, _, heq⟩ := h.mpr ⟨hallows, fun hdeclared => absurd hundeclared hdeclared⟩
      exact hne (heq.symm.trans hundeclared)
    · rw [hpointer] at hnone
      cases hnone
    · rw [hpointer] at hlost
      exact absurd (Option.some.inj hlost) hne
  · intro h
    have hunchecked := h.unchecked
    have hundeclared := h.undeclared
    rw [hdims, Option.getD_some, hshape] at hunchecked hundeclared
    constructor
    · rintro ⟨hone, harray, heq⟩
      refine ⟨?_, fun _ => heq⟩
      by_cases hrank : 1 ≤ arg.valueRank ∨ arg.valueRank < -3
      · exact hunchecked heq hrank
      · simp only [Allows, List.length_map]
        omega
    · rintro ⟨hallows, heq⟩
      have hdeclared : arg.arrayDimensions = ds := heq (fun hempty => hundeclared hempty hne hallows)
      simp only [Allows, List.length_map] at hallows
      exact ⟨by omega, by omega, hdeclared⟩

theorem implicit_iff {type : DataType} {data : Arr type} :
    (Accepted ⟨.arrayVariant type data [], false⟩ arg ↔ Documented ⟨.arrayVariant type data [], false⟩ arg) ↔
      Comparable ⟨.arrayVariant type data [], false⟩ arg := by
  have hpointer : arrayDimensions ⟨.arrayVariant type data [], false⟩ = none := rfl
  have hdims : varDims ⟨.arrayVariant type data [], false⟩ = some [UInt32.ofNat data.length] := rfl
  have hshape : shape ⟨.arrayVariant type data [], false⟩ = .array [data.length] := rfl
  have hlength : arrayLength (.arrayVariant type data []) = data.length := rfl
  have haccepted : Accepted ⟨.arrayVariant type data [], false⟩ arg ↔
      arg.valueRank ≠ -1 ∧ arg.arrayDimensions = [UInt32.ofNat data.length] := by
    rw [Accepted, refusesRank_eq_false_iff, hdims]
    simp [isScalar]
  have hsingle : arg.arrayDimensions.map UInt32.toNat = [data.length] ↔
      arg.arrayDimensions = [UInt32.ofNat data.length] ∧ data.length < 4294967296 := by
    constructor
    · intro h
      obtain ⟨d, hd, hvalue⟩ := List.map_eq_singleton_iff.mp h
      rw [hd, ← hvalue, UInt32.ofNat_toNat]
      exact ⟨rfl, d.toNat_lt⟩
    · rintro ⟨h, hlt⟩
      rw [h, List.map_singleton, UInt32.toNat_ofNat_of_lt' hlt]
  have hdocumented : Documented ⟨.arrayVariant type data [], false⟩ arg ↔ Allows arg.valueRank (.array [data.length]) ∧
      (arg.arrayDimensions ≠ [] → arg.arrayDimensions = [UInt32.ofNat data.length] ∧ data.length < 4294967296) := by
    rw [Documented, hshape, Shape.array.injEq, ← hsingle, eq_comm]
  rw [haccepted, hdocumented]
  constructor
  · intro h
    refine ⟨fun hcompared hrank => ?_, fun hundeclared _ hallows => ?_, fun _ hcompared hrank => ?_, fun hlost => ?_⟩
    · rw [hdims, Option.getD_some] at hcompared
      rw [hshape]
      exact (h.mp ⟨by omega, hcompared⟩).1
    · rw [hshape] at hallows
      obtain ⟨_, heq⟩ := h.mpr ⟨hallows, fun hdeclared => absurd hundeclared hdeclared⟩
      rw [hundeclared] at heq
      cases heq
    · rw [hdims, Option.getD_some] at hcompared
      have hne : arg.arrayDimensions ≠ [] := by
        rw [hcompared]
        exact List.cons_ne_nil _ _
      exact ((h.mp ⟨hrank, hcompared⟩).2 hne).2
    · rw [hpointer] at hlost
      cases hlost
  · intro h
    have hunchecked := h.unchecked
    have hundeclared := h.undeclared
    have htruncated := h.truncated hpointer
    rw [hdims, Option.getD_some] at hunchecked hundeclared htruncated
    rw [hshape] at hunchecked hundeclared
    constructor
    · rintro ⟨harray, heq⟩
      refine ⟨?_, fun _ => ⟨heq, htruncated heq harray⟩⟩
      by_cases hrank : 1 ≤ arg.valueRank ∨ arg.valueRank < -3
      · exact hunchecked heq hrank
      · simp only [Allows, List.length_singleton, and_true]
        omega
    · rintro ⟨hallows, heq⟩
      have hne : arg.arrayDimensions ≠ [] := fun hempty => hundeclared hempty (List.cons_ne_nil _ _) hallows
      simp only [Allows, List.length_singleton, and_true] at hallows
      exact ⟨by omega, (heq hne).1⟩

theorem emptied_iff {type : DataType} {data : Arr type} :
    (Accepted ⟨.arrayVariant type data [], true⟩ arg ↔ Documented ⟨.arrayVariant type data [], true⟩ arg) ↔
      Comparable ⟨.arrayVariant type data [], true⟩ arg := by
  have hpointer : arrayDimensions ⟨.arrayVariant type data [], true⟩ = some [] := rfl
  have hdims : varDims ⟨.arrayVariant type data [], true⟩ = some [] := rfl
  have hshape : shape ⟨.arrayVariant type data [], true⟩ = .array [data.length] := rfl
  have haccepted : Accepted ⟨.arrayVariant type data [], true⟩ arg ↔ arg.valueRank ≠ -1 ∧ arg.arrayDimensions = [] := by
    rw [Accepted, refusesRank_eq_false_iff, hdims]
    simp [isScalar]
  rw [haccepted, Documented, hshape]
  constructor
  · intro h
    refine ⟨fun hcompared hrank => ?_, fun _ hne => absurd rfl hne, fun hnone => ?_, fun _ hlost hallows => ?_⟩
    · rw [hshape]
      exact (h.mp ⟨by omega, hcompared⟩).1
    · rw [hpointer] at hnone
      cases hnone
    · rw [hshape] at hlost hallows
      obtain ⟨_, hempty⟩ := h.mpr ⟨hallows, fun _ => hlost⟩
      rw [hempty] at hlost
      cases hlost
  · intro h
    have hunchecked := h.unchecked
    have hlost := h.lost hpointer
    rw [hdims, Option.getD_some, hshape] at hunchecked
    rw [hshape] at hlost
    constructor
    · rintro ⟨harray, hempty⟩
      refine ⟨?_, fun hne => absurd hempty hne⟩
      by_cases hrank : 1 ≤ arg.valueRank ∨ arg.valueRank < -3
      · exact hunchecked hempty hrank
      · simp only [Allows, List.length_singleton, and_true]
        omega
    · rintro ⟨hallows, hdeclared⟩
      have hempty : arg.arrayDimensions = [] := by
        by_contra hne
        exact hlost (hdeclared hne) hallows
      simp only [Allows, List.length_singleton, and_true] at hallows
      exact ⟨by omega, hempty⟩

theorem accepted_iff_documented (arg : Argument) (htype : typeOf v.value ≠ none) :
    (Accepted v arg ↔ Documented v arg) ↔ Comparable v arg := by
  obtain ⟨value, emptyDimensions⟩ := v
  cases value with
  | emptyVariant => exact absurd rfl htype
  | scalarVariant type data => exact scalar_iff
  | arrayVariant type data ds =>
      by_cases hne : ds = []
      · subst hne
        cases emptyDimensions with
        | false => exact implicit_iff
        | true => exact emptied_iff
      · exact explicit_iff hne

theorem conforms_iff {type : DataType} (htype : typeOf v.value = some type) :
    Conforms v arg ↔ nodeIdEqual type.typeId arg.dataType = true ∧ Documented v arg := by
  constructor
  · rintro ⟨⟨type', htype', hsame⟩, hrank, hdims⟩
    rw [htype] at htype'
    cases htype'
    exact ⟨hsame, hrank, hdims⟩
  · rintro ⟨hsame, hrank, hdims⟩
    exact ⟨⟨type, htype, hsame⟩, hrank, hdims⟩

/-- A rank of its own case and the comparison of the dimensions both have their
say. -/
theorem checks_exactly_iff (v : ArgumentValue) (arg : Argument) :
    ChecksExactly v arg ↔ typeOf v.value ≠ none ∧ (SameType v arg → Comparable v arg) := by
  cases htype : typeOf v.value with
  | none =>
      constructor
      · rintro ⟨status, hstatus, _⟩
        rw [satisfySignature, htype] at hstatus
        cases hstatus
      · intro h
        exact absurd rfl h.1
  | some type =>
      have htyped : typeOf v.value ≠ none := by
        rw [htype]
        exact Option.some_ne_none type
      obtain ⟨status, hstatus, hgood⟩ := satisfySignature_eq_good arg htype
      have hexact : ChecksExactly v arg ↔ (status = good ↔ Conforms v arg) := by
        rw [ChecksExactly, hstatus]
        simp
      have hsame : SameType v arg ↔ nodeIdEqual type.typeId arg.dataType = true := by
        rw [SameType, htype]
        simp
      rw [hexact, hgood, conforms_iff htype, hsame, ← accepted_iff_documented arg htyped]
      cases nodeIdEqual type.typeId arg.dataType with
      | false => simp
      | true => simp

/-- A rank without a case of its own allows the shape, and the length of an
array is a number of 32 bits. -/
structure Sound (v : ArgumentValue) (arg : Argument) : Prop where
  rank : 1 ≤ arg.valueRank ∨ arg.valueRank < -3 → Allows arg.valueRank (shape v)
  length : arrayDimensions v = none → arrayLength v.value < 4294967296

theorem arrayLength_of_scalar {value : Val .variant} (h : isScalar value = true) : arrayLength value = 0 := by
  cases value with
  | arrayVariant type data ds => cases h
  | _ => rfl

theorem shape_ne_nil : shape v ≠ .array [] := by
  rw [shape]
  split
  · intro h
    cases h
  · split
    · intro h
      cases h
    · next hne =>
      intro h
      exact hne (List.map_eq_nil_iff.mp (Shape.array.inj h))

theorem documented_iff_of_accepted (htype : typeOf v.value ≠ none) (h : Accepted v arg) :
    Documented v arg ↔ Sound v arg := by
  obtain ⟨hrank, hdims⟩ := h
  have hcomparable := accepted_iff_documented arg htype
  constructor
  · intro hdocumented
    have hcompared := hcomparable.mp (iff_of_true ⟨hrank, hdims⟩ hdocumented)
    refine ⟨hcompared.unchecked hdims, fun hnone => ?_⟩
    by_cases hminus : arg.valueRank = -1
    · rw [arrayLength_of_scalar ((refusesRank_eq_false_iff.mp hrank).2.1 hminus)]
      exact Nat.zero_lt_succ _
    · exact hcompared.truncated hnone hdims hminus
  · intro hsound
    refine (hcomparable.mpr ⟨fun _ => hsound.rank, fun hempty hne => ?_, fun hnone _ _ => hsound.length hnone,
      fun hlost hshape => ?_⟩).mp ⟨hrank, hdims⟩
    · exact absurd (hdims.symm.trans hempty) hne
    · have hempty : arg.arrayDimensions = [] := by
        rw [hdims, varDims, hlost]
        rfl
      rw [hempty] at hshape
      exact absurd hshape shape_ne_nil

end Results

section Example

/-- An array of one number, for which the argument has no dimensions. -/
def oneNumber : ArgumentValue :=
  ⟨.arrayVariant TypeTable.int32 (.items (.cons (.simple (5 : UInt32)) .nil)) [], false⟩

def numbers : Argument := ⟨numericId 0 6, 1, []⟩

theorem undeclared_array_refused : ¬ ChecksExactly oneNumber numbers := by
  rintro ⟨status, hstatus, hgood⟩
  have hrefused : satisfySignature oneNumber numbers = some badInvalidArgument := by decide
  have hconforms : Conforms oneNumber numbers :=
    ⟨⟨TypeTable.int32, rfl, by decide⟩, by decide, fun hne => absurd rfl hne⟩
  rw [hrefused] at hstatus
  cases hstatus
  exact absurd (hgood.mpr hconforms) (by decide)

end Example

end OpcUa.ArgumentChecks
