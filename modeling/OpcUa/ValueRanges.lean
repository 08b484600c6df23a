import OpcUa.RangeCopies
import OpcUa.TypeTable
import OpcUa.Values

namespace OpcUa.ValueRanges

open StatusCodes NodeIds DataTypes Values VariantRanges RangeCopies

deriving instance DecidableEq for DataType, Members

section Parsing

def isDigit (c : UInt8) : Bool := 48 ≤ c && c ≤ 57

/-- The number at the start of a buffer and how many digits it has. It wraps
around. -/
def readNumber (buf : List UInt8) : UInt32 × Nat :=
  let digits := buf.takeWhile isDigit
  (digits.foldl (fun n c => n * 10 + (c - 48).toUInt32) 0, digits.length)

/-- `none` if there is no progress. The colon has the code 58. -/
def readDimension (buf : List UInt8) : Option (RangeDimension × Nat) :=
  let (min, progress) := readNumber buf
  if progress = 0 then none
  else
    match buf.drop progress with
    | 58 :: rest =>
        let (max, progress2) := readNumber rest
        if progress2 = 0 then none else some (⟨min, max⟩, progress + progress2 + 1)
    | _ => some (⟨min, min⟩, progress)

/-- `parse_numericrange` for a string of less than 2³¹ bytes. The comma has the
code 44, and whatever else follows a dimension is ignored. -/
def parseNumericRange (buf : List UInt8) : Except StatusCode NumericRange :=
  match readDimension buf with
  | none => .error badIndexRangeInvalid
  | some (dim, progress) =>
      match _h : buf.drop progress with
      | 44 :: rest => (parseNumericRange rest).map (dim :: ·)
      | _ => .ok [dim]
termination_by buf.length
decreasing_by
  have hlength := congrArg List.length _h
  rw [List.length_drop, List.length_cons] at hlength
  omega

/-- The range of a request. An empty string stands for no range. -/
def parseIndexRange (indexRange : UaString) : Except StatusCode (Option NumericRange) :=
  if indexRange.length > 0 then (parseNumericRange indexRange.bytes).map some else .ok none

end Parsing

section Elements

variable {t : DataType}

def valsList : Vals t → List (Val t)
  | .nil => []
  | .cons v vs => v :: valsList vs

def listVals : List (Val t) → Vals t
  | [] => .nil
  | v :: vs => .cons v (listVals vs)

def arrList : Arr t → List (Val t)
  | .null => []
  | .items vs => valsList vs

mutual

def fixedSize : DataType → Bool
  | .simple _ b => b.zeroCopyable || b == .guid
  | .structure _ members => fixedSizeMembers members
  | _ => false

def fixedSizeMembers : Members → Bool
  | .nil => true
  | .scalar t rest => fixedSize t && fixedSizeMembers rest
  | .array _ _ => false

end

def elementType (t : DataType) : ElementType (Val t) := ⟨fixedSize t, ofImage t []⟩

def arrayElements (data : Arr t) (dimensions : List UInt32) : Variant (Val t) :=
  ⟨arrList data, UInt64.ofNat data.length, dimensions⟩

/-- The memory that a variant points to. The functions for ranges refuse
whatever is no array before they look at the type. -/
def variantElements : Val .variant → (t : DataType) × Variant (Val t)
  | .emptyVariant => ⟨TypeTable.byte, [], 0, []⟩
  | .scalarVariant t data => ⟨t, [data], 0, []⟩
  | .arrayVariant t data dimensions => ⟨t, arrayElements data dimensions⟩

/-- `UA_Variant_copyRange` with memory for everything. -/
def copyValueRange (value : Val .variant) (range : NumericRange) : Option (Except StatusCode (Val .variant)) :=
  let elements := variantElements value
  (copyRange (elementType elements.1) unlimited elements.2 range).map
    (·.map (fun w => .arrayVariant elements.1 (.items (listVals w.data)) w.arrayDimensions))

def refill : Arr t → List (Val t) → Arr t
  | .null, _ => .null
  | .items _, elements => .items (listVals elements)

/-- The elements that a variant is said to have. A scalar has the length 0.
`none` if they are of another type. -/
def newElements (t : DataType) : Val .variant → Option (List (Val t))
  | .arrayVariant t' data _ => if h : t' = t then some (h ▸ arrList data) else none
  | _ => some []

/-- `UA_Variant_setRangeCopy` with memory for everything. -/
def setValueRange (value new : Val .variant) (range : NumericRange) : Option (StatusCode × Val .variant) :=
  match value with
  | .arrayVariant t data dimensions =>
      (newElements t new).bind fun array =>
        (setRangeCopy (elementType t) (fun _ => good) (arrayElements data dimensions) array range).map
          (fun r => (r.1, .arrayVariant t (refill data r.2.data) dimensions))
  | _ =>
      (processRangeDefinition (variantElements value).2 range).bind fun
        | .error code => some (code, value)
        | .ok _ => none

end Elements

end OpcUa.ValueRanges
