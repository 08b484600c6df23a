import OpcUa.Buffers
import OpcUa.StatusCodes
import OpcUa.ValueDecoding

namespace OpcUa.VariantRanges

open StatusCodes Buffers ValueDecoding

structure RangeDimension where
  min : UInt32
  max : UInt32
deriving DecidableEq, Repr

abbrev NumericRange := List RangeDimension

/-- The part of a `UA_Variant` that the functions for ranges use. -/
structure Variant (α : Type) where
  data : List α
  arrayLength : UInt64
  arrayDimensions : List UInt32
deriving DecidableEq, Repr

/-- What `processRangeDefinition` says about a range: how many elements it
has, how long a contiguous block of them is, how far the blocks are from one
another and where the first one is. -/
structure Blocks where
  total : UInt64
  block : UInt64
  stride : UInt64
  first : UInt64
deriving DecidableEq, Repr

variable {α : Type}

def dimsCount (v : Variant α) : UInt32 :=
  if v.arrayDimensions.length > 0 then UInt32.ofNat v.arrayDimensions.length else 1

/-- Without dimensions the length of the array is the only one. -/
def dims (v : Variant α) : List UInt32 :=
  if v.arrayDimensions.length > 0 then v.arrayDimensions.take (dimsCount v).toNat
  else [v.arrayLength.toUInt32]

def elements (v : Variant α) : UInt32 :=
  if v.arrayDimensions.length > 0 then (dims v).foldl (· * ·) 1 else 1

/-- The loop that tests the integrity of the range and counts its elements. -/
def testRange : UInt64 → List (RangeDimension × UInt32) → Except StatusCode UInt64
  | count, [] => .ok count
  | count, (r, dim) :: rest =>
      if r.min > r.max then .error badIndexRangeNoData
      else if r.max ≥ dim then .error badIndexRangeInvalid
      else testRange (count * (r.max - r.min + 1).toUInt64) rest

/-- The variables of the last loop of `processRangeDefinition`. -/
structure Search where
  b : UInt64
  s : UInt64
  f : UInt64
  runningDimssize : UInt64
  foundContiguous : Bool

def searchStep (d : RangeDimension × UInt32) (x : Search) : Search :=
  let found := !x.foundContiguous && (d.1.min != 0 || d.1.max + 1 != d.2)
  { b := if found then (d.1.max - d.1.min + 1).toUInt64 * x.runningDimssize else x.b
    s := if found then d.2.toUInt64 * x.runningDimssize else x.s
    f := x.f + x.runningDimssize * d.1.min.toUInt64
    runningDimssize := x.runningDimssize * d.2.toUInt64
    foundContiguous := x.foundContiguous || found }

/-- `none` if the last loop starts behind the range, since there is no
dimension. -/
def processRangeDefinition (v : Variant α) (range : NumericRange) : Option (Except StatusCode Blocks) :=
  if v.arrayDimensions.length > 0 ∧ (elements v).toUInt64 ≠ v.arrayLength then some (.error badInternalError)
  else if range.length ≠ (dimsCount v).toNat then some (.error badIndexRangeInvalid)
  else match testRange 1 (range.zip (dims v)) with
    | .error code => some (.error code)
    | .ok count =>
        if dimsCount v = 0 then none
        else
          let x := (range.zip (dims v)).foldr searchStep ⟨1, (elements v).toUInt64, 0, 1, false⟩
          some (.ok ⟨count, x.b, x.s, x.f⟩)

/-- What the functions use of the type of the elements. `zero` is the value of
zeroed memory, which a failed `UA_copy` leaves behind. -/
structure ElementType (α : Type) where
  fixedSize : Bool
  zero : α

/-- Whether the memory for the elements and for the dimensions is given, and
what the calls of `UA_copy` return. -/
structure Copying where
  memory : Bool
  copy : Nat → StatusCode
  dimensions : Bool

/-- `memcpy` from the blocks. It is `none` if a block does not lie in the
array. -/
def copyBlocks (data : List α) (block stride : Nat) : Nat → Nat → Option (List α)
  | 0, _ => some []
  | n + 1, pos =>
      if pos + block ≤ data.length then
        (copyBlocks data block stride n (pos + stride)).map ((data.drop pos).take block ++ ·)
      else none

/-- `UA_copy` for the elements of a block, up to the first one that fails. -/
def copyElements (copy : Nat → StatusCode) (data : List α) :
    Nat → Nat → StatusCode × List α → Option (StatusCode × List α)
  | 0, _, x => some x
  | n + 1, pos, (retval, copied) =>
      if retval ≠ good then some (retval, copied)
      else match data[pos]? with
        | none => none
        | some a =>
            let code := copy copied.length
            copyElements copy data n (pos + 1) (code, if code = good then copied ++ [a] else copied)

def copyElementBlocks (copy : Nat → StatusCode) (data : List α) (block stride : Nat) :
    Nat → Nat → StatusCode × List α → Option (StatusCode × List α)
  | 0, _, x => some x
  | n + 1, pos, x =>
      (copyElements copy data block pos x).bind (copyElementBlocks copy data block stride n (pos + stride))

/-- `UA_Array_new` for the dimensions. -/
def newDimensions (env : Copying) (size : Nat) : Bool :=
  !(size > maxArraySize || 4 * size > maxArraySize) && env.dimensions

def extents (range : NumericRange) : List UInt32 := range.map (fun r => r.max - r.min + 1)

/-- `UA_Variant_copyRange`, or `none` if it reads outside of the array or
divides by zero. The loop over the dimensions ends within the range, which
has as many: more than `UA_Array_new` gives do not get there. -/
def copyRange (type : ElementType α) (env : Copying) (src : Variant α) (range : NumericRange) :
    Option (Except StatusCode (Variant α)) :=
  match processRangeDefinition src range with
  | none => none
  | some (.error code) => some (.error code)
  | some (.ok r) =>
      if !env.memory then some (.error badOutOfMemory)
      else if r.block = 0 then none
      else
        let blockCount := (r.total / r.block).toNat
        let copied :=
          if type.fixedSize then
            (copyBlocks src.data r.block.toNat r.stride.toNat blockCount r.first.toNat).map (good, ·)
          else copyElementBlocks env.copy src.data r.block.toNat r.stride.toNat blockCount r.first.toNat (good, [])
        match copied with
        | none => none
        | some (retval, data) =>
            if retval ≠ good then some (.error retval)
            else if src.arrayDimensions.length = 0 then some (.ok ⟨data, r.total, []⟩)
            else if !newDimensions env src.arrayDimensions.length then some (.error badOutOfMemory)
            else some (.ok ⟨data, r.total, extents range⟩)

/-- `memcpy` into the blocks, from the given elements one after the other. -/
def writeBlocks (block stride : Nat) : Nat → Nat → List α → List α → Option (List α)
  | 0, _, _, data => some data
  | n + 1, pos, array, data =>
      if pos + block ≤ data.length ∧ block ≤ array.length then
        writeBlocks block stride n (pos + stride) (array.drop block) (overwrite data pos (array.take block))
      else none

/-- `UA_Variant_setRange`. The old elements are deleted before they are
overwritten. -/
def setRange (v : Variant α) (array : List α) (range : NumericRange) : Option (StatusCode × Variant α) :=
  match processRangeDefinition v range with
  | none => none
  | some (.error code) => some (code, v)
  | some (.ok r) =>
      if r.total.toNat ≠ array.length then some (badIndexRangeInvalid, v)
      else if r.block = 0 then none
      else (writeBlocks r.block.toNat r.stride.toNat (r.total / r.block).toNat r.first.toNat array v.data).map
        (fun data => (good, { v with data := data }))

/-- What has become of the array while elements are copied into it. -/
structure Writing (α : Type) where
  retval : StatusCode
  calls : Nat
  array : List α
  data : List α

/-- Every element of a block is deleted and replaced by a copy. -/
def writeElements (type : ElementType α) (copy : Nat → StatusCode) : Nat → Nat → Writing α → Option (Writing α)
  | 0, _, x => some x
  | n + 1, pos, x =>
      match x.array with
      | [] => none
      | a :: array =>
          if pos < x.data.length then
            let code := copy x.calls
            writeElements type copy n (pos + 1)
              ⟨x.retval ||| code, x.calls + 1, array, x.data.set pos (if code = good then a else type.zero)⟩
          else none

def writeElementBlocks (type : ElementType α) (copy : Nat → StatusCode) (block stride : Nat) :
    Nat → Nat → Writing α → Option (Writing α)
  | 0, _, x => some x
  | n + 1, pos, x =>
      (writeElements type copy block pos x).bind (writeElementBlocks type copy block stride n (pos + stride))

def setRangeCopy (type : ElementType α) (copy : Nat → StatusCode) (v : Variant α) (array : List α)
    (range : NumericRange) : Option (StatusCode × Variant α) :=
  match processRangeDefinition v range with
  | none => none
  | some (.error code) => some (code, v)
  | some (.ok r) =>
      if r.total.toNat ≠ array.length then some (badIndexRangeInvalid, v)
      else if r.block = 0 then none
      else
        let blockCount := (r.total / r.block).toNat
        if type.fixedSize then
          (writeBlocks r.block.toNat r.stride.toNat blockCount r.first.toNat array v.data).map
            (fun data => (good, { v with data := data }))
        else
          (writeElementBlocks type copy r.block.toNat r.stride.toNat blockCount r.first.toNat
            ⟨good, 0, array, v.data⟩).map (fun x => (x.retval, { v with data := x.data }))

end OpcUa.VariantRanges
