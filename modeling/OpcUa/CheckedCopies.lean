import OpcUa.DecodedMemory
import OpcUa.DecodedValues
import OpcUa.NodeCopies
import OpcUa.ValueDecoding
import OpcUa.ValueEncoding
import OpcUa.VariantRoundTrips

namespace OpcUa.CheckedCopies

open StatusCodes NodeIds DataTypes Values ValueEncoding NodeCopies
open DecodedMemory (fixedSize fixedMembers)
open ValueDecoding (maxArraySize)
open Readers (joined)

section Copies

/-- `UA_Array_copy`, with memory for everything: `copied` is what the copies
of the elements, of which there are `length`, give together. -/
def arrayCopy {α : Type} (type : DataType) (src : α) (length : Nat) (copied : Except StatusCode α) :
    Except StatusCode α :=
  if length = 0 then .ok src
  else if length > maxArraySize ∨ type.memSize * length > maxArraySize then .error badOutOfMemory
  else if fixedSize type then .ok src
  else copied

def stringCopy (src : UaString) : Except StatusCode UaString :=
  arrayCopy TypeTable.byte src src.length (.ok src)

def nodeIdCopy (src : NodeId) : Except StatusCode NodeId :=
  match src.identifier with
  | .numeric _ => .ok src
  | .string s => (stringCopy s).map fun s => { src with identifier := .string s }
  | .guid _ => .ok src
  | .byteString b => (stringCopy b).map fun b => { src with identifier := .byteString b }

def diagnosticFieldsCopy (src : DiagnosticFields) : Except StatusCode DiagnosticFields :=
  (if flagged src.mask 0x10 then stringCopy src.additionalInfo else .ok none).map fun additionalInfo =>
    { src with additionalInfo := additionalInfo }

def withMask (src copied : DiagnosticFields) : DiagnosticFields := { copied with mask := src.mask }

def diagnosticInfoCopy : DiagnosticInfo → Except StatusCode DiagnosticInfo
  | .plain fields h => (diagnosticFieldsCopy fields).map fun copied => .plain (withMask fields copied) h
  | .nested fields h inner => (joined (diagnosticFieldsCopy fields) (diagnosticInfoCopy inner)).map fun copied =>
      .nested (withMask fields copied.1) h copied.2

/-- The entries of `copyJumpTable` for the simple types. -/
def simpleCopy : (b : Builtin) → b.Carrier → Except StatusCode b.Carrier
  | .string, x | .byteString, x | .xmlElement, x => stringCopy x
  | .nodeId, x => nodeIdCopy x
  | .expandedNodeId, x => (joined (nodeIdCopy x.nodeId) (stringCopy x.namespaceUri)).map fun copied =>
      ⟨copied.1, copied.2, x.serverIndex⟩
  | .localizedText, x => (joined (stringCopy x.locale) (stringCopy x.text)).map fun copied => ⟨copied.1, copied.2⟩
  | .diagnosticInfo, x => diagnosticInfoCopy x
  | _, x => .ok x

def dimensionsCopy (src : List UInt32) : Except StatusCode (List UInt32) :=
  arrayCopy TypeTable.uint32 src src.length (.ok src)

mutual

/-- The jump table of `UA_copy`. Its destination has been zeroed. -/
def copyType : {t : DataType} → Val t → Except StatusCode (Val t)
  | _, .simple (b := b) x => (simpleCopy b x).map .simple
  | _, .struct slots => (copyMembers slots).map .struct
  | _, .encoded typeId encoding body => (joined (nodeIdCopy typeId) (stringCopy body)).map fun copied =>
      .encoded copied.1 encoding copied.2
  | _, .decoded _ type data => (arrayCopy type data 1 (copyType data)).map (.decoded false type)
  | _, .emptyVariant => .ok .emptyVariant
  | _, .scalarVariant type data => (arrayCopy type data 1 (copyType data)).map (.scalarVariant type)
  | _, .arrayVariant type data dimensions =>
      match arrayCopy type data data.length (copyItems data) with
      | .error code => .error code
      | .ok copied => (dimensionsCopy dimensions).map (.arrayVariant type copied)
  | _, .dataValue fields value => (copyType value).map (.dataValue fields)

def copyItems : {t : DataType} → Arr t → Except StatusCode (Arr t)
  | _, .null => .ok .null
  | _, .items vs => (copyElements vs).map .items

def copyElements : {t : DataType} → Vals t → Except StatusCode (Vals t)
  | _, .nil => .ok .nil
  | _, .cons v vs => (joined (copyType v) (copyElements vs)).map fun copied => .cons copied.1 copied.2

/-- `UA_copyNoInit` -/
def copyMembers : {members : Members} → Slots members → Except StatusCode (Slots members)
  | _, .nil => .ok .nil
  | _, .scalar v slots => (joined (copyType v) (copyMembers slots)).map fun copied => .scalar copied.1 copied.2
  | _, .array (t := t) a slots =>
      (joined (arrayCopy t a a.length (copyItems a)) (copyMembers slots)).map fun copied => .array copied.1 copied.2

end

end Copies

section Sizes

/-- `length` elements are within `MAX_ARRAY_SIZE`. -/
def Within (type : DataType) (length : Nat) : Prop := length ≤ maxArraySize ∧ type.memSize * length ≤ maxArraySize

def WithinString (s : UaString) : Prop := s.length ≤ maxArraySize

def WithinId (id : NodeId) : Prop :=
  match id.identifier with
  | .numeric _ | .guid _ => True
  | .string s | .byteString s => WithinString s

def WithinInfo : DiagnosticInfo → Prop
  | .plain fields _ => WithinString fields.additionalInfo
  | .nested fields _ inner => WithinString fields.additionalInfo ∧ WithinInfo inner

def WithinSimple : (b : Builtin) → b.Carrier → Prop
  | .string, x | .byteString, x | .xmlElement, x => WithinString x
  | .nodeId, x => WithinId x
  | .expandedNodeId, x => WithinId x.nodeId ∧ WithinString x.namespaceUri
  | .localizedText, x => WithinString x.locale ∧ WithinString x.text
  | .diagnosticInfo, x => WithinInfo x
  | _, _ => True

mutual

/-- The arrays and strings in the value are within `MAX_ARRAY_SIZE`, and the
types in it are those of the table. -/
def WithinSizes : {t : DataType} → Val t → Prop
  | _, .simple (b := b) x => WithinSimple b x
  | _, .struct slots => WithinSlots slots
  | _, .encoded typeId _ body => WithinId typeId ∧ WithinString body
  | _, .decoded _ type data => type ∈ TypeTable.uaTypes ∧ WithinSizes data
  | _, .emptyVariant => True
  | _, .scalarVariant type data => type ∈ TypeTable.uaTypes ∧ WithinSizes data
  | _, .arrayVariant type data dimensions =>
      type ∈ TypeTable.uaTypes ∧ WithinArr data ∧ Within TypeTable.uint32 dimensions.length
  | _, .dataValue _ value => WithinSizes value

def WithinArr : {t : DataType} → Arr t → Prop
  | _, .null => True
  | t, .items vs => Within t vs.length ∧ WithinVals vs

def WithinVals : {t : DataType} → Vals t → Prop
  | _, .nil => True
  | _, .cons v vs => WithinSizes v ∧ WithinVals vs

def WithinSlots : {members : Members} → Slots members → Prop
  | _, .nil => True
  | _, .scalar v slots => WithinSizes v ∧ WithinSlots slots
  | _, .array a slots => WithinArr a ∧ WithinSlots slots

end

end Sizes

section Success

variable {t : DataType}

theorem simple_plain (b : Builtin) (x : b.Carrier) (h : (b.zeroCopyable || b == .guid) = true) :
    plainSimple b x = true := by
  cases b with
  | diagnosticInfo => cases h
  | _ => rfl

mutual

theorem plainVal_of_fixedSize : {t : DataType} → (v : Val t) → fixedSize t = true → plainVal v = true
  | _, .simple (b := b) x, h => by
      rw [plainVal]
      exact simple_plain b x h
  | _, .struct slots, h => by
      rw [plainVal]
      exact plainSlots_of_fixedSize slots h

theorem plainSlots_of_fixedSize : {members : Members} → (slots : Slots members) → fixedMembers members = true →
    plainSlots slots = true
  | _, .nil, _ => by rw [plainSlots]
  | _, .scalar v slots, h => by
      rw [fixedMembers, Bool.and_eq_true] at h
      rw [plainSlots, plainVal_of_fixedSize v h.1, plainSlots_of_fixedSize slots h.2]
      rfl

end

theorem copyVal_of_fixedSize (h : fixedSize t = true) (v : Val t) : copyVal v = v :=
  (copyVal_eq_iff v).mpr (plainVal_of_fixedSize v h)

theorem copyVals_of_fixedSize (h : fixedSize t = true) (vs : Vals t) : copyVals vs = vs := by
  refine (copyVals_eq_iff vs).mpr ?_
  match vs with
  | .nil => rw [plainVals]
  | .cons v vs =>
      rw [plainVals, plainVal_of_fixedSize v h, (copyVals_eq_iff vs).mp (copyVals_of_fixedSize h vs)]
      rfl

theorem copyArr_of_fixedSize (h : fixedSize t = true) (a : Arr t) : copyArr a = a := by
  cases a with
  | null => rw [copyArr]
  | items vs => rw [copyArr, copyVals_of_fixedSize h vs]

theorem copyArr_of_empty {a : Arr t} (h : a.length = 0) : copyArr a = a := by
  match a, h with
  | .null, _ => rw [copyArr]
  | .items .nil, _ => rw [copyArr, copyVals]

theorem arrayCopy_eq {α : Type} {type : DataType} {src copied : α} {length : Nat}
    (hwithin : length ≠ 0 → Within type length) (hempty : length = 0 → copied = src)
    (hfixed : fixedSize type = true → copied = src) : arrayCopy type src length (.ok copied) = .ok copied := by
  unfold arrayCopy
  by_cases hlength : length = 0
  · rw [if_pos hlength, hempty hlength]
  obtain ⟨hle, hsize⟩ := hwithin hlength
  rw [if_neg hlength, if_neg (by omega)]
  split
  · rename_i h
    rw [hfixed h]
  · rfl

theorem stringCopy_eq {s : UaString} (h : WithinString s) : stringCopy s = .ok s := by
  refine arrayCopy_eq (fun _ => ⟨h, ?_⟩) (fun _ => rfl) fun _ => rfl
  rw [show TypeTable.byte.memSize = 1 from rfl, Nat.one_mul]
  exact h

theorem nodeIdCopy_eq {id : NodeId} (h : WithinId id) : nodeIdCopy id = .ok id := by
  obtain ⟨namespaceIndex, identifier⟩ := id
  cases identifier with
  | numeric | guid => rfl
  | string s | byteString s =>
      have hstring : stringCopy s = .ok s := stringCopy_eq h
      simp only [nodeIdCopy, hstring, Except.map]

theorem diagnosticFieldsCopy_eq {fields : DiagnosticFields} (h : WithinString fields.additionalInfo) :
    diagnosticFieldsCopy fields = .ok (copyDiagnosticFields fields) := by
  rw [diagnosticFieldsCopy, copyDiagnosticFields, stringCopy_eq h]
  split <;> rfl

theorem diagnosticInfoCopy_eq {x : DiagnosticInfo} (h : WithinInfo x) :
    diagnosticInfoCopy x = .ok (copyDiagnosticInfo x) := by
  induction x with
  | plain fields hinner =>
      rw [diagnosticInfoCopy, diagnosticFieldsCopy_eq h]
      rfl
  | nested fields hinner inner ih =>
      rw [diagnosticInfoCopy, diagnosticFieldsCopy_eq h.1, ih h.2]
      rfl

theorem simpleCopy_eq {b : Builtin} {x : b.Carrier} (h : WithinSimple b x) :
    simpleCopy b x = .ok (copySimple b x) := by
  cases b with
  | string | byteString | xmlElement => exact stringCopy_eq h
  | nodeId => exact nodeIdCopy_eq h
  | expandedNodeId =>
      rw [simpleCopy, nodeIdCopy_eq h.1, stringCopy_eq h.2]
      rfl
  | localizedText =>
      rw [simpleCopy, stringCopy_eq h.1, stringCopy_eq h.2]
      rfl
  | diagnosticInfo => exact diagnosticInfoCopy_eq h
  | _ => rfl

theorem within_one (h : t ∈ TypeTable.uaTypes) : Within t 1 := by
  refine ⟨by decide, ?_⟩
  rw [Nat.mul_one]
  exact VariantRoundTrips.memSize_le h

theorem pointeeCopy_eq {data : Val t} (hmem : t ∈ TypeTable.uaTypes) :
    arrayCopy t data 1 (.ok (copyVal data)) = .ok (copyVal data) :=
  arrayCopy_eq (fun _ => within_one hmem) (fun h => nomatch h) fun hfixed => copyVal_of_fixedSize hfixed data

theorem within_length {a : Arr t} (h : WithinArr a) (hlength : a.length ≠ 0) : Within t a.length := by
  cases a with
  | null => exact absurd rfl hlength
  | items vs =>
      rw [WithinArr] at h
      exact h.1

theorem itemsCopy_eq {a : Arr t} (h : WithinArr a) : arrayCopy t a a.length (.ok (copyArr a)) = .ok (copyArr a) :=
  arrayCopy_eq (within_length h) copyArr_of_empty fun hfixed => copyArr_of_fixedSize hfixed a

theorem dimensionsCopy_eq {dimensions : List UInt32} (h : Within TypeTable.uint32 dimensions.length) :
    dimensionsCopy dimensions = .ok dimensions :=
  arrayCopy_eq (fun _ => h) (fun _ => rfl) fun _ => rfl

mutual

/-- Within the sizes no check of `UA_Array_copy` fails. -/
theorem copyType_eq : {t : DataType} → (v : Val t) → WithinSizes v → copyType v = .ok (copyVal v)
  | _, .simple (b := b) x, h => by
      rw [WithinSizes] at h
      rw [copyType, copyVal, simpleCopy_eq h]
      rfl
  | _, .struct slots, h => by
      rw [WithinSizes] at h
      rw [copyType, copyVal, copyMembers_eq slots h]
      rfl
  | _, .encoded typeId encoding body, h => by
      rw [WithinSizes] at h
      rw [copyType, copyVal, nodeIdCopy_eq h.1, stringCopy_eq h.2]
      rfl
  | _, .decoded nodelete type data, h => by
      rw [WithinSizes] at h
      rw [copyType, copyVal, copyType_eq data h.2, pointeeCopy_eq h.1]
      rfl
  | _, .emptyVariant, _ => by rw [copyType, copyVal]
  | _, .scalarVariant type data, h => by
      rw [WithinSizes] at h
      rw [copyType, copyVal, copyType_eq data h.2, pointeeCopy_eq h.1]
      rfl
  | _, .arrayVariant type data dimensions, h => by
      rw [WithinSizes] at h
      rw [copyType, copyVal, copyItems_eq data h.2.1, itemsCopy_eq h.2.1]
      dsimp only
      rw [dimensionsCopy_eq h.2.2]
      rfl
  | _, .dataValue fields value, h => by
      rw [WithinSizes] at h
      rw [copyType, copyVal, copyType_eq value h]
      rfl

theorem copyItems_eq : {t : DataType} → (a : Arr t) → WithinArr a → copyItems a = .ok (copyArr a)
  | _, .null, _ => by rw [copyItems, copyArr]
  | _, .items vs, h => by
      rw [WithinArr] at h
      rw [copyItems, copyArr, copyElements_eq vs h.2]
      rfl

theorem copyElements_eq : {t : DataType} → (vs : Vals t) → WithinVals vs → copyElements vs = .ok (copyVals vs)
  | _, .nil, _ => by rw [copyElements, copyVals]
  | _, .cons v vs, h => by
      rw [WithinVals] at h
      rw [copyElements, copyVals, copyType_eq v h.1, copyElements_eq vs h.2]
      rfl

theorem copyMembers_eq : {members : Members} → (slots : Slots members) → WithinSlots slots →
    copyMembers slots = .ok (copySlots slots)
  | _, .nil, _ => by rw [copyMembers, copySlots]
  | _, .scalar v slots, h => by
      rw [WithinSlots] at h
      rw [copyMembers, copySlots, copyType_eq v h.1, copyMembers_eq slots h.2]
      rfl
  | _, .array a slots, h => by
      rw [WithinSlots] at h
      rw [copyMembers, copySlots, copyItems_eq a h.1, itemsCopy_eq h.1, copyMembers_eq slots h.2]
      rfl

end

end Success

section Encodings

theorem diagnosticInfo_encodes (x : DiagnosticInfo) :
    diagnosticInfoEncodeBinary (copyDiagnosticInfo x) = diagnosticInfoEncodeBinary x := by
  have hfields : ∀ fields, diagnosticFieldsEncodeBinary (copyDiagnosticFields fields) =
      diagnosticFieldsEncodeBinary fields := by
    intro fields
    simp only [diagnosticFieldsEncodeBinary, copyDiagnosticFields]
    cases flagged fields.mask 0x10 <;> rfl
  induction x with
  | plain fields h => exact hfields fields
  | nested fields h inner ih =>
      simp only [copyDiagnosticInfo, diagnosticInfoEncodeBinary, ih, hfields]

theorem simple_encodes (b : Builtin) (x : b.Carrier) :
    simpleEncodeBinary b (copySimple b x) = simpleEncodeBinary b x := by
  cases b with
  | diagnosticInfo => exact diagnosticInfo_encodes x
  | _ => rfl

theorem simple_image (b : Builtin) (x : b.Carrier) : simpleImage b (copySimple b x) = simpleImage b x := by
  cases b <;> rfl

mutual

theorem image_copyVal : {t : DataType} → (v : Val t) → image (copyVal v) = image v
  | _, .simple (b := b) x => by
      rw [copyVal, image, image]
      exact simple_image b x
  | _, .struct slots => by rw [copyVal, image, image, image_copySlots slots]
  | _, .encoded _ _ _ => by rw [copyVal]
  | _, .emptyVariant => by rw [copyVal]
  | _, .decoded _ _ _ | _, .scalarVariant _ _ | _, .arrayVariant _ _ _ | _, .dataValue _ _ => by
      rw [copyVal]
      rfl

theorem image_copySlots : {members : Members} → (slots : Slots members) → imageSlots
    (copySlots slots) = imageSlots slots
  | _, .nil => by rw [copySlots]
  | _, .scalar v slots => by rw [copySlots, imageSlots, imageSlots, image_copyVal v, image_copySlots slots]
  | _, .array a slots => by rw [copySlots, imageSlots, imageSlots, image_copySlots slots]

end

variable {t : DataType}

theorem image_copyVals (vs : Vals t) : imageVals (copyVals vs) = imageVals vs := by
  match vs with
  | .nil => rw [copyVals]
  | .cons v vs => rw [copyVals, imageVals, imageVals, image_copyVal v, image_copyVals vs]

theorem length_copyVals (vs : Vals t) : (copyVals vs).length = vs.length := by
  match vs with
  | .nil => rw [copyVals]
  | .cons v vs => rw [copyVals, Vals.length, Vals.length, length_copyVals vs]

theorem arrayLengthBytes_copyArr (a : Arr t) : arrayLengthBytes (copyArr a) = arrayLengthBytes a := by
  cases a with
  | null => rw [copyArr]
  | items vs => rw [copyArr, arrayLengthBytes, arrayLengthBytes, length_copyVals]

mutual

/-- The encoder looks neither at who deletes a content nor at a text that is
not announced. -/
theorem encode_copyVal : {t : DataType} → (v : Val t) → encodeBinary (copyVal v) = encodeBinary v
  | _, .simple (b := b) x => by
      rw [copyVal, encodeBinary, encodeBinary]
      exact simple_encodes b x
  | _, .struct slots => by rw [copyVal, encodeBinary, encodeBinary, encode_copySlots slots]
  | _, .encoded _ _ _ => by rw [copyVal]
  | _, .decoded _ type data => by rw [copyVal, encodeBinary, encodeBinary, encode_copyVal data]
  | _, .emptyVariant => by rw [copyVal]
  | _, .scalarVariant type data => by rw [copyVal, encodeBinary, encodeBinary, encode_copyVal data]
  | _, .arrayVariant type data dimensions => by
      rw [copyVal, encodeBinary, encodeBinary, encode_copyArr data, arrayLengthBytes_copyArr]
  | _, .dataValue fields value => by rw [copyVal, encodeBinary, encodeBinary, encode_copyVal value]

theorem encode_copyArr : {t : DataType} → (a : Arr t) → encodeArr (copyArr a) = encodeArr a
  | _, .null => by rw [copyArr]
  | _, .items vs => by rw [copyArr, encodeArr, encodeArr, encode_copyVals vs]

theorem encode_copyVals : {t : DataType} → (vs : Vals t) → encodeVals (copyVals vs) = encodeVals vs
  | _, .nil => by rw [copyVals]
  | _, .cons v vs => by rw [copyVals, encodeVals, encodeVals, encode_copyVal v, encode_copyVals vs]

theorem encode_copySlots : {members : Members} → (slots : Slots members) →
    encodeMembers (copySlots slots) = encodeMembers slots
  | _, .nil => by rw [copySlots]
  | _, .scalar v slots => by
      rw [copySlots, encodeMembers, encodeMembers, encode_copyVal v, encode_copySlots slots]
  | _, .array .null slots => by
      rw [copySlots, copyArr, encodeMembers, encodeMembers, encode_copySlots slots]
  | _, .array (.items vs) slots => by
      rw [copySlots, copyArr, encodeMembers, encodeMembers, encode_copySlots slots, length_copyVals, image_copyVals,
        encode_copyVals vs]

end

theorem uaEncode_copyVal (v : Val t) : uaEncodeBinary (copyVal v) = uaEncodeBinary v := by
  cases v with
  | @simple _ b x =>
      rw [copyVal]
      cases b with
      | diagnosticInfo => exact simple_encodes .diagnosticInfo x
      | _ => rfl
  | _ => exact encode_copyVal _

/-- Copying succeeds, and at every place of every buffer the copy is encoded
as the original is. -/
theorem copy_encodes (v : Val t) (h : WithinSizes v) :
    ∃ copied, copyType v = .ok copied ∧ uaEncodeBinary copied = uaEncodeBinary v ∧
      encodeBinary copied = encodeBinary v :=
  ⟨copyVal v, copyType_eq v h, uaEncode_copyVal v, encode_copyVal v⟩

def sampleMatrix : Val .variant :=
  .arrayVariant .extensionObject
    (.items (.cons (.decoded true TypeTable.localizedText (.simple ⟨some [0x65, 0x6e], none⟩))
      (.cons (.encoded (numericId 0 1) .nobody none) .nil))) [2, 1]

theorem copy_encodes_sampleMatrix :
    WithinSizes sampleMatrix ∧ ∃ copied, copyType sampleMatrix = .ok copied ∧
      uaEncodeBinary copied = uaEncodeBinary sampleMatrix ∧ encodeBinary copied = encodeBinary sampleMatrix := by
  have hobject : DataType.extensionObject ∈ TypeTable.uaTypes := DecodedValues.wireType_mem (by decide : 21 ≤ 24)
  have htext : TypeTable.localizedText ∈ TypeTable.uaTypes := DecodedValues.wireType_mem (by decide : 20 ≤ 24)
  have hsizes : WithinSizes sampleMatrix := by
    unfold sampleMatrix
    simp only [WithinSizes, WithinArr, WithinVals, WithinSimple, WithinId, WithinString, Within]
    exact ⟨hobject, ⟨by decide, ⟨htext, by decide⟩, ⟨trivial, by decide⟩, trivial⟩, by decide⟩
  exact ⟨hsizes, copy_encodes sampleMatrix hsizes⟩

end Encodings

end OpcUa.CheckedCopies
