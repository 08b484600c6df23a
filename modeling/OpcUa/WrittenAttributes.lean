import OpcUa.AttributeWrites
import OpcUa.SubTypes
import OpcUa.ValueReading

namespace OpcUa.WrittenAttributes

open StatusCodes LittleEndian NodeIds DataTypes Values VariantRanges AddressSpaces References ValueRanges ValueEncoding
open WritePrograms EncoderPrograms ValueReading AttributeReads AttributeWrites
open SubTypes (plainNode)

section Contents

def content : Val .variant → List UInt8
  | .emptyVariant => []
  | .scalarVariant _ data => wireOf data
  | .arrayVariant _ data _ => arrayLengthBytes data ++ (arrProgs data).flatMap wire

/-- The two types have one representation in memory: an enumeration and an
`Int32`, an opaque type and a byte string. -/
def Equivalent (t t' : DataType) : Prop := typeEquivalence t ≠ .distinct ∧ typeEquivalence t = typeEquivalence t'

/-- The new value under the type of the old one. -/
structure Retyped (old new value : Val .variant) : Prop where
  types : ∃ t t', typeOf old = some t ∧ typeOf new = some t' ∧ typeOf value = some t ∧
    (Equivalent t t' ∨ t = TypeTable.byte ∧ t' = TypeTable.byteString)
  content : content value = content new
  dimensions : dimensionsOf value = dimensionsOf new

variable {t t' : DataType}

section Enumerations

theorem enumeration_cases (ht : typeEquivalence t = .enumeration) (hflat : flat t = true) :
    (∃ typeId, t = .simple typeId .int32) ∨ ∃ info, t = .structure info (.scalar TypeTable.int32 .nil) := by
  match t, ht, hflat with
  | .simple typeId .int32, _, _ => exact .inl ⟨typeId, rfl⟩
  | .structure info (.scalar t .nil), ht, _ =>
      by_cases h : t = TypeTable.int32
      · exact .inr ⟨info, by rw [h]⟩
      · rw [typeEquivalence, if_neg h] at ht
        cases ht

theorem wireOf_enumeration (ht : typeEquivalence t = .enumeration) (hflat : flat t = true) (data : Val t) :
    ∃ x : UInt32, wireOf data = toBytes 4 x.toNat := by
  rcases enumeration_cases ht hflat with ⟨typeId, rfl⟩ | ⟨info, rfl⟩
  · cases data with
    | simple x => exact ⟨x, rfl⟩
  · cases data with
    | struct slots =>
        match slots with
        | .scalar (.simple x) .nil => exact ⟨x,
          by rw [wireOf, valProg, slotsProg, slotsProg, valProg]; exact List.append_nil _⟩

theorem wireOf_ofImage (ht : typeEquivalence t = .enumeration) (hflat : flat t = true) (x : UInt32) :
    wireOf (ofImage t (toBytes 4 x.toNat)) = toBytes 4 x.toNat := by
  have hx : simpleOfImage .int32 (toBytes 4 x.toNat) = x := by
    have h := simpleOfImage_simpleImage .int32 x [] rfl
    rwa [List.append_nil] at h
  rcases enumeration_cases ht hflat with ⟨typeId, rfl⟩ | ⟨info, rfl⟩
  · rw [ofImage, hx]
    rfl
  · rw [ofImage, ofImageMembers, ofImageMembers, ofImage, hx, wireOf, valProg, slotsProg, slotsProg, valProg]
    exact List.append_nil _

end Enumerations

section Strings

theorem length_listVals (vs : List (Val t)) : (listVals vs).length = vs.length := by
  induction vs with
  | nil => rfl
  | cons v vs ih => rw [listVals, Vals.length, ih, List.length_cons]

theorem itemsWire_listVals (vs : List (Val t)) : itemsWire (listVals vs) = vs.flatMap wireOf := by
  induction vs with
  | nil => rfl
  | cons v vs ih => rw [listVals, itemsWire_cons, ih, List.flatMap_cons]

theorem listVals_valsList : (vs : Vals t) → listVals (valsList vs) = vs
  | .nil => rfl
  | .cons v vs => by rw [valsList, listVals, listVals_valsList vs]

theorem content_items (dimensions : List UInt32) (vs : List (Val t)) :
    content (.arrayVariant t (.items (listVals vs)) dimensions) = lengthBytes vs.length ++ vs.flatMap wireOf := by
  rw [content, arrayLengthBytes, length_listVals, ← itemsWire_listVals]
  rfl

theorem length_byteVals (bytes : List UInt8) :
    (bytes.map (fun x => (.simple x : Val TypeTable.byte))).length = bytes.length := List.length_map _

theorem flatMap_byteVals (bytes : List UInt8) :
    (bytes.map (fun x => (.simple x : Val TypeTable.byte))).flatMap wireOf = bytes := by
  induction bytes with
  | nil => rfl
  | cons b bytes ih =>
      rw [List.map_cons, List.flatMap_cons, ih]
      rfl

theorem content_byteArray (s : UaString) :
    content (.arrayVariant TypeTable.byte (byteArray s) []) = wire (stringProg s) := by
  match s with
  | none => rfl
  | some [] => rfl
  | some (b :: bytes) =>
      have hitems := content_items [] ((b :: bytes).map (fun x => (.simple x : Val TypeTable.byte)))
      rw [length_byteVals, flatMap_byteVals] at hitems
      exact hitems

theorem map_byteVals {f : Val TypeTable.byte → UInt8} (hf : ∀ v, (.simple (f v) : Val TypeTable.byte) = v)
    (vs : List (Val TypeTable.byte)) : (vs.map f).map (fun x => (.simple x : Val TypeTable.byte)) = vs := by
  rw [List.map_map]
  exact (List.map_congr_left (fun v _ => hf v)).trans (List.map_id vs)

theorem byteArray_arrayBytes (a : Arr TypeTable.byte) : byteArray (arrayBytes a) = a := by
  cases a with
  | null => rfl
  | items vs =>
      refine congrArg Arr.items ((congrArg listVals (map_byteVals ?_ (valsList vs))).trans (listVals_valsList vs))
      intro v
      cases v with
      | simple x => rfl

theorem wireOf_opaqueStruct {info : StructInfo} (a : Arr TypeTable.byte) :
    wireOf (.struct (.array a .nil) : Val (.structure info (.array TypeTable.byte .nil))) =
      content (.arrayVariant TypeTable.byte a []) := by
  cases a with
  | null => rfl
  | items vs =>
      rw [wireOf, valProg, slotsProg, slotsProg]
      exact (List.append_nil _).trans (wire_arrayProg _ vs)

theorem wireOf_stringContent {data : Val t} {s : UaString} (h : stringContent t data = some s) :
    wireOf data = wire (stringProg s) := by
  match t, data, h with
  | .simple _ .string, .simple _, h | .simple _ .byteString, .simple _, h | .simple _ .xmlElement, .simple _, h =>
      cases h
      rfl
  | .structure info (.array t .nil), .struct (.array a .nil), h =>
      by_cases ht : t = TypeTable.byte
      · subst ht
        change (if h : TypeTable.byte = TypeTable.byte then some (arrayBytes (h ▸ a)) else none) = some s at h
        rw [dif_pos rfl] at h
        cases h
        rw [wireOf_opaqueStruct, ← content_byteArray, byteArray_arrayBytes]
      · change (if h : t = TypeTable.byte then some (arrayBytes (h ▸ a)) else none) = some s at h
        rw [dif_neg ht] at h
        cases h

theorem wireOf_ofStringContent {s : UaString} {data : Val t} (h : ofStringContent t s = some data) :
    wireOf data = wire (stringProg s) := by
  match t, data, h with
  | .simple _ .string, _, h | .simple _ .byteString, _, h | .simple _ .xmlElement, _, h =>
      cases h
      rfl
  | .structure info (.array t .nil), data, h =>
      by_cases ht : t = TypeTable.byte
      · subst ht
        change (if h : TypeTable.byte = TypeTable.byte then
          some (Val.struct (.array (h ▸ byteArray s) .nil)) else none) = some data at h
        rw [dif_pos rfl] at h
        cases h
        rw [wireOf_opaqueStruct, content_byteArray]
      · change (if h : t = TypeTable.byte then some (Val.struct (.array (h ▸ byteArray s) .nil)) else none) =
          some data at h
        rw [dif_neg ht] at h
        cases h

end Strings

section Casts

theorem wireOf_retype {data : Val t} {data' : Val t'} (ht : typeEquivalence t = typeEquivalence t')
    (h : retype t' data = some data') : wireOf data' = wireOf data := by
  rw [retype] at h
  split at h
  · cases h
  · rename_i henum
    split at h
    · rename_i hflat
      obtain ⟨hflat, hflat'⟩ := Bool.and_eq_true_iff.mp hflat
      cases h
      obtain ⟨x, hx⟩ := wireOf_enumeration henum hflat data
      rw [image_eq_wireOf data hflat, hx, wireOf_ofImage (ht ▸ henum) hflat']
    · cases h
  · obtain ⟨s, hs, hs'⟩ := Option.bind_eq_some_iff.mp h
    rw [wireOf_ofStringContent hs', wireOf_stringContent hs]

theorem flatMap_retype (ht : typeEquivalence t = typeEquivalence t') {vs : List (Val t)} {vs' : List (Val t')}
    (h : vs.mapM (retype t') = some vs') : vs'.length = vs.length ∧ vs'.flatMap wireOf = vs.flatMap wireOf := by
  induction vs generalizing vs' with
  | nil =>
      cases h
      exact ⟨rfl, rfl⟩
  | cons v vs ih =>
      rw [List.mapM_cons] at h
      obtain ⟨v', hv, h⟩ := Option.bind_eq_some_iff.mp h
      obtain ⟨rest, hrest, h⟩ := Option.bind_eq_some_iff.mp h
      cases h
      obtain ⟨hlength, hwire⟩ := ih hrest
      refine ⟨congrArg (· + 1) hlength, ?_⟩
      rw [List.flatMap_cons, List.flatMap_cons, wireOf_retype ht hv, hwire]

theorem retyped_variant {new value : Val .variant} (hnew : typeOf new = some t)
    (ht : typeEquivalence t = typeEquivalence t') (h : retypeVariant t' new = some value) :
    typeOf value = some t' ∧ content value = content new ∧ dimensionsOf value = dimensionsOf new := by
  cases new with
  | emptyVariant => cases hnew
  | scalarVariant type data =>
      cases hnew
      obtain ⟨data', hdata, rfl⟩ := Option.map_eq_some_iff.mp h
      exact ⟨rfl, wireOf_retype ht hdata, rfl⟩
  | arrayVariant type data dimensions =>
      cases hnew
      cases data with
      | null =>
          cases h
          exact ⟨rfl, rfl, rfl⟩
      | items vs =>
          obtain ⟨elements, helements, rfl⟩ := Option.map_eq_some_iff.mp h
          obtain ⟨hlength, hwire⟩ := flatMap_retype ht helements
          refine ⟨rfl, ?_, rfl⟩
          rw [content_items, hlength, hwire, ← content_items dimensions, listVals_valsList]

/-- A byte string without bytes is written to an array of bytes, and becomes
the byte behind its pointer. -/
structure TakenForByte (pointed : Option UInt8) (old new value : Val .variant) : Prop where
  type : typeOf old = some TypeTable.byte
  array : isScalar old = false
  empty : new = .scalarVariant TypeTable.byteString (.simple (b := .byteString) (some []))
  byte : ∃ b, pointed = some b ∧ value = byteVariant b

theorem bytesVariant_cases (pointed : Option UInt8) (s : UaString) :
    (∃ b, s = some [] ∧ pointed = some b ∧ bytesVariant pointed s = byteVariant b) ∨
      bytesVariant pointed s = .arrayVariant TypeTable.byte (byteArray s) [] := by
  unfold bytesVariant
  split
  · next b => exact .inl ⟨b, rfl, rfl, rfl⟩
  · exact .inr rfl

theorem castValue_ok {pointed : Option UInt8} {old new value : Val .variant}
    (h : castValue pointed old new = some (.ok value)) :
    (value = new ∧ ∃ t t', typeOf old = some t ∧ typeOf new = some t' ∧ nodeIdEqual t.typeId t'.typeId = true) ∨
      Retyped old new value ∨ TakenForByte pointed old new value := by
  rw [castValue] at h
  split at h
  · rename_i t t' ht ht'
    split at h
    · rename_i hid
      cases h
      exact .inl ⟨rfl, t, t', ht, ht', hid⟩
    · split at h
      · rename_i hequivalent
        obtain ⟨retyped, hretyped, heq⟩ := Option.map_eq_some_iff.mp h
        cases heq
        obtain ⟨htype, hcontent, hdimensions⟩ := retyped_variant ht' hequivalent.2.symm hretyped
        exact .inr (.inl ⟨⟨t, t', ht, ht', htype, .inl hequivalent⟩, hcontent, hdimensions⟩)
      · split at h
        · rename_i hbytes
          obtain ⟨hbyte, harray, hstring, _⟩ := hbytes
          obtain ⟨elements, helements, heq⟩ := Option.map_eq_some_iff.mp h
          cases heq
          cases new with
          | scalarVariant type data =>
              obtain ⟨s, hs, rfl⟩ := Option.map_eq_some_iff.mp helements
              rcases bytesVariant_cases pointed s with ⟨b, rfl, rfl, hvalue⟩ | hvalue
              · cases ht'
                subst hstring
                subst hbyte
                cases data with
                | simple x =>
                    cases hs
                    exact .inr (.inr ⟨ht, harray, rfl, b, rfl, hvalue⟩)
              · rw [hvalue]
                refine .inr (.inl ⟨⟨t, t', ht, ht', by rw [hbyte]; rfl, .inr ⟨hbyte, hstring⟩⟩, ?_, rfl⟩)
                rw [content_byteArray, content, wireOf_stringContent hs]
          | _ => cases helements
        · cases h
  · cases h

theorem castValue_byte {old : Val .variant} {b : UInt8} (htype : typeOf old = some TypeTable.byte)
    (harray : isScalar old = false) :
    castValue (some b) old (.scalarVariant TypeTable.byteString (.simple (b := .byteString) (some []))) =
      some (.ok (byteVariant b)) := by
  have hids : ¬ nodeIdEqual TypeTable.byte.typeId TypeTable.byteString.typeId = true := by decide
  have hequivalent : ¬ (typeEquivalence TypeTable.byte ≠ .distinct ∧
      typeEquivalence TypeTable.byte = typeEquivalence TypeTable.byteString) := by decide
  have hbytes : TypeTable.byte = TypeTable.byte ∧ isScalar old = false ∧
      TypeTable.byteString = TypeTable.byteString ∧
      isScalar (.scalarVariant TypeTable.byteString (.simple (b := .byteString) (some []))) = true :=
    ⟨rfl, harray, rfl, rfl⟩
  rw [castValue, htype]
  dsimp only [typeOf]
  rw [if_neg hids, if_neg hequivalent, if_pos hbytes]
  rfl

theorem castValue_error {pointed : Option UInt8} {old new : Val .variant} {code : StatusCode}
    (h : castValue pointed old new = some (.error code)) : code = badTypeMismatch := by
  rw [castValue] at h
  split at h
  · split at h
    · cases h
    · split at h
      · obtain ⟨_, _, heq⟩ := Option.map_eq_some_iff.mp h
        cases heq
      · split at h
        · obtain ⟨_, _, heq⟩ := Option.map_eq_some_iff.mp h
          cases heq
        · cases h
          rfl
  · cases h

end Casts

end Contents

section Checks

variable {v : DataValue}

theorem checkDatatype_ok {type : DataType} {data : Val type} (h : checkDatatype type v = .ok data) :
    v.value = .scalarVariant type data := by
  rw [checkDatatype] at h
  split at h
  · rename_i t written hvalue
    split at h
    · rename_i htype
      subst htype
      split at h
      · cases h
        exact hvalue
      · cases h
    · cases h
  · cases h

variable {β : Type} {y : β}

theorem map_ok {ε α : Type} {x : Except ε α} {f : α → β} (h : x.map f = .ok y) : ∃ z, x = .ok z ∧ f z = y := by
  cases x with
  | error code => cases h
  | ok z =>
      cases h
      exact ⟨z, rfl, rfl⟩

theorem map_checkDatatype {type : DataType} {α : Type} {read : Val type → α} {f : α → β}
    (h : ((checkDatatype type v).map read).map f = .ok y) :
    ∃ data, v.value = .scalarVariant type data ∧ f (read data) = y := by
  obtain ⟨_, hread, rfl⟩ := map_ok h
  obtain ⟨data, hdata, rfl⟩ := map_ok hread
  exact ⟨data, checkDatatype_ok hdata, rfl⟩

theorem map_simpleData (typeId : NodeId) (b : Builtin) {f : b.Carrier → β}
    (h : ((checkDatatype (.simple typeId b) v).map simpleData).map f = .ok y) :
    ∃ x, v.value = .scalarVariant (.simple typeId b) (.simple x) ∧ f x = y := by
  obtain ⟨data, hvalue, hy⟩ := map_checkDatatype h
  cases data with
  | simple x => exact ⟨x, hvalue, hy⟩

theorem checkBoolean_ok {f : UInt8 → β} (h : (checkBoolean v).map f = .ok y) :
    ∃ x, v.value = booleanVariant x ∧ f x = y := map_simpleData (numericId 0 1) .boolean h

theorem checkByte_ok {f : UInt8 → β} (h : (checkByte v).map f = .ok y) :
    ∃ x, v.value = byteVariant x ∧ f x = y := map_simpleData (numericId 0 3) .byte h

theorem checkUInt32_ok {f : UInt32 → β} (h : (checkUInt32 v).map f = .ok y) :
    ∃ x, v.value = uint32Variant x ∧ f x = y := map_simpleData (numericId 0 7) .uint32 h

theorem checkDouble_ok {f : UInt64 → β} (h : (checkDouble v).map f = .ok y) :
    ∃ x, v.value = doubleVariant x ∧ f x = y := map_simpleData (numericId 0 11) .double h

theorem checkLocalizedText_ok {f : LocalizedText → β} (h : (checkLocalizedText v).map f = .ok y) :
    ∃ x, v.value = localizedTextVariant x ∧ f x = y := map_simpleData (numericId 0 21) .localizedText h

theorem checkQualifiedName_ok {f : QualifiedName → β} (h : (checkQualifiedName v).map f = .ok y) :
    ∃ x, v.value = qualifiedNameVariant x ∧ f x = y := by
  obtain ⟨data, hvalue, hy⟩ := map_checkDatatype h
  match data, hvalue, hy with
  | .struct (.scalar (.simple namespaceIndex) (.scalar (.simple name) .nil)), hvalue, hy =>
      exact ⟨⟨namespaceIndex, name⟩, hvalue, hy⟩

section Refusals

def Refuses {α : Type} (x : Except StatusCode α) : Prop := ∀ code, x = .error code → code ≠ good

theorem refuses_error {α : Type} {code : StatusCode} (h : code ≠ good) :
    Refuses (.error code : Except StatusCode α) := by
  intro code' heq
  cases heq
  exact h

theorem Refuses.map {α : Type} {x : Except StatusCode α} (h : Refuses x) (f : α → β) : Refuses (x.map f) := by
  intro code heq
  cases x with
  | error code' =>
      cases heq
      exact h code rfl
  | ok y => cases heq

theorem refuses_checkDatatype (type : DataType) : Refuses (checkDatatype type v) := by
  have hmismatch : Refuses (.error badTypeMismatch : Except StatusCode (Val type)) := refuses_error (by decide)
  rw [checkDatatype]
  split
  · split
    · split
      · exact nofun
      · exact hmismatch
    · exact hmismatch
  · exact hmismatch

theorem refuses_bodyEdit (body : Body) (a : AttributeId) : Refuses (bodyEdit v body a) := by
  cases a <;> cases body <;> first
    | exact refuses_error (by decide)
    | exact ((refuses_checkDatatype _).map _).map _

theorem refuses_membersEdit {n : NodeMembers} {a : AttributeId} : Refuses (membersEdit v n a) := by
  cases a with
  | nodeId | nodeClass | dataType | value | valueRank | arrayDimensions => exact refuses_error (by decide)
  | browseName | displayName | description | writeMask | userWriteMask =>
      exact ((refuses_checkDatatype _).map _).map _
  | _ => exact (refuses_bodyEdit _ _).map _

end Refusals

end Checks

section Members

def withMembers (n : Node) (members : NodeMembers) : Node := { n with toNodeMembers := members }

def sourceOf (n : Node) : Option ValueSource := (valueMembers n.body).map (·.value)

/-- The attribute has the new value, all others are as they were. -/
structure OnlyWrites (n n' : Node) (a : AttributeId) (value : Val .variant) : Prop where
  nodeId : n'.nodeId = n.nodeId
  source : sourceOf n' = sourceOf n
  written : memberVariant n' a = some value
  others : ∀ b, b ≠ a → memberVariant n' b = memberVariant n b

variable {v : DataValue} {n : Node} {members : NodeMembers} {a : AttributeId}

/-- The node is a variable type, and the byte was not the low byte of its value
rank before. -/
def OverwritesRank (n : Node) (v : DataValue) : Prop :=
  ∃ members isAbstract x, n.body = .variableType members isAbstract ∧ v.value = booleanVariant x ∧
    x ≠ members.valueRank.toUInt8

theorem getLsbD_lowMask (i : Nat) (h : i < 32) : (0xFFFFFF00 : UInt32).toBitVec.getLsbD i = decide (8 ≤ i) := by
  revert i
  decide

theorem toUInt8_setLowByte (x : UInt32) (b : UInt8) : (setLowByte x b).toUInt8 = b := by
  apply UInt8.toBitVec_inj.mp
  apply BitVec.eq_of_getLsbD_eq
  intro i hi
  have hmask := getLsbD_lowMask i (by omega)
  rw [setLowByte, UInt32.toBitVec_toUInt8, BitVec.getLsbD_setWidth, UInt32.toBitVec_or, UInt32.toBitVec_and,
    BitVec.getLsbD_or, BitVec.getLsbD_and, hmask, UInt8.toBitVec_toUInt32, BitVec.getLsbD_setWidth]
  simp [hi, show ¬ 8 ≤ i by omega, show i < 32 by omega]

theorem setLowByte_toUInt8 (x : UInt32) : setLowByte x x.toUInt8 = x := by
  apply UInt32.toBitVec_inj.mp
  apply BitVec.eq_of_getLsbD_eq
  intro i hi
  rw [setLowByte, UInt32.toBitVec_or, UInt32.toBitVec_and, BitVec.getLsbD_or, BitVec.getLsbD_and, getLsbD_lowMask i hi,
    UInt8.toBitVec_toUInt32, UInt32.toBitVec_toUInt8, BitVec.getLsbD_setWidth, BitVec.getLsbD_setWidth]
  by_cases hlow : i < 8
  · simp [hi, hlow, show ¬ 8 ≤ i by omega]
  · simp [hlow, show 8 ≤ i by omega]

theorem bodyEdit_onlyWrites {nodeMembers : NodeMembers} {nodeId : NodeId} {body : Body}
    (h : bodyEdit v nodeMembers.body a = .ok body) (hrank : a = .isAbstract →
    ¬ OverwritesRank ⟨nodeMembers, nodeId⟩ v) :
    OnlyWrites ⟨nodeMembers, nodeId⟩ ⟨{ nodeMembers with body := body }, nodeId⟩ a v.value := by
  obtain ⟨browseName, displayName, description, writeMask, userWriteMask, references, old⟩ := nodeMembers
  cases a with
  | isAbstract =>
      cases old with
      | variableType members isAbstract =>
          obtain ⟨x, hx, rfl⟩ := checkBoolean_ok h
          have hlow : x = members.valueRank.toUInt8 := by
            by_contra hne
            exact hrank rfl ⟨members, isAbstract, x, rfl, hx, hne⟩
          rw [hx, hlow, setLowByte_toUInt8]
          exact ⟨rfl, rfl, rfl, fun b _ => rfl⟩
      | objectType | referenceType | dataType =>
          obtain ⟨x, hx, rfl⟩ := checkBoolean_ok h
          rw [hx]
          exact ⟨rfl, rfl, rfl, fun b hb => by cases b <;> first | rfl | exact absurd rfl hb⟩
      | _ => cases h
  | symmetric | containsNoLoops | historizing | executable | userExecutable =>
      cases old <;> first
        | cases h
        | obtain ⟨x, hx, rfl⟩ := checkBoolean_ok h
          rw [hx]
          exact ⟨rfl, rfl, rfl, fun b hb => by cases b <;> first | rfl | exact absurd rfl hb⟩
  | eventNotifier | accessLevel | userAccessLevel =>
      cases old <;> first
        | cases h
        | obtain ⟨x, hx, rfl⟩ := checkByte_ok h
          rw [hx]
          exact ⟨rfl, rfl, rfl, fun b hb => by cases b <;> first | rfl | exact absurd rfl hb⟩
  | minimumSamplingInterval =>
      cases old <;> first
        | cases h
        | obtain ⟨x, hx, rfl⟩ := checkDouble_ok h
          rw [hx]
          exact ⟨rfl, rfl, rfl, fun b hb => by cases b <;> first | rfl | exact absurd rfl hb⟩
  | inverseName =>
      cases old <;> first
        | cases h
        | obtain ⟨x, hx, rfl⟩ := checkLocalizedText_ok h
          rw [hx]
          exact ⟨rfl, rfl, rfl, fun b hb => by cases b <;> first | rfl | exact absurd rfl hb⟩
  | _ => cases h

/-- Whatever is written into a member is read from it, and the other members
stay as they are. -/
theorem membersEdit_onlyWrites (ha : a ≠ .value) (h : membersEdit v n.toNodeMembers a = .ok members)
    (hrank : a = .isAbstract → ¬ OverwritesRank n v) : OnlyWrites n (withMembers n members) a v.value := by
  have hbody : (bodyEdit v n.body a).map (fun body => { n.toNodeMembers with body := body }) = .ok members →
      OnlyWrites n (withMembers n members) a v.value := by
    intro h
    obtain ⟨body, hedit, rfl⟩ := map_ok h
    exact bodyEdit_onlyWrites hedit hrank
  cases a with
  | nodeId | nodeClass | dataType => cases h
  | browseName =>
      obtain ⟨x, hx, rfl⟩ := checkQualifiedName_ok h
      rw [hx]
      exact ⟨rfl, rfl, rfl, fun b hb => by cases b <;> first | rfl | exact absurd rfl hb⟩
  | displayName | description =>
      obtain ⟨x, hx, rfl⟩ := checkLocalizedText_ok h
      rw [hx]
      exact ⟨rfl, rfl, rfl, fun b hb => by cases b <;> first | rfl | exact absurd rfl hb⟩
  | writeMask | userWriteMask =>
      obtain ⟨x, hx, rfl⟩ := checkUInt32_ok h
      rw [hx]
      exact ⟨rfl, rfl, rfl, fun b hb => by cases b <;> first | rfl | exact absurd rfl hb⟩
  | value => exact absurd rfl ha
  | _ => exact hbody h

theorem isAbstract_valueRank (hrank : OverwritesRank n v)
    (h : membersEdit v n.toNodeMembers .isAbstract = .ok members) :
    ∃ old new, old ≠ new ∧ memberVariant n .valueRank = some (int32Variant old) ∧
      memberVariant (withMembers n members) .valueRank = some (int32Variant new) := by
  obtain ⟨valueMembers, isAbstract, x, hbody, hx, hne⟩ := hrank
  obtain ⟨⟨browseName, displayName, description, writeMask, userWriteMask, references, body⟩, nodeId⟩ := n
  cases hbody
  obtain ⟨_, hedit, rfl⟩ := map_ok h
  obtain ⟨y, hy, rfl⟩ := checkBoolean_ok hedit
  cases hx.symm.trans hy
  refine ⟨_, _, ?_, rfl, rfl⟩
  intro hsame
  have hlow : (setLowByte valueMembers.valueRank x).toUInt8 = x := toUInt8_setLowByte valueMembers.valueRank x
  exact hne (hlow.symm.trans (congrArg UInt32.toUInt8 hsame.symm))

end Members

section Answers

/-- Two answers to a read agree, apart from the spelling of a node id. -/
def SameAnswer (x y : Option (DataValue × List ValueCall)) : Prop :=
  x = y ∨ ∃ (v : DataValue) (calls : List ValueCall) (a b : NodeId), nodeIdEqual a b = true ∧
    x = some ({ v with value := nodeIdVariant a }, calls) ∧ y = some ({ v with value := nodeIdVariant b }, calls)

variable {outside : Outside} {calls : List ValueCall} {timestamps : TimestampsToReturn} {v : DataValue}
  {n n' : Node} {indexRange : UaString} {a b : AttributeId} {value : Val .variant} {onRead onWrite : Option Nat}

theorem readValue_congr (h : sourceOf n' = sourceOf n) (read : ValueSource → Option Reading) :
    readValue calls v n' read = readValue calls v n read := by
  rw [sourceOf, sourceOf] at h
  rw [readValue, readValue]
  cases hn : valueMembers n.body with
  | none =>
      rw [hn, Option.map_none, Option.map_eq_none_iff] at h
      rw [h]
  | some members =>
      rw [hn, Option.map_some, Option.map_eq_some_iff] at h
      obtain ⟨members', hn', hvalue⟩ := h
      rw [hn']
      exact congrArg read hvalue

theorem readAttribute_onlyWrites (h : OnlyWrites n n' a value) (hb : b ≠ a) :
    readAttribute outside calls timestamps v n' indexRange b =
      readAttribute outside calls timestamps v n indexRange b := by
  cases b with
  | value | dataType | arrayDimensions =>
      rw [readAttribute, readAttribute, h.nodeId]
      exact readValue_congr h.source _
  | _ =>
      rw [readAttribute, readAttribute, h.others _ hb]
      all_goals rintro ⟨⟩

theorem getVariableNodeDataType_variant (h : sourceOf n = some (.variant value onRead onWrite)) :
    readAttribute outside calls timestamps v n indexRange .dataType =
      some ⟨good, { v with value := typeIdVariant value }, calls⟩ := by
  obtain ⟨members, hmembers, hsource⟩ := Option.map_eq_some_iff.mp h
  rw [readAttribute, readValue, hmembers]
  dsimp only
  rw [hsource]
  rfl

end Answers

section Values

variable {outside : Outside} {calls calls' : List ValueCall} {w : WriteValue} {n : Node} {edit : Edit}

/-- A value is stored in the node itself, if it has one. -/
def NoDataSource (n : Node) : Prop := ∀ source, sourceOf n ≠ some (.dataSource source)

/-- The value that replaces the stored one is a copy. Nothing else is written. -/
structure ValueWritten (outside : Outside) (w : WriteValue) (n n' : Node) : Prop where
  nodeId : n'.nodeId = n.nodeId
  members : ∀ b, memberVariant n' b = memberVariant n b
  stored : ∃ old value onRead onWrite, sourceOf n = some (.variant old onRead onWrite) ∧
    castValue w.pointed old w.value.value = some (.ok value) ∧
      sourceOf n' = some (.variant (copyOf value (outside.copied value)) onRead onWrite)

theorem copyValueIntoNode_good {nodeId : NodeId} {value : Val .variant} {onRead onWrite : Option Nat}
    {source : ValueSource} (hrange : w.indexRange.length = 0)
    (h : copyValueIntoNode outside calls nodeId w value onRead onWrite = some (good, source, calls')) :
    ∃ new, castValue w.pointed value w.value.value = some (.ok new) ∧
      source = .variant (copyOf new (outside.copied new)) onRead onWrite := by
  have hparse : parseIndexRange w.indexRange = .ok none := by
    rw [parseIndexRange, if_neg (by omega)]
  rw [copyValueIntoNode, hparse] at h
  obtain ⟨cast, hcast, h⟩ := Option.bind_eq_some_iff.mp h
  cases cast with
  | error code =>
      cases h
      cases castValue_error hcast
  | ok new =>
      cases h
      exact ⟨new, hcast, rfl⟩

theorem writeValue_good {nodeId : NodeId} {members members' : ValueMembers}
    (hsource : ∀ source, members.value ≠ .dataSource source) (hrange : w.indexRange.length = 0)
    (h : writeValue outside calls nodeId w members = some (good, members', calls')) :
    members'.valueRank = members.valueRank ∧ ∃ old new onRead onWrite, members.value = .variant old onRead onWrite ∧
      castValue w.pointed old w.value.value = some (.ok new) ∧
        members'.value = .variant (copyOf new (outside.copied new)) onRead onWrite := by
  rw [writeValue] at h
  cases hvalue : members.value with
  | variant old onRead onWrite =>
      rw [hvalue] at h
      obtain ⟨⟨code, source, made⟩, hcopy, heq⟩ := Option.map_eq_some_iff.mp h
      cases heq
      obtain ⟨new, hnew, rfl⟩ := copyValueIntoNode_good hrange hcopy
      exact ⟨rfl, old, new, onRead, onWrite, rfl, hnew, rfl⟩
  | dataSource source => exact absurd hvalue (hsource source)

theorem valueEdit_good (hsource : NoDataSource n) (hrange : w.indexRange.length = 0)
    (h : valueEdit outside calls w n = some edit) (hgood : edit.retval = good) :
    ValueWritten outside w n (withMembers n edit.members) := by
  obtain ⟨⟨browseName, displayName, description, writeMask, userWriteMask, references, body⟩, nodeId⟩ := n
  cases body with
  | «variable» members =>
      obtain ⟨⟨code, members', made⟩, hwrite, rfl⟩ := Option.map_eq_some_iff.mp h
      cases hgood
      have hvariant : ∀ source, members.value ≠ .dataSource source :=
        fun source heq => hsource source (congrArg some heq)
      obtain ⟨hrank, old, new, onRead, onWrite, hold, hcast, hnew⟩ := writeValue_good hvariant hrange hwrite
      refine ⟨rfl, ?_, old, new, onRead, onWrite, congrArg some hold, hcast, congrArg some hnew⟩
      intro b
      cases b <;> first | rfl | exact congrArg (fun x => some (int32Variant x)) hrank
  | variableType members isAbstract =>
      obtain ⟨⟨code, members', made⟩, hwrite, rfl⟩ := Option.map_eq_some_iff.mp h
      cases hgood
      have hvariant : ∀ source, members.value ≠ .dataSource source :=
        fun source heq => hsource source (congrArg some heq)
      obtain ⟨hrank, old, new, onRead, onWrite, hold, hcast, hnew⟩ := writeValue_good hvariant hrange hwrite
      refine ⟨rfl, ?_, old, new, onRead, onWrite, congrArg some hold, hcast, congrArg some hnew⟩
      intro b
      cases b <;> first
        | rfl
        | exact congrArg (fun x => some (int32Variant x)) hrank
        | exact congrArg (fun x : UInt32 => some (booleanVariant x.toUInt8)) hrank
  | _ =>
      cases h
      cases hgood

/-- A copy of the value is not the whole value. -/
def LosesData (copied : VariantCopy) (value : Val .variant) : Prop :=
  copied = .noData ∧ hasData value = true ∨ copied = .noDimensions ∧ dimensionsOf value ≠ []

theorem copyOf_of_kept {copied : VariantCopy} {value : Val .variant} (h : ¬ LosesData copied value) :
    copyOf value copied = value := by
  cases copied with
  | complete => rfl
  | noData => exact if_neg (fun hdata => h (.inl ⟨rfl, hdata⟩))
  | noDimensions =>
      have hnone : dimensionsOf value = [] := by_contra fun hne => h (.inr ⟨rfl, hne⟩)
      cases value with
      | emptyVariant | scalarVariant => rfl
      | arrayVariant t data dimensions =>
          obtain rfl : dimensions = [] := hnone
          rfl

theorem copyOf_of_loses {copied : VariantCopy} {value : Val .variant} (h : LosesData copied value) :
    typeOf (copyOf value copied) = none ∨ dimensionsOf (copyOf value copied) ≠ dimensionsOf value := by
  rcases h with ⟨rfl, hdata⟩ | ⟨rfl, hdimensions⟩
  · left
    rw [copyOf, if_pos hdata]
    rfl
  · right
    cases value with
    | emptyVariant | scalarVariant => exact absurd rfl hdimensions
    | arrayVariant t data dimensions =>
        cases dimensions with
        | nil => exact absurd rfl hdimensions
        | cons d dimensions => exact fun heq => hdimensions heq.symm

end Values

section Single

variable {outside : Outside} {calls calls' : List ValueCall} {timestamps : TimestampsToReturn} {w : WriteValue}
  {s s' : AddressSpace} {n n' : Node} {a : AttributeId} {id : ReadValueId}

/-- The attribute reads as it was written. A value may have kept the type it
had before. -/
def ReadsWritten (s' : AddressSpace) (n : Node) (w : WriteValue) (a : AttributeId) : Prop :=
  ∃ value, Reads s' w.nodeId a value ∧
    (value = w.value.value ∨ a = .value ∧ ∃ old, storedValue n = some old ∧ Retyped old w.value.value value)

/-- Every other attribute reads as before, except for the array dimensions of
a value that was written. -/
def OthersUnchanged (s s' : AddressSpace) (w : WriteValue) (a : AttributeId) : Prop :=
  ∀ outside calls timestamps (id : ReadValueId), id.nodeId = w.nodeId → id.attributeId ≠ w.attributeId →
    (a = .value → id.attributeId ≠ AttributeId.arrayDimensions.number) →
      SameAnswer (readSingle outside calls timestamps s' id) (readSingle outside calls timestamps s id)

def ReadsAfterWrite (s s' : AddressSpace) (n : Node) (w : WriteValue) : Prop :=
  ∃ a, attributeOf w.attributeId = some a ∧ ReadsWritten s' n w a ∧ OthersUnchanged s s' w a

theorem number_of_attributeOf {k : UInt32} (h : attributeOf k = some a) : a.number = k :=
  beq_iff_eq.mp (List.find?_some (p := fun a : AttributeId => a.number == k) h)

theorem writeSingle_good (hn : s.get w.nodeId = some n) (h : writeSingle outside calls w s = some (good, s', calls')) :
    ∃ edit a, edit.retval = good ∧ s'.get w.nodeId = some (withMembers n edit.members) ∧
      attributeOf w.attributeId = some a ∧
      (a = .value ∧ valueEdit outside calls w n = some edit ∨
        a ≠ .value ∧ membersEdit w.value n.toNodeMembers a = .ok edit.members) := by
  rw [writeSingle, hn] at h
  obtain ⟨edit, hedit, heq⟩ := Option.map_eq_some_iff.mp h
  rw [editNode_some hn] at heq
  simp only [Prod.mk.injEq] at heq
  obtain ⟨hgood, rfl, -⟩ := heq
  have hget : (s.edit w.nodeId (fun _ => edit.members)).get w.nodeId = some (withMembers n edit.members) :=
    get_edit_self hn
  rw [copyAttributeIntoNode] at hedit
  split at hedit
  · cases hedit
    cases hgood
  · split at hedit
    · cases hedit
      cases hgood
    · rename_i hattribute
      exact ⟨edit, .value, hgood, hget, hattribute, .inl ⟨rfl, hedit⟩⟩
    · rename_i a ha hattribute
      split at hedit
      · rename_i code hcode
        cases hedit
        exact absurd hgood (refuses_membersEdit code hcode)
      · rename_i members hmembers
        cases hedit
        exact ⟨_, a, rfl, hget, hattribute, .inr ⟨ha, hmembers⟩⟩

theorem readSingle_congr (hn : s.get id.nodeId = some n) (hn' : s'.get id.nodeId = some n')
    (h : ∀ b, attributeOf id.attributeId = some b →
      readAttribute outside calls timestamps .expected n' id.indexRange b =
        readAttribute outside calls timestamps .expected n id.indexRange b) :
    readSingle outside calls timestamps s' id = readSingle outside calls timestamps s id := by
  rw [readSingle, readSingle, hn, hn']
  dsimp only
  cases hb : attributeOf id.attributeId with
  | none => rfl
  | some b =>
      dsimp only
      rw [h b hb]

theorem othersUnchanged_onlyWrites (hn : s.get w.nodeId = some n) (hn' : s'.get w.nodeId = some n')
    (hattribute : attributeOf w.attributeId = some a) (h : OnlyWrites n n' a w.value.value) :
    OthersUnchanged s s' w a := by
  intro outside calls timestamps id hid hne _
  rw [← hid] at hn hn'
  refine .inl (readSingle_congr hn hn' ?_)
  intro b hb
  have hba : b ≠ a := by
    rintro rfl
    exact hne ((number_of_attributeOf hb).symm.trans (number_of_attributeOf hattribute))
  exact readAttribute_onlyWrites h hba

theorem storedValue_of_source {value : Val .variant} {onRead onWrite : Option Nat}
    (h : sourceOf n = some (.variant value onRead onWrite)) : storedValue n = some value := by
  obtain ⟨members, hmembers, hsource⟩ := Option.map_eq_some_iff.mp h
  rw [storedValue, hmembers, Option.bind_some, hsource]

theorem handleServerTimestamps_value (v : DataValue) (value : Val .variant) :
    handleServerTimestamps outside timestamps { v with value := value } =
      { handleServerTimestamps outside timestamps v with value := value } := by
  rw [handleServerTimestamps, handleServerTimestamps]
  split <;> rfl

theorem castValue_typeId {pointed : Option UInt8} {old new value : Val .variant}
    (h : castValue pointed old new = some (.ok value)) :
    ∃ t t', typeOf old = some t ∧ typeOf value = some t' ∧ nodeIdEqual t'.typeId t.typeId = true := by
  rcases castValue_ok h with ⟨rfl, t, t', ht, ht', hid⟩ | hretyped | htaken
  · exact ⟨t, t', ht, ht', nodeIdEqual_symm hid⟩
  · obtain ⟨t, _, ht, _, ht', _⟩ := hretyped.types
    exact ⟨t, t, ht, ht', nodeIdEqual_refl t.typeId⟩
  · obtain ⟨b, _, rfl⟩ := htaken.byte
    exact ⟨_, _, htaken.type, rfl, nodeIdEqual_refl _⟩

theorem castValue_dimensions {pointed : Option UInt8} {old new value : Val .variant}
    (h : castValue pointed old new = some (.ok value)) :
    typeOf new ≠ none ∧ dimensionsOf value = dimensionsOf new := by
  rcases castValue_ok h with ⟨rfl, _, t', _, ht', _⟩ | hretyped | htaken
  · exact ⟨by rw [ht']; nofun, rfl⟩
  · obtain ⟨_, t', _, ht', _, _⟩ := hretyped.types
    exact ⟨by rw [ht']; nofun, hretyped.dimensions⟩
  · obtain ⟨b, _, rfl⟩ := htaken.byte
    rw [htaken.empty]
    exact ⟨nofun, rfl⟩

/-- The value that a GOOD write stores is lost, as there is no memory for its
copy. -/
def ValueLost (outside : Outside) (w : WriteValue) (n : Node) : Prop :=
  ∃ old value, storedValue n = some old ∧ castValue w.pointed old w.value.value = some (.ok value) ∧
    LosesData (outside.copied value) value

/-- An empty byte string with an ordinary pointer is written to an array of
bytes. -/
def ByteWritten (w : WriteValue) (n : Node) : Prop :=
  w.pointed ≠ none ∧ w.value.value = .scalarVariant TypeTable.byteString (.simple (b := .byteString) (some [])) ∧
    ∃ old, storedValue n = some old ∧ typeOf old = some TypeTable.byte ∧ isScalar old = false

theorem stored_of_kept (h : ValueWritten outside w n n') (hkept : ¬ ValueLost outside w n) :
    ∃ old value onRead onWrite, sourceOf n = some (.variant old onRead onWrite) ∧
      sourceOf n' = some (.variant value onRead onWrite) ∧
        castValue w.pointed old w.value.value = some (.ok value) := by
  obtain ⟨old, value, onRead, onWrite, hold, hcast, hvalue⟩ := h.stored
  have hcopied : ¬ LosesData (outside.copied value) value :=
    fun hloses => hkept ⟨old, value, storedValue_of_source hold, hcast, hloses⟩
  rw [copyOf_of_kept hcopied] at hvalue
  exact ⟨old, value, onRead, onWrite, hold, hvalue, hcast⟩

theorem sameAnswer_dataType {outside' : Outside} (hn : s.get id.nodeId = some n) (hn' : s'.get id.nodeId = some n')
    (hid : attributeOf id.attributeId = some .dataType) (h : ValueWritten outside' w n n')
    (hkept : ¬ ValueLost outside' w n) :
    SameAnswer (readSingle outside calls timestamps s' id) (readSingle outside calls timestamps s id) := by
  obtain ⟨old, value, onRead, onWrite, hold, hvalue, hcast⟩ := stored_of_kept h hkept
  obtain ⟨t, t', ht, ht', hids⟩ := castValue_typeId hcast
  have htype : typeIdVariant old = nodeIdVariant t.typeId := by rw [typeIdVariant, ht]
  have htype' : typeIdVariant value = nodeIdVariant t'.typeId := by rw [typeIdVariant, ht']
  rw [readSingle, readSingle, hn, hn']
  split
  · exact .inl rfl
  · split
    · exact .inl rfl
    · dsimp only
      rw [hid]
      dsimp only
      rw [getVariableNodeDataType_variant hold, getVariableNodeDataType_variant hvalue, htype, htype']
      refine .inr ⟨handleServerTimestamps outside timestamps .expected, calls, t'.typeId, t.typeId, hids, ?_, ?_⟩
      · exact congrArg (fun v => some (v, calls)) (handleServerTimestamps_value .expected _)
      · exact congrArg (fun v => some (v, calls)) (handleServerTimestamps_value .expected _)

theorem othersUnchanged_valueWritten (hn : s.get w.nodeId = some n) (hn' : s'.get w.nodeId = some n')
    (hattribute : attributeOf w.attributeId = some .value) (h : ValueWritten outside w n n')
    (hkept : ¬ ValueLost outside w n) : OthersUnchanged s s' w .value := by
  intro outside calls timestamps id hid hne hdimensions
  rw [← hid] at hn hn'
  by_cases hb : attributeOf id.attributeId = some .dataType
  · exact sameAnswer_dataType hn hn' hb h hkept
  · refine .inl (readSingle_congr hn hn' ?_)
    intro b hb'
    cases b with
    | value => exact absurd ((number_of_attributeOf hb').symm.trans (number_of_attributeOf hattribute)) hne
    | arrayDimensions => exact absurd (number_of_attributeOf hb').symm (hdimensions rfl)
    | dataType => exact absurd hb' hb
    | _ =>
        rw [readAttribute, readAttribute, h.members]
        all_goals rintro ⟨⟩

theorem readsWritten_valueWritten (hn' : s'.get w.nodeId = some n') (h : ValueWritten outside w n n')
    (hkept : ¬ ValueLost outside w n) (hbyte : ¬ ByteWritten w n) : ReadsWritten s' n w .value := by
  obtain ⟨old, value, onRead, onWrite, hold, hvalue, hcast⟩ := stored_of_kept h hkept
  have hstored := storedValue_of_source hold
  refine ⟨value, reads_of_get hn' (storedValue_of_source hvalue), ?_⟩
  rcases castValue_ok hcast with ⟨hsame, _⟩ | hretyped | htaken
  · exact .inl hsame
  · exact .inr ⟨rfl, old, hstored, hretyped⟩
  · obtain ⟨b, hb, _⟩ := htaken.byte
    exact absurd ⟨by rw [hb]; nofun, htaken.empty, old, hstored, htaken.type, htaken.array⟩ hbyte

/-- What reads back as written has a type and the dimensions of the written
value. -/
theorem ReadsWritten.shape (h : ReadsWritten s' n w .value) {value : Val .variant}
    (hvalue : Reads s' w.nodeId .value value) (htyped : typeOf w.value.value ≠ none) :
    typeOf value ≠ none ∧ dimensionsOf value = dimensionsOf w.value.value := by
  obtain ⟨value', hreads, hwritten⟩ := h
  obtain rfl := reads_unique hvalue hreads
  rcases hwritten with rfl | ⟨_, old, _, hretyped⟩
  · exact ⟨htyped, rfl⟩
  · obtain ⟨t, _, _, _, ht, _⟩ := hretyped.types
    exact ⟨by rw [ht]; nofun, hretyped.dimensions⟩

theorem not_readsWritten_of_lost (hn' : s'.get w.nodeId = some n') (h : ValueWritten outside w n n')
    (hlost : ValueLost outside w n) : ¬ ReadsWritten s' n w .value := by
  intro hreads
  obtain ⟨old, value, hold, hcast, hloses⟩ := hlost
  obtain ⟨old', value', onRead, onWrite, hold', hcast', hvalue⟩ := h.stored
  rw [storedValue_of_source hold'] at hold
  cases hold
  rw [hcast] at hcast'
  cases hcast'
  obtain ⟨htyped, hdimensions⟩ := castValue_dimensions hcast
  obtain ⟨htype, hsame⟩ := hreads.shape (reads_of_get hn' (storedValue_of_source hvalue)) htyped
  rcases copyOf_of_loses hloses with hnone | hne
  · exact htype hnone
  · exact hne (hsame.trans hdimensions.symm)

theorem not_readsWritten_of_byte (hn' : s'.get w.nodeId = some n') (h : ValueWritten outside w n n')
    (hbyte : ByteWritten w n) : ¬ ReadsWritten s' n w .value := by
  by_cases hlost : ValueLost outside w n
  · exact not_readsWritten_of_lost hn' h hlost
  rintro ⟨value, hreads, hwritten⟩
  obtain ⟨hpointed, hempty, old, hold, htype, harray⟩ := hbyte
  obtain ⟨b, hb⟩ := Option.ne_none_iff_exists'.mp hpointed
  obtain ⟨old', stored, onRead, onWrite, hold', hvalue, hcast⟩ := stored_of_kept h hlost
  rw [storedValue_of_source hold'] at hold
  cases hold
  have hstored : stored = byteVariant b := by
    rw [hempty, hb, castValue_byte htype harray] at hcast
    cases hcast
    rfl
  have hreads' : Reads s' w.nodeId .value stored := reads_of_get hn' (storedValue_of_source hvalue)
  obtain rfl := reads_unique hreads' hreads
  rw [hstored, hempty] at hwritten
  rcases hwritten with heq | ⟨_, _, _, hretyped⟩
  · cases heq
  · have hlength := congrArg List.length hretyped.content
    cases hlength

theorem attributeValue_of_member {value : Val .variant} (h : memberVariant n a = some value) :
    attributeValue n a = some value := by
  cases a <;> first | exact h | cases h

theorem readsAfterWrite_of_good (hn : s.get w.nodeId = some n) (hsource : NoDataSource n)
    (hrange : w.indexRange.length = 0) (h : writeSingle outside calls w s = some (good, s', calls'))
    (hrank : ¬ (w.attributeId = AttributeId.isAbstract.number ∧ OverwritesRank n w.value))
    (hvalue : ¬ (w.attributeId = AttributeId.value.number ∧ (ByteWritten w n ∨ ValueLost outside w n))) :
    ReadsAfterWrite s s' n w := by
  obtain ⟨edit, a, hgood, hn', hattribute, ⟨rfl, hedit⟩ | ⟨ha, hedit⟩⟩ := writeSingle_good hn h
  · have hwritten := valueEdit_good hsource hrange hedit hgood
    have hnumber := (number_of_attributeOf hattribute).symm
    have hkept : ¬ ValueLost outside w n := fun hlost => hvalue ⟨hnumber, .inr hlost⟩
    have hbyte : ¬ ByteWritten w n := fun hbyte => hvalue ⟨hnumber, .inl hbyte⟩
    exact ⟨.value, hattribute, readsWritten_valueWritten hn' hwritten hkept hbyte,
      othersUnchanged_valueWritten hn hn' hattribute hwritten hkept⟩
  · have honly : OnlyWrites n (withMembers n edit.members) a w.value.value := by
      refine membersEdit_onlyWrites ha hedit ?_
      rintro rfl hoverwrites
      exact hrank ⟨(number_of_attributeOf hattribute).symm, hoverwrites⟩
    exact ⟨a, hattribute, ⟨_, reads_of_get hn' (attributeValue_of_member honly.written), .inl rfl⟩,
      othersUnchanged_onlyWrites hn hn' hattribute honly⟩

theorem not_readsAfterWrite_value (hn : s.get w.nodeId = some n) (hsource : NoDataSource n)
    (hrange : w.indexRange.length = 0) (h : writeSingle outside calls w s = some (good, s', calls'))
    (hattribute : w.attributeId = AttributeId.value.number) (hlost : ByteWritten w n ∨ ValueLost outside w n) :
    ¬ ReadsAfterWrite s s' n w := by
  rintro ⟨a, ha, hreads, _⟩
  obtain ⟨edit, a', hgood, hn', ha', hedit⟩ := writeSingle_good hn h
  rw [hattribute, attributeOf_number] at ha ha'
  cases ha
  cases ha'
  rcases hedit with ⟨_, hedit⟩ | ⟨hne, _⟩
  · have hwritten := valueEdit_good hsource hrange hedit hgood
    rcases hlost with hbyte | hlost
    · exact not_readsWritten_of_byte hn' hwritten hbyte hreads
    · exact not_readsWritten_of_lost hn' hwritten hlost hreads
  · exact hne rfl

theorem not_readsAfterWrite (hn : s.get w.nodeId = some n)
    (h : writeSingle outside calls w s = some (good, s', calls'))
    (hattribute : w.attributeId = AttributeId.isAbstract.number) (hrank : OverwritesRank n w.value) :
    ¬ ReadsAfterWrite s s' n w := by
  rintro ⟨a, ha, _, hothers⟩
  obtain ⟨edit, a', _, hn', ha', hedit⟩ := writeSingle_good hn h
  rw [hattribute, attributeOf_number] at ha ha'
  cases ha
  cases ha'
  rcases hedit with ⟨heq, _⟩ | ⟨_, hedit⟩
  · cases heq
  · obtain ⟨old, new, hne, hold, hnew⟩ := isAbstract_valueRank hrank hedit
    have hreads : Reads s w.nodeId .valueRank (int32Variant old) := reads_of_get hn hold
    have hreads' : Reads s' w.nodeId .valueRank (int32Variant new) := reads_of_get hn' hnew
    obtain ⟨v, calls₁, hv, _, _, hvalue⟩ := hreads outside calls .neither
    obtain ⟨v', calls₂, hv', _, _, hvalue'⟩ := hreads' outside calls .neither
    have hnumber : AttributeId.valueRank.number ≠ AttributeId.isAbstract.number := by decide
    have hsame := hothers outside calls .neither (plainRead w.nodeId .valueRank) rfl (hattribute ▸ hnumber) nofun
    rw [hv, hv'] at hsame
    rcases hsame with heq | ⟨_, _, _, _, _, heq, _⟩
    · cases heq
      rw [hvalue] at hvalue'
      cases hvalue'
      exact hne rfl
    · cases heq
      cases hvalue'

/-- What was written reads back and all else reads as before, unless the
abstractness of a variable type is written and the byte is not already the low
byte of its value rank. A value is lost without memory for its copy, and an
empty byte string may become a byte. -/
theorem readsAfterWrite_iff (outside : Outside) (calls calls' : List ValueCall) (w : WriteValue)
    (s s' : AddressSpace) (n : Node) (hn : s.get w.nodeId = some n) (hsource : NoDataSource n)
    (hrange : w.indexRange.length = 0) (h : writeSingle outside calls w s = some (good, s', calls')) :
    ReadsAfterWrite s s' n w ↔ ¬ (w.attributeId = AttributeId.isAbstract.number ∧ OverwritesRank n w.value) ∧
      ¬ (w.attributeId = AttributeId.value.number ∧ (ByteWritten w n ∨ ValueLost outside w n)) := by
  constructor
  · intro hreads
    refine ⟨?_, ?_⟩
    · rintro ⟨hattribute, hrank⟩
      exact not_readsAfterWrite hn h hattribute hrank hreads
    · rintro ⟨hattribute, hlost⟩
      exact not_readsAfterWrite_value hn hsource hrange h hattribute hlost hreads
  · rintro ⟨hrank, hvalue⟩
    exact readsAfterWrite_of_good hn hsource hrange h hrank hvalue

end Single

section Samples

def sampleNode (body : Body) : Node := plainNode (numericId 1 1) body

def sampleSpace (body : Body) : AddressSpace := ⟨[sampleNode body], by simp⟩

def sampleWrite (a : AttributeId) (value : Val .variant) : WriteValue :=
  ⟨numericId 1 1, a.number, none, { DataValue.expected with value := value }, none⟩

def sampleNumber : Body :=
  .variable ⟨⟨0xFFFFFFFF, .variant (int32Variant 5) none none⟩, 3, 3, 0, 0⟩

def sampleEnumeration : Val .variant :=
  .scalarVariant (.simple (numericId 0 257) .int32) (.simple 2)

theorem readsAfterWrite_sampleNumber :
    ∃ s', writeSingle sampleOutside [] (sampleWrite .value sampleEnumeration) (sampleSpace sampleNumber) =
        some (good, s', []) ∧
      ReadsAfterWrite (sampleSpace sampleNumber) s' (sampleNode sampleNumber)
        (sampleWrite .value sampleEnumeration) := by
  refine ⟨_, rfl, ?_⟩
  refine (readsAfterWrite_iff sampleOutside [] [] _ (sampleSpace sampleNumber) _ (sampleNode sampleNumber) rfl ?_ rfl
    rfl).mpr ?_
  · intro source h
    cases h
  · refine ⟨?_, ?_⟩
    · rintro ⟨h, _⟩
      exact absurd h (by decide)
    · rintro ⟨_, ⟨hpointed, _⟩ | ⟨_, _, _, _, ⟨hcopied, _⟩ | ⟨hcopied, _⟩⟩⟩
      · exact hpointed rfl
      · cases hcopied
      · cases hcopied

/-- The rank −2 of a variable type, for a scalar or an array, becomes −255. -/
theorem valueRank_overwritten :
    let body : Body := .variableType ⟨0xFFFFFFFE, .variant (int32Variant 5) none none⟩ 0
    let w := sampleWrite .isAbstract (booleanVariant 1)
    (sampleSpace body).get w.nodeId = some (sampleNode body) ∧ NoDataSource (sampleNode body) ∧
      w.indexRange.length = 0 ∧ ∃ s', writeSingle sampleOutside [] w (sampleSpace body) = some (good, s', []) ∧
        ¬ ReadsAfterWrite (sampleSpace body) s' (sampleNode body) w := by
  intro body w
  obtain ⟨s', hwrite⟩ : ∃ s', writeSingle sampleOutside [] w (sampleSpace body) = some (good, s', []) := ⟨_, rfl⟩
  refine ⟨rfl, ?_, rfl, s', hwrite, ?_⟩
  · intro source h
    cases h
  · exact not_readsAfterWrite (n := sampleNode body) rfl hwrite rfl ⟨_, _, 1, rfl, rfl, by decide⟩

end Samples

end OpcUa.WrittenAttributes
