import OpcUa.DecodeBounds
import OpcUa.ExtensionObjects

namespace OpcUa.Variants

open Filter
open StatusCodes LittleEndian NodeIds DataTypes TypeTable Values Writers ValueEncoding Readers Decoding ValueDecoding
  ReadBack WritePrograms EncoderPrograms EncoderRuns LeafReading NodeIdRoundTrips ValueReading SimpleRoundTrips
  ExtensionObjects

variable {room limit : Nat} {jump : (t : DataType) → DecM (Val t)}

theorem typeIndex_le (t : DataType) : t.typeIndex ≤ 24 := by
  cases t with
  | simple typeId b => cases b <;> simp [DataType.typeIndex, Builtin.typeIndex]
  | _ => simp [DataType.typeIndex]

theorem mask_spec : ∀ i : Fin 25, ∀ array dims : Bool,
    let mask := (if array then 0x80 else 0) ||| (if array && dims then 0x40 else 0) |||
      ((0x3f : UInt8) &&& UInt8.ofNat (i + 1))
    (mask &&& 0x3f).toNat = i + 1 ∧ flagged mask 0x80 = array ∧ flagged mask 0x40 = (array && dims) := by
  decide

theorem variantMask_builtin {t : DataType} (h : t.builtin = true) (array dims : Bool) :
    (variantMask t array dims &&& 0x3f).toNat = t.typeIndex + 1 ∧
      flagged (variantMask t array dims) 0x80 = array ∧
      flagged (variantMask t array dims) 0x40 = (array && dims) := by
  rw [variantMask, if_pos h]
  exact mask_spec ⟨t.typeIndex, Nat.lt_succ_of_le (typeIndex_le t)⟩ array dims

theorem variantMask_structure {t : DataType} (h : t.builtin = false) (array dims : Bool) :
    (variantMask t array dims &&& 0x3f).toNat = 21 + 1 ∧
      flagged (variantMask t array dims) 0x80 = array ∧
      flagged (variantMask t array dims) 0x40 = (array && dims) := by
  have hbits : (22 : UInt8) = 0x3f &&& UInt8.ofNat (21 + 1) := by decide
  simp only [variantMask, h, Bool.false_eq_true, if_false]
  rw [hbits]
  exact mask_spec ⟨21, by decide⟩ array dims

/-- The type that the decoder takes for the index of a builtin type. -/
def wireType (i : Nat) : DataType := uaTypes.getD i .extensionObject

/-- What each entry of the type table has in common with the type that its
index stands for. -/
def indexAgrees : DataType → Bool
  | .simple id b => b == .int32 || id == (wireType b.typeIndex).typeId
  | .structure info _ => !info.builtin || info.typeId == (wireType 19).typeId
  | _ => true

theorem wireType_builtin {t : DataType} (h : t ∈ uaTypes) (hb : t.builtin = true) :
    wireType t.typeIndex = t ∨ ∃ id, t = .simple id .int32 := by
  have hall : uaTypes.all indexAgrees = true := by decide +kernel
  have ht := List.all_eq_true.mp hall t h
  have hunique : ∀ i, t.typeId = (wireType i).typeId → wireType i ∈ uaTypes → wireType i = t :=
    fun i hid hmem => List.inj_on_of_nodup_map typeIds_nodup hmem h hid.symm
  have hmem : ∀ i, i < 25 → wireType i ∈ uaTypes := by
    intro i hi
    have hlt : i < uaTypes.length := lt_of_lt_of_le hi (by rw [uaTypes_length]; decide)
    rw [wireType, List.getD, List.getElem?_eq_getElem hlt, Option.getD_some]
    exact List.getElem_mem hlt
  cases t with
  | simple id b =>
      simp only [indexAgrees, Bool.or_eq_true, beq_iff_eq] at ht
      rcases ht with rfl | hid
      · exact Or.inr ⟨id, rfl⟩
      · exact Or.inl (hunique _ hid (hmem _ (Nat.lt_succ_of_le (typeIndex_le (.simple id b)))))
  | «structure» info members =>
      have hbuiltin : info.builtin = true := hb
      simp only [indexAgrees, hbuiltin, Bool.not_true, Bool.false_or, beq_iff_eq] at ht
      exact Or.inl (hunique 19 ht (hmem 19 (by decide)))
  | extensionObject => exact Or.inl rfl
  | dataValue => exact Or.inl rfl
  | variant => exact Or.inl rfl

def variantAt (jump : (t : DataType) → DecM (Val t)) (mask : UInt8) (i : Nat) : DecM (Val .variant) :=
  if flagged mask 0x80 then arrayVariantDecodeBinary jump (wireType i) (flagged mask 0x40)
  else if i ≠ 21 then map scalarOf (arrayDecodeBinary (wireType i) (jump (wireType i)) 1)
  else objectVariantDecodeBinary jump

theorem variantDecodeBinary_eq : variantDecodeBinary jump = andThen byteDecodeBinary (fun mask =>
    if (mask &&& 0x3f).toNat = 0 ∨ (mask &&& 0x3f).toNat > 25 then fail badDecodingError
    else variantAt jump mask ((mask &&& 0x3f).toNat - 1)) :=
  rfl

section Decoder

variable {mask : UInt8} {i : Nat} {w : List UInt8} {v : Val .variant}

theorem variant_continue {st st1 : Dec} (hbyte : byteDecodeBinary st = some (.ok mask, st1))
    (hi : (mask &&& 0x3f).toNat = i + 1) (hle : i ≤ 24) :
    variantDecodeBinary jump st = variantAt jump mask i st1 := by
  simp only [variantDecodeBinary_eq, andThen, hbyte, hi, Nat.add_sub_cancel]
  rw [if_neg (by omega)]

theorem reads_variant (hi : (mask &&& 0x3f).toNat = i + 1) (hle : i ≤ 24)
    (h : Reads room (variantAt jump mask i) w v) :
    Reads room (variantDecodeBinary jump) (mask :: w) v := by
  rw [variantDecodeBinary_eq]
  refine reads_andThen (w := [mask]) (reads_byte mask) ?_
  rwa [hi, if_neg (by omega), Nat.add_sub_cancel]

/-- In some buffer the bytes `w` are decoded as `v`. -/
def CanRead {α : Type} (d : DecM α) (w : List UInt8) (a : α) : Prop :=
  ∃ pre post st st', st.data = pre ++ w ++ post ∧ st.offset = pre.length ∧ st.heap = [] ∧
    BoundedReading.Valid st ∧ d st = some (.ok a, st') ∧ st'.offset = pre.length + w.length

theorem canRead_variantAt (hi : (mask &&& 0x3f).toNat = i + 1) (hle : i ≤ 24)
    (h : Reads room (variantDecodeBinary jump) (mask :: w) v) : CanRead (variantAt jump mask i) w v := by
  let st : Dec := ⟨mask :: w ++ List.replicate room 0, 0, [], []⟩
  obtain ⟨st', hrun, hend⟩ := h.run []
  have hreads : Reads 0 byteDecodeBinary [mask] mask := reads_byte mask
  obtain ⟨_, st1, hbyte, _, _, hoff, hheap⟩ := hreads []
    (w ++ List.replicate room 0) st (by simp [st]) rfl (Nat.zero_le _) rfl
  have hmoves := BoundedReading.Agree.moves (d := byteDecodeBinary) (fun _ => DecodeBounds.agree_byte)
    ⟨Nat.zero_le _, by simp [st]⟩ hbyte
  refine ⟨[mask], List.replicate room 0, st1, st', ?_, hoff, hheap, hmoves.valid, ?_, ?_⟩
  · rw [keeps_byte _ _ _ hbyte]
    simp [st]
  · rw [← variant_continue hbyte hi hle]
    exact hrun
  · rw [hend, List.length_cons, List.length_singleton, Nat.add_comm]

end Decoder

def intVals {id : NodeId} : List UInt32 → Vals (.simple id .int32)
  | [] => .nil
  | d :: ds => .cons (.simple d) (intVals ds)

section Integers

variable {id : NodeId}

theorem int32s_intVals (ds : List UInt32) : int32s (intVals ds : Vals (.simple id .int32)) = ds := by
  induction ds with
  | nil => rw [intVals, int32s]
  | cons d ds ih => rw [intVals, int32s, ih]

theorem length_intVals (ds : List UInt32) :
    (intVals ds : Vals (.simple id .int32)).length = ds.length := by
  induction ds with
  | nil => rfl
  | cons d ds ih => rw [intVals, Vals.length, ih, List.length_cons]

theorem itemsWire_intVals (ds : List UInt32) :
    itemsWire (intVals ds : Vals (.simple id .int32)) = ds.flatMap (fun d => toBytes 4 d.toNat) := by
  induction ds with
  | nil => rw [intVals, itemsWire, valsProgs]; rfl
  | cons d ds ih =>
      rw [intVals, itemsWire_cons, ih, List.flatMap_cons, wireOf, valProg]
      rfl

end Integers

theorem wire_dimensionsProg (ds : List UInt32) :
    wire (dimensionsProg ds) = lengthBytes ds.length ++ ds.flatMap (fun d => toBytes 4 d.toNat) :=
  rfl

theorem reads_dimensions {ds : List UInt32} (hsize : 4 * ds.length ≤ maxArraySize) :
    Reads room (dimensionsDecodeBinary jump ds.length) (ds.flatMap (fun d => toBytes 4 d.toNat)) ds := by
  have hread : Reads room (arrayDecodeBinary int32 (jump int32) (intVals ds : Vals int32).length)
      (itemsWire (intVals ds : Vals int32)) (.items (intVals ds)) := by
    refine reads_array ?_ ?_ (fun h => absurd h (by decide))
    · have hlen : (intVals ds : Vals int32).length = ds.length := length_intVals ds
      rw [← hlen] at hsize
      exact hsize
    · have hlen := length_itemsWire (t := int32) rfl (intVals ds)
      exact (Nat.div_le_self _ _).trans (hlen.symm.le.trans (Nat.le_add_right _ _))
  have hmap := reads_map dimensionsOf hread
  have hwire : itemsWire (intVals ds : Vals int32) = _ := itemsWire_intVals ds
  have hlen : (intVals ds : Vals int32).length = _ := length_intVals ds
  have hdims : dimensionsOf (.items (intVals ds)) = ds := int32s_intVals ds
  rwa [hwire, hlen, hdims] at hmap

def dimensionsWire (ds : List UInt32) : List UInt8 :=
  if ds.length > 0 then wire (dimensionsProg ds) else []

def signedLength {t : DataType} : Arr t → Int
  | .null => -1
  | .items vs => vs.length

def arrWire {t : DataType} : Arr t → List UInt8
  | .null => []
  | .items vs => itemsWire vs

theorem length_arrayLengthBytes {t : DataType} (a : Arr t) : (arrayLengthBytes a).length = 4 := by
  cases a <;> exact length_toBytes 4 _

theorem reads_arrayLength {t : DataType} {a : Arr t} (h : a.length ≤ 2147483647) :
    Reads room int32DecodeBinary (arrayLengthBytes a) (signedLength a) := by
  cases a with
  | null => exact reads_nullLength
  | items vs => exact reads_length (by change vs.length ≤ _ at h; omega)

theorem reads_arrayVariant {t : DataType} {a : Arr t} {ds : List UInt32} {w : List UInt8}
    (hlen : Reads ((w ++ dimensionsWire ds).length + room) int32DecodeBinary (arrayLengthBytes a)
      (signedLength a))
    (harray : Reads ((dimensionsWire ds).length + room)
      (arrayDecodeBinary t (jump t) (signedLength a)) w a)
    (hds : ds.length ≤ 2147483647) (hsize : 4 * ds.length ≤ maxArraySize) :
    Reads room (arrayVariantDecodeBinary jump t (decide (ds.length > 0)))
      (arrayLengthBytes a ++ (w ++ dimensionsWire ds)) (.arrayVariant t a ds) := by
  refine reads_andThen hlen ?_
  by_cases hdims : ds.length > 0
  · rw [dimensionsWire, if_pos hdims, wire_dimensionsProg] at harray ⊢
    simp only [hdims, decide_true, if_true]
    rw [← List.append_assoc]
    refine reads_andThen (reads_both (harray.mono ?_) (reads_length (by omega))) ?_
    · rw [List.length_append]
      omega
    · exact reads_map (fun ds => Val.arrayVariant t a ds) (reads_dimensions hsize)
  · have hnil : ds = [] := List.eq_nil_of_length_eq_zero (by omega)
    subst hnil
    have hempty : dimensionsWire [] = [] := rfl
    rw [hempty] at harray ⊢
    rw [List.append_nil]
    simp only [List.length_nil, gt_iff_lt, lt_self_iff_false, decide_false, Bool.false_eq_true, if_false]
    exact reads_map (fun data => Val.arrayVariant t data []) (harray.mono (by simp))

end OpcUa.Variants
