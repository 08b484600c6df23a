import OpcUa.DecodedValues
import OpcUa.VariantRoundTrips

namespace OpcUa.StableValues

open Filter
open LittleEndian NodeIds DataTypes TypeTable Values ValueEncoding Readers Decoding ValueDecoding ReadBack
open WritePrograms EncoderPrograms LeafReading NodeIdRoundTrips ValueReading SimpleRoundTrips ExtensionObjects
open Variants VariantShapes ObjectVariants VariantRoundTrips DecodedValues

section Encodable

theorem encodable_all {ps : List Prog} (h : ∀ p ∈ ps, Encodable p) :
    Encodable (Prog.seqAll ps) ∧ Encodable (Prog.stopAll ps) := by
  induction ps with
  | nil => exact ⟨trivial, trivial⟩
  | cons p ps ih =>
      have hp := h p List.mem_cons_self
      obtain ⟨hseq, hstop⟩ := ih (fun q hq => h q (List.mem_cons_of_mem _ hq))
      exact ⟨⟨hp, hseq⟩, ⟨hp, hstop⟩⟩

theorem encodable_option {b : Bool} {p : Prog} (h : b = true → Encodable p) : Encodable (Prog.optionally b p) := by
  cases b with
  | false => exact trivial
  | true => exact h rfl

mutual

theorem encodable_flat : {t : DataType} → (v : Val t) → flat t = true → Encodable (valProg v)
  | _, .simple (b := b) x, _ => by
      rw [valProg]
      exact (encodable_simpleProg b x).1
  | _, .struct slots, h => by
      simp only [flat, Bool.and_eq_true] at h
      rw [valProg]
      exact encodable_flatSlots slots h.1

theorem encodable_flatSlots : {members : Members} → (slots : Slots members) → flatMembers members = true →
    Encodable (slotsProg slots)
  | _, .nil, _ => by
      rw [slotsProg]
      trivial
  | _, .scalar v slots, h => by
      simp only [flatMembers, Bool.and_eq_true] at h
      rw [slotsProg]
      exact ⟨encodable_flat v h.1, encodable_flatSlots slots h.2⟩

end

theorem encodable_flatVals {t : DataType} (h : zeroCopyable t = true) :
    (vs : Vals t) → ∀ p ∈ valsProgs vs, Encodable p
  | .nil, p, hp => by
      rw [valsProgs] at hp
      cases hp
  | .cons v vs, p, hp => by
      rw [valsProgs] at hp
      rcases List.mem_cons.mp hp with rfl | hp
      · exact encodable_flat v (EncoderRuns.flat_of_zeroCopyable h)
      · exact encodable_flatVals h vs p hp

theorem encodable_array (t : DataType) (length bytes : List UInt8) {items : List Prog}
    (h : zeroCopyable t = false → ∀ p ∈ items, Encodable p) : Encodable (arrayProg t length bytes items) := by
  rw [arrayProg]
  cases hcopy : zeroCopyable t with
  | true => exact ⟨trivial, trivial⟩
  | false => exact ⟨trivial, (encodable_all (h hcopy)).2⟩

theorem encodable_wrap (typeId : NodeId) {content : Prog} (h : Encodable content) :
    Encodable (wrapProg typeId content) :=
  ⟨⟨(encodable_nodeIdProg _).1, trivial⟩, h⟩

theorem encodable_variant {t : DataType} (hmem : t ∈ uaTypes) (length : Option (List UInt8)) {items : List Prog}
    (ds : List UInt32) (h : ∀ p ∈ items, Encodable p) : Encodable (variantProg t length items ds) := by
  simp only [variantProg, typeId_isNumeric hmem, Bool.not_true, Bool.and_false, Bool.false_eq_true, if_false]
  refine ⟨trivial, ?_, (encodable_all ?_).1, encodable_option (fun _ => ⟨trivial, ?_⟩)⟩
  · cases length <;> trivial
  · cases t.builtin with
    | true => exact h
    | false =>
        intro p hp
        obtain ⟨q, hq, rfl⟩ := List.mem_map.mp hp
        exact encodable_wrap _ (h q hq)
  · trivial

mutual

theorem encodable_val : {t : DataType} → (v : Val t) → Decoded v → Encodable (valProg v)
  | _, .simple (b := b) x, _ => by
      rw [valProg]
      exact (encodable_simpleProg b x).1
  | _, .struct slots, h => by
      rw [Decoded] at h
      rw [valProg]
      exact encodable_slots slots h
  | _, .encoded typeId encoding body, _ => by
      rw [valProg]
      exact ⟨(encodable_nodeIdProg typeId).1, trivial, encodable_option (fun _ => (encodable_stringProg body).1)⟩
  | _, .decoded nodelete type data, h => by
      rw [Decoded] at h
      rw [valProg_decoded h.2.1]
      exact encodable_wrap _ (encodable_val data h.2.2.1)
  | _, .emptyVariant, h => by
      rw [Decoded] at h
      exact h.elim
  | _, .scalarVariant type data, h => by
      rw [Decoded] at h
      rw [valProg]
      refine encodable_variant h.1 none [] (fun p hp => ?_)
      rw [List.mem_singleton.mp hp]
      cases hcopy : zeroCopyable type with
      | true => exact encodable_flat data (EncoderRuns.flat_of_zeroCopyable hcopy)
      | false => exact encodable_val data (h.2 hcopy)
  | _, .arrayVariant type a ds, h => by
      rw [Decoded] at h
      obtain ⟨⟨i, hi, htype⟩, ha, _⟩ := h
      rw [valProg]
      exact encodable_variant (htype ▸ wireType_mem hi) _ ds (encodable_arr a ha)
  | _, .dataValue fields value, h => by
      rw [Decoded] at h
      rw [valProg]
      exact ⟨trivial, encodable_option (fun hflag => encodable_val value (h.2.1 hflag)),
        encodable_option (fun _ => trivial), encodable_option (fun _ => trivial),
        encodable_option (fun _ => trivial), encodable_option (fun _ => trivial),
        encodable_option (fun _ => trivial)⟩

theorem encodable_arr : {t : DataType} → (a : Arr t) → DecodedArr a → ∀ p ∈ arrProgs a, Encodable p
  | _, .null, _ => by
      rw [arrProgs]
      simp
  | t, .items vs, h => by
      rw [DecodedArr] at h
      rw [arrProgs]
      cases hcopy : zeroCopyable t with
      | true => exact encodable_flatVals hcopy vs
      | false => exact encodable_vals vs (h.2.2 hcopy)

theorem encodable_vals : {t : DataType} → (vs : Vals t) → DecodedVals vs → ∀ p ∈ valsProgs vs, Encodable p
  | _, .nil, _ => by
      rw [valsProgs]
      simp
  | _, .cons v vs, h => by
      rw [DecodedVals] at h
      rw [valsProgs]
      exact List.forall_mem_cons.mpr ⟨encodable_val v h.1, encodable_vals vs h.2⟩

theorem encodable_slots : {members : Members} → (slots : Slots members) → DecodedSlots slots →
    Encodable (slotsProg slots)
  | _, .nil, _ => by
      rw [slotsProg]
      trivial
  | _, .scalar v slots, h => by
      rw [DecodedSlots] at h
      rw [slotsProg]
      exact ⟨encodable_val v h.1, encodable_slots slots h.2⟩
  | _, .array (.null) slots, h => by
      rw [DecodedSlots] at h
      rw [slotsProg]
      exact ⟨encodable_array _ _ _ (by simp), encodable_slots slots h.2⟩
  | _, .array (.items vs) slots, h => by
      rw [DecodedSlots, DecodedArr] at h
      rw [slotsProg]
      exact ⟨encodable_array _ _ _ (fun hcopy => encodable_vals vs (h.1.2.2 hcopy)), encodable_slots slots h.2⟩

end

end Encodable

/-- More bytes than this behind an array are never asked for. -/
def slack : Nat := maxArraySize / 32

section Reading

variable {room : Nat} {jump : (t : DataType) → DecM (Val t)}

theorem representable_of_stable {n : NodeId} (hshort : ShortId n) (h : StableId n) : Representable n := by
  obtain ⟨ns, identifier⟩ := n
  cases identifier with
  | numeric i => exact h
  | string s => exact hshort
  | guid g => trivial
  | byteString s => exact hshort

theorem inRange_of_stable {b : Builtin} {x : b.Carrier} (hx : DecodedSimple b x) (h : StableSimple b x) :
    InRange b x := by
  cases b with
  | boolean | string | byteString | xmlElement | localizedText | diagnosticInfo => exact hx
  | nodeId => exact representable_of_stable hx h
  | expandedNodeId =>
      obtain ⟨hid, hshort, hns⟩ := hx
      refine ⟨representable_of_stable hid h.1, hshort, ?_⟩
      match huri : x.namespaceUri with
      | none => exact .inl rfl
      | some [] => exact absurd huri h.2
      | some (c :: cs) => exact .inr ⟨Nat.succ_pos _, hns (by rw [huri]; simp)⟩
  | _ => trivial

theorem onWire_of_ne {i : UInt32} (h : numericId 0 i ≠ numericId 0 256) : onWire i = i :=
  (onWire_eq_iff i).mpr ((numericId_ne_iff i).mp h)

theorem reads_encoded {typeId : NodeId} {encoding : BodyEncoding} {body : UaString}
    (hv : Decoded (.encoded typeId encoding body)) (h : Stable (.encoded typeId encoding body)) :
    Reads room (extensionObjectDecodeBinary jump) (wireOf (.encoded typeId encoding body))
      (.encoded typeId encoding body) := by
  rw [Decoded] at hv
  rw [Stable] at h
  obtain ⟨⟨i, rfl⟩, hshort, hnone, _⟩ := hv
  rw [wireOf_encoded]
  cases encoding with
  | nobody =>
      have hread : Reads room (extensionObjectDecodeBinary jump) _ _ := reads_nobody i
      rw [onWire_of_ne h.2] at hread
      rw [hnone rfl, if_neg (by decide), List.append_nil]
      exact hread
  | byteString => exact absurd rfl h.1
  | xml =>
      have hread : Reads room (extensionObjectDecodeBinary jump) _ _ := reads_xml i hshort
      rw [onWire_of_ne h.2] at hread
      rw [if_pos (by decide)]
      exact hread

theorem reads_decoded {type : DataType} (hmem : type ∈ uaTypes) {data : Val type}
    (h : Reads room (jump type) (wireOf data) data) (hshort : (wireOf data).length < 2147483648) :
    Reads room (extensionObjectDecodeBinary jump) (wireOf (.decoded false type data)) (.decoded false type data) := by
  rw [wireOf, valProg_decoded hmem]
  intro pre post st hdata hoff hpost hheap
  obtain ⟨w, st', hrun, hrest⟩ := wrapped_run hmem h hdata hoff hpost hheap
  rw [if_pos hshort] at hrun
  exact ⟨w, st', hrun, hrest⟩

theorem memSize_div_le {t : DataType} {n : Nat} (h : t.memSize * n ≤ maxArraySize) : t.memSize * n / 32 ≤ slack :=
  Nat.div_le_div_right h

theorem reads_scalarVariant {t : DataType} (hmem : t ∈ uaTypes) (hb : t.builtin = true)
    (ht : wireType t.typeIndex = t) (hindex : t.typeIndex ≠ 21) {data : Val t}
    (h : zeroCopyable t = false → Reads slack (jump t) (wireOf data) data) :
    Reads slack (variantDecodeBinary jump) (wireOf (.scalarVariant t data)) (.scalarVariant t data) := by
  obtain ⟨hi, harray, -⟩ := variantMask_builtin hb false false
  have hlength : (Vals.cons data .nil).length = 1 := rfl
  have hsize : t.memSize * (Vals.cons data .nil).length ≤ maxArraySize := by
    rw [hlength, Nat.mul_one]
    exact memSize_le hmem
  have hread : Reads slack (arrayDecodeBinary t (jump t) (Vals.cons data .nil).length) (itemsWire (.cons data .nil))
      (.items (.cons data .nil)) :=
    reads_array hsize ((memSize_div_le hsize).trans (Nat.le_add_left _ _)) (fun hcopy => ⟨h hcopy, trivial⟩)
  have hwire : itemsWire (Vals.cons data .nil) = wireOf data := by
    rw [itemsWire_cons, itemsWire, valsProgs, List.flatMap_nil, List.append_nil]
  rw [hwire] at hread
  rw [wireOf_scalar hb]
  refine reads_variant hi (typeIndex_le t) ?_
  rw [variantAt, harray, if_neg (by decide), if_pos hindex, ht]
  exact reads_map scalarOf hread

theorem reads_objectVariant {data : Val .extensionObject} (hdata : Decoded data) (hstable : Stable data)
    (h : Unambiguous data) (hread : Reads room (jump .extensionObject) (wireOf data) data) :
    Reads room (variantDecodeBinary jump) (wireOf (.scalarVariant .extensionObject data))
      (.scalarVariant .extensionObject data) := by
  obtain ⟨hi, harray, -⟩ := variantMask_builtin (t := .extensionObject) rfl false false
  rw [wireOf_scalar rfl]
  refine reads_variant (i := 21) hi (by decide) ?_
  rw [variantAt, harray, if_neg (by decide), if_neg (by decide)]
  cases data with
  | encoded typeId encoding body =>
      rw [Decoded] at hdata
      obtain ⟨⟨i, rfl⟩, _⟩ := hdata
      rw [Stable] at hstable
      refine reads_object (wireOf_encoded _ _ _) (fun hone => ?_) hread
      cases encoding with
      | byteString => exact absurd rfl hstable.1
      | _ => cases hone
  | decoded nodelete type content =>
      rw [Decoded] at hdata
      obtain ⟨i, hid, honWire, hwire⟩ := wireOf_decoded hdata.2.1 nodelete content
      refine reads_object hwire (fun _ => ?_) hread
      rw [honWire, ← hid]
      exact h

theorem reads_decodedLength {t : DataType} {a : Arr t} (ha : DecodedArr a) :
    Reads room int32DecodeBinary (arrayLengthBytes a) (signedLength a) := by
  cases a with
  | null => exact reads_nullLength
  | items vs =>
      rw [DecodedArr] at ha
      exact reads_arrayLength ha.1

theorem reads_decodedArr {t : DataType} {a : Arr t} {item : DecM (Val t)} (ha : DecodedArr a) (hroom : slack ≤ room)
    (h : zeroCopyable t = false → EveryItem (fun v => Reads slack item (wireOf v) v) a) :
    Reads room (arrayDecodeBinary t item (signedLength a)) (arrWire a) a := by
  cases a with
  | null => exact reads_nullArray
  | items vs =>
      rw [DecodedArr] at ha
      have hsize := memSize_div_le ha.2.1
      exact reads_array ha.2.1 (by omega) (fun hcopy => Every.imp (fun v hv => hv.mono hroom) (h hcopy))

theorem reads_arrayVariant_of {i : Nat} (hi : i ≤ 24) {a : Arr (wireType i)} {ds : List UInt32}
    (ha : DecodedArr a) (hds : 4 * ds.length ≤ maxArraySize)
    (h : zeroCopyable (wireType i) = false →
      EveryItem (fun v => Reads slack (jump (wireType i)) (wireOf v) v) a) :
    Reads slack (variantDecodeBinary jump) (wireOf (.arrayVariant (wireType i) a ds))
      (.arrayVariant (wireType i) a ds) := by
  obtain ⟨hb, hindex⟩ := wireType_spec hi
  obtain ⟨hmask, harray, hdims⟩ := variantMask_builtin hb true (decide (ds.length > 0))
  rw [hindex] at hmask
  have hmax : maxArraySize = 104857600 := rfl
  rw [wireOf_array hb]
  refine reads_variant hmask hi ?_
  rw [variantAt, harray, if_pos rfl, hdims]
  exact reads_arrayVariant (reads_decodedLength ha)
    (reads_decodedArr ha (Nat.le_add_left _ _) (fun hcopy => h hcopy)) (by omega) hds

theorem reads_arrayMember {t : DataType} {a : Arr t} {item : DecM (Val t)} (ha : DecodedArr a) (hroom : slack ≤ room)
    (h : zeroCopyable t = false → EveryItem (fun v => Reads slack item (wireOf v) v) a) :
    Reads room (andThen int32DecodeBinary (arrayDecodeBinary t item)) (arrayLengthBytes a ++ arrWire a) a :=
  reads_andThen (reads_decodedLength ha) (reads_decodedArr ha hroom h)

theorem reads_dataValue {variant : DecM (Val .variant)} {fields : DataValueFields} {value : Val .variant}
    (hfields : DecodedFields fields)
    (hvalue : flagged fields.mask 0x01 = true → Reads room variant (wireOf value) value)
    (hempty : flagged fields.mask 0x01 = false → value = .emptyVariant) :
    Reads room (dataValueDecodeBinary variant) (wireOf (.dataValue fields value)) (.dataValue fields value) := by
  obtain ⟨h1, h2, h3, h4, h5, hsource, hserver⟩ := hfields
  have hclamped : Val.dataValue fields value = Val.dataValue ⟨fields.mask, fields.status, fields.sourceTimestamp,
      clampPicoseconds fields.sourcePicoseconds, fields.serverTimestamp,
      clampPicoseconds fields.serverPicoseconds⟩ value := by
    rw [hsource, hserver]
  have hread : Reads room (dataValueDecodeBinary variant) (wire (dataValueProg fields (valProg value)))
      (.dataValue ⟨fields.mask, fields.status, fields.sourceTimestamp, clampPicoseconds fields.sourcePicoseconds,
        fields.serverTimestamp, clampPicoseconds fields.serverPicoseconds⟩ value) := by
    refine reads_andThen (w := [fields.mask]) (reads_byte fields.mask) ?_
    exact reads_map (fun p : Val .variant × UInt32 × UInt64 × UInt16 × UInt64 × UInt16 =>
        Val.dataValue ⟨fields.mask, p.2.1, p.2.2.1, clampPicoseconds p.2.2.2.1, p.2.2.2.2.1,
          clampPicoseconds p.2.2.2.2.2⟩ p.1)
      (a := (value, fields.status, fields.sourceTimestamp, fields.sourcePicoseconds, fields.serverTimestamp,
        fields.serverPicoseconds))
      (reads_both (reads_option (fun hflag => (hvalue hflag).mono (Nat.le_add_left _ _)) hempty)
        (reads_both (reads_optionally (reads_uint32 _) h1)
          (reads_both (reads_optionally (reads_uint64 _) h2)
            (reads_both (reads_optionally (reads_uint16 _) h3)
              (reads_both (reads_optionally (reads_uint64 _) h4) (reads_optionally (reads_uint16 _) h5))))))
  rw [wireOf, valProg]
  exact hclamped ▸ hread

theorem typeIndex_ne {t : DataType} (h : t ≠ .extensionObject) : t.typeIndex ≠ 21 := by
  cases t with
  | simple typeId b => cases b <;> simp [DataType.typeIndex, Builtin.typeIndex]
  | extensionObject => exact absurd rfl h
  | _ => simp [DataType.typeIndex]

theorem reads_scalar {type : DataType} {data : Val type} (hv : Decoded (.scalarVariant type data))
    (h : Stable (.scalarVariant type data))
    (hread : zeroCopyable type = false → Reads slack (jump type) (wireOf data) data) :
    Reads slack (variantDecodeBinary jump) (wireOf (.scalarVariant type data)) (.scalarVariant type data) := by
  rw [Decoded] at hv
  rw [Stable] at h
  obtain ⟨htype, hplain, hdata⟩ := h
  have hb := (wireType_spec (typeIndex_le type)).1
  rw [htype] at hb
  by_cases hobject : type = .extensionObject
  · subst hobject
    have hcopy : zeroCopyable .extensionObject = false := rfl
    exact reads_objectVariant (hv.2 hcopy) (hdata hcopy) hplain (hread hcopy)
  · exact reads_scalarVariant hv.1 hb htype (typeIndex_ne hobject) hread

mutual

theorem reads_stable : {t : DataType} → (v : Val t) → Decoded v → Stable v →
    ∀ᶠ n in atTop, Reads slack (decodeBinary (n + 1) t) (wireOf v) v
  | _, .simple (b := b) x, hv, h => by
      rw [Decoded] at hv
      rw [Stable] at h
      rw [wireOf, valProg]
      refine (eventually_succ (P := fun n => Reads slack (map Val.simple (simpleDecodeBinary n b)) _ _)).mpr ?_
      exact (reads_simple (inRange_of_stable hv h)).mono (fun n hn => reads_map Val.simple hn)
  | _, .struct slots, hv, h => by
      rw [Decoded] at hv
      rw [Stable] at h
      rw [wireOf, valProg]
      exact (reads_stableSlots slots hv h).mono (fun n hn => reads_map Val.struct hn)
  | _, .encoded typeId encoding body, hv, h => Eventually.of_forall (fun _ => reads_encoded hv h)
  | _, .decoded nodelete type data, hv, h => by
      rw [Decoded] at hv
      rw [Stable] at h
      obtain ⟨rfl, hmem, hdata, hshort⟩ := hv
      have hread := (eventually_succ (P := fun n => Reads slack (decodeBinary n type) _ _)).mp
        (reads_stable data hdata h)
      exact hread.mono (fun n hn => reads_decoded hmem hn (hshort h))
  | _, .emptyVariant, hv, _ => by
      rw [Decoded] at hv
      exact hv.elim
  | _, .scalarVariant type data, hv, h => by
      cases hcopy : zeroCopyable type with
      | true =>
          refine Eventually.of_forall (fun n => reads_scalar hv h (fun hcopy' => ?_))
          rw [hcopy] at hcopy'
          cases hcopy'
      | false =>
          rw [Decoded] at hv
          rw [Stable] at h
          have hread := (eventually_succ (P := fun n => Reads slack (decodeBinary n type) _ _)).mp
            (reads_stable data (hv.2 hcopy) (h.2.2 hcopy))
          refine hread.mono (fun n hn => reads_scalar ?_ ?_ (fun _ => hn))
          · rw [Decoded]
            exact hv
          · rw [Stable]
            exact h
  | _, .arrayVariant type a ds, hv, h => by
      rw [Decoded] at hv
      rw [Stable] at h
      obtain ⟨⟨i, hi, htype⟩, ha, hds⟩ := hv
      have hread := (eventually_succ (P := fun n => zeroCopyable type = false →
        EveryItem (fun v => Reads slack (decodeBinary n type) (wireOf v) v) a)).mp (reads_stableArr a ha h)
      subst htype
      exact hread.mono (fun n hn => reads_arrayVariant_of hi ha hds hn)
  | _, .dataValue fields value, hv, h => by
      rw [Decoded] at hv
      rw [Stable] at h
      obtain ⟨hfields, hvalue, hempty⟩ := hv
      cases hflag : flagged fields.mask 0x01 with
      | true =>
          have hread := reads_stable value (hvalue hflag) (h hflag)
          exact hread.mono (fun n hn => reads_dataValue hfields (fun _ => hn) hempty)
      | false =>
          refine Eventually.of_forall (fun n => reads_dataValue hfields (fun hflag' => ?_) hempty)
          rw [hflag] at hflag'
          cases hflag'

theorem reads_stableArr : {t : DataType} → (a : Arr t) → DecodedArr a → StableArr a →
    ∀ᶠ n in atTop, zeroCopyable t = false →
      EveryItem (fun v => Reads slack (decodeBinary (n + 1) t) (wireOf v) v) a
  | _, .null, _, _ => Eventually.of_forall (fun _ _ => trivial)
  | t, .items vs, ha, h => by
      rw [DecodedArr] at ha
      rw [StableArr] at h
      cases hcopy : zeroCopyable t with
      | true => exact Eventually.of_forall (fun n hcopy' => by cases hcopy')
      | false => exact (reads_stableVals vs (ha.2.2 hcopy) (h hcopy)).mono (fun n hn _ => hn)

theorem reads_stableVals : {t : DataType} → (vs : Vals t) → DecodedVals vs → StableVals vs →
    ∀ᶠ n in atTop, Every (fun v => Reads slack (decodeBinary (n + 1) t) (wireOf v) v) vs
  | _, .nil, _, _ => Eventually.of_forall (fun _ => trivial)
  | _, .cons v vs, hvs, h => by
      rw [DecodedVals] at hvs
      rw [StableVals] at h
      exact (reads_stable v hvs.1 h.1).and (reads_stableVals vs hvs.2 h.2)

theorem reads_stableSlots : {members : Members} → (slots : Slots members) → DecodedSlots slots → StableSlots slots →
    ∀ᶠ n in atTop, Reads slack (membersDecodeBinary (n + 1) (decodeBinary n) members) (wire (slotsProg slots)) slots
  | _, .nil, _, _ => by
      rw [slotsProg]
      exact Eventually.of_forall (fun n => reads_succeed Slots.nil)
  | _, .scalar v slots, hslots, h => by
      rw [DecodedSlots] at hslots
      rw [StableSlots] at h
      rw [slotsProg]
      filter_upwards [reads_stable v hslots.1 h.1, reads_stableSlots slots hslots.2 h.2] with n hv hs
      exact reads_map (fun p => Slots.scalar p.1 p.2) (reads_both (hv.mono (Nat.le_add_left _ _)) hs)
  | _, .array a slots, hslots, h => by
      rw [DecodedSlots] at hslots
      rw [StableSlots] at h
      rw [wire_arraySlot]
      filter_upwards [reads_stableArr a hslots.1 h.1, reads_stableSlots slots hslots.2 h.2] with n ha hs
      exact reads_map (fun p => Slots.array p.1 p.2)
        (reads_both (reads_arrayMember hslots.1 (Nat.le_add_left _ _) ha) hs)

end

end Reading

end OpcUa.StableValues
