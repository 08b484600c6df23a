import OpcUa.ConsumedBytes

namespace OpcUa.DecodedValues

open LittleEndian NodeIds DataTypes TypeTable Values ValueEncoding Readers Decoding ValueDecoding ReadBack
open WritePrograms EncoderPrograms LeafReading ValueReading SimpleRoundTrips ExtensionObjects Variants VariantShapes
open ObjectVariants ConsumedBytes

/-- A numeric id fits into the format that is chosen for it. -/
def StableId (n : NodeId) : Prop :=
  match n.identifier with
  | .numeric i =>
      ¬ (n.namespaceIndex = 0 ∧ i = 256) ∧ ¬ (n.namespaceIndex = 256 ∧ i.toNat ≤ uint16Max)
  | _ => True

def StableSimple : (b : Builtin) → b.Carrier → Prop
  | .nodeId, n => StableId n
  | .expandedNodeId, x => StableId x.nodeId ∧ x.namespaceUri ≠ some []
  | _, _ => True

/-- The id that is written for the content is not taken for a type of its own. -/
def Unambiguous : {t : DataType} → Val t → Prop
  | _, .decoded _ type _ => findDataType (binaryId type.typeId) = none
  | _, _ => True

mutual

/-- The decoded values that come back from their own encoding. -/
def Stable : {t : DataType} → Val t → Prop
  | _, .simple (b := b) x => StableSimple b x
  | _, .struct slots => StableSlots slots
  | _, .encoded typeId encoding _ => encoding ≠ .byteString ∧ typeId ≠ numericId 0 256
  | _, .decoded _ _ data => Stable data
  | _, .emptyVariant => True
  | _, .scalarVariant type data =>
      wireType type.typeIndex = type ∧ Unambiguous data ∧ (zeroCopyable type = false → Stable data)
  | _, .arrayVariant _ a _ => StableArr a
  | _, .dataValue fields value => flagged fields.mask 0x01 = true → Stable value

def StableArr : {t : DataType} → Arr t → Prop
  | _, .null => True
  | t, .items vs => zeroCopyable t = false → StableVals vs

def StableVals : {t : DataType} → Vals t → Prop
  | _, .nil => True
  | _, .cons v vs => Stable v ∧ StableVals vs

def StableSlots : {members : Members} → Slots members → Prop
  | _, .nil => True
  | _, .scalar v slots => Stable v ∧ StableSlots slots
  | _, .array a slots => StableArr a ∧ StableSlots slots

end

/-- The text of an id is in the range of `UA_Int32`. -/
def ShortId (n : NodeId) : Prop :=
  match n.identifier with
  | .string s | .byteString s => Short s
  | _ => True

/-- What a decoder of the jump table guarantees for a simple value. -/
def DecodedSimple : (b : Builtin) → b.Carrier → Prop
  | .boolean, x => x ≤ 1
  | .string, s | .byteString, s | .xmlElement, s => Short s
  | .nodeId, n => ShortId n
  | .expandedNodeId, x =>
      ShortId x.nodeId ∧ Short x.namespaceUri ∧ (x.namespaceUri ≠ none → x.nodeId.namespaceIndex = 0)
  | .localizedText, x => Short x.locale ∧ Short x.text
  | .diagnosticInfo, x => DiagnosticInRange x
  | _, _ => True

/-- The fields of a DataValue that are not flagged are zero, and the
picoseconds have been clamped. -/
def DecodedFields (x : DataValueFields) : Prop :=
  (flagged x.mask 0x02 = false → x.status = 0) ∧
    (flagged x.mask 0x04 = false → x.sourceTimestamp = 0) ∧
    (flagged x.mask 0x10 = false → x.sourcePicoseconds = 0) ∧
    (flagged x.mask 0x08 = false → x.serverTimestamp = 0) ∧
    (flagged x.mask 0x20 = false → x.serverPicoseconds = 0) ∧
    clampPicoseconds x.sourcePicoseconds = x.sourcePicoseconds ∧
    clampPicoseconds x.serverPicoseconds = x.serverPicoseconds

mutual

/-- What the decoders guarantee for every value they return. The elements of
a zero-copyable type are not looked at. -/
def Decoded : {t : DataType} → Val t → Prop
  | _, .simple (b := b) x => DecodedSimple b x
  | _, .struct slots => DecodedSlots slots
  | _, .encoded typeId encoding body =>
      InNamespaceZero typeId ∧ Short body ∧ (encoding = .nobody → body = none) ∧
        (encoding = .byteString → findDataType typeId = none)
  | _, .decoded nodelete type data =>
      nodelete = false ∧ type ∈ uaTypes ∧ Decoded data ∧ (Stable data → (wireOf data).length < 2147483648)
  | _, .emptyVariant => False
  | _, .scalarVariant type data => type ∈ uaTypes ∧ (zeroCopyable type = false → Decoded data)
  | _, .arrayVariant type a dimensions =>
      (∃ i ≤ 24, type = wireType i) ∧ DecodedArr a ∧ 4 * dimensions.length ≤ maxArraySize
  | _, .dataValue fields value =>
      DecodedFields fields ∧ (flagged fields.mask 0x01 = true → Decoded value) ∧
        (flagged fields.mask 0x01 = false → value = .emptyVariant)

def DecodedArr : {t : DataType} → Arr t → Prop
  | _, .null => True
  | t, .items vs =>
      vs.length ≤ 2147483647 ∧ t.memSize * vs.length ≤ maxArraySize ∧ (zeroCopyable t = false → DecodedVals vs)

def DecodedVals : {t : DataType} → Vals t → Prop
  | _, .nil => True
  | _, .cons v vs => Decoded v ∧ DecodedVals vs

def DecodedSlots : {members : Members} → Slots members → Prop
  | _, .nil => True
  | _, .scalar v slots => Decoded v ∧ DecodedSlots slots
  | _, .array a slots => DecodedArr a ∧ DecodedSlots slots

end

variable {α : Type} {st st' : Dec}

theorem whenFlagged_ok {b : Bool} {zero x : α} {d : DecM α} (h : whenFlagged b zero d st = some (.ok x, st')) :
    b = true ∧ d st = some (.ok x, st') ∨ b = false ∧ x = zero ∧ st' = st := by
  cases b with
  | true => exact .inl ⟨rfl, h⟩
  | false =>
      simp only [whenFlagged, Bool.false_eq_true, if_false, succeed, Option.some.injEq, Prod.mk.injEq,
        Except.ok.injEq] at h
      exact .inr ⟨rfl, h.1.symm, h.2.symm⟩

theorem whenFlagged_zero {b : Bool} {zero x : α} {d : DecM α} (h : whenFlagged b zero d st = some (.ok x, st')) :
    b = false → x = zero := by
  intro hb
  rcases whenFlagged_ok h with ⟨hb', _⟩ | ⟨_, hx, _⟩
  · rw [hb] at hb'
    cases hb'
  · exact hx

theorem whenFlagged_short {b : Bool} {s : UaString}
    (h : whenFlagged b none stringDecodeBinary st = some (.ok s, st')) : Short s := by
  rcases whenFlagged_ok h with ⟨_, hs⟩ | ⟨_, rfl, _⟩
  · exact stringDecodeBinary_length hs
  · exact (by decide : 0 < 2147483648)

theorem boolean_ok {x : UInt8} (h : booleanDecodeBinary st = some (.ok x, st')) : x ≤ 1 := by
  obtain ⟨b, _, rfl⟩ := map_ok h
  split <;> decide

theorem nodeId_ok {n : NodeId} (h : nodeIdDecodeBinary st = some (.ok n, st')) : ShortId n := by
  obtain ⟨ns, identifier⟩ := n
  cases identifier with
  | string s => exact NodeIdRoundTrips.nodeIdDecodeBinary_strings h (.inl rfl)
  | byteString s => exact NodeIdRoundTrips.nodeIdDecodeBinary_strings h (.inr rfl)
  | _ => trivial

theorem expandedNodeId_ok {x : ExpandedNodeId} (h : expandedNodeIdDecodeBinary st = some (.ok x, st')) :
    DecodedSimple .expandedNodeId x := by
  rw [expandedNodeIdDecodeBinary] at h
  split at h
  · simp at h
  obtain ⟨⟨n, uri, server⟩, hboth, rfl⟩ := map_ok h
  obtain ⟨st1, hn, hrest⟩ := both_ok hboth
  obtain ⟨st2, huri, _⟩ := both_ok hrest
  have hshort := nodeId_ok hn
  refine ⟨?_, whenFlagged_short huri, fun hne => ?_⟩
  · dsimp only
    split
    · exact hshort
    · exact hshort
  · rcases whenFlagged_ok huri with ⟨hflag, _⟩ | ⟨_, hnone, _⟩
    · dsimp only
      rw [if_pos hflag]
    · exact absurd hnone hne

theorem localizedText_ok {x : LocalizedText} (h : localizedTextDecodeBinary st = some (.ok x, st')) :
    Short x.locale ∧ Short x.text := by
  obtain ⟨mask, st1, _, h⟩ := andThen_ok h
  obtain ⟨⟨locale, text⟩, hboth, rfl⟩ := map_ok h
  obtain ⟨st2, hlocale, htext⟩ := both_ok hboth
  exact ⟨whenFlagged_short hlocale, whenFlagged_short htext⟩

theorem diagnosticFields_ok {mask : UInt8} {x : DiagnosticFields}
    (h : diagnosticFieldsDecodeBinary mask st = some (.ok x, st')) : x.mask = mask ∧ FieldsInRange x := by
  obtain ⟨⟨x1, x2, x3, x4, x5, x6⟩, hboth, rfl⟩ := map_ok h
  obtain ⟨st1, h1, hboth⟩ := both_ok hboth
  obtain ⟨st2, h2, hboth⟩ := both_ok hboth
  obtain ⟨st3, h3, hboth⟩ := both_ok hboth
  obtain ⟨st4, h4, hboth⟩ := both_ok hboth
  obtain ⟨st5, h5, h6⟩ := both_ok hboth
  exact ⟨rfl, whenFlagged_zero h1, whenFlagged_zero h2, whenFlagged_zero h3, whenFlagged_zero h4,
    whenFlagged_zero h5, whenFlagged_zero h6, whenFlagged_short h5⟩

theorem diagnosticInfo_ok (fuel : Nat) {x : DiagnosticInfo}
    (h : diagnosticInfoDecodeBinary fuel st = some (.ok x, st')) : DiagnosticInRange x := by
  induction fuel generalizing st st' x with
  | zero => simp [diagnosticInfoDecodeBinary] at h
  | succ fuel ih =>
      obtain ⟨mask, st1, _, h⟩ := andThen_ok h
      split at h
      · obtain ⟨⟨fields, inner⟩, hboth, rfl⟩ := map_ok h
        obtain ⟨st2, hfields, hinner⟩ := both_ok hboth
        obtain ⟨_, st3, _, hinner⟩ := andThen_ok hinner
        obtain ⟨rfl, hrange⟩ := diagnosticFields_ok hfields
        exact ⟨hrange, ih hinner⟩
      · obtain ⟨fields, hfields, rfl⟩ := map_ok h
        obtain ⟨rfl, hrange⟩ := diagnosticFields_ok hfields
        exact hrange

theorem simple_ok {fuel : Nat} {b : Builtin} {x : b.Carrier}
    (h : simpleDecodeBinary fuel b st = some (.ok x, st')) : DecodedSimple b x := by
  cases b with
  | boolean => exact boolean_ok h
  | string | byteString | xmlElement => exact stringDecodeBinary_length h
  | nodeId => exact nodeId_ok h
  | expandedNodeId => exact expandedNodeId_ok h
  | localizedText => exact localizedText_ok h
  | diagnosticInfo => exact diagnosticInfo_ok fuel h
  | _ => trivial

/-- Every value that `d` returns keeps to that, and if it is stable, it has
been decoded from at least as many bytes as it is encoded to. -/
def Yields {t : DataType} (d : DecM (Val t)) : Prop :=
  ∀ st st' v, d st = some (.ok v, st') → Decoded v ∧ (Stable v → st.offset + (wireOf v).length ≤ st'.offset)

section Wire

theorem wire_arraySlot {t : DataType} {rest : Members} (a : Arr t) (slots : Slots rest) :
    wire (slotsProg (.array a slots)) = (arrayLengthBytes a ++ arrWire a) ++ wire (slotsProg slots) := by
  cases a with
  | null =>
      have hnull := wire_arrayProg (t := t) nullLengthBytes .nil
      rw [imageVals, valsProgs] at hnull
      rw [slotsProg, wire, hnull, itemsWire, valsProgs]
      rfl
  | items vs =>
      rw [slotsProg, wire, wire_arrayProg]
      rfl

theorem wireOf_decoded {type : DataType} (hmem : type ∈ uaTypes) (nodelete : Bool) (data : Val type) :
    ∃ i, binaryId type.typeId = numericId 0 i ∧ onWire i = i ∧
      wireOf (.decoded nodelete type data) = (wire (nodeIdProg (numericId 0 i)) ++ [1]) ++
        (lengthBytes (wireOf data).length ++ wireOf data) := by
  obtain ⟨i, hid, honWire, _⟩ := binaryId_of_mem hmem
  refine ⟨i, hid, honWire, ?_⟩
  rw [wireOf, valProg_decoded hmem, wire_wrapProg, hid]
  rfl

theorem wireType_spec {i : Nat} (hi : i ≤ 24) : (wireType i).builtin = true ∧ (wireType i).typeIndex = i := by
  have hall : ∀ i : Fin 25, (wireType i).builtin = true ∧ (wireType i).typeIndex = i := by decide +kernel
  exact hall ⟨i, Nat.lt_succ_of_le hi⟩

end Wire

section Arrays

variable {t : DataType} {item : DecM (Val t)}

theorem length_ofImages (t : DataType) (n : Nat) (bytes : List UInt8) : (ofImages t n bytes).length = n := by
  induction n generalizing bytes with
  | zero => rfl
  | succ n ih => rw [ofImages, Vals.length, ih]

theorem items_ok (hitem : Yields item) (n : Nat) {vs : Vals t}
    (h : itemsDecodeBinary item n st = some (.ok vs, st')) :
    vs.length = n ∧ DecodedVals vs ∧ (StableVals vs → st.offset + (itemsWire vs).length ≤ st'.offset) := by
  induction n generalizing st st' vs with
  | zero =>
      simp only [itemsDecodeBinary, succeed, Option.some.injEq, Prod.mk.injEq, Except.ok.injEq] at h
      rw [← h.1, ← h.2, DecodedVals, itemsWire, valsProgs]
      exact ⟨rfl, trivial, fun _ => le_refl _⟩
  | succ n ih =>
      obtain ⟨v, st1, hv, h⟩ := andThen_ok h
      obtain ⟨vs', hvs, rfl⟩ := map_ok h
      obtain ⟨hlength, hall, hspent⟩ := ih hvs
      obtain ⟨hdecoded, hfirst⟩ := hitem _ _ _ hv
      rw [Vals.length, hlength, DecodedVals, itemsWire_cons, List.length_append, StableVals]
      refine ⟨rfl, ⟨hdecoded, hall⟩, fun hstable => ?_⟩
      have hbefore := hfirst hstable.1
      have hbehind := hspent hstable.2
      omega

theorem int32_lt {n : Int} (h : int32DecodeBinary st = some (.ok n, st')) : n < 2147483648 := by
  obtain ⟨x, _, rfl⟩ := map_ok h
  have hx : x.toNat < 4294967296 := x.toNat_lt
  rw [toInt32]
  split <;> omega

theorem array_ok (hitem : Yields item) {n : Int} {a : Arr t}
    (hn : n < 2147483648) (h : arrayDecodeBinary t item n st = some (.ok a, st')) :
    DecodedArr a ∧ a.length = n.toNat ∧ (StableArr a → st.offset + (arrWire a).length ≤ st'.offset) := by
  rw [arrayDecodeBinary] at h
  split at h
  · rename_i hnull
    simp only [Option.some.injEq, Prod.mk.injEq, Except.ok.injEq] at h
    have hzero : n.toNat = 0 := by omega
    rw [← h.1, ← h.2, hzero]
    split
    · rw [DecodedArr, arrWire, itemsWire, valsProgs]
      refine ⟨⟨by simp [Vals.length], by simp [Vals.length], fun _ => ?_⟩, rfl, fun _ => le_refl _⟩
      rw [DecodedVals]
      trivial
    · rw [DecodedArr]
      exact ⟨trivial, rfl, fun _ => le_refl _⟩
  split at h
  · simp at h
  split at h
  · simp at h
  rename_i hsize _
  obtain ⟨_, st1, hallocate, h⟩ := andThen_ok h
  have hoffset : st1.offset = st.offset := by rw [allocate_ok hallocate]
  split at h
  · rename_i hcopy
    obtain ⟨bytes, hbytes, rfl⟩ := map_ok h
    have hadvance := spends_take _ _ _ _ hbytes
    rw [DecodedArr, Arr.length, arrWire, length_itemsWire hcopy, length_ofImages]
    refine ⟨⟨by omega, by omega, fun hflat => absurd hcopy (by simp [hflat])⟩, rfl, fun _ => ?_⟩
    rw [← hoffset]
    exact hadvance
  · rename_i hcopy
    obtain ⟨vs, hvs, rfl⟩ := map_ok h
    obtain ⟨hlength, hall, hspent⟩ := items_ok hitem _ hvs
    rw [DecodedArr, Arr.length, hlength, StableArr, ← hoffset]
    exact ⟨⟨by omega, by omega, fun _ => hall⟩, rfl, fun hstable => hspent (hstable (by simpa using hcopy))⟩

end Arrays

theorem wireType_mem {i : Nat} (h : i ≤ 24) : wireType i ∈ uaTypes := by
  have hlt : i < uaTypes.length := lt_of_le_of_lt h (by rw [uaTypes_length]; decide)
  rw [wireType, List.getD, List.getElem?_eq_getElem hlt, Option.getD_some]
  exact List.getElem_mem hlt

section Dynamic

variable {jump : (t : DataType) → DecM (Val t)}

/-- The size of a header with the id `i`. -/
def headerSize (i : UInt32) : Nat := (wire (nodeIdProg (numericId 0 i))).length + 1

theorem header_spends {i : UInt32} {encoding : UInt8}
    (h : headerDecodeBinary st = some (.ok (numericId 0 i, encoding), st')) :
    st.offset + headerSize i ≤ st'.offset := by
  obtain ⟨st1, hid, hencoding⟩ := header_parts h
  have hfirst := spends_nodeId _ _ _ hid
  have hsecond := spends_byte _ _ _ hencoding
  dsimp only at hfirst hsecond
  rw [headerSize]
  omega

theorem length_header (i : UInt32) (encoding : UInt8) :
    (wire (nodeIdProg (numericId 0 i)) ++ [encoding]).length = headerSize i := List.length_append

theorem binaryId_contentId (i : UInt32) : binaryId (contentId (numericId 0 i)) = numericId 0 i := by
  change numericId 0 (i - 2 + 2) = _
  rw [UInt32.sub_add_cancel]

theorem length_decoded {type : DataType} (hmem : type ∈ uaTypes) {i : UInt32}
    (hid : binaryId type.typeId = numericId 0 i)
    (nodelete : Bool) (data : Val type) :
    (wireOf (.decoded nodelete type data)).length = headerSize i + (4 + (wireOf data).length) := by
  obtain ⟨j, hj, _, hwire⟩ := wireOf_decoded hmem nodelete data
  rw [hwire, ← hj, hid, List.length_append, length_header, List.length_append]
  rfl

theorem content_ok (hjump : ∀ t, Yields (jump t)) {i : UInt32}
    {v : Val .extensionObject} (h : contentDecodeBinary jump (numericId 0 i) st = some (.ok v, st')) :
    Decoded v ∧ (Stable v → st.offset + (wireOf v).length ≤ st'.offset + headerSize i) := by
  cases v with
  | encoded id encoding body =>
      obtain ⟨rfl, rfl⟩ := content_encoded h
      obtain ⟨length, st1, _, h⟩ := andThen_ok h
      split at h
      · split at h
        · simp at h
        · rename_i r st2 _
          split at h
          · simp at h
          · cases r <;> simp [Except.map] at h
      · rename_i hfind
        obtain ⟨body', hbody, heq⟩ := map_ok h
        simp only [Val.encoded.injEq, true_and] at heq
        rw [Decoded, ← heq, Stable]
        exact ⟨⟨⟨i - 2, rfl⟩, stringDecodeBinary_length hbody, by simp, fun _ => hfind⟩,
          fun hstable => absurd rfl hstable.1⟩
  | decoded nodelete type data =>
      obtain ⟨rfl, hfind, st1, length, hlength, hdata, hend⟩ := content_decoded h
      have hmem := mem_of_findDataType hfind
      obtain ⟨hdecoded, hspent⟩ := hjump _ _ _ _ hdata
      dsimp only at hspent
      have hlt := int32_lt hlength
      have hbefore := int32_offset hlength
      have hid : binaryId type.typeId = numericId 0 i := by
        rw [typeId_of_findDataType hfind]
        exact binaryId_contentId i
      rw [Decoded, Stable, length_decoded hmem hid]
      refine ⟨⟨rfl, hmem, hdecoded, fun hstable => ?_⟩, fun hstable => ?_⟩
      · have hle := hspent hstable
        omega
      · have hle := hspent hstable
        omega

theorem extensionObject_ok (hjump : ∀ t, Yields (jump t)) : Yields (extensionObjectDecodeBinary jump) := by
  intro st st' v h
  obtain ⟨⟨typeId, encoding⟩, st1, hheader, h⟩ := andThen_ok h
  obtain ⟨i, rfl⟩ := header_ok hheader
  have hsize := header_spends hheader
  dsimp only at h
  split at h
  · simp only [succeed, Option.some.injEq, Prod.mk.injEq, Except.ok.injEq] at h
    rw [← h.1, ← h.2, Decoded, wireOf_encoded, if_neg (by decide), List.append_nil, length_header]
    exact ⟨⟨⟨i, rfl⟩, (by decide : 0 < 2147483648), fun _ => rfl, by simp⟩, fun _ => hsize⟩
  split at h
  · obtain ⟨body, hbody, rfl⟩ := map_ok h
    have hspent := spends_string _ _ _ hbody
    rw [Decoded, wireOf_encoded, if_pos (by decide), List.length_append, length_header]
    refine ⟨⟨⟨i, rfl⟩, stringDecodeBinary_length hbody, by simp, by simp⟩, fun _ => ?_⟩
    dsimp only at hspent
    omega
  · obtain ⟨hdecoded, hspent⟩ := content_ok hjump h
    refine ⟨hdecoded, fun hstable => ?_⟩
    have hle := hspent hstable
    omega

mutual

theorem stable_flat : {t : DataType} → (v : Val t) → flat t = true → Stable v
  | _, .simple (b := b) x, h => by
      rw [Stable]
      cases b with
      | nodeId | expandedNodeId => cases h
      | _ => trivial
  | _, .struct slots, h => by
      simp only [flat, Bool.and_eq_true] at h
      rw [Stable]
      exact stable_flatSlots slots h.1

theorem stable_flatSlots : {members : Members} → (slots : Slots members) → flatMembers members = true →
    StableSlots slots
  | _, .nil, _ => by
      rw [StableSlots]
      trivial
  | _, .scalar v slots, h => by
      simp only [flatMembers, Bool.and_eq_true] at h
      rw [StableSlots]
      exact ⟨stable_flat v h.1, stable_flatSlots slots h.2⟩

end

theorem stable_of_scalar {t : DataType} {data : Val t} (h : Stable (.scalarVariant t data)) : Stable data := by
  rw [Stable] at h
  cases hcopy : zeroCopyable t with
  | true => exact stable_flat data (EncoderRuns.flat_of_zeroCopyable hcopy)
  | false => exact h.2.2 hcopy

theorem length_int32s {typeId : NodeId} : (vs : Vals (.simple typeId .int32)) → (int32s vs).length = vs.length
  | .nil => by rw [int32s]; rfl
  | .cons (.simple x) vs => by rw [int32s, List.length_cons, length_int32s vs, Vals.length]

theorem dimensions_ok {n : Int} {ds : List UInt32}
    (h : dimensionsDecodeBinary jump n st = some (.ok ds, st')) :
    4 * ds.length ≤ maxArraySize ∧ st.offset + 4 * ds.length ≤ st'.offset := by
  obtain ⟨a, ha, rfl⟩ := map_ok h
  rw [arrayDecodeBinary] at ha
  split at ha
  · simp only [Option.some.injEq, Prod.mk.injEq, Except.ok.injEq] at ha
    rw [← ha.1, ← ha.2]
    split
    · have hnil : (dimensionsOf (.items .nil)).length = 0 := length_int32s .nil
      rw [hnil]
      exact ⟨Nat.zero_le _, le_refl _⟩
    · exact ⟨Nat.zero_le _, le_refl _⟩
  split at ha
  · simp at ha
  split at ha
  · simp at ha
  rename_i hsize _
  obtain ⟨_, st1, hallocate, ha⟩ := andThen_ok ha
  rw [if_pos (by decide)] at ha
  obtain ⟨bytes, hbytes, rfl⟩ := map_ok ha
  have hspent := spends_take _ _ _ _ hbytes
  have hlength : (dimensionsOf (.items (ofImages TypeTable.int32 n.toNat bytes))).length = n.toNat :=
    (length_int32s _).trans (length_ofImages _ _ _)
  rw [hlength, ← show st1.offset = st.offset by rw [allocate_ok hallocate]]
  exact ⟨Nat.le_of_not_lt hsize, hspent⟩

theorem length_dimensionsWire (ds : List UInt32) : (dimensionsWire ds).length ≤ 4 + 4 * ds.length := by
  have hwords : (ds.flatMap (fun d => toBytes 4 d.toNat)).length = 4 * ds.length := by
    induction ds with
    | nil => rfl
    | cons d ds ih =>
        rw [List.flatMap_cons, List.length_append, ih, length_toBytes, List.length_cons]
        omega
  rw [dimensionsWire]
  split
  · rw [wire_dimensionsProg, List.length_append, hwords]
    exact le_refl _
  · exact Nat.zero_le _

theorem arrayVariant_decoded (hjump : ∀ t, Yields (jump t)) {i : Nat}
    (hi : i ≤ 24) {dims : Bool} {v : Val .variant}
    (h : arrayVariantDecodeBinary jump (wireType i) dims st = some (.ok v, st')) :
    Decoded v ∧ (Stable v → st.offset + (wireOf v).length ≤ st'.offset + 1) := by
  obtain ⟨length, st1, hlength, h⟩ := andThen_ok h
  have hlt := int32_lt hlength
  have hfirst := int32_offset hlength
  have hb := (wireType_spec hi).1
  cases dims with
  | true =>
      obtain ⟨⟨a, n⟩, st2, hboth, h⟩ := andThen_ok h
      obtain ⟨st3, ha, hn⟩ := both_ok hboth
      obtain ⟨ds, hds, rfl⟩ := map_ok h
      obtain ⟨hdecoded, _, hspent⟩ := array_ok (hjump _) hlt ha
      obtain ⟨hsize, hwords⟩ := dimensions_ok hds
      have hsecond := int32_offset hn
      have hdims := length_dimensionsWire ds
      rw [Decoded, Stable, wireOf_array hb, List.length_cons, List.length_append, List.length_append,
        length_arrayLengthBytes]
      refine ⟨⟨⟨i, hi, rfl⟩, hdecoded, hsize⟩, fun hstable => ?_⟩
      have hitems := hspent hstable
      omega
  | false =>
      obtain ⟨a, ha, rfl⟩ := map_ok h
      obtain ⟨hdecoded, _, hspent⟩ := array_ok (hjump _) hlt ha
      have hdims : dimensionsWire [] = [] := rfl
      rw [Decoded, Stable, wireOf_array hb, hdims, List.append_nil, List.length_cons, List.length_append,
        length_arrayLengthBytes]
      refine ⟨⟨⟨i, hi, rfl⟩, hdecoded, Nat.zero_le _⟩, fun hstable => ?_⟩
      have hitems := hspent hstable
      omega

theorem length_scalar {t : DataType} {data : Val t} (h : Stable (.scalarVariant t data)) :
    (wireOf (.scalarVariant t data)).length = (wireOf data).length + 1 := by
  rw [Stable] at h
  have hb := (wireType_spec (typeIndex_le t)).1
  rw [h.1] at hb
  rw [wireOf_scalar hb, List.length_cons]

theorem scalarVariant_decoded (hjump : ∀ t, Yields (jump t))
    {t : DataType} (hmem : t ∈ uaTypes) {v : Val .variant}
    (h : map scalarOf (arrayDecodeBinary t (jump t) 1) st = some (.ok v, st')) :
    Decoded v ∧ (Stable v → st.offset + (wireOf v).length ≤ st'.offset + 1) := by
  obtain ⟨a, ha, rfl⟩ := map_ok h
  obtain ⟨hdecoded, hlength, hspent⟩ := array_ok (hjump t) (by decide) ha
  match a, hlength with
  | .items (.cons v .nil), _ =>
      rw [DecodedArr] at hdecoded
      rw [StableArr, arrWire, itemsWire_cons, itemsWire, valsProgs, List.flatMap_nil, List.append_nil] at hspent
      rw [scalarOf, Decoded]
      refine ⟨⟨hmem, fun hflat => ?_⟩, fun hstable => ?_⟩
      · have hall := hdecoded.2.2 hflat
        rw [DecodedVals] at hall
        exact hall.1
      · rw [length_scalar hstable]
        rw [Stable] at hstable
        have hle := hspent (fun hflat => by rw [StableVals, StableVals]; exact ⟨hstable.2.2 hflat, trivial⟩)
        omega
  | .null, hnone => cases hnone
  | .items .nil, hnone => cases hnone
  | .items (.cons _ (.cons _ vs)), hmore =>
      rw [Arr.length, Vals.length, Vals.length] at hmore
      omega

theorem objectVariant_decoded (hjump : ∀ t, Yields (jump t))
    {v : Val .variant} (h : objectVariantDecodeBinary jump st = some (.ok v, st')) :
    Decoded v ∧ (Stable v → st.offset + (wireOf v).length ≤ st'.offset + 1) := by
  rw [objectVariantDecodeBinary] at h
  split at h
  · simp at h
  · simp at h
  · rename_i typeId encoding st1 hhead
    obtain ⟨_, st2, hid, hrest⟩ := andThen_ok hhead
    obtain ⟨_, hencoding, _⟩ := map_ok hrest
    have hfirst := spends_nodeId _ _ _ hid
    have hsecond := spends_byte _ _ _ hencoding
    split at h
    · rename_i type hfind
      obtain ⟨_, st3, hallocate, h⟩ := andThen_ok h
      obtain ⟨x, hx, rfl⟩ := map_ok h
      obtain ⟨hdecoded, hspent⟩ := hjump _ _ _ _ hx
      have hmem : type ∈ uaTypes := by
        split at hfind
        · exact mem_of_findDataType hfind
        · cases hfind
      have hoffset : st3.offset = st1.offset := by rw [allocate_ok hallocate]
      rw [Decoded]
      refine ⟨⟨hmem, fun _ => hdecoded⟩, fun hstable => ?_⟩
      rw [length_scalar hstable]
      have hle := hspent (stable_of_scalar hstable)
      omega
    · obtain ⟨_, st3, hallocate, h⟩ := andThen_ok h
      obtain ⟨x, hx, rfl⟩ := map_ok h
      obtain ⟨hdecoded, hspent⟩ := hjump _ _ _ _ hx
      have hoffset : st3.offset = st.offset := by rw [allocate_ok hallocate]
      rw [Decoded]
      refine ⟨⟨wireType_mem (i := 21) (by decide), fun _ => hdecoded⟩, fun hstable => ?_⟩
      rw [length_scalar hstable]
      have hle := hspent (stable_of_scalar hstable)
      omega

theorem variant_ok (hjump : ∀ t, Yields (jump t)) : Yields (variantDecodeBinary jump) := by
  intro st st' v h
  rw [variantDecodeBinary_eq] at h
  obtain ⟨mask, st1, hmask, h⟩ := andThen_ok h
  have hfirst := spends_byte _ _ _ hmask
  dsimp only at hfirst
  split at h
  · simp [fail] at h
  rename_i hindex
  have hi : (mask &&& 0x3f).toNat - 1 ≤ 24 := by omega
  have hkept : Decoded v ∧ (Stable v → st1.offset + (wireOf v).length ≤ st'.offset + 1) := by
    rw [variantAt] at h
    split at h
    · exact arrayVariant_decoded hjump hi h
    split at h
    · exact scalarVariant_decoded hjump (wireType_mem hi) h
    · exact objectVariant_decoded hjump h
  refine ⟨hkept.1, fun hstable => ?_⟩
  have hle := hkept.2 hstable
  omega

theorem clampPicoseconds_idem (x : UInt16) : clampPicoseconds (clampPicoseconds x) = clampPicoseconds x := by
  by_cases h : 999 < x ∧ x < 32768
  · rw [show clampPicoseconds x = 999 from if_pos h]
    decide
  · rw [show clampPicoseconds x = x from if_neg h]
    exact if_neg h

theorem length_dataValue (fields : DataValueFields) (value : Val .variant) :
    (wireOf (.dataValue fields value)).length =
      1 + ((if flagged fields.mask 0x01 then (wireOf value).length else 0) +
        ((if flagged fields.mask 0x02 then 4 else 0) + ((if flagged fields.mask 0x04 then 8 else 0) +
          ((if flagged fields.mask 0x10 then 2 else 0) + ((if flagged fields.mask 0x08 then 8 else 0) +
            if flagged fields.mask 0x20 then 2 else 0))))) := by
  have hplain : ∀ k n, (wire (plain (toBytes k n))).length = k := length_toBytes
  have hmask : (wire (plain [fields.mask])).length = 1 := rfl
  rw [wireOf, valProg, dataValueProg]
  simp only [wire, List.length_append, length_optionally, hplain, hmask]
  rfl

theorem dataValue_ok {variant : DecM (Val .variant)} (hvariant : Yields variant) :
    Yields (dataValueDecodeBinary variant) := by
  intro st st' v h
  obtain ⟨mask, st0, hmask, h⟩ := andThen_ok h
  obtain ⟨⟨value, x1, x2, x3, x4, x5⟩, hboth, rfl⟩ := map_ok h
  obtain ⟨st1, hvalue, hboth⟩ := both_ok hboth
  obtain ⟨st2, h1, hboth⟩ := both_ok hboth
  obtain ⟨st3, h2, hboth⟩ := both_ok hboth
  obtain ⟨st4, h3, hboth⟩ := both_ok hboth
  obtain ⟨st5, h4, h5⟩ := both_ok hboth
  have hzero : ∀ {x : UInt16}, x = 0 → clampPicoseconds x = 0 := by
    intro x hx
    rw [hx]
    decide
  have hkept : (flagged mask 0x01 = true → Decoded value) ∧
      ((flagged mask 0x01 = true → Stable value) →
        st0.offset + (if flagged mask 0x01 then (wireOf value).length else 0) ≤ st1.offset) := by
    rcases whenFlagged_ok hvalue with ⟨hflag, hrun⟩ | ⟨hflag, _, rfl⟩
    · obtain ⟨hdecoded, hspent⟩ := hvariant _ _ _ hrun
      rw [hflag, if_pos rfl]
      exact ⟨fun _ => hdecoded, fun hstable => hspent (hstable rfl)⟩
    · rw [hflag, if_neg (by decide)]
      exact ⟨fun htrue => absurd htrue (by decide), fun _ => le_refl _⟩
  rw [Decoded, Stable, length_dataValue]
  refine ⟨⟨⟨whenFlagged_zero h1, whenFlagged_zero h2, fun hflag => hzero (whenFlagged_zero h3 hflag),
    whenFlagged_zero h4, fun hflag => hzero (whenFlagged_zero h5 hflag), clampPicoseconds_idem x3,
    clampPicoseconds_idem x5⟩, hkept.1, whenFlagged_zero hvalue⟩, fun hstable => ?_⟩
  have hspent0 := spends_byte _ _ _ hmask
  have hspentValue := hkept.2 hstable
  have hspent1 := spends_whenFlagged _ _ spends_uint32 _ _ _ h1
  have hspent2 := spends_whenFlagged _ _ spends_uint64 _ _ _ h2
  have hspent3 := spends_whenFlagged _ _ spends_uint16 _ _ _ h3
  have hspent4 := spends_whenFlagged _ _ spends_uint64 _ _ _ h4
  have hspent5 := spends_whenFlagged _ _ spends_uint16 _ _ _ h5
  dsimp only at hspent0 hspentValue hspent1 hspent2 hspent3 hspent4 hspent5 ⊢
  omega

mutual

theorem type_ok (fuel : Nat) (hjump : ∀ t, Yields (jump t)) :
    (t : DataType) → Yields (typeDecodeBinary fuel jump t)
  | .simple _ b, _, _, _, h => by
      rw [typeDecodeBinary] at h
      obtain ⟨x, hx, rfl⟩ := map_ok h
      rw [Decoded, wireOf, valProg]
      exact ⟨simple_ok hx, fun _ => spends_simple fuel b _ _ _ hx⟩
  | .extensionObject, _, _, _, h => by
      rw [typeDecodeBinary] at h
      exact extensionObject_ok hjump _ _ _ h
  | .dataValue, _, _, _, h => by
      rw [typeDecodeBinary] at h
      exact dataValue_ok (variant_ok hjump) _ _ _ h
  | .variant, _, _, _, h => by
      rw [typeDecodeBinary] at h
      exact variant_ok hjump _ _ _ h
  | .structure _ members, _, _, _, h => by
      rw [typeDecodeBinary] at h
      obtain ⟨slots, hslots, rfl⟩ := map_ok h
      rw [Decoded, Stable, wireOf, valProg]
      exact members_ok fuel hjump members _ _ _ hslots

theorem members_ok (fuel : Nat) (hjump : ∀ t, Yields (jump t)) :
    (members : Members) → ∀ st st' slots,
      membersDecodeBinary fuel jump members st = some (.ok slots, st') →
      DecodedSlots slots ∧ (StableSlots slots → st.offset + (wire (slotsProg slots)).length ≤ st'.offset)
  | .nil, _, _, .nil, h => by
      simp only [membersDecodeBinary, succeed, Option.some.injEq, Prod.mk.injEq] at h
      rw [DecodedSlots, slotsProg, ← h.2]
      exact ⟨trivial, fun _ => le_refl _⟩
  | .scalar t rest, _, _, _, h => by
      rw [membersDecodeBinary] at h
      obtain ⟨⟨v, slots⟩, hboth, rfl⟩ := map_ok h
      obtain ⟨st1, hv, hslots⟩ := both_ok hboth
      obtain ⟨hdecoded, hfirst⟩ := type_ok fuel hjump t _ _ _ hv
      obtain ⟨hothers, hrest⟩ := members_ok fuel hjump rest _ _ _ hslots
      rw [DecodedSlots, StableSlots, slotsProg, wire, List.length_append]
      refine ⟨⟨hdecoded, hothers⟩, fun hstable => ?_⟩
      have hbefore := hfirst hstable.1
      have hbehind := hrest hstable.2
      rw [wireOf] at hbefore
      dsimp only
      omega
  | .array t rest, _, _, _, h => by
      rw [membersDecodeBinary] at h
      obtain ⟨⟨a, slots⟩, hboth, rfl⟩ := map_ok h
      obtain ⟨st1, ha, hslots⟩ := both_ok hboth
      obtain ⟨length, st2, hlength, ha⟩ := andThen_ok ha
      obtain ⟨hdecoded, _, hfirst⟩ := array_ok (type_ok fuel hjump t) (int32_lt hlength) ha
      obtain ⟨hothers, hrest⟩ := members_ok fuel hjump rest _ _ _ hslots
      rw [DecodedSlots, StableSlots, wire_arraySlot, List.length_append, List.length_append, length_arrayLengthBytes]
      refine ⟨⟨hdecoded, hothers⟩, fun hstable => ?_⟩
      have hlast := int32_offset hlength
      have hbefore := hfirst hstable.1
      have hbehind := hrest hstable.2
      dsimp only
      omega

end

theorem decode_ok (fuel : Nat) (t : DataType) : Yields (decodeBinary fuel t) := by
  induction fuel generalizing t with
  | zero =>
      intro st st' v h
      simp [decodeBinary] at h
  | succ fuel ih => exact type_ok (fuel + 1) ih t

end Dynamic

end OpcUa.DecodedValues
