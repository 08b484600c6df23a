import OpcUa.MemoryDecoding

namespace OpcUa.MemoryAgreement

open StatusCodes NodeIds DataTypes Values Decoding ValueDecoding DecodedMemory MemoryReaders MemoryDecoding
open Readers (Dec DecM andThen)

variable {α β μ ν : Type}

theorem follows_choice {c : Prop} [Decidable c] {m m' : MemM α μ} {d d' : DecM α} (h : c → Follows m d)
    (h' : ¬c → Follows m' d') : Follows (if c then m else m') (if c then d else d') := by
  by_cases hc : c
  · rw [if_pos hc, if_pos hc]
    exact h hc
  · rw [if_neg hc, if_neg hc]
    exact h' hc

theorem follows_string : Follows stringMem stringDecodeBinary := by
  refine follows_after none (follows_plain _) fun signedLength s => ?_
  by_cases hnone : signedLength ≤ 0
  · simp only [if_pos hnone]
    rfl
  · by_cases hlong : s.dec.offset + signedLength.toNat > s.dec.data.length
    · simp only [if_neg hnone, if_pos hlong]
      rfl
    · simp only [if_neg hnone, if_neg hlong]
      exact follows_withBlock _ (fun id => follows_place some _ (follows_plain _)) s

theorem follows_buffer : Follows bufferMem stringDecodeBinary := follows_moved _ follows_string

theorem follows_nodeIdBody (encodingByte : UInt8) :
    Follows (nodeIdBodyMem encodingByte) (nodeIdBodyDecodeBinary encodingByte) := by
  rw [nodeIdBodyMem]
  by_cases hstring : encodingByte = 3
  · subst hstring
    exact follows_place _ _ (follows_both (follows_plain _) follows_string)
  · by_cases hbytes : encodingByte = 5
    · subst hbytes
      exact follows_place _ _ (follows_both (follows_plain _) follows_string)
    · rw [if_neg hstring, if_neg hbytes]
      by_cases hunknown : encodingByte > 5
      · have hkinds : encodingByte ≠ 0 ∧ encodingByte ≠ 1 ∧ encodingByte ≠ 2 ∧ encodingByte ≠ 4 := by
          refine ⟨?_, ?_, ?_, ?_⟩ <;> rintro rfl <;> exact absurd hunknown (by decide)
        rw [if_pos hunknown, nodeIdBodyDecodeBinary, if_neg hkinds.1, if_neg hkinds.2.1, if_neg hkinds.2.2.1,
          if_neg hstring, if_neg hkinds.2.2.2, if_neg hbytes]
        exact follows_fail _ _
      · rw [if_neg hunknown]
        exact follows_moved _ (follows_plain _)

theorem follows_nodeId : Follows nodeIdMem nodeIdDecodeBinary :=
  follows_after _ (follows_plain _) fun encodingByte =>
    follows_onError _ _ (follows_moved _ (follows_nodeIdBody encodingByte))

theorem follows_unsetNodeId : Follows unsetNodeIdMem nodeIdDecodeBinary := fun s =>
  follows_after _ (follows_plain _) (fun encodingByte => follows_onError _ _ (follows_nodeIdBody encodingByte))
    { s with typeIds := s.dec :: s.typeIds }

theorem follows_expandedNodeId : Follows expandedNodeIdMem expandedNodeIdDecodeBinary := by
  intro s
  rw [expandedNodeIdMem, expandedNodeIdDecodeBinary]
  by_cases hend : s.dec.offset ≥ s.dec.data.length
  · rw [if_pos hend, if_pos hend]
    rfl
  · rw [if_neg hend, if_neg hend]
    refine follows_onError _ _ (follows_place _ _ (follows_both follows_nodeId (follows_both ?_ ?_))) _
    · exact follows_whenFlagged _ _ _ follows_buffer
    · exact follows_whenFlagged _ _ _ (follows_plain _)

theorem follows_localizedText : Follows localizedTextMem localizedTextDecodeBinary :=
  follows_after _ (follows_plain _) fun _ => follows_onError _ _ <| follows_place _ _ <|
    follows_both (follows_whenFlagged _ _ _ follows_buffer) (follows_whenFlagged _ _ _ follows_buffer)

theorem follows_diagnosticFields (mask : UInt8) :
    Follows (diagnosticFieldsMem mask) (diagnosticFieldsDecodeBinary mask) := by
  have hnumber := fun bit => follows_whenFlagged (flagged mask bit) 0 () (follows_plain uint32DecodeBinary)
  exact follows_place _ _ (follows_both (hnumber 0x01) (follows_both (hnumber 0x02) (follows_both (hnumber 0x04)
    (follows_both (hnumber 0x08) (follows_both (follows_whenFlagged _ _ _ follows_buffer) (hnumber 0x20))))))

theorem follows_diagnosticInfo : ∀ fuel, Follows (diagnosticInfoMem fuel) (diagnosticInfoDecodeBinary fuel) := by
  intro fuel
  induction fuel with
  | zero => exact fun _ => rfl
  | succ fuel ih =>
      refine follows_after _ (follows_plain _) fun mask => follows_onError _ _ ?_
      by_cases hinner : hasInner mask = true
      · rw [dif_pos hinner, dif_pos hinner]
        exact follows_place _ _ (follows_both (follows_diagnosticFields mask)
          (follows_withBlock _ fun _ => follows_moved _ ih))
      · rw [dif_neg hinner, dif_neg hinner]
        exact follows_place _ _ (follows_diagnosticFields mask)

theorem follows_simple (fuel : Nat) (b : Builtin) : Follows (simpleMem fuel b) (simpleDecodeBinary fuel b) := by
  cases b with
  | string | byteString | xmlElement => exact follows_buffer
  | nodeId => exact follows_nodeId
  | expandedNodeId => exact follows_expandedNodeId
  | localizedText => exact follows_localizedText
  | diagnosticInfo => exact follows_diagnosticInfo fuel
  | _ => exact follows_plain _

theorem follows_items {t : DataType} {item : MemM (Val t) (Mem t)} {item' : DecM (Val t)} (h : Follows item item') :
    ∀ n, Follows (itemsMem item n) (itemsDecodeBinary item' n) := by
  intro n
  induction n with
  | zero => exact follows_succeed _ _
  | succ n ih =>
      intro s
      simp only [itemsMem, itemsDecodeBinary, andThen]
      cases hitem : item s with
      | none => rw [h.none hitem]; rfl
      | some res =>
          obtain ⟨r, m, s'⟩ := res
          rw [h.some hitem]
          cases r with
          | error code => rfl
          | ok v => exact follows_place _ _ ih s'

theorem follows_array (t : DataType) {item : MemM (Val t) (Mem t)} {item' : DecM (Val t)} (h : Follows item item')
    (signedLength : Int) : Follows (arrayMem t item signedLength) (arrayDecodeBinary t item' signedLength) := by
  intro s
  simp only [arrayMem, arrayDecodeBinary]
  by_cases hnone : signedLength ≤ 0
  · rw [if_pos hnone, if_pos hnone]
    rfl
  rw [if_neg hnone, if_neg hnone]
  by_cases hsize : t.memSize * signedLength.toNat > maxArraySize
  · rw [if_pos hsize, if_pos hsize]
    rfl
  rw [if_neg hsize, if_neg hsize]
  by_cases hroom : s.dec.offset + t.memSize * signedLength.toNat / 32 > s.dec.data.length
  · rw [if_pos hroom, if_pos hroom]
    rfl
  rw [if_neg hroom, if_neg hroom]
  refine follows_withBlock _ (fun id => follows_choice (fun _ => ?_) fun _ => ?_) s
  · exact follows_moved _ (follows_after _ (follows_plain _) fun bytes => follows_succeed _ _)
  · exact follows_onError _ _ (follows_place _ _ (follows_items h _))

theorem follows_header : Follows headerMem headerDecodeBinary := by
  intro s
  simp only [headerMem, headerDecodeBinary]
  have hboth := follows_both follows_nodeId (follows_plain byteDecodeBinary)
  cases hrun : both nodeIdMem (plain byteDecodeBinary) s with
  | none => rw [hboth.none hrun]; rfl
  | some res =>
      obtain ⟨r, x, s'⟩ := res
      rw [hboth.some hrun]
      cases r with
      | error code => rfl
      | ok p =>
          simp only []
          split <;> rfl

variable {jump : (t : DataType) → MemM (Val t) (Mem t)} {jump' : (t : DataType) → DecM (Val t)}

theorem follows_content (h : ∀ t, Follows (jump t) (jump' t)) (typeId : NodeId) :
    Follows (contentMem jump typeId) (contentDecodeBinary jump' typeId) := by
  intro s
  simp only [contentMem, contentDecodeBinary]
  refine follows_after _ (follows_plain _) (fun length => follows_onError _ _ ?_) s
  cases TypeTable.findDataType (contentId typeId) with
  | some type =>
      intro s₁
      have hinner := follows_withBlock (Mem.encoded nullBuffer) fun id =>
        follows_place (Val.decoded false type) (Mem.decoded type id) (h type)
      simp only [withLength]
      have hmapped : ∀ st, andThen Readers.allocate (fun _ => Readers.map (Val.decoded false type) (jump' type)) st
          = (andThen Readers.allocate (fun _ => jump' type) st).map
              (fun x => (x.1.map (Val.decoded false type), x.2)) := by
        intro st
        simp only [andThen, Readers.map]
        rcases Readers.allocate st with _ | ⟨r, st'⟩
        · rfl
        · cases r with
          | error code => rfl
          | ok u =>
              rcases hjump : jump' type st' with _ | ⟨r', st''⟩
              · simp only [hjump]; rfl
              · cases r' <;> simp only [hjump] <;> rfl
      cases hrun : withBlock (Mem.encoded nullBuffer)
          (fun id => place (Val.decoded false type) (Mem.decoded type id) (jump type)) s₁ with
      | none =>
          have hvalue := hinner.none hrun
          rw [hmapped, Option.map_eq_none_iff] at hvalue
          rw [hvalue]
          rfl
      | some res =>
          obtain ⟨r, x, s₂⟩ := res
          have hvalue := hinner.some hrun
          rw [hmapped, Option.map_eq_some_iff] at hvalue
          obtain ⟨⟨r', st⟩, hd, hr⟩ := hvalue
          cases hr
          rw [hd]
          simp only []
          split <;> rfl
  | none =>
      intro s₁
      exact follows_place _ _ follows_buffer (s₁.seek s.dec.offset)

theorem follows_extensionObject (h : ∀ t, Follows (jump t) (jump' t)) :
    Follows (extensionObjectMem jump) (extensionObjectDecodeBinary jump') :=
  follows_after _ follows_header fun _ => follows_choice (fun _ => follows_succeed _ _) fun _ =>
    follows_choice (fun _ => follows_onError _ _ (follows_place _ _ follows_buffer)) fun _ => follows_content h _

theorem follows_dimensions (h : ∀ t, Follows (jump t) (jump' t)) (signedLength : Int) :
    Follows (dimensionsMem jump signedLength) (dimensionsDecodeBinary jump' signedLength) :=
  follows_place _ _ (follows_array _ (h _) signedLength)

theorem follows_arrayVariant (h : ∀ t, Follows (jump t) (jump' t)) (type : DataType) (hasDimensions : Bool) :
    Follows (arrayVariantMem jump type hasDimensions) (arrayVariantDecodeBinary jump' type hasDimensions) := by
  refine follows_after _ (follows_plain _) fun signedLength => follows_onError _ _ ?_
  refine follows_choice (fun _ => follows_moved _ (follows_followed _ ?_ ?_)) fun _ => ?_
  · exact follows_both (follows_array type (h type) signedLength) (follows_plain _)
  · exact fun p => follows_place _ _ (follows_dimensions h p.2)
  · exact follows_place _ _ (follows_array type (h type) signedLength)

theorem follows_pointee (h : ∀ t, Follows (jump t) (jump' t)) (type : DataType) :
    Follows (pointeeMem jump type)
      (andThen Readers.allocate fun _ => Readers.map (Val.scalarVariant type) (jump' type)) :=
  follows_onError _ _ <| follows_withBlock _ fun _ =>
    follows_moved _ (follows_onError _ _ (follows_place _ _ (h type)))

theorem follows_typeId : Follows typeIdMem
    (andThen nodeIdDecodeBinary fun typeId => Readers.map (Prod.mk typeId) byteDecodeBinary) := by
  intro s
  simp only [typeIdMem, andThen]
  cases hrun : unsetNodeIdMem s with
  | none => rw [follows_unsetNodeId.none hrun]; rfl
  | some res =>
      obtain ⟨r, x, s'⟩ := res
      rw [follows_unsetNodeId.some hrun]
      cases r with
      | error code => rfl
      | ok typeId => exact follows_discarded _ (follows_place (Prod.mk typeId) id (follows_plain _)) s'

theorem follows_objectVariant (h : ∀ t, Follows (jump t) (jump' t)) :
    Follows (objectVariantMem jump) (objectVariantDecodeBinary jump') := by
  intro s
  simp only [objectVariantMem, objectVariantDecodeBinary]
  cases hrun : typeIdMem s with
  | none => rw [follows_typeId.none hrun]; rfl
  | some res =>
      obtain ⟨r, x, s'⟩ := res
      rw [follows_typeId.some hrun]
      cases r with
      | error code => rfl
      | ok p =>
          simp only []
          cases (if p.1.namespaceIndex = 0 ∧ p.2 = 1 then TypeTable.findDataType p.1 else none) with
          | some type => exact follows_pointee h type s'
          | none => exact follows_pointee h .extensionObject (s'.seek s.dec.offset)

theorem follows_variant (h : ∀ t, Follows (jump t) (jump' t)) :
    Follows (variantMem jump) (variantDecodeBinary jump') :=
  follows_after _ (follows_plain _) fun _ => follows_choice (fun _ => follows_fail _ _) fun _ =>
    follows_choice (fun _ => follows_arrayVariant h _ _) fun _ =>
      follows_choice (fun _ => follows_onError _ _ (follows_place _ _ (follows_array _ (h _) 1)))
        fun _ => follows_objectVariant h

theorem follows_dataValue {variant : MemM (Val .variant) (Mem .variant)} {variant' : DecM (Val .variant)}
    (h : Follows variant variant') : Follows (dataValueMem variant) (dataValueDecodeBinary variant') := by
  refine follows_after _ (follows_plain _) fun mask => follows_onError _ _ (follows_place _ _ ?_)
  refine follows_both (follows_whenFlagged _ _ _ h) ?_
  refine follows_both (follows_whenFlagged _ _ _ (follows_plain _)) ?_
  refine follows_both (follows_whenFlagged _ _ _ (follows_plain _)) ?_
  refine follows_both (follows_whenFlagged _ _ _ (follows_plain _)) ?_
  exact follows_both (follows_whenFlagged _ _ _ (follows_plain _)) (follows_whenFlagged _ _ _ (follows_plain _))

mutual

theorem follows_type (fuel : Nat) (h : ∀ t, Follows (jump t) (jump' t)) :
    (t : DataType) → Follows (typeMem fuel jump t) (typeDecodeBinary fuel jump' t)
  | .simple _ b => by
      rw [typeMem, typeDecodeBinary]
      exact follows_place _ _ (follows_simple fuel b)
  | .extensionObject => by
      rw [typeMem, typeDecodeBinary]
      exact follows_extensionObject h
  | .dataValue => by
      rw [typeMem, typeDecodeBinary]
      exact follows_dataValue (follows_variant h)
  | .variant => by
      rw [typeMem, typeDecodeBinary]
      exact follows_variant h
  | .structure _ members => by
      rw [typeMem, typeDecodeBinary]
      exact follows_onError _ _ (follows_place _ _ (follows_members fuel h members))

theorem follows_members (fuel : Nat) (h : ∀ t, Follows (jump t) (jump' t)) :
    (members : Members) → Follows (membersMem fuel jump members) (membersDecodeBinary fuel jump' members)
  | .nil => by
      rw [membersMem, membersDecodeBinary]
      exact follows_succeed _ _
  | .scalar t rest => by
      rw [membersMem, membersDecodeBinary]
      exact follows_place _ _ (follows_both (follows_type fuel h t) (follows_members fuel h rest))
  | .array t rest => by
      rw [membersMem, membersDecodeBinary]
      have harray := follows_array t (follows_type fuel h t)
      exact follows_place _ _ (follows_both (follows_after _ (follows_plain _) harray) (follows_members fuel h rest))

end

theorem follows_decode : ∀ fuel t, Follows (decodeMem fuel t) (decodeBinary fuel t) := by
  intro fuel
  induction fuel with
  | zero => exact fun _ _ => rfl
  | succ fuel ih => exact fun t => follows_type (fuel + 1) ih t

theorem follows_byteArray : Follows byteArrayMem byteArrayDecodeBinary :=
  follows_place _ _ (follows_after _ (follows_plain _) (follows_array _ (follows_place _ _ (follows_plain _))))

theorem follows_ua (fuel : Nat) (t : DataType) : Follows (uaMem fuel t) (uaDecodeBinary fuel t) := by
  have hbytes : ∀ {typeId : NodeId} {b : Builtin} (f : UaString → Val (.simple typeId b))
      (g : Buffer → Mem (.simple typeId b)),
      Follows (onError release deleted (place f g byteArrayMem)) (Readers.map f byteArrayDecodeBinary) :=
    fun f g => follows_onError _ _ (follows_place f g follows_byteArray)
  match t with
  | .simple _ b =>
      cases b with
      | string | byteString | xmlElement => exact hbytes _ _
      | expandedNodeId =>
          exact follows_onError _ _ (follows_place _ _ (follows_both follows_nodeId
            (follows_both follows_buffer (follows_plain _))))
      | localizedText =>
          exact follows_onError _ _ (follows_place _ _ (follows_both follows_buffer follows_buffer))
      | _ => exact follows_onError _ _ (follows_decode fuel _)
  | .extensionObject | .dataValue | .variant => exact follows_onError _ _ (follows_decode fuel _)
  | .structure _ _ => exact follows_decode fuel _

end OpcUa.MemoryAgreement
