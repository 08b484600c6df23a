import OpcUa.BoundedReading
import OpcUa.ValueDecoding

namespace OpcUa.DecodeBounds

open StatusCodes LittleEndian NodeIds DataTypes Values Buffers Readers Decoding ValueDecoding BoundedReading

variable {most fuel fuel' : Nat}

theorem agree_byte : Agree most byteDecodeBinary byteDecodeBinary := agree_map _ (agree_take 1)

theorem consumes_byte : Consumes byteDecodeBinary := consumes_map (consumes_take Nat.one_pos)

theorem agree_uint16 : Agree most uint16DecodeBinary uint16DecodeBinary := agree_map _ (agree_take 2)

theorem agree_uint32 : Agree most uint32DecodeBinary uint32DecodeBinary := agree_map _ (agree_take 4)

theorem agree_uint64 : Agree most uint64DecodeBinary uint64DecodeBinary := agree_map _ (agree_take 8)

theorem agree_int32 : Agree most int32DecodeBinary int32DecodeBinary := agree_map _ agree_uint32

theorem agree_string : Agree most stringDecodeBinary stringDecodeBinary := by
  refine agree_bind (agree_withError _ agree_int32) (fun signedLength => ?_)
  exact agree_if (fun _ => signedLength ≤ 0) (agree_succeed _)
    (agree_if (fun st => st.offset + signedLength.toNat > st.data.length) (agree_fail _)
      (agree_allocated (agree_map some (agree_take _))))

theorem agree_bytes (n : Nat) : Agree most (bytesDecodeBinary n) (bytesDecodeBinary n) := by
  induction n with
  | zero => exact agree_succeed []
  | succ n ih => exact agree_map _ (agree_both agree_byte ih)

theorem agree_guid : Agree most guidDecodeBinary guidDecodeBinary :=
  agree_map _ (agree_both agree_uint32 (agree_both agree_uint16 (agree_both agree_uint16 (agree_bytes 8))))

theorem agree_nodeIdBody (encodingByte : UInt8) :
    Agree most (nodeIdBodyDecodeBinary encodingByte) (nodeIdBodyDecodeBinary encodingByte) := by
  rw [nodeIdBodyDecodeBinary]
  split
  · exact agree_map _ agree_byte
  split
  · exact agree_map _ (agree_both agree_byte agree_uint16)
  split
  · exact agree_map _ (agree_both agree_uint16 agree_uint32)
  split
  · exact agree_map _ (agree_both agree_uint16 agree_string)
  split
  · exact agree_map _ (agree_both agree_uint16 agree_guid)
  split
  · exact agree_map _ (agree_both agree_uint16 agree_string)
  · exact agree_fail _

theorem agree_nodeId : Agree most nodeIdDecodeBinary nodeIdDecodeBinary :=
  agree_bind agree_byte agree_nodeIdBody

theorem agree_expandedNodeId : Agree most expandedNodeIdDecodeBinary expandedNodeIdDecodeBinary := by
  intro st hst hleft
  by_cases h : st.offset ≥ st.data.length
  · exact ⟨.error badDecodingError, st, if_pos h, if_pos h, Moves.refl hst⟩
  · have hfields : ∀ encodingByte, Agree most (expandedNodeIdFields encodingByte)
        (expandedNodeIdFields encodingByte) := fun encodingByte =>
      agree_map _ (agree_both agree_nodeId (agree_both (agree_whenFlagged _ _ agree_string)
        (agree_whenFlagged _ _ agree_uint32)))
    let byte := st.data.getD st.offset 0
    let st1 : Dec := { st with
      data := overwrite st.data st.offset [byte &&& 0x3f], reads := (st.offset, 1) :: st.reads }
    have hlen : st1.data.length = st.data.length := length_overwrite _ _ _
    have hvalid : Valid st1 := by
      refine ⟨by rw [hlen]; exact hst.offset_le, ?_⟩
      intro r hr
      rw [hlen]
      rcases List.mem_cons.mp hr with rfl | hr
      · change st.offset + 1 ≤ _
        omega
      · exact hst.reads_le r hr
    obtain ⟨r, st', hrun, _, hmoves⟩ := hfields byte st1 hvalid (by rw [hlen]; exact hleft)
    have heq : expandedNodeIdDecodeBinary st = some (r, st') := by
      rw [expandedNodeIdDecodeBinary, if_neg h]
      exact hrun
    exact ⟨r, st', heq, heq, hmoves.valid, (cleared_overwrite _ _ _).trans hmoves.cleared, hmoves.offset_le⟩

theorem agree_localizedText : Agree most localizedTextDecodeBinary localizedTextDecodeBinary :=
  agree_bind agree_byte (fun _ => agree_map _ (agree_both (agree_whenFlagged _ _ agree_string)
    (agree_whenFlagged _ _ agree_string)))

theorem agree_diagnosticFields (mask : UInt8) :
    Agree most (diagnosticFieldsDecodeBinary mask) (diagnosticFieldsDecodeBinary mask) :=
  agree_map _ (agree_both (agree_whenFlagged _ _ agree_uint32)
    (agree_both (agree_whenFlagged _ _ agree_uint32) (agree_both (agree_whenFlagged _ _ agree_uint32)
      (agree_both (agree_whenFlagged _ _ agree_uint32) (agree_both (agree_whenFlagged _ _ agree_string)
        (agree_whenFlagged _ _ agree_uint32))))))

theorem agree_diagnosticInfo (h : most < fuel) (h' : most < fuel') :
    Agree most (diagnosticInfoDecodeBinary fuel) (diagnosticInfoDecodeBinary fuel') := by
  induction fuel generalizing most fuel' with
  | zero => omega
  | succ fuel ih =>
      obtain ⟨fuel', rfl⟩ : ∃ n, fuel' = n + 1 := ⟨fuel' - 1, by omega⟩
      refine agree_consume agree_byte consumes_byte (fun mask fewer hfewer => ?_)
      split
      · exact agree_map _ (agree_both (agree_diagnosticFields mask)
          (agree_allocated (ih (by omega) (by omega))))
      · exact agree_map _ (agree_diagnosticFields mask)

theorem agree_simple (b : Builtin) (h : most < fuel) (h' : most < fuel') :
    Agree most (simpleDecodeBinary fuel b) (simpleDecodeBinary fuel' b) := by
  cases b with
  | boolean => exact agree_map _ agree_byte
  | sbyte | byte => exact agree_byte
  | int16 | uint16 => exact agree_uint16
  | int32 | uint32 | float | statusCode => exact agree_uint32
  | int64 | uint64 | double | dateTime => exact agree_uint64
  | string | byteString | xmlElement => exact agree_string
  | guid => exact agree_guid
  | nodeId => exact agree_nodeId
  | expandedNodeId => exact agree_expandedNodeId
  | localizedText => exact agree_localizedText
  | diagnosticInfo => exact agree_diagnosticInfo h h'

theorem agree_items {t : DataType} {item item' : DecM (Val t)} (h : Agree most item item') (n : Nat) :
    Agree most (itemsDecodeBinary item n) (itemsDecodeBinary item' n) := by
  induction n with
  | zero => exact agree_succeed Vals.nil
  | succ n ih => exact agree_bind h (fun v => agree_map _ ih)

theorem agree_array {t : DataType} {item item' : DecM (Val t)} (h : Agree most item item')
    (signedLength : Int) :
    Agree most (arrayDecodeBinary t item signedLength) (arrayDecodeBinary t item' signedLength) := by
  have hbody : Agree most
      (if zeroCopyable t then map (fun bytes => Arr.items (ofImages t signedLength.toNat bytes))
          (take (t.memSize * signedLength.toNat))
        else map Arr.items (itemsDecodeBinary item signedLength.toNat))
      (if zeroCopyable t then map (fun bytes => Arr.items (ofImages t signedLength.toNat bytes))
          (take (t.memSize * signedLength.toNat))
        else map Arr.items (itemsDecodeBinary item' signedLength.toNat)) := by
    split
    · exact agree_map _ (agree_take _)
    · exact agree_map _ (agree_items h _)
  exact agree_if (fun _ => signedLength ≤ 0) (agree_succeed _)
    (agree_if (fun _ => t.memSize * signedLength.toNat > maxArraySize) (agree_fail _)
      (agree_if (fun st => st.offset + t.memSize * signedLength.toNat / 32 > st.data.length) (agree_fail _)
        (agree_allocated hbody)))

theorem Valid.rewind {st st' : Dec} (h : Moves st st') : Valid { st' with offset := st.offset } :=
  ⟨h.offset_le.trans h.valid.offset_le, h.valid.reads_le⟩

theorem agree_header : Agree most headerDecodeBinary headerDecodeBinary := by
  intro st hst hleft
  obtain ⟨r, st', hrun, _, hmoves⟩ := agree_both agree_nodeId agree_byte st hst hleft
  have hsome : ∃ s, headerDecodeBinary st = some (s, st') := by
    rw [headerDecodeBinary, hrun]
    cases r with
    | error code => exact ⟨_, rfl⟩
    | ok p =>
        dsimp only
        split <;> exact ⟨_, rfl⟩
  obtain ⟨s, hs⟩ := hsome
  exact ⟨s, st', hs, hs, hmoves⟩

theorem consumes_header : Consumes headerDecodeBinary := by
  intro st p st' hst hrun
  rw [headerDecodeBinary] at hrun
  split at hrun
  · simp at hrun
  · simp at hrun
  · rename_i typeId encoding st1 hboth
    split at hrun
    · simp at hrun
    · simp only [Option.some.injEq, Prod.mk.injEq] at hrun
      rw [← hrun.2]
      exact consumes_both (fun _ => agree_nodeId) consumes_byte st _ _ hst hboth

variable {jump jump' : (t : DataType) → DecM (Val t)}

theorem agree_content (hjump : ∀ t, Agree most (jump t) (jump' t)) (typeId : NodeId) :
    Agree most (contentDecodeBinary jump typeId) (contentDecodeBinary jump' typeId) := by
  intro st hst hleft
  obtain ⟨r, st1, hrun, _, hmoves⟩ := agree_int32 st hst hleft
  cases r with
  | error code =>
      exact ⟨.error code, st1, by simp only [contentDecodeBinary, andThen, hrun],
        by simp only [contentDecodeBinary, andThen, hrun], hmoves⟩
  | ok length =>
      simp only [contentDecodeBinary, andThen, hrun]
      cases TypeTable.findDataType (contentId typeId) with
      | some type =>
          obtain ⟨s, st2, hrun2, hrun2', hmoves2⟩ := agree_allocated (hjump type) st1 hmoves.valid
            (hmoves.left_le hleft)
          simp only [andThen] at hrun2 hrun2'
          simp only [hrun2, hrun2']
          split
          · exact ⟨_, st2, rfl, rfl, hmoves.trans hmoves2⟩
          · exact ⟨_, st2, rfl, rfl, hmoves.trans hmoves2⟩
      | none =>
          obtain ⟨s, st2, hrun2, _, hmoves2⟩ := agree_map
            (fun body => Val.encoded (contentId typeId) .byteString body) agree_string
            { st1 with offset := st.offset } (Valid.rewind hmoves)
            (by change st1.data.length - st.offset ≤ most; rw [hmoves.length_eq]; exact hleft)
          exact ⟨s, st2, hrun2, hrun2, hmoves2.valid, hmoves.cleared.trans hmoves2.cleared,
            hmoves2.offset_le⟩

theorem agree_extensionObject (hjump : ∀ fewer < most, ∀ t, Agree fewer (jump t) (jump' t)) :
    Agree most (extensionObjectDecodeBinary jump) (extensionObjectDecodeBinary jump') := by
  refine agree_consume agree_header consumes_header (fun p fewer hfewer => ?_)
  obtain ⟨typeId, encoding⟩ := p
  dsimp only
  split
  · exact agree_succeed _
  split
  · exact agree_map _ agree_string
  · exact agree_content (hjump fewer hfewer) typeId

theorem agree_arrayVariant (hjump : ∀ t, Agree most (jump t) (jump' t)) (type : DataType)
    (hasDimensions : Bool) :
    Agree most (arrayVariantDecodeBinary jump type hasDimensions)
      (arrayVariantDecodeBinary jump' type hasDimensions) := by
  refine agree_bind agree_int32 (fun signedLength => ?_)
  cases hasDimensions with
  | true =>
      exact agree_bind (agree_both (agree_array (hjump type) _) agree_int32)
        (fun p => agree_map _ (agree_map _ (agree_array (hjump _) _)))
  | false => exact agree_map _ (agree_array (hjump type) _)

/-- The object is first looked into and then decoded from its start, or from
behind the encoding byte. -/
theorem agree_objectVariant (hjump : ∀ t, Agree most (jump t) (jump' t)) :
    Agree most (objectVariantDecodeBinary jump) (objectVariantDecodeBinary jump') := by
  intro st hst hleft
  have hhead : Agree most (andThen nodeIdDecodeBinary (fun typeId => map (Prod.mk typeId) byteDecodeBinary))
      (andThen nodeIdDecodeBinary (fun typeId => map (Prod.mk typeId) byteDecodeBinary)) :=
    agree_bind agree_nodeId (fun _ => agree_map _ agree_byte)
  obtain ⟨r, st1, hrun, _, hmoves⟩ := hhead st hst hleft
  have hback : Moves st { st1 with offset := st.offset } :=
    ⟨Valid.rewind hmoves, hmoves.cleared, le_refl _⟩
  simp only [objectVariantDecodeBinary, hrun]
  cases r with
  | error code => exact ⟨.error code, _, rfl, rfl, hback⟩
  | ok p =>
      obtain ⟨typeId, encoding⟩ := p
      dsimp only
      generalize (if typeId.namespaceIndex = 0 ∧ encoding = 1 then TypeTable.findDataType typeId
        else none) = found
      cases found with
      | some type =>
          obtain ⟨s, st2, hrun2, hrun2', hmoves2⟩ := agree_allocated
            (agree_map (Val.scalarVariant type) (hjump type)) st1 hmoves.valid (hmoves.left_le hleft)
          exact ⟨s, st2, hrun2, hrun2', hmoves.trans hmoves2⟩
      | none =>
          obtain ⟨s, st2, hrun2, hrun2', hmoves2⟩ := agree_allocated
            (agree_map (Val.scalarVariant .extensionObject) (hjump .extensionObject))
            { st1 with offset := st.offset } hback.valid (hback.left_le hleft)
          exact ⟨s, st2, hrun2, hrun2', hback.trans hmoves2⟩

theorem agree_variant (hjump : ∀ fewer < most, ∀ t, Agree fewer (jump t) (jump' t)) :
    Agree most (variantDecodeBinary jump) (variantDecodeBinary jump') := by
  refine agree_consume agree_byte consumes_byte (fun encodingByte fewer hfewer => ?_)
  have hjump := hjump fewer hfewer
  dsimp only
  split
  · exact agree_fail _
  split
  · exact agree_arrayVariant hjump _ _
  split
  · exact agree_map _ (agree_array (hjump _) _)
  · exact agree_objectVariant hjump

theorem agree_dataValue {variant variant' : DecM (Val .variant)} (h : Agree most variant variant') :
    Agree most (dataValueDecodeBinary variant) (dataValueDecodeBinary variant') :=
  agree_bind agree_byte (fun _ => agree_map _ (agree_both (agree_whenFlagged _ _ h)
    (agree_both (agree_whenFlagged _ _ agree_uint32) (agree_both (agree_whenFlagged _ _ agree_uint64)
      (agree_both (agree_whenFlagged _ _ agree_uint16) (agree_both (agree_whenFlagged _ _ agree_uint64)
        (agree_whenFlagged _ _ agree_uint16)))))))

mutual

theorem agree_type (h : most < fuel) (h' : most < fuel')
    (hjump : ∀ fewer < most, ∀ t, Agree fewer (jump t) (jump' t)) :
    (t : DataType) → Agree most (typeDecodeBinary fuel jump t) (typeDecodeBinary fuel' jump' t)
  | .simple _ b => agree_map _ (agree_simple b h h')
  | .extensionObject => agree_extensionObject hjump
  | .dataValue => agree_dataValue (agree_variant hjump)
  | .variant => agree_variant hjump
  | .structure _ members => agree_map _ (agree_members h h' hjump members)

theorem agree_members (h : most < fuel) (h' : most < fuel')
    (hjump : ∀ fewer < most, ∀ t, Agree fewer (jump t) (jump' t)) :
    (members : Members) → Agree most (membersDecodeBinary fuel jump members)
      (membersDecodeBinary fuel' jump' members)
  | .nil => agree_succeed _
  | .scalar t rest => agree_map _ (agree_both (agree_type h h' hjump t) (agree_members h h' hjump rest))
  | .array t rest => agree_map _ (agree_both
      (agree_bind agree_int32 (fun _ => agree_array (agree_type h h' hjump t) _))
      (agree_members h h' hjump rest))

end

theorem agree_decode (h : most < fuel) (h' : most < fuel') (t : DataType) :
    Agree most (decodeBinary fuel t) (decodeBinary fuel' t) := by
  induction fuel generalizing most fuel' t with
  | zero => omega
  | succ fuel ih =>
      obtain ⟨fuel', rfl⟩ : ∃ n, fuel' = n + 1 := ⟨fuel' - 1, by omega⟩
      exact agree_type h h' (fun fewer hfewer t => ih (by omega) (by omega) t) t

theorem agree_ua (h : most < fuel) (h' : most < fuel') (t : DataType) :
    Agree most (uaDecodeBinary fuel t) (uaDecodeBinary fuel' t) := by
  have hbytes : Agree most byteArrayDecodeBinary byteArrayDecodeBinary :=
    agree_map _ (agree_bind agree_int32 (fun _ => agree_array (agree_map _ agree_byte) _))
  cases t with
  | simple typeId b =>
      cases b with
      | string | byteString | xmlElement => exact agree_map _ hbytes
      | expandedNodeId =>
          exact agree_map _ (agree_both agree_nodeId (agree_both agree_string agree_uint32))
      | localizedText => exact agree_map _ (agree_both agree_string agree_string)
      | _ => exact agree_decode h h' _
  | _ => exact agree_decode h h' _

/-- Whatever the message and whichever allocations fail, decoding comes to an
end inside the buffer. -/
theorem uaDecodeBinary_bounded (t : DataType) (data : List UInt8) (offset : Nat) (heap : List Bool)
    (h : offset ≤ data.length) :
    ∃ r st', (∀ fuel > data.length - offset, uaDecodeBinary fuel t ⟨data, offset, [], heap⟩ = some (r, st')) ∧
      (∀ i k, (i, k) ∈ st'.reads → i + k ≤ data.length) ∧
      offset ≤ st'.offset ∧ st'.offset ≤ data.length := by
  have hvalid : Valid ⟨data, offset, [], heap⟩ := ⟨h, by simp⟩
  obtain ⟨r, st', hrun, _, hmoves⟩ := agree_ua (Nat.lt_succ_self _)
    (Nat.lt_succ_self (data.length - offset)) t _ hvalid (le_refl _)
  have hlen : st'.data.length = data.length := hmoves.length_eq
  refine ⟨r, st', ?_, ?_, hmoves.offset_le, ?_⟩
  · intro fuel' hfuel
    obtain ⟨r', st'', hrun1, hrun2, _⟩ := agree_ua (Nat.lt_succ_self _) hfuel t _ hvalid (le_refl _)
    rw [hrun2, ← hrun1, hrun]
  · intro i k hread
    rw [← hlen]
    exact hmoves.valid.reads_le (i, k) hread
  · rw [← hlen]
    exact hmoves.valid.offset_le

/-- Variants nested in each other, with nothing behind the last mask. -/
theorem uaDecodeBinary_bounded_nested : 1 ≤ [0, 24, 24, 24].length ∧
    ∃ r st', (∀ fuel > 3, uaDecodeBinary fuel .variant ⟨[0, 24, 24, 24], 1, [], [true, false]⟩ =
        some (r, st')) ∧
      (∀ i k, (i, k) ∈ st'.reads → i + k ≤ 4) ∧ 1 ≤ st'.offset ∧ st'.offset ≤ 4 :=
  ⟨by decide, uaDecodeBinary_bounded .variant [0, 24, 24, 24] 1 [true, false] (by decide)⟩

end OpcUa.DecodeBounds
