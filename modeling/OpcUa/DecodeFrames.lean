import OpcUa.ProgramLocality
import OpcUa.MinimalSizes

namespace OpcUa.DecodeFrames

open StatusCodes LittleEndian NodeIds DataTypes Values Buffers Readers Decoding ValueDecoding ReadBack
open LeafReading ConsumedBytes MinimalSizes ProgramLocality

variable {α β : Type} {low : Nat} {d : DecM α} {e : DecM β} {st st' st'' : Dec}

/-- The bytes in front of `low` are left alone, and the offset stays behind
them. -/
structure Leaves (low : Nat) (st st' : Dec) : Prop where
  low_le : low ≤ st'.offset
  bytes : ∀ i < low, st'.data.getD i 0 = st.data.getD i 0

/-- Started behind `low`, a decoder leaves what is in front of it, whether it
succeeds or not. -/
def Frames (low : Nat) (d : DecM α) : Prop :=
  ∀ st r st', low ≤ st.offset → d st = some (r, st') → Leaves low st st'

theorem Leaves.refl (h : low ≤ st.offset) : Leaves low st st := ⟨h, fun _ _ => rfl⟩

theorem Leaves.trans (h : Leaves low st st') (h' : Leaves low st' st'') : Leaves low st st'' := by
  refine ⟨h'.low_le, fun i hi => ?_⟩
  rw [h'.bytes i hi, h.bytes i hi]

/-- The offset may be set back behind `low`. -/
theorem Leaves.seek (h : Leaves low st st') (pos : Nat) (hpos : low ≤ pos) :
    Leaves low st { st' with offset := pos } := ⟨hpos, h.bytes⟩

section Combinators

theorem frames_succeed (a : α) : Frames low (succeed a) := by
  intro st r st' hlow h
  obtain ⟨_, rfl⟩ := Prod.mk.inj (Option.some.inj h)
  exact .refl hlow

theorem frames_fail (code : StatusCode) : Frames low (fail code : DecM α) := by
  intro st r st' hlow h
  obtain ⟨_, rfl⟩ := Prod.mk.inj (Option.some.inj h)
  exact .refl hlow

theorem frames_take (k : Nat) : Frames low (take k) := by
  intro st r st' hlow h
  rw [take] at h
  split at h
  · obtain ⟨_, rfl⟩ := Prod.mk.inj (Option.some.inj h)
    exact .refl hlow
  · obtain ⟨_, rfl⟩ := Prod.mk.inj (Option.some.inj h)
    exact ⟨hlow.trans (Nat.le_add_right _ _), fun _ _ => rfl⟩

theorem frames_allocate : Frames low allocate := by
  intro st r st' hlow h
  rw [allocate] at h
  split at h
  · obtain ⟨_, rfl⟩ := Prod.mk.inj (Option.some.inj h)
    exact ⟨hlow, fun _ _ => rfl⟩
  · obtain ⟨_, rfl⟩ := Prod.mk.inj (Option.some.inj h)
    exact ⟨hlow, fun _ _ => rfl⟩

theorem frames_andThen {f : α → DecM β} (hd : Frames low d) (hf : ∀ a, Frames low (f a)) :
    Frames low (andThen d f) := by
  intro st r st' hlow h
  rw [andThen] at h
  split at h
  · cases h
  · rename_i code st₁ hfirst
    obtain ⟨_, rfl⟩ := Prod.mk.inj (Option.some.inj h)
    exact hd st _ _ hlow hfirst
  · rename_i a st₁ hfirst
    have hleaves := hd st _ _ hlow hfirst
    exact hleaves.trans (hf a st₁ r st' hleaves.low_le h)

theorem frames_map (f : α → β) (h : Frames low d) : Frames low (map f d) :=
  frames_andThen h (fun a => frames_succeed (f a))

theorem frames_both (hd : Frames low d) (he : Frames low e) : Frames low (both d e) := by
  intro st r st' hlow h
  rw [both] at h
  split at h
  · cases h
  · rename_i q st₁ hfirst
    have hleaves := hd st _ _ hlow hfirst
    split at h
    · cases h
    · rename_i q' st₂ hsecond
      obtain ⟨_, rfl⟩ := Prod.mk.inj (Option.some.inj h)
      exact hleaves.trans (he st₁ _ _ hleaves.low_le hsecond)

theorem frames_withError (code : StatusCode) (h : Frames low d) : Frames low (withError code d) := by
  intro st r st' hlow hrun
  rw [withError] at hrun
  split at hrun
  · rename_i code' st₁ hfirst
    obtain ⟨_, rfl⟩ := Prod.mk.inj (Option.some.inj hrun)
    exact h st _ _ hlow hfirst
  · exact h st r st' hlow hrun

theorem frames_whenFlagged (b : Bool) (zero : α) (h : Frames low d) : Frames low (whenFlagged b zero d) := by
  cases b with
  | true => exact h
  | false => exact frames_succeed zero

theorem frames_if {p : Dec → Prop} [DecidablePred p] {d d' : DecM α} (h : Frames low d) (h' : Frames low d') :
    Frames low (fun st => if p st then d st else d' st) := by
  intro st r st' hlow hrun
  dsimp only at hrun
  split at hrun
  · exact h st r st' hlow hrun
  · exact h' st r st' hlow hrun

end Combinators

section Simple

theorem frames_byte : Frames low byteDecodeBinary := frames_map _ (frames_take 1)

theorem frames_uint16 : Frames low uint16DecodeBinary := frames_map _ (frames_take 2)

theorem frames_uint32 : Frames low uint32DecodeBinary := frames_map _ (frames_take 4)

theorem frames_uint64 : Frames low uint64DecodeBinary := frames_map _ (frames_take 8)

theorem frames_int32 : Frames low int32DecodeBinary := frames_map _ frames_uint32

theorem frames_string : Frames low stringDecodeBinary := by
  refine frames_andThen (frames_withError _ frames_int32) (fun signedLength => ?_)
  exact frames_if (p := fun _ => signedLength ≤ 0) (frames_succeed _)
    (frames_if (p := fun st => st.offset + signedLength.toNat > st.data.length) (frames_fail _)
      (frames_andThen frames_allocate (fun _ => frames_map some (frames_take _))))

theorem frames_bytes (n : Nat) : Frames low (bytesDecodeBinary n) := by
  induction n with
  | zero => exact frames_succeed []
  | succ n ih => exact frames_map _ (frames_both frames_byte ih)

theorem frames_guid : Frames low guidDecodeBinary :=
  frames_map _ (frames_both frames_uint32 (frames_both frames_uint16 (frames_both frames_uint16 (frames_bytes 8))))

theorem frames_nodeId : Frames low nodeIdDecodeBinary := by
  refine frames_andThen frames_byte (fun encodingByte => ?_)
  rw [nodeIdBodyDecodeBinary]
  split
  · exact frames_map _ frames_byte
  split
  · exact frames_map _ (frames_both frames_byte frames_uint16)
  split
  · exact frames_map _ (frames_both frames_uint16 frames_uint32)
  split
  · exact frames_map _ (frames_both frames_uint16 frames_string)
  split
  · exact frames_map _ (frames_both frames_uint16 frames_guid)
  split
  · exact frames_map _ (frames_both frames_uint16 frames_string)
  · exact frames_fail _

theorem frames_expandedNodeId : Frames low expandedNodeIdDecodeBinary := by
  intro st r st' hlow h
  rw [expandedNodeIdDecodeBinary] at h
  split at h
  · obtain ⟨_, rfl⟩ := Prod.mk.inj (Option.some.inj h)
    exact .refl hlow
  · have hfields : ∀ encodingByte, Frames low (expandedNodeIdFields encodingByte) := fun encodingByte =>
      frames_map _ (frames_both frames_nodeId (frames_both (frames_whenFlagged _ _ frames_string)
        (frames_whenFlagged _ _ frames_uint32)))
    dsimp only at h
    have hleaves := hfields _ _ r st' (show low ≤ ({ st with
      data := overwrite st.data st.offset [st.data.getD st.offset 0 &&& 0x3f],
      reads := (st.offset, 1) :: st.reads } : Dec).offset from hlow) h
    refine ⟨hleaves.low_le, fun i hi => ?_⟩
    rw [hleaves.bytes i hi]
    exact getD_overwrite_of_ne _ (by omega) _

theorem frames_localizedText : Frames low localizedTextDecodeBinary :=
  frames_andThen frames_byte (fun _ => frames_map _ (frames_both (frames_whenFlagged _ _ frames_string)
    (frames_whenFlagged _ _ frames_string)))

theorem frames_diagnosticFields (mask : UInt8) : Frames low (diagnosticFieldsDecodeBinary mask) :=
  frames_map _ (frames_both (frames_whenFlagged _ _ frames_uint32)
    (frames_both (frames_whenFlagged _ _ frames_uint32) (frames_both (frames_whenFlagged _ _ frames_uint32)
      (frames_both (frames_whenFlagged _ _ frames_uint32) (frames_both (frames_whenFlagged _ _ frames_string)
        (frames_whenFlagged _ _ frames_uint32))))))

theorem frames_diagnosticInfo (fuel : Nat) : Frames low (diagnosticInfoDecodeBinary fuel) := by
  induction fuel with
  | zero =>
      intro st r st' _ h
      cases h
  | succ fuel ih =>
      refine frames_andThen frames_byte (fun mask => ?_)
      split
      · exact frames_map _ (frames_both (frames_diagnosticFields mask)
          (frames_andThen frames_allocate (fun _ => ih)))
      · exact frames_map _ (frames_diagnosticFields mask)

theorem frames_simple (fuel : Nat) (b : Builtin) : Frames low (simpleDecodeBinary fuel b) := by
  cases b with
  | boolean => exact frames_map _ frames_byte
  | sbyte | byte => exact frames_byte
  | int16 | uint16 => exact frames_uint16
  | int32 | uint32 | float | statusCode => exact frames_uint32
  | int64 | uint64 | double | dateTime => exact frames_uint64
  | string | byteString | xmlElement => exact frames_string
  | guid => exact frames_guid
  | nodeId => exact frames_nodeId
  | expandedNodeId => exact frames_expandedNodeId
  | localizedText => exact frames_localizedText
  | diagnosticInfo => exact frames_diagnosticInfo fuel

end Simple

section Values

variable {t : DataType} {item : DecM (Val t)} {jump : (t : DataType) → DecM (Val t)}

theorem frames_items (h : Frames low item) (n : Nat) : Frames low (itemsDecodeBinary item n) := by
  induction n with
  | zero => exact frames_succeed Vals.nil
  | succ n ih => exact frames_andThen h (fun v => frames_map _ ih)

theorem frames_array (h : Frames low item) (signedLength : Int) :
    Frames low (arrayDecodeBinary t item signedLength) := by
  have hbody : Frames low
      (if zeroCopyable t then map (fun bytes => Arr.items (ofImages t signedLength.toNat bytes))
          (take (t.memSize * signedLength.toNat))
        else map Arr.items (itemsDecodeBinary item signedLength.toNat)) := by
    split
    · exact frames_map _ (frames_take _)
    · exact frames_map _ (frames_items h _)
  exact frames_if (p := fun _ => signedLength ≤ 0) (frames_succeed _)
    (frames_if (p := fun _ => t.memSize * signedLength.toNat > maxArraySize) (frames_fail _)
      (frames_if (p := fun st => st.offset + t.memSize * signedLength.toNat / 32 > st.data.length)
        (frames_fail _) (frames_andThen frames_allocate (fun _ => hbody))))

theorem frames_header : Frames low headerDecodeBinary := by
  intro st r st' hlow h
  have hboth : Frames low (both nodeIdDecodeBinary byteDecodeBinary) := frames_both frames_nodeId frames_byte
  rw [headerDecodeBinary] at h
  split at h
  · cases h
  · rename_i code st₁ hrun
    obtain ⟨_, rfl⟩ := Prod.mk.inj (Option.some.inj h)
    exact hboth st _ _ hlow hrun
  · rename_i typeId encoding st₁ hrun
    split at h
    · obtain ⟨_, rfl⟩ := Prod.mk.inj (Option.some.inj h)
      exact hboth st _ _ hlow hrun
    · obtain ⟨_, rfl⟩ := Prod.mk.inj (Option.some.inj h)
      exact hboth st _ _ hlow hrun

theorem frames_content (hjump : ∀ t, Frames low (jump t)) (typeId : NodeId) :
    Frames low (contentDecodeBinary jump typeId) := by
  intro st r st' hlow h
  refine frames_andThen frames_int32 (fun length => ?_) st r st' hlow h
  intro st₁ r st' hlow₁ h
  dsimp only at h
  split at h
  · rename_i type _
    have hknown : Frames low (andThen allocate (fun _ => jump type)) :=
      frames_andThen frames_allocate (fun _ => hjump type)
    split at h
    · cases h
    · rename_i q st₂ hrun
      split at h
      · obtain ⟨_, rfl⟩ := Prod.mk.inj (Option.some.inj h)
        exact hknown st₁ _ _ hlow₁ hrun
      · obtain ⟨_, rfl⟩ := Prod.mk.inj (Option.some.inj h)
        exact hknown st₁ _ _ hlow₁ hrun
  · -- back to the length
    have hbody := frames_map (Val.encoded (contentId typeId) .byteString) frames_string _ r st'
      (show low ≤ ({ st₁ with offset := st.offset } : Dec).offset from hlow) h
    exact ⟨hbody.low_le, hbody.bytes⟩

theorem frames_extensionObject (hjump : ∀ t, Frames low (jump t)) :
    Frames low (extensionObjectDecodeBinary jump) := by
  refine frames_andThen frames_header (fun p => ?_)
  obtain ⟨typeId, encoding⟩ := p
  dsimp only
  split
  · exact frames_succeed _
  split
  · exact frames_map _ frames_string
  · exact frames_content hjump typeId

theorem frames_arrayVariant (hjump : ∀ t, Frames low (jump t)) (type : DataType) (hasDimensions : Bool) :
    Frames low (arrayVariantDecodeBinary jump type hasDimensions) := by
  refine frames_andThen frames_int32 (fun signedLength => ?_)
  cases hasDimensions with
  | true =>
      exact frames_andThen (frames_both (frames_array (hjump type) _) frames_int32)
        (fun p => frames_map _ (frames_map _ (frames_array (hjump _) _)))
  | false => exact frames_map _ (frames_array (hjump type) _)

theorem frames_objectVariant (hjump : ∀ t, Frames low (jump t)) : Frames low (objectVariantDecodeBinary jump) := by
  intro st r st' hlow h
  have hhead : Frames low (andThen nodeIdDecodeBinary (fun typeId => map (Prod.mk typeId) byteDecodeBinary)) :=
    frames_andThen frames_nodeId (fun _ => frames_map _ frames_byte)
  rw [objectVariantDecodeBinary] at h
  split at h
  · cases h
  · rename_i code st₁ hrun
    obtain ⟨_, rfl⟩ := Prod.mk.inj (Option.some.inj h)
    exact (hhead st _ _ hlow hrun).seek _ hlow
  · rename_i typeId encoding st₁ hrun
    have hleaves := hhead st _ _ hlow hrun
    split at h
    · rename_i type _
      exact hleaves.trans (frames_andThen frames_allocate
        (fun _ => frames_map (Val.scalarVariant type) (hjump type)) st₁ r st' hleaves.low_le h)
    · exact (hleaves.seek _ hlow).trans (frames_andThen frames_allocate
        (fun _ => frames_map (Val.scalarVariant .extensionObject) (hjump .extensionObject)) _ r st' hlow h)

theorem frames_variant (hjump : ∀ t, Frames low (jump t)) : Frames low (variantDecodeBinary jump) := by
  refine frames_andThen frames_byte (fun encodingByte => ?_)
  dsimp only
  split
  · exact frames_fail _
  split
  · exact frames_arrayVariant hjump _ _
  split
  · exact frames_map _ (frames_array (hjump _) _)
  · exact frames_objectVariant hjump

theorem frames_dataValue {variant : DecM (Val .variant)} (h : Frames low variant) :
    Frames low (dataValueDecodeBinary variant) :=
  frames_andThen frames_byte (fun _ => frames_map _ (frames_both (frames_whenFlagged _ _ h)
    (frames_both (frames_whenFlagged _ _ frames_uint32) (frames_both (frames_whenFlagged _ _ frames_uint64)
      (frames_both (frames_whenFlagged _ _ frames_uint16) (frames_both (frames_whenFlagged _ _ frames_uint64)
        (frames_whenFlagged _ _ frames_uint16)))))))

mutual

theorem frames_type (fuel : Nat) (hjump : ∀ t, Frames low (jump t)) :
    (t : DataType) → Frames low (typeDecodeBinary fuel jump t)
  | .simple _ b => frames_map _ (frames_simple fuel b)
  | .extensionObject => frames_extensionObject hjump
  | .dataValue => frames_dataValue (frames_variant hjump)
  | .variant => frames_variant hjump
  | .structure _ members => frames_map _ (frames_members fuel hjump members)

theorem frames_members (fuel : Nat) (hjump : ∀ t, Frames low (jump t)) :
    (members : Members) → Frames low (membersDecodeBinary fuel jump members)
  | .nil => frames_succeed _
  | .scalar t rest => frames_map _ (frames_both (frames_type fuel hjump t) (frames_members fuel hjump rest))
  | .array t rest => frames_map _ (frames_both
      (frames_andThen frames_int32 (fun _ => frames_array (frames_type fuel hjump t) _))
      (frames_members fuel hjump rest))

end

theorem frames_decode (fuel : Nat) (t : DataType) : Frames low (decodeBinary fuel t) := by
  induction fuel generalizing t with
  | zero =>
      intro st r st' _ h
      cases h
  | succ fuel ih => exact frames_type (fuel + 1) ih t

end Values

section Again

/-- From the same offset a second success returns the same as the first one
and ends at the same place, as long as the bytes that the first one went
through are the same. -/
def Repeats (d : DecM α) : Prop :=
  ∀ st a st' again a' again', d st = some (.ok a, st') → d again = some (.ok a', again') →
    again.offset = st.offset → (∀ i < st'.offset, again.data.getD i 0 = st.data.getD i 0) →
      a' = a ∧ again'.offset = st'.offset

theorem repeats_succeed (a : α) : Repeats (succeed a) := by
  intro st b st' again b' again' h h' hoffset _
  simp only [succeed, Option.some.injEq, Prod.mk.injEq, Except.ok.injEq] at h h'
  obtain ⟨rfl, rfl⟩ := h
  obtain ⟨rfl, rfl⟩ := h'
  exact ⟨rfl, hoffset⟩

theorem repeats_fail (code : StatusCode) : Repeats (fail code : DecM α) := by
  intro st b st' again b' again' h
  simp [fail] at h

theorem repeats_take (k : Nat) : Repeats (take k) := by
  intro st w st' again w' again' h h' hoffset hbytes
  have hroom : ∀ {st st' : Dec} {w : List UInt8}, take k st = some (.ok w, st') → st.offset + k ≤ st.data.length := by
    intro st st' w h
    by_contra hover
    rw [take, if_pos (by omega)] at h
    cases h
  have hle := hroom h
  have hle' := hroom h'
  obtain ⟨_, rfl, rfl⟩ := take_ok h
  obtain ⟨_, rfl, rfl⟩ := take_ok h'
  refine ⟨?_, congrArg (· + k) hoffset⟩
  rw [hoffset] at hle' ⊢
  exact take_drop_eq hle hle' (fun i _ hi => hbytes i hi)

theorem repeats_allocate : Repeats allocate := by
  intro st x st' again x' again' h h' hoffset _
  rw [allocate_ok h, allocate_ok h']
  exact ⟨rfl, hoffset⟩

theorem repeats_withError (code : StatusCode) (h : Repeats d) : Repeats (withError code d) := by
  intro st a st' again a' again' hrun hrun' hoffset hbytes
  exact h st a st' again a' again' (withError_ok hrun) (withError_ok hrun') hoffset hbytes

theorem repeats_andThen {f : α → DecM β} (hd : Repeats d) (hkeeps : Keeps d) (hf : ∀ a, Repeats (f a))
    (hforward : ∀ a, Spends (f a) (fun _ => 0)) : Repeats (andThen d f) := by
  intro st b st' again b' again' h h' hoffset hbytes
  obtain ⟨a, st₁, hfirst, hsecond⟩ := andThen_ok h
  obtain ⟨a', again₁, hfirst', hsecond'⟩ := andThen_ok h'
  have hle : st₁.offset ≤ st'.offset := hforward a st₁ b st' hsecond
  obtain ⟨rfl, hoffset₁⟩ :=
    hd st a st₁ again a' again₁ hfirst hfirst' hoffset (fun i hi => hbytes i (hi.trans_le hle))
  apply hf a' st₁ b st' again₁ b' again' hsecond hsecond' hoffset₁
  rw [hkeeps _ _ _ hfirst, hkeeps _ _ _ hfirst']
  exact hbytes

theorem repeats_map (f : α → β) (h : Repeats d) (hkeeps : Keeps d) : Repeats (map f d) :=
  repeats_andThen h hkeeps (fun a => repeats_succeed (f a)) (fun a => spends_succeed (f a))

theorem repeats_both (hd : Repeats d) (hkeeps : Keeps d) (he : Repeats e) (hforward : Spends e (fun _ => 0)) :
    Repeats (both d e) := by
  rintro st ⟨a, b⟩ st' again ⟨a', b'⟩ again' h h' hoffset hbytes
  obtain ⟨st₁, hfirst, hsecond⟩ := both_ok h
  obtain ⟨again₁, hfirst', hsecond'⟩ := both_ok h'
  have hle : st₁.offset ≤ st'.offset := hforward st₁ b st' hsecond
  obtain ⟨rfl, hoffset₁⟩ :=
    hd st a st₁ again a' again₁ hfirst hfirst' hoffset (fun i hi => hbytes i (hi.trans_le hle))
  obtain ⟨rfl, hoffset₂⟩ := he st₁ b st' again₁ b' again' hsecond hsecond' hoffset₁
    (by rw [hkeeps _ _ _ hfirst, hkeeps _ _ _ hfirst']; exact hbytes)
  exact ⟨rfl, hoffset₂⟩

theorem repeats_byte : Repeats byteDecodeBinary := repeats_map _ (repeats_take 1) (keeps_take 1)

theorem repeats_uint16 : Repeats uint16DecodeBinary := repeats_map _ (repeats_take 2) (keeps_take 2)

theorem repeats_uint32 : Repeats uint32DecodeBinary := repeats_map _ (repeats_take 4) (keeps_take 4)

theorem repeats_uint64 : Repeats uint64DecodeBinary := repeats_map _ (repeats_take 8) (keeps_take 8)

theorem repeats_string : Repeats stringDecodeBinary := by
  have hbody : ∀ n, Repeats (andThen allocate (fun _ => map (some : List UInt8 → UaString) (take n))) :=
    fun n => repeats_andThen repeats_allocate keeps_allocate
      (fun _ => repeats_map _ (repeats_take n) (keeps_take n)) (fun _ => spends_mapped _ (spends_zero (spends_take n)))
  refine repeats_andThen (repeats_withError _ (repeats_map _ repeats_uint32 keeps_uint32))
    (keeps_withError _ (keeps_map _ keeps_uint32)) (fun signedLength => ?_) (fun signedLength => ?_)
  · intro st s st' again s' again' h h' hoffset hbytes
    dsimp only at h h'
    split at h
    · rename_i hempty
      rw [if_pos hempty] at h'
      exact repeats_succeed _ st s st' again s' again' h h' hoffset hbytes
    rename_i hlength
    rw [if_neg hlength] at h'
    split at h
    · cases h
    split at h'
    · cases h'
    exact hbody _ st s st' again s' again' h h' hoffset hbytes
  · intro st s st' h
    dsimp only at h
    split at h
    · exact spends_succeed _ st s st' h
    split at h
    · cases h
    · exact spends_then spends_allocate (fun _ => spends_mapped some (spends_zero (spends_take _))) st s st' h

theorem repeats_bytes (n : Nat) : Repeats (bytesDecodeBinary n) := by
  induction n with
  | zero => exact repeats_succeed []
  | succ n ih =>
      exact repeats_map _ (repeats_both repeats_byte keeps_byte ih (spends_zero (spends_bytes n)))
        (keeps_both keeps_byte (keeps_bytes n))

theorem repeats_guid : Repeats guidDecodeBinary := by
  have hlast := repeats_both repeats_uint16 keeps_uint16 (repeats_bytes 8) (spends_zero (spends_bytes 8))
  have hmiddle := repeats_both repeats_uint16 keeps_uint16 hlast
    (spends_zero (spends_both spends_uint16 (spends_bytes 8)))
  have hall := repeats_both repeats_uint32 keeps_uint32 hmiddle
    (spends_zero (spends_both spends_uint16 (spends_both spends_uint16 (spends_bytes 8))))
  exact repeats_map _ hall (keeps_both keeps_uint32 (keeps_both keeps_uint16 (keeps_both keeps_uint16 (keeps_bytes 8))))

theorem repeats_nodeId : Repeats nodeIdDecodeBinary := by
  refine repeats_andThen repeats_byte keeps_byte (fun encodingByte => ?_) (fun _ => spends_zero (spends_nodeIdBody _))
  rw [nodeIdBodyDecodeBinary]
  split
  · exact repeats_map _ repeats_byte keeps_byte
  split
  · exact repeats_map _ (repeats_both repeats_byte keeps_byte repeats_uint16 (spends_zero spends_uint16))
      (keeps_both keeps_byte keeps_uint16)
  split
  · exact repeats_map _ (repeats_both repeats_uint16 keeps_uint16 repeats_uint32 (spends_zero spends_uint32))
      (keeps_both keeps_uint16 keeps_uint32)
  split
  · exact repeats_map _ (repeats_both repeats_uint16 keeps_uint16 repeats_string (spends_zero spends_string))
      (keeps_both keeps_uint16 keeps_string)
  split
  · exact repeats_map _ (repeats_both repeats_uint16 keeps_uint16 repeats_guid (spends_zero spends_guid))
      (keeps_both keeps_uint16 keeps_guid)
  split
  · exact repeats_map _ (repeats_both repeats_uint16 keeps_uint16 repeats_string (spends_zero spends_string))
      (keeps_both keeps_uint16 keeps_string)
  · exact repeats_fail _

end Again

end OpcUa.DecodeFrames
