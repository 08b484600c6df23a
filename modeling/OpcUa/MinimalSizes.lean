import OpcUa.ConsumedBytes
import OpcUa.Variants

namespace OpcUa.MinimalSizes

open NodeIds DataTypes TypeTable Values Readers Decoding ValueDecoding ReadBack
open WritePrograms EncoderPrograms EncoderRuns LeafReading NodeIdRoundTrips SimpleRoundTrips ConsumedBytes Variants

def minSimple : Builtin → Nat
  | .boolean | .sbyte | .byte | .localizedText | .diagnosticInfo => 1
  | .int16 | .uint16 | .nodeId | .expandedNodeId => 2
  | .int32 | .uint32 | .float | .statusCode | .string | .byteString | .xmlElement => 4
  | .int64 | .uint64 | .double | .dateTime => 8
  | .guid => 16

mutual

/-- The fewest bytes that a value of the type takes in a message. -/
def minSize : DataType → Nat
  | .simple _ b => minSimple b
  | .extensionObject => 3
  | .dataValue => 1
  | .variant => 2
  | .structure _ members => minMembers members

def minMembers : Members → Nat
  | .nil => 0
  | .scalar t rest => minSize t + minMembers rest
  | .array _ rest => 4 + minMembers rest

end

/-- The types whose values can be a single byte in a message but take more
than 32 bytes in memory. -/
def sparse : DataType → Bool
  | .dataValue | .simple _ .diagnosticInfo => true
  | _ => false

theorem memSize_le_minSize {t : DataType} (hmem : t ∈ uaTypes) (hs : sparse t = false) :
    t.memSize ≤ 32 * minSize t := by
  have hall : uaTypes.all (fun t => sparse t || decide (t.memSize ≤ 32 * minSize t)) = true := by decide +kernel
  have h := List.all_eq_true.mp hall t hmem
  rw [hs, Bool.false_or] at h
  exact of_decide_eq_true h

theorem memSize_pos {t : DataType} (hmem : t ∈ uaTypes) : 0 < t.memSize := by
  have hall : uaTypes.all (fun t => decide (0 < t.memSize)) = true := by decide +kernel
  exact of_decide_eq_true (List.all_eq_true.mp hall t hmem)

section Simple

theorem two_le_nodeId (n : NodeId) : 2 ≤ (wire (nodeIdProg n)).length := by
  obtain ⟨ns, identifier⟩ := n
  cases identifier with
  | numeric i =>
      change 2 ≤ (wire (nodeIdProg (numericId ns i))).length
      rw [length_numeric]
      split_ifs <;> omega
  | string s | guid g | byteString s =>
      simp only [nodeIdProg, length_tagged]
      omega

theorem minSimple_le (b : Builtin) (x : b.Carrier) : minSimple b ≤ (wire (simpleProg b x)).length := by
  cases b with
  | string | byteString | xmlElement =>
      change 4 ≤ (wire (stringProg x)).length
      rw [wire_stringProg_length]
      omega
  | guid => exact (length_guidProg x).ge
  | nodeId => exact two_le_nodeId x
  | expandedNodeId =>
      change 2 ≤ (wire (expandedNodeIdProg x)).length
      rw [length_expanded]
      exact (two_le_nodeId x.nodeId).trans (Nat.le_add_right _ _)
  | localizedText =>
      change 1 ≤ (wire (localizedTextProg x)).length
      rw [localizedTextProg, wire, List.length_append]
      exact Nat.le_add_right 1 _
  | diagnosticInfo =>
      change 1 ≤ (wire (diagnosticInfoProg x)).length
      cases x with
      | plain fields h => exact Nat.succ_pos _
      | nested fields h inner => exact Nat.succ_pos _
  | boolean | sbyte | byte => exact le_refl 1
  | int16 | uint16 => exact le_refl 2
  | int32 | uint32 | float | statusCode => exact le_refl 4
  | int64 | uint64 | double | dateTime => exact le_refl 8

end Simple

section Values

variable {α β : Type} {d : DecM α} {k : Nat} {t : DataType} {item : DecM (Val t)}
variable {jump : (t : DataType) → DecM (Val t)}

theorem spends_succeed (a : α) : Spends (succeed a) (fun _ => 0) := by
  intro st b st' h
  simp only [succeed, Option.some.injEq, Prod.mk.injEq] at h
  rw [← h.2]
  exact le_refl _

theorem spends_fail (code : StatusCodes.StatusCode) (size : α → Nat) : Spends (fail code : DecM α) size := by
  intro st b st' h
  simp [fail] at h

theorem spends_zero {size : α → Nat} (h : Spends d size) : Spends d (fun _ => 0) := h.mono (fun _ => Nat.zero_le _)

theorem spends_mapped (f : α → β) (h : Spends d (fun _ => k)) : Spends (map f d) (fun _ => k) := spends_map h

theorem spends_then {f : α → DecM β} {m : Nat} (hd : Spends d (fun _ => k)) (hf : ∀ a, Spends (f a) (fun _ => m)) :
    Spends (andThen d f) (fun _ => k + m) := spends_andThen hd hf

theorem spends_int32 : Spends int32DecodeBinary (fun _ => 4) := spends_map spends_uint32

theorem spends_items (h : Spends item (fun _ => k)) (n : Nat) :
    Spends (itemsDecodeBinary item n) (fun _ => n * k) := by
  induction n with
  | zero => exact (spends_succeed Vals.nil).mono (fun _ => (Nat.zero_mul k).le)
  | succ n ih =>
      have hall : Spends (itemsDecodeBinary item (n + 1)) (fun _ => k + n * k) :=
        spends_andThen h (fun v => spends_map ih)
      refine hall.mono (fun _ => ?_)
      rw [Nat.succ_mul, Nat.add_comm]

theorem spends_array (h : Spends item (fun _ => k)) (hcopy : zeroCopyable t = true → k ≤ t.memSize) (n : Int) :
    Spends (arrayDecodeBinary t item n) (fun _ => n.toNat * k) := by
  intro st a st' hrun
  rw [arrayDecodeBinary] at hrun
  split at hrun
  · rename_i hle
    simp only [Option.some.injEq, Prod.mk.injEq] at hrun
    rw [← hrun.2, Int.toNat_of_nonpos hle, Nat.zero_mul]
    exact le_refl _
  split at hrun
  · simp at hrun
  split at hrun
  · simp at hrun
  have hbody : Spends (if zeroCopyable t then
      map (fun bytes => Arr.items (ofImages t n.toNat bytes)) (take (t.memSize * n.toNat))
      else map Arr.items (itemsDecodeBinary item n.toNat)) (fun _ => n.toNat * k) := by
    split
    · rename_i hzero
      refine spends_map ((spends_take _).mono (fun _ => ?_))
      rw [Nat.mul_comm]
      exact Nat.mul_le_mul_right _ (hcopy hzero)
    · exact spends_map (spends_items h n.toNat)
  have hall := spends_andThen spends_allocate (fun _ => hbody) st a st' hrun
  simpa using hall

theorem spends_anyArray (h : Spends item (fun _ => 0)) :
    Spends (andThen int32DecodeBinary (arrayDecodeBinary t item)) (fun _ => 4) :=
  (spends_andThen spends_int32 (fun n => spends_array h (fun _ => Nat.zero_le _) n)).mono (fun _ => by omega)

theorem spends_header : Spends headerDecodeBinary (fun _ => 3) := by
  intro st p st' h
  rw [headerDecodeBinary] at h
  split at h
  · simp at h
  · simp at h
  · rename_i typeId encoding st1 hboth
    have hspent := spends_both spends_nodeId spends_byte st _ st1 hboth
    have hid := two_le_nodeId typeId
    split at h
    · simp at h
    · simp only [Option.some.injEq, Prod.mk.injEq] at h
      rw [← h.2]
      dsimp only at hspent ⊢
      omega

theorem spends_content (hjump : ∀ t, Spends (jump t) (fun _ => 0)) (typeId : NodeId) :
    Spends (contentDecodeBinary jump typeId) (fun _ => 0) := by
  intro st v st' h
  obtain ⟨length, st1, hlength, h⟩ := andThen_ok h
  have hbefore := spends_int32 st length st1 hlength
  dsimp only at h hbefore
  split at h
  · rename_i type htype
    split at h
    · simp at h
    · rename_i r st2 hrun
      split at h
      · simp at h
      · simp only [Option.some.injEq, Prod.mk.injEq] at h
        obtain ⟨hr, rfl⟩ := h
        cases r with
        | error code => simp [Except.map] at hr
        | ok data =>
            have hbehind := spends_andThen spends_allocate (fun _ => hjump type) st1 data st2 hrun
            dsimp only at hbehind ⊢
            omega
  · obtain ⟨body, hbody, _⟩ := map_ok h
    have hbehind := spends_string _ _ _ hbody
    dsimp only at hbehind ⊢
    omega

theorem spends_extensionObject (hjump : ∀ t, Spends (jump t) (fun _ => 0)) :
    Spends (extensionObjectDecodeBinary jump) (fun _ => 3) := by
  refine spends_then (m := 0) spends_header (fun p => ?_)
  obtain ⟨typeId, encoding⟩ := p
  dsimp only
  split
  · exact spends_succeed _
  split
  · exact spends_map (spends_zero spends_string)
  · exact spends_content hjump typeId

theorem spends_objectVariant (hjump : ∀ t, Spends (jump t) (fun _ => 0))
    (hobject : Spends (jump .extensionObject) (fun _ => 1)) :
    Spends (objectVariantDecodeBinary jump) (fun _ => 1) := by
  intro st v st' h
  rw [objectVariantDecodeBinary] at h
  split at h
  · simp at h
  · simp at h
  · rename_i typeId encoding st1 hhead
    have hhead := spends_then (spends_nodeId.mono two_le_nodeId)
      (fun n => spends_mapped (Prod.mk n) spends_byte) st _ st1 hhead
    dsimp only at h hhead
    split at h
    · rename_i type _
      have hbehind := spends_andThen spends_allocate
        (fun _ => spends_mapped (Val.scalarVariant type) (hjump type)) st1 v st' h
      dsimp only at hbehind ⊢
      omega
    · have hbehind := spends_andThen spends_allocate
        (fun _ => spends_mapped (Val.scalarVariant .extensionObject) hobject) _ v st' h
      dsimp only at hbehind ⊢
      omega

theorem wireType_minSize {i : Nat} (hi : i ≤ 24) : 1 ≤ minSize (wireType i) ∧ 1 ≤ (wireType i).memSize := by
  have hall : ∀ i : Fin 25, 1 ≤ minSize (wireType i) ∧ 1 ≤ (wireType i).memSize := by decide +kernel
  exact hall ⟨i, Nat.lt_succ_of_le hi⟩

theorem spends_variant (hjump : ∀ t, Spends (jump t) (fun _ => minSize t)) :
    Spends (variantDecodeBinary jump) (fun _ => 2) := by
  have hzero : ∀ t, Spends (jump t) (fun _ => 0) := fun t => spends_zero (hjump t)
  refine spends_then (m := 1) spends_byte (fun encodingByte => ?_)
  dsimp only
  split
  · exact spends_fail _ _
  · rename_i hindex
    obtain ⟨hsize, hmem⟩ := wireType_minSize (i := (encodingByte &&& 0x3f).toNat - 1) (by omega)
    split
    · refine (spends_then (m := 0) spends_int32 (fun n => ?_)).mono (fun _ => by omega)
      dsimp only
      have harray := spends_array (hzero (wireType ((encodingByte &&& 0x3f).toNat - 1))) (fun _ => Nat.zero_le _) n
      split
      · refine (spends_then (k := 0) (m := 0) ?_ (fun p => ?_)).mono (fun _ => Nat.zero_le _)
        · exact spends_zero (spends_both harray spends_int32)
        · exact spends_map (spends_map (spends_zero (spends_array (hzero _) (fun _ => Nat.zero_le _) _)))
      · exact spends_map (spends_zero harray)
    split
    · refine spends_map ((spends_array (k := 1) ?_ (fun _ => hmem) 1).mono (fun _ => le_refl 1))
      exact (hjump _).mono (fun _ => hsize)
    · exact spends_objectVariant hzero ((hjump _).mono (fun _ => by decide))

theorem spends_dataValue {variant : DecM (Val .variant)} (h : Spends variant (fun _ => 0)) :
    Spends (dataValueDecodeBinary variant) (fun _ => 1) := by
  have hflagged : ∀ {γ : Type} {e : DecM γ} {size : γ → Nat} (b : Bool) (zero : γ), Spends e size →
      Spends (whenFlagged b zero e) (fun _ => 0) := fun b zero he => spends_zero (spends_whenFlagged b zero he)
  refine spends_then (m := 0) spends_byte (fun mask => spends_map ?_)
  exact spends_zero (spends_both (hflagged _ _ h) (spends_both (hflagged _ _ spends_uint32)
    (spends_both (hflagged _ _ spends_uint64) (spends_both (hflagged _ _ spends_uint16)
      (spends_both (hflagged _ _ spends_uint64) (hflagged _ _ spends_uint16))))))

mutual

theorem spends_type (fuel : Nat) (hjump : ∀ t, Spends (jump t) (fun _ => minSize t)) :
    (t : DataType) → Spends (typeDecodeBinary fuel jump t) (fun _ => minSize t)
  | .simple _ b => spends_map ((spends_simple fuel b).mono (minSimple_le b))
  | .extensionObject => spends_extensionObject (fun t => spends_zero (hjump t))
  | .dataValue => spends_dataValue (spends_zero (spends_variant hjump))
  | .variant => spends_variant hjump
  | .structure _ members => spends_map (spends_members fuel hjump members)

theorem spends_members (fuel : Nat) (hjump : ∀ t, Spends (jump t) (fun _ => minSize t)) :
    (members : Members) → Spends (membersDecodeBinary fuel jump members) (fun _ => minMembers members)
  | .nil => spends_succeed Slots.nil
  | .scalar t rest => spends_map (spends_both (spends_type fuel hjump t) (spends_members fuel hjump rest))
  | .array t rest => spends_map (spends_both (spends_anyArray (spends_zero (spends_type fuel hjump t)))
      (spends_members fuel hjump rest))

end

theorem spends_decodeBinary (fuel : Nat) (t : DataType) : Spends (decodeBinary fuel t) (fun _ => minSize t) := by
  induction fuel generalizing t with
  | zero =>
      intro st v st' h
      simp [decodeBinary] at h
  | succ fuel ih => exact spends_type (fuel + 1) ih t

end Values

end OpcUa.MinimalSizes
