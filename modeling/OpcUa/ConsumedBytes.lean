import OpcUa.ObjectVariants

namespace OpcUa.ConsumedBytes

open LittleEndian NodeIds DataTypes Values Buffers Readers Decoding ReadBack ValueEncoding
open WritePrograms EncoderPrograms LeafReading NodeIdRoundTrips SimpleRoundTrips ObjectVariants

variable {α β : Type} {d : DecM α} {e : DecM β} {size : α → Nat} {size' : β → Nat}

/-- A decoder that returns `a` has consumed at least `size a` bytes. -/
def Spends {α : Type} (d : DecM α) (size : α → Nat) : Prop :=
  ∀ st a st', d st = some (.ok a, st') → st.offset + size a ≤ st'.offset

theorem spends_take (k : Nat) : Spends (take k) (fun _ => k) := by
  intro st bytes st' h
  rw [(take_ok h).2.2]
  exact le_refl _

theorem spends_map {f : α → β} (h : Spends d (fun a => size' (f a))) : Spends (map f d) size' := by
  intro st b st' hrun
  obtain ⟨a, ha, rfl⟩ := map_ok hrun
  exact h st a st' ha

theorem spends_both (hd : Spends d size) (he : Spends e size') :
    Spends (both d e) (fun p => size p.1 + size' p.2) := by
  rintro st ⟨a, b⟩ st' hrun
  obtain ⟨st1, ha, hb⟩ := both_ok hrun
  have hfirst := hd st a st1 ha
  have hsecond := he st1 b st' hb
  dsimp only
  omega

theorem spends_andThen {f : α → DecM β} {k : Nat} (hd : Spends d (fun _ => k)) (hf : ∀ a, Spends (f a) size') :
    Spends (andThen d f) (fun b => k + size' b) := by
  intro st b st' hrun
  obtain ⟨a, st1, ha, hb⟩ := andThen_ok hrun
  have hfirst := hd st a st1 ha
  have hsecond := hf a st1 b st' hb
  dsimp only at hfirst ⊢
  omega

theorem spends_whenFlagged (b : Bool) (zero : α) (h : Spends d size) :
    Spends (whenFlagged b zero d) (fun a => if b then size a else 0) := by
  cases b with
  | true => exact h
  | false =>
      intro st a st' hrun
      simp only [whenFlagged, Bool.false_eq_true, if_false, succeed, Option.some.injEq, Prod.mk.injEq] at hrun
      rw [← hrun.2]
      exact le_refl _

theorem Spends.mono {size₁ : α → Nat} (h : Spends d size) (hle : ∀ a, size₁ a ≤ size a) : Spends d size₁ := by
  intro st a st' hrun
  exact (Nat.add_le_add_left (hle a) st.offset).trans (h st a st' hrun)

section Numbers

theorem spends_byte : Spends byteDecodeBinary (fun _ => 1) := spends_map (spends_take 1)

theorem spends_uint16 : Spends uint16DecodeBinary (fun _ => 2) := spends_map (spends_take 2)

theorem spends_uint32 : Spends uint32DecodeBinary (fun _ => 4) := spends_map (spends_take 4)

theorem spends_uint64 : Spends uint64DecodeBinary (fun _ => 8) := spends_map (spends_take 8)

theorem spends_string : Spends stringDecodeBinary (fun s => (wire (stringProg s)).length) := by
  intro st s st' h
  dsimp only
  rw [string_offset h, wire_stringProg_length]
  omega

end Numbers

section Ids

theorem spends_bytes (n : Nat) : Spends (bytesDecodeBinary n) (fun _ => n) := by
  induction n with
  | zero =>
      intro st bytes st' h
      simp only [bytesDecodeBinary, succeed, Option.some.injEq, Prod.mk.injEq] at h
      rw [← h.2]
      exact le_refl _
  | succ n ih => exact spends_map ((spends_both spends_byte ih).mono (fun _ => le_of_eq (Nat.add_comm n 1)))

theorem length_guidProg (g : Guid) : (wire (guidProg g)).length = 16 := by
  rw [guidProg, wire, wire, wire, wire_seqAll_bytes]
  simp only [List.length_append, g.data4_length]
  rfl

theorem spends_guid : Spends guidDecodeBinary (fun g => (wire (guidProg g)).length) := by
  simp only [length_guidProg]
  exact spends_map (spends_both spends_uint32 (spends_both spends_uint16 (spends_both spends_uint16 (spends_bytes 8))))

theorem length_numeric (ns : UInt16) (i : UInt32) :
    (wire (nodeIdProg (numericId ns i))).length =
      if i.toNat > 65535 ∨ ns.toNat > 256 then 7 else if i.toNat > 256 ∨ ns.toNat > 0 then 4 else 2 := by
  rw [nodeIdProg_numeric]
  by_cases hlong : i.toNat > uint16Max ∨ ns.toNat > byteMax
  · rw [if_pos hlong]
    exact (if_pos hlong).symm
  rw [if_neg hlong]
  refine Eq.trans ?_ (if_neg hlong).symm
  by_cases hmiddle : i.toNat > byteMax ∨ ns.toNat > 0
  · rw [if_pos hmiddle]
    exact (if_pos hmiddle).symm
  · rw [if_neg hmiddle]
    exact (if_neg hmiddle).symm

theorem length_tagged (tag : UInt8) (ns : UInt16) (p : Prog) :
    (wire (.seq (plain [tag]) (.seq (plain (toBytes 2 ns.toNat)) p))).length = 1 + (2 + (wire p).length) := by
  change ([tag] ++ (toBytes 2 ns.toNat ++ wire p)).length = _
  simp only [List.length_append, length_toBytes]
  rfl

theorem length_zeroed (n : NodeId) :
    (wire (nodeIdProg { n with namespaceIndex := 0 })).length ≤ (wire (nodeIdProg n)).length := by
  obtain ⟨ns, identifier⟩ := n
  cases identifier with
  | numeric i =>
      have hzero : (0 : UInt16).toNat = 0 := rfl
      change (wire (nodeIdProg (numericId 0 i))).length ≤ (wire (nodeIdProg (numericId ns i))).length
      rw [length_numeric, length_numeric, hzero]
      split_ifs <;> omega
  | string s | guid g | byteString s =>
      simp only [nodeIdProg, length_tagged]
      exact le_refl _

theorem spends_nodeIdBody (encodingByte : UInt8) :
    Spends (nodeIdBodyDecodeBinary encodingByte) (fun n => (wire (nodeIdProg n)).length - 1) := by
  rw [nodeIdBodyDecodeBinary]
  split
  · refine spends_map (spends_byte.mono (fun b => ?_))
    have hb : b.toNat < 256 := b.toNat_lt
    have hzero : (0 : UInt16).toNat = 0 := rfl
    rw [length_numeric, UInt8.toNat_toUInt32, hzero]
    split_ifs <;> omega
  split
  · refine spends_map ((spends_both spends_byte spends_uint16).mono (fun p => ?_))
    have hb : p.1.toNat < 256 := p.1.toNat_lt
    have hw : p.2.toNat < 65536 := p.2.toNat_lt
    rw [length_numeric, UInt8.toNat_toUInt16, UInt16.toNat_toUInt32]
    split_ifs <;> omega
  split
  · refine spends_map ((spends_both spends_uint16 spends_uint32).mono (fun p => ?_))
    rw [length_numeric]
    split_ifs <;> omega
  split
  · refine spends_map ((spends_both spends_uint16 spends_string).mono (fun p => ?_))
    simp only [nodeIdProg, length_tagged, Nat.add_sub_cancel_left, le_refl]
  split
  · refine spends_map ((spends_both spends_uint16 spends_guid).mono (fun p => ?_))
    simp only [nodeIdProg, length_tagged, Nat.add_sub_cancel_left, le_refl]
  split
  · refine spends_map ((spends_both spends_uint16 spends_string).mono (fun p => ?_))
    simp only [nodeIdProg, length_tagged, Nat.add_sub_cancel_left, le_refl]
  · intro st n st' h
    simp [fail] at h

theorem spends_nodeId : Spends nodeIdDecodeBinary (fun n => (wire (nodeIdProg n)).length) :=
  (spends_andThen spends_byte spends_nodeIdBody).mono (fun n => by omega)

end Ids

section Flagged

theorem spends_orZero (b : Bool) {zero : α} (h : Spends d size) (hzero : size zero = 0) :
    Spends (whenFlagged b zero d) size := by
  cases b with
  | true => exact h
  | false =>
      intro st a st' hrun
      simp only [whenFlagged, Bool.false_eq_true, if_false, succeed, Option.some.injEq, Prod.mk.injEq,
        Except.ok.injEq] at hrun
      rw [← hrun.1, ← hrun.2, hzero]
      exact le_refl _

theorem length_expanded (x : ExpandedNodeId) :
    (wire (expandedNodeIdProg x)).length = (wire (nodeIdProg x.nodeId)).length +
      ((if x.namespaceUri.length > 0 then 4 + x.namespaceUri.length else 0) + if x.serverIndex > 0 then 4 else 0) := by
  obtain ⟨tag, w, hw, _⟩ := wire_nodeIdProg x.nodeId
  have hserver : (wire (plain (toBytes 4 x.serverIndex.toNat))).length = 4 := rfl
  rw [wire_expandedNodeIdProg x hw, hw]
  simp only [List.length_cons, List.length_append, length_optionally, wire_stringProg_length, hserver,
    decide_eq_true_eq]
  omega

theorem spends_expandedNodeId : Spends expandedNodeIdDecodeBinary (fun x => (wire (expandedNodeIdProg x)).length) := by
  intro st x st' h
  rw [expandedNodeIdDecodeBinary] at h
  split at h
  · simp at h
  have huri : Spends stringDecodeBinary (fun s => if s.length > 0 then 4 + s.length else 0) := by
    refine spends_string.mono (fun s => ?_)
    rw [wire_stringProg_length]
    split_ifs <;> omega
  have hserver : Spends uint32DecodeBinary (fun i => if i > 0 then 4 else 0) := by
    refine spends_uint32.mono (fun i => ?_)
    split_ifs <;> omega
  have hfields : ∀ encodingByte, Spends (expandedNodeIdFields encodingByte)
      (fun x => (wire (expandedNodeIdProg x)).length) := by
    intro encodingByte
    refine spends_map ((spends_both spends_nodeId (spends_both (spends_orZero _ huri rfl)
      (spends_orZero _ hserver rfl))).mono (fun p => ?_))
    rw [length_expanded]
    refine Nat.add_le_add_right ?_ _
    dsimp only
    split
    · exact length_zeroed p.1
    · exact le_refl _
  dsimp only at h
  have hspent := hfields _ _ _ _ h
  exact hspent

theorem spends_localizedText : Spends localizedTextDecodeBinary (fun x => (wire (localizedTextProg x)).length) := by
  have htext : Spends stringDecodeBinary (fun s => if s.isSome then (wire (stringProg s)).length else 0) := by
    refine spends_string.mono (fun s => ?_)
    split_ifs <;> omega
  have htexts : ∀ mask, Spends (map (fun p => (⟨p.1, p.2⟩ : LocalizedText))
      (both (whenFlagged (flagged mask 1) none stringDecodeBinary)
        (whenFlagged (flagged mask 2) none stringDecodeBinary)))
      (fun x => (if x.locale.isSome then (wire (stringProg x.locale)).length else 0) +
        if x.text.isSome then (wire (stringProg x.text)).length else 0) :=
    fun mask => spends_map (spends_both (spends_orZero _ htext rfl) (spends_orZero _ htext rfl))
  refine (spends_andThen spends_byte htexts).mono (fun x => ?_)
  obtain ⟨hlocale, htext⟩ := localizedText_flags x
  rw [localizedTextProg, wire, wire, List.length_append, List.length_append, length_optionally, length_optionally,
    hlocale, htext]
  exact le_refl _

theorem spends_diagnosticFields (mask : UInt8) :
    Spends (diagnosticFieldsDecodeBinary mask)
      (fun x => (wire (diagnosticFieldsProg { x with mask := mask })).length - 1) := by
  refine spends_map ((spends_both (spends_whenFlagged _ _ spends_uint32) <|
    spends_both (spends_whenFlagged _ _ spends_uint32) <| spends_both (spends_whenFlagged _ _ spends_uint32) <|
    spends_both (spends_whenFlagged _ _ spends_uint32) <| spends_both (spends_whenFlagged _ _ spends_string) <|
    spends_whenFlagged _ _ spends_uint32).mono (fun p => ?_))
  have hmask : (wire (plain [mask])).length = 1 := rfl
  have hword : ∀ x : UInt32, (wire (plain (toBytes 4 x.toNat))).length = 4 := fun _ => rfl
  rw [diagnosticFieldsProg, wire, List.length_append, hmask, Nat.add_sub_cancel_left]
  simp only [wire, List.length_append, length_optionally, hword, Nat.le_refl]

theorem spends_allocate : Spends allocate (fun _ => 0) := by
  intro st _ st' h
  rw [allocate_ok h]
  exact le_refl _

theorem spends_diagnosticInfo (fuel : Nat) :
    Spends (diagnosticInfoDecodeBinary fuel) (fun x => (wire (diagnosticInfoProg x)).length) := by
  induction fuel with
  | zero =>
      intro st x st' h
      simp [diagnosticInfoDecodeBinary] at h
  | succ fuel ih =>
      have hinner := spends_andThen spends_allocate (fun _ => ih)
      have hspends : Spends (diagnosticInfoDecodeBinary (fuel + 1))
          (fun x => 1 + ((wire (diagnosticInfoProg x)).length - 1)) := by
        refine spends_andThen spends_byte (fun mask => ?_)
        split
        · refine spends_map ((spends_both (spends_diagnosticFields mask) hinner).mono (fun p => ?_))
          rw [diagnosticInfoProg, wire, List.length_append]
          dsimp only
          omega
        · refine spends_map ((spends_diagnosticFields mask).mono (fun x => ?_))
          rw [diagnosticInfoProg]
      exact hspends.mono (fun x => by omega)

theorem spends_simple (fuel : Nat) (b : Builtin) :
    Spends (simpleDecodeBinary fuel b) (fun x => (wire (simpleProg b x)).length) := by
  cases b with
  | boolean => exact spends_map spends_byte
  | sbyte | byte => exact spends_byte
  | int16 | uint16 => exact spends_uint16
  | int32 | uint32 | float | statusCode => exact spends_uint32
  | int64 | uint64 | double | dateTime => exact spends_uint64
  | string | byteString | xmlElement => exact spends_string
  | guid => exact spends_guid
  | nodeId => exact spends_nodeId
  | expandedNodeId => exact spends_expandedNodeId
  | localizedText => exact spends_localizedText
  | diagnosticInfo => exact spends_diagnosticInfo fuel

end Flagged

end OpcUa.ConsumedBytes
