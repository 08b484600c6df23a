import OpcUa.NodeIdRoundTrips
import OpcUa.ValueReading

namespace OpcUa.SimpleRoundTrips

open Filter
open LittleEndian NodeIds DataTypes Values Writers ValueEncoding Readers Decoding ValueDecoding ReadBack WritePrograms
  EncoderPrograms EncoderRuns LeafReading NodeIdRoundTrips ValueReading

def Short (s : UaString) : Prop := s.length < 2147483648

def FieldsInRange (x : DiagnosticFields) : Prop :=
  (flagged x.mask 0x01 = false → x.symbolicId = 0) ∧
    (flagged x.mask 0x02 = false → x.namespaceUri = 0) ∧
    (flagged x.mask 0x04 = false → x.localizedText = 0) ∧
    (flagged x.mask 0x08 = false → x.locale = 0) ∧
    (flagged x.mask 0x10 = false → x.additionalInfo = none) ∧
    (flagged x.mask 0x20 = false → x.innerStatusCode = 0) ∧ Short x.additionalInfo

def DiagnosticInRange : DiagnosticInfo → Prop
  | .plain fields _ => FieldsInRange fields
  | .nested fields _ inner => FieldsInRange fields ∧ DiagnosticInRange inner

/-- A namespace URI takes the place of the namespace index. -/
def ExpandedInRange (x : ExpandedNodeId) : Prop :=
  Representable x.nodeId ∧ Short x.namespaceUri ∧
    (x.namespaceUri = none ∨ x.namespaceUri.length > 0 ∧ x.nodeId.namespaceIndex = 0)

def InRange : (b : Builtin) → b.Carrier → Prop
  | .boolean, x => x ≤ 1
  | .string, s | .byteString, s | .xmlElement, s => Short s
  | .nodeId, n => Representable n
  | .expandedNodeId, x => ExpandedInRange x
  | .localizedText, x => Short x.locale ∧ Short x.text
  | .diagnosticInfo, x => DiagnosticInRange x
  | _, _ => True

variable {room limit : Nat}

theorem wire_optionally (b : Bool) (p : Prog) :
    wire (Prog.optionally b p) = if b then wire p else [] := by
  cases b <;> rfl

theorem length_optionally (b : Bool) (p : Prog) :
    (wire (Prog.optionally b p)).length = if b then (wire p).length else 0 := by
  cases b <;> rfl

theorem reads_option {α : Type} {d : DecM α} {p : Prog} {flag : Bool} {zero a : α}
    (htrue : flag = true → Reads room d (wire p) a) (hfalse : flag = false → a = zero) :
    Reads room (whenFlagged flag zero d) (wire (Prog.optionally flag p)) a := by
  rw [wire_optionally]
  exact reads_whenFlagged zero htrue (fun h => (hfalse h).symm)

theorem reads_optionally {α : Type} {d : DecM α} {p : Prog} {flag : Bool} {zero a : α}
    (htrue : Reads room d (wire p) a) (hfalse : flag = false → a = zero) :
    Reads room (whenFlagged flag zero d) (wire (Prog.optionally flag p)) a :=
  reads_option (fun _ => htrue) hfalse

theorem localizedText_flags (x : LocalizedText) :
    flagged (localizedTextMask x) 1 = x.locale.isSome ∧ flagged (localizedTextMask x) 2 = x.text.isSome := by
  rw [localizedTextMask]
  cases x.locale <;> cases x.text <;> simp only [Option.isSome] <;> decide

theorem reads_localizedText {x : LocalizedText} (hlocale : Short x.locale) (htext : Short x.text) :
    Reads room localizedTextDecodeBinary (wire (localizedTextProg x)) x := by
  obtain ⟨h1, h2⟩ := localizedText_flags x
  refine reads_andThen (reads_byte (localizedTextMask x)) ?_
  refine reads_map (fun p => LocalizedText.mk p.1 p.2) (a := (x.locale, x.text)) (reads_both
    (reads_optionally (reads_string hlocale) ?_) (reads_optionally (reads_string htext) ?_))
  · intro h
    simpa [h1] using h
  · intro h
    simpa [h2] using h

theorem reads_diagnosticFields (room : Nat) {x : DiagnosticFields} (h : FieldsInRange x) :
    ∃ w, wire (diagnosticFieldsProg x) = x.mask :: w ∧
      Reads room (diagnosticFieldsDecodeBinary x.mask) w x := by
  obtain ⟨h1, h2, h3, h4, h5, h6, hshort⟩ := h
  refine ⟨wire (.optionally (flagged x.mask 0x01) (plain (toBytes 4 x.symbolicId.toNat))) ++
    (wire (.optionally (flagged x.mask 0x02) (plain (toBytes 4 x.namespaceUri.toNat))) ++
    (wire (.optionally (flagged x.mask 0x04) (plain (toBytes 4 x.localizedText.toNat))) ++
    (wire (.optionally (flagged x.mask 0x08) (plain (toBytes 4 x.locale.toNat))) ++
    (wire (.optionally (flagged x.mask 0x10) (stringProg x.additionalInfo)) ++
      wire (.optionally (flagged x.mask 0x20) (plain (toBytes 4 x.innerStatusCode.toNat))))))),
    rfl, ?_⟩
  exact reads_map (fun p => DiagnosticFields.mk x.mask p.1 p.2.1 p.2.2.1 p.2.2.2.1 p.2.2.2.2.1 p.2.2.2.2.2)
    (a := (x.symbolicId, x.namespaceUri, x.localizedText, x.locale, x.additionalInfo, x.innerStatusCode))
    (reads_both (reads_optionally (reads_uint32 _) h1)
      (reads_both (reads_optionally (reads_uint32 _) h2)
        (reads_both (reads_optionally (reads_uint32 _) h3)
          (reads_both (reads_optionally (reads_uint32 _) h4)
            (reads_both (reads_optionally (reads_string hshort) h5)
              (reads_optionally (reads_uint32 _) h6))))))

theorem reads_diagnosticInfo {x : DiagnosticInfo} (h : DiagnosticInRange x) :
    ∀ᶠ fuel in atTop, ∀ room, Reads room (diagnosticInfoDecodeBinary fuel) (wire (diagnosticInfoProg x)) x := by
  rw [← eventually_succ]
  induction x with
  | plain fields hmask =>
      refine Eventually.of_forall (fun n room => ?_)
      obtain ⟨w, hw, hread⟩ := reads_diagnosticFields room h
      rw [diagnosticInfoProg, hw]
      refine reads_andThen (w := [fields.mask]) (reads_byte fields.mask) ?_
      rw [dif_neg (by simp [hmask])]
      exact reads_map (fun f => DiagnosticInfo.plain { f with mask := fields.mask } hmask) hread
  | nested fields hmask inner ih =>
      obtain ⟨hfields, hinner⟩ := h
      have hinner := (eventually_succ (P := fun n => ∀ room, Reads room (diagnosticInfoDecodeBinary n)
        (wire (diagnosticInfoProg inner)) inner)).mp (ih hinner)
      filter_upwards [hinner] with n hn room
      obtain ⟨w, hw, hread⟩ := reads_diagnosticFields
        ((wire (diagnosticInfoProg inner)).length + room) hfields
      rw [diagnosticInfoProg, wire, hw]
      refine reads_andThen (w := [fields.mask]) (reads_byte fields.mask) ?_
      rw [dif_pos hmask]
      exact reads_map (fun p => DiagnosticInfo.nested { p.1 with mask := fields.mask } hmask p.2)
        (reads_both hread (reads_allocated (hn room)))

theorem wire_nodeIdProg (n : NodeId) : ∃ tag w, wire (nodeIdProg n) = tag :: w ∧
    tag ∈ [0, 1, 2, 3, 4, 5] := by
  obtain ⟨ns, identifier⟩ := n
  cases identifier with
  | numeric i =>
      change ∃ tag w, wire (nodeIdProg (numericId ns i)) = tag :: w ∧ _
      rw [nodeIdProg_numeric]
      split
      · exact ⟨2, _, rfl, by simp⟩
      · split
        · exact ⟨1, _, rfl, by simp⟩
        · exact ⟨0, _, rfl, by simp⟩
  | string s => exact ⟨3, _, rfl, by simp⟩
  | guid g => exact ⟨4, _, rfl, by simp⟩
  | byteString b => exact ⟨5, _, rfl, by simp⟩

def expandedFlags (uri server : Bool) : UInt8 :=
  (if uri then namespaceUriFlag else 0) ||| (if server then serverIndexFlag else 0)

theorem expandedFlags_spec {tag : UInt8} (htag : tag ∈ [0, 1, 2, 3, 4, 5]) (uri server : Bool) :
    flagged (tag ||| expandedFlags uri server) 0x80 = uri ∧
      flagged (tag ||| expandedFlags uri server) 0x40 = server ∧
      (tag ||| expandedFlags uri server) &&& 0x3f = tag := by
  simp only [List.mem_cons, List.not_mem_nil, or_false] at htag
  rcases htag with rfl | rfl | rfl | rfl | rfl | rfl <;> cases uri <;> cases server <;> decide

theorem wire_expandedNodeIdProg (x : ExpandedNodeId) {tag : UInt8} {w : List UInt8}
    (h : wire (nodeIdProg x.nodeId) = tag :: w) :
    wire (expandedNodeIdProg x) =
      (tag ||| expandedFlags (x.namespaceUri.length > 0) (x.serverIndex > 0)) :: (w ++
        (wire (.optionally (x.namespaceUri.length > 0) (stringProg x.namespaceUri)) ++
          wire (.optionally (x.serverIndex > 0) (plain (toBytes 4 x.serverIndex.toNat))))) := by
  rw [expandedNodeIdProg, wire, h, expandedOptions, expandedFlags]
  by_cases huri : x.namespaceUri.length > 0 <;> by_cases hserver : x.serverIndex > 0
  · rw [stringProg_of_pos huri]
    simp [huri, hserver, withOptions, setFirst, Prog.optionally, wire, Write.wire, plain,
      UInt8.or_assoc]
  · rw [stringProg_of_pos huri]
    simp [huri, hserver, withOptions, setFirst, Prog.optionally, wire, Write.wire]
  · simp [huri, hserver, withOptions, setFirst, Prog.optionally, wire, Write.wire, plain]
  · simp [huri, hserver, withOptions, Prog.optionally, wire]

theorem reads_cleared {byte tag : UInt8} {w : List UInt8} {x : ExpandedNodeId}
    (hclear : byte &&& 0x3f = tag) (h : Reads room (expandedNodeIdFields byte) (tag :: w) x) :
    Reads room expandedNodeIdDecodeBinary (byte :: w) x := by
  intro pre post st hdata hoff hpost hheap
  have hlt : ¬ st.offset ≥ st.data.length := by
    rw [hdata, hoff]
    simp
  have hbyte : st.data.getD st.offset 0 = byte := by
    rw [hdata, hoff, List.append_assoc]
    simp
  have hover : Buffers.overwrite st.data st.offset [byte &&& 0x3f] = pre ++ (tag :: w) ++ post := by
    rw [hclear, hdata, hoff]
    simpa using Buffers.overwrite_middle pre [byte] [tag] (w ++ post) rfl
  obtain ⟨v, st', hrun, hrest⟩ := h pre post
    { st with
      data := Buffers.overwrite st.data st.offset [byte &&& 0x3f],
      reads := (st.offset, 1) :: st.reads } hover hoff hpost hheap
  refine ⟨v, st', ?_, hrest⟩
  rw [expandedNodeIdDecodeBinary, if_neg hlt]
  simp only [hbyte]
  exact hrun

/-- What the decoder makes of an id when the NodeId comes back as `n`. -/
def expandedBack (x : ExpandedNodeId) (n : NodeId) : ExpandedNodeId :=
  if x.namespaceUri.length > 0 then ⟨{ n with namespaceIndex := 0 }, x.namespaceUri, x.serverIndex⟩
  else ⟨n, none, x.serverIndex⟩

theorem reads_expandedFields {x : ExpandedNodeId} {n : NodeId}
    (hnode : ∀ room, Reads room nodeIdDecodeBinary (wire (nodeIdProg x.nodeId)) n) (hshort : Short x.namespaceUri)
    {byte : UInt8} (h80 : flagged byte 0x80 = decide (x.namespaceUri.length > 0))
    (h40 : flagged byte 0x40 = decide (x.serverIndex > 0)) :
    Reads room (expandedNodeIdFields byte) (wire (nodeIdProg x.nodeId) ++
      (wire (.optionally (x.namespaceUri.length > 0) (stringProg x.namespaceUri)) ++
        wire (.optionally (x.serverIndex > 0) (plain (toBytes 4 x.serverIndex.toNat))))) (expandedBack x n) := by
  have hread : Reads room (expandedNodeIdFields byte) _ (ExpandedNodeId.mk _ _ _) :=
    reads_map _ (reads_both (hnode _)
      (reads_both (a := if x.namespaceUri.length > 0 then x.namespaceUri else none)
        (reads_option (p := stringProg x.namespaceUri) (fun hflag => ?_) ?_)
        (reads_optionally (a := x.serverIndex) (p := plain (toBytes 4 x.serverIndex.toNat))
          (reads_uint32 _) ?_)))
  · rw [h80, h40] at hread
    rw [expandedBack]
    split
    · rename_i huri
      simpa only [huri, decide_true, if_true] using hread
    · rename_i huri
      simpa only [huri, decide_false, Bool.false_eq_true, if_false] using hread
  · rw [h80] at hflag
    rw [if_pos (by simpa using hflag)]
    exact reads_string hshort
  · rw [h80]
    intro hflag
    exact if_neg (by simpa using hflag)
  · rw [h40]
    intro hflag
    have hzero : ¬ 0 < x.serverIndex.toNat := by simpa [UInt32.lt_iff_toNat_lt] using hflag
    rw [← UInt32.toNat_inj]
    change _ = 0
    omega

theorem reads_expandedBack {x : ExpandedNodeId} {n : NodeId}
    (hnode : ∀ room, Reads room nodeIdDecodeBinary (wire (nodeIdProg x.nodeId)) n) (hshort : Short x.namespaceUri) :
    Reads room expandedNodeIdDecodeBinary (wire (expandedNodeIdProg x)) (expandedBack x n) := by
  obtain ⟨tag, w, hw, htag⟩ := wire_nodeIdProg x.nodeId
  obtain ⟨h80, h40, hclear⟩ := expandedFlags_spec htag (x.namespaceUri.length > 0) (x.serverIndex > 0)
  have hfields : Reads room (expandedNodeIdFields _) _ (expandedBack x n) := reads_expandedFields hnode hshort h80 h40
  rw [hw] at hfields
  rw [wire_expandedNodeIdProg x hw]
  exact reads_cleared hclear hfields

theorem reads_expandedNodeId {x : ExpandedNodeId} (h : ExpandedInRange x) :
    Reads room expandedNodeIdDecodeBinary (wire (expandedNodeIdProg x)) x := by
  obtain ⟨hnode, hshort, huri⟩ := h
  have hback : expandedBack x x.nodeId = x := by
    obtain ⟨⟨ns, identifier⟩, uri, server⟩ := x
    rcases huri with hnone | hpos
    · obtain rfl : uri = none := hnone
      exact if_neg (by simp [UaString.length, UaString.bytes])
    · obtain rfl : ns = 0 := hpos.2
      exact if_pos hpos.1
  have hread : Reads room expandedNodeIdDecodeBinary _ _ := reads_expandedBack (fun _ => reads_nodeId hnode) hshort
  rwa [hback] at hread

theorem reads_simple {b : Builtin} {x : b.Carrier} (h : InRange b x) :
    ∀ᶠ fuel in atTop, Reads room (simpleDecodeBinary fuel b) (wire (simpleProg b x)) x := by
  cases b with
  | diagnosticInfo => exact (reads_diagnosticInfo h).mono (fun fuel hn => hn room)
  | boolean => exact Eventually.of_forall (fun _ => reads_boolean h)
  | sbyte | byte => exact Eventually.of_forall (fun _ => reads_byte x)
  | int16 | uint16 => exact Eventually.of_forall (fun _ => reads_uint16 x)
  | int32 | uint32 | float | statusCode => exact Eventually.of_forall (fun _ => reads_uint32 x)
  | int64 | uint64 | double | dateTime => exact Eventually.of_forall (fun _ => reads_uint64 x)
  | string | byteString | xmlElement => exact Eventually.of_forall (fun _ => reads_string h)
  | guid => exact Eventually.of_forall (fun _ => reads_guid x)
  | nodeId => exact Eventually.of_forall (fun _ => reads_nodeId h)
  | expandedNodeId => exact Eventually.of_forall (fun _ => reads_expandedNodeId h)
  | localizedText => exact Eventually.of_forall (fun _ => reads_localizedText h.1 h.2)

theorem encodable_optionally {b : Bool} {p : Prog} (h : Encodable p) (hu : Untagged p) :
    Encodable (Prog.optionally b p) ∧ Untagged (Prog.optionally b p) := by
  cases b
  · exact ⟨trivial, trivial⟩
  · exact ⟨h, hu⟩

theorem encodable_diagnosticInfoProg (x : DiagnosticInfo) :
    Encodable (diagnosticInfoProg x) ∧ Untagged (diagnosticInfoProg x) := by
  have hfields : ∀ f : DiagnosticFields,
      Encodable (diagnosticFieldsProg f) ∧ Untagged (diagnosticFieldsProg f) := by
    intro f
    have hplain : ∀ b bytes, Encodable (Prog.optionally b (plain bytes)) ∧
        Untagged (Prog.optionally b (plain bytes)) := fun b bytes =>
      encodable_optionally trivial trivial
    have hs := encodable_stringProg f.additionalInfo
    have htext := encodable_optionally (b := flagged f.mask 0x10) hs.1 hs.2
    exact ⟨⟨trivial, (hplain _ _).1, (hplain _ _).1, (hplain _ _).1, (hplain _ _).1, htext.1,
      (hplain _ _).1⟩, ⟨trivial, (hplain _ _).2, (hplain _ _).2, (hplain _ _).2, (hplain _ _).2,
      htext.2, (hplain _ _).2⟩⟩
  induction x with
  | plain fields h => exact hfields fields
  | nested fields h inner ih => exact ⟨⟨(hfields fields).1, ih.1⟩, ⟨(hfields fields).2, ih.2⟩⟩

theorem encodable_localizedTextProg (x : LocalizedText) :
    Encodable (localizedTextProg x) ∧ Untagged (localizedTextProg x) := by
  have h1 := encodable_stringProg x.locale
  have h2 := encodable_stringProg x.text
  have hlocale := encodable_optionally (b := flagged (localizedTextMask x) 1) h1.1 h1.2
  have htext := encodable_optionally (b := flagged (localizedTextMask x) 2) h2.1 h2.2
  exact ⟨⟨trivial, hlocale.1, htext.1⟩, ⟨trivial, hlocale.2, htext.2⟩⟩

theorem encodable_simpleProg (b : Builtin) (x : b.Carrier) :
    Encodable (simpleProg b x) ∧ (b = .expandedNodeId ∨ Untagged (simpleProg b x)) := by
  cases b with
  | expandedNodeId =>
      refine ⟨⟨(encodable_nodeIdProg x.nodeId).1, ?_⟩, Or.inl rfl⟩
      obtain ⟨tag, w, hw, _⟩ := wire_nodeIdProg x.nodeId
      simp [hw]
  | string | byteString | xmlElement =>
      exact ⟨(encodable_stringProg x).1, Or.inr (encodable_stringProg x).2⟩
  | guid => exact ⟨(encodable_guidProg x).1, Or.inr (encodable_guidProg x).2⟩
  | nodeId => exact ⟨(encodable_nodeIdProg x).1, Or.inr (encodable_nodeIdProg x).2⟩
  | localizedText =>
      exact ⟨(encodable_localizedTextProg x).1, Or.inr (encodable_localizedTextProg x).2⟩
  | diagnosticInfo =>
      exact ⟨(encodable_diagnosticInfoProg x).1, Or.inr (encodable_diagnosticInfoProg x).2⟩
  | _ => exact ⟨trivial, Or.inr trivial⟩

theorem simple_roundTrips {typeId : NodeId} {b : Builtin} {x : b.Carrier} (h : InRange b x)
    (hlimit : limit ≤ 4294967296 ∨ b ≠ .expandedNodeId) :
    RoundTrips limit (.simple x : Val (.simple typeId b)) := by
  rw [roundTrips_iff, wireOf, valProg]
  obtain ⟨hencodable, htagged⟩ := encodable_simpleProg b x
  refine ⟨run_writes _ hencodable ?_, ?_⟩
  · rcases hlimit with hle | hne
    · exact Or.inl hle
    · exact Or.inr (htagged.resolve_left hne)
  · refine (eventually_succ (P := fun n => Reads 0 (map Val.simple (simpleDecodeBinary n b)) _ _)).mpr ?_
    exact (reads_simple h).mono (fun n hn => reads_map Val.simple hn)

end OpcUa.SimpleRoundTrips
