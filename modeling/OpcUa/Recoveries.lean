import OpcUa.StableValues

namespace OpcUa.Recoveries

open Filter
open LittleEndian NodeIds DataTypes TypeTable Values ValueEncoding Readers Decoding ValueDecoding ReadBack
open WritePrograms EncoderPrograms LeafReading NodeIdRoundTrips ValueReading SimpleRoundTrips ExtensionObjects
open Variants VariantShapes ObjectVariants VariantRoundTrips DecodedValues StableValues

variable {α β : Type} {d : DecM α} {e : DecM β} {w w' : List UInt8} {a : α} {b : β}

/-- In some buffer with enough bytes behind `w`, these are decoded as `a`.
How many of them are consumed is left open. -/
def Recovers {α : Type} (d : DecM α) (w : List UInt8) (a : α) : Prop :=
  ∃ pre post st st', st.data = pre ++ w ++ post ∧ st.offset = pre.length ∧ st.heap = [] ∧ slack ≤ post.length ∧
    d st = some (.ok a, st')

theorem recovers_of_reads {room : Nat} (h : Reads room d w a) : Recovers d w a := by
  let post : List UInt8 := List.replicate (room + slack) 0
  have hpost : post.length = room + slack := List.length_replicate
  obtain ⟨_, st', hrun, _⟩ := h [] post ⟨w ++ post, 0, [], []⟩ rfl rfl (by omega) rfl
  exact ⟨[], post, _, st', rfl, rfl, rfl, by omega, hrun⟩

theorem Recovers.eq {a' : α} (h : Recovers d w a') (hd : Reads slack d w a) : a' = a := by
  obtain ⟨pre, post, st, st', hdata, hoff, hheap, hpost, hrun⟩ := h
  obtain ⟨_, st1, hrun1, _⟩ := hd pre post st hdata hoff hpost hheap
  rw [hrun] at hrun1
  simpa using congrArg (Option.map Prod.fst) hrun1

theorem Recovers.of_map {f : α → β} (h : Recovers (map f d) w b) : ∃ a, Recovers d w a ∧ f a = b := by
  obtain ⟨pre, post, st, st', hdata, hoff, hheap, hpost, hrun⟩ := h
  obtain ⟨a, ha, heq⟩ := map_ok hrun
  exact ⟨a, ⟨pre, post, st, st', hdata, hoff, hheap, hpost, ha⟩, heq⟩

theorem Recovers.of_andThen {f : α → DecM β} (h : Recovers (andThen d f) (w ++ w') b)
    (hd : Reads (w'.length + slack) d w a) : Recovers (f a) w' b := by
  obtain ⟨pre, post, st, st', hdata, hoff, hheap, hpost, hrun⟩ := h
  obtain ⟨v, st1, hrun1, hdata1, hv, hoff1, hheap1⟩ := hd pre (w' ++ post) st
    (by rw [hdata]; simp only [List.append_assoc]) hoff (by rw [List.length_append]; omega) hheap
  rw [andThen, hrun1] at hrun
  refine ⟨pre ++ v, post, st1, st', by rw [hdata1]; simp only [List.append_assoc], ?_, hheap1, hpost, hrun⟩
  rw [hoff1, List.length_append, hv]

theorem Recovers.fst (h : Recovers (both d e) (w ++ w') (a, b)) : Recovers d w a := by
  obtain ⟨pre, post, st, st', hdata, hoff, hheap, hpost, hrun⟩ := h
  obtain ⟨st1, hd, _⟩ := both_ok hrun
  refine ⟨pre, w' ++ post, st, st1, by rw [hdata]; simp only [List.append_assoc], hoff, hheap, ?_, hd⟩
  rw [List.length_append]
  omega

theorem Recovers.snd (h : Recovers (both d e) (w ++ w') (a, b)) (hd : Reads slack d w a) : Recovers e w' b := by
  obtain ⟨pre, post, st, st', hdata, hoff, hheap, hpost, hrun⟩ := h
  obtain ⟨st1, hrun1, he⟩ := both_ok hrun
  obtain ⟨v, st2, hrun2, hdata2, hv, hoff2, hheap2⟩ := hd pre (w' ++ post) st
    (by rw [hdata]; simp only [List.append_assoc]) hoff (by rw [List.length_append]; omega) hheap
  obtain rfl : st1 = st2 := by
    rw [hrun1] at hrun2
    simpa using congrArg (Option.map Prod.snd) hrun2
  refine ⟨pre ++ v, post, st1, st', by rw [hdata2]; simp only [List.append_assoc], ?_, hheap2, hpost, he⟩
  rw [hoff2, List.length_append, hv]

section Ids

theorem idBack_spec {n : NodeId} (h : ShortId n) :
    ∃ m, (∀ room, Reads room nodeIdDecodeBinary (wire (nodeIdProg n)) m) ∧ (m = n ↔ StableId n) ∧
      (n.namespaceIndex = 0 → m.namespaceIndex = 0) := by
  obtain ⟨ns, identifier⟩ := n
  cases identifier with
  | numeric i =>
      refine ⟨compacted ns i, fun room => reads_numeric ns i, compacted_eq_iff ns i, ?_⟩
      rintro rfl
      rw [compacted_zero]
      rfl
  | string s => exact ⟨_, fun room => reads_nodeId h, iff_of_true rfl trivial, id⟩
  | guid g => exact ⟨_, fun room => reads_nodeId trivial, iff_of_true rfl trivial, id⟩
  | byteString s => exact ⟨_, fun room => reads_nodeId h, iff_of_true rfl trivial, id⟩

theorem stableId_of_recovers {n : NodeId} (hn : ShortId n)
    (h : Recovers nodeIdDecodeBinary (wire (nodeIdProg n)) n) : StableId n := by
  obtain ⟨m, hm, hstable, _⟩ := idBack_spec hn
  exact hstable.mp (h.eq (hm _)).symm

theorem stable_expanded {x : ExpandedNodeId} (hx : DecodedSimple .expandedNodeId x)
    (h : Recovers expandedNodeIdDecodeBinary (wire (expandedNodeIdProg x)) x) :
    StableSimple .expandedNodeId x := by
  obtain ⟨hid, hshort, hns⟩ := hx
  obtain ⟨m, hm, hstable, hzero⟩ := idBack_spec hid
  have hback := h.eq (reads_expandedBack hm hshort)
  rw [expandedBack] at hback
  split at hback
  · rename_i huri
    have hne : x.namespaceUri ≠ none := by
      intro hnone
      rw [hnone] at huri
      cases huri
    have hm0 : { m with namespaceIndex := 0 } = m := by
      rw [← hzero (hns hne)]
    refine ⟨hstable.mp ?_, fun hempty => ?_⟩
    · rw [← hm0]
      exact (congrArg ExpandedNodeId.nodeId hback).symm
    · rw [hempty] at huri
      cases huri
  · refine ⟨hstable.mp (congrArg ExpandedNodeId.nodeId hback).symm, fun hempty => ?_⟩
    rw [congrArg ExpandedNodeId.namespaceUri hback] at hempty
    cases hempty

theorem stable_simple {fuel : Nat} {b : Builtin} {x : b.Carrier} (hx : DecodedSimple b x)
    (h : Recovers (simpleDecodeBinary fuel b) (wire (simpleProg b x)) x) : StableSimple b x := by
  cases b with
  | nodeId => exact stableId_of_recovers hx h
  | expandedNodeId => exact stable_expanded hx h
  | _ => trivial

end Ids

section Objects

variable {jump : (t : DataType) → DecM (Val t)}

theorem stable_encoded {typeId : NodeId} {encoding : BodyEncoding} {body : UaString}
    (hv : Decoded (.encoded typeId encoding body))
    (h : Recovers (extensionObjectDecodeBinary jump) (wireOf (.encoded typeId encoding body))
      (.encoded typeId encoding body)) : Stable (.encoded typeId encoding body) := by
  rw [Decoded] at hv
  obtain ⟨⟨i, rfl⟩, hshort, hnone, _⟩ := hv
  have hkept : numericId 0 i = numericId 0 (onWire i) → numericId 0 i ≠ numericId 0 256 := by
    intro heq
    rw [numericId_ne_iff, ← onWire_eq_iff]
    simpa [numericId, eq_comm] using heq
  rw [wireOf_encoded] at h
  rw [Stable]
  cases encoding with
  | nobody =>
      rw [if_neg (by decide), List.append_nil] at h
      have heq := h.eq (reads_nobody i)
      exact ⟨by simp, hkept (Val.encoded.inj heq).1⟩
  | byteString =>
      rw [if_pos (by decide)] at h
      obtain ⟨_, _, _, _, _, _, _, _, hrun⟩ := h.of_andThen (reads_header i 1)
      exact absurd (content_encoded hrun).1 (shifted_ne i)
  | xml =>
      rw [if_pos (by decide)] at h
      have heq := h.eq (reads_xml i hshort)
      exact ⟨by simp, hkept (Val.encoded.inj heq).1⟩

theorem Recovers.of_decoded {type : DataType} (hmem : type ∈ uaTypes) {data : Val type}
    (h : Recovers (extensionObjectDecodeBinary jump) (wireOf (.decoded false type data)) (.decoded false type data)) :
    Recovers (jump type) (wireOf data) data := by
  obtain ⟨i, _, honWire, hwire⟩ := wireOf_decoded hmem false data
  rw [hwire] at h
  have hcontent := h.of_andThen (reads_header i 1)
  rw [honWire] at hcontent
  obtain ⟨pre, post, st, st', hdata, hoff, hheap, hpost, hrun⟩ := hcontent
  obtain ⟨_, _, st1, length, hlength, hjump, _⟩ := content_decoded hrun
  have hread : Reads 0 int32DecodeBinary (lengthBytes (wireOf data).length) _ := reads_int32 (wireOf data).length
  obtain ⟨v, st2, hlength2, hdata2, hv, hoff2, hheap2⟩ := hread pre (wireOf data ++ post) st
    (by rw [hdata]; simp only [List.append_assoc]) hoff (Nat.zero_le _) hheap
  obtain rfl : st1 = st2 := by
    rw [hlength] at hlength2
    simpa using congrArg (Option.map Prod.snd) hlength2
  refine ⟨pre ++ v, post, { st1 with heap := st1.heap.tail }, st', ?_, ?_, ?_, hpost, hjump⟩
  · change st1.data = _
    rw [hdata2]
    simp only [List.append_assoc]
  · change st1.offset = _
    rw [hoff2, List.length_append, hv]
  · change st1.heap.tail = []
    rw [hheap2]
    rfl

theorem Recovers.of_object {i : UInt32} {encoding : UInt8} {rest : List UInt8} {data : Val .extensionObject}
    (hw : wireOf data = (wire (nodeIdProg (numericId 0 i)) ++ [encoding]) ++ rest)
    (hnone : encoding = 1 → findDataType (numericId 0 (onWire i)) = none)
    (h : Recovers (objectVariantDecodeBinary jump) (wireOf data) (.scalarVariant .extensionObject data)) :
    Recovers (jump .extensionObject) (wireOf data) data := by
  obtain ⟨pre, post, st, st', hdata, hoff, hheap, hpost, hrun⟩ := h
  have hreads : Reads 0 headOf _ _ := reads_headOf i encoding
  obtain ⟨_, st1, hhead, -, -, -, hheap1⟩ := hreads pre (rest ++ post) st
    (by rw [hdata, hw]; simp only [List.append_assoc]) hoff (Nat.zero_le _) hheap
  have hkeep : st1.data = st.data := keeps_headOf _ _ _ hhead
  have hhead' : andThen nodeIdDecodeBinary (fun typeId => map (Prod.mk typeId) byteDecodeBinary) st =
      some (.ok (numericId 0 (onWire i), encoding), st1) := hhead
  have hfound : (if (numericId 0 (onWire i)).namespaceIndex = 0 ∧ encoding = 1
      then findDataType (numericId 0 (onWire i)) else none) = none := by
    split
    · rename_i h
      exact hnone h.2
    · rfl
  simp only [objectVariantDecodeBinary, hhead', hfound] at hrun
  obtain ⟨_, st2, hallocate, hrun⟩ := andThen_ok hrun
  obtain ⟨x, hx, heq⟩ := map_ok hrun
  obtain rfl : x = data := by simpa using heq
  rw [allocate_ok hallocate] at hx
  refine ⟨pre, post, { st1 with offset := st.offset, heap := st1.heap.tail }, st',
    hkeep.trans hdata, hoff, ?_, hpost, hx⟩
  change st1.heap.tail = []
  rw [hheap1]
  rfl

end Objects

section Arrays

variable {t : DataType} {item : DecM (Val t)}

theorem Recovers.of_array {n : Int} {vs : Vals t} (hcopy : zeroCopyable t = false)
    (h : Recovers (arrayDecodeBinary t item n) w (.items vs)) : Recovers (itemsDecodeBinary item n.toNat) w vs := by
  obtain ⟨pre, post, st, st', hdata, hoff, hheap, hpost, hrun⟩ := h
  rw [arrayDecodeBinary] at hrun
  split at hrun
  · rename_i hnull
    simp only [Option.some.injEq, Prod.mk.injEq, Except.ok.injEq] at hrun
    have hzero : n.toNat = 0 := by omega
    split at hrun
    · rw [hzero, ← Arr.items.inj hrun.1]
      exact ⟨pre, post, st, st, hdata, hoff, hheap, hpost, rfl⟩
    · simp at hrun
  split at hrun
  · simp at hrun
  split at hrun
  · simp at hrun
  obtain ⟨_, st1, hallocate, hrun⟩ := andThen_ok hrun
  rw [if_neg (by simp [hcopy])] at hrun
  obtain ⟨vs', hvs, heq⟩ := map_ok hrun
  obtain rfl := Arr.items.inj heq
  rw [allocate_ok hallocate] at hvs
  refine ⟨pre, post, { st with heap := st.heap.tail }, st', hdata, hoff, ?_, hpost, hvs⟩
  change st.heap.tail = []
  rw [hheap]
  rfl

theorem Recovers.of_items {n : Nat} {v : Val t} {vs : Vals t}
    (h : Recovers (itemsDecodeBinary item (n + 1)) (w ++ w') (.cons v vs)) :
    Recovers item w v ∧ (Reads slack item w v → Recovers (itemsDecodeBinary item n) w' vs) := by
  refine ⟨?_, fun hread => ?_⟩
  · obtain ⟨pre, post, st, st', hdata, hoff, hheap, hpost, hrun⟩ := h
    obtain ⟨v', st1, hv, hrest⟩ := andThen_ok hrun
    obtain ⟨vs', _, heq⟩ := map_ok hrest
    obtain ⟨rfl, _⟩ := Vals.cons.inj heq
    refine ⟨pre, w' ++ post, st, st1, by rw [hdata]; simp only [List.append_assoc], hoff, hheap, ?_, hv⟩
    rw [List.length_append]
    omega
  · obtain ⟨vs', hvs, heq⟩ := (h.of_andThen (hread.mono (Nat.le_add_left _ _))).of_map
    rwa [(Vals.cons.inj heq).2] at hvs

end Arrays

section Variants

variable {jump : (t : DataType) → DecM (Val t)}

theorem Recovers.of_variant {mask : UInt8} {i : Nat} {v : Val .variant} (hi : (mask &&& 0x3f).toNat = i + 1)
    (hle : i ≤ 24) (h : Recovers (variantDecodeBinary jump) (mask :: w) v) : Recovers (variantAt jump mask i) w v := by
  rw [variantDecodeBinary_eq] at h
  have hat := Recovers.of_andThen (w := [mask]) h (reads_byte mask)
  rwa [hi, if_neg (by omega), Nat.add_sub_cancel] at hat

theorem findDataType_zero : findDataType (numericId 0 0) = none := by decide +kernel

theorem unambiguous_of_recovers {n : Nat} {data : Val .extensionObject} (hdata : Decoded data)
    (h : Recovers (objectVariantDecodeBinary (decodeBinary n)) (wireOf data) (.scalarVariant .extensionObject data)) :
    Unambiguous data ∧ Recovers (decodeBinary n .extensionObject) (wireOf data) data := by
  cases data with
  | encoded typeId encoding body =>
      rw [Decoded] at hdata
      obtain ⟨⟨i, rfl⟩, _, _, hunknown⟩ := hdata
      refine ⟨trivial, h.of_object (wireOf_encoded _ _ _) (fun hone => ?_)⟩
      cases encoding with
      | byteString =>
          rw [onWire]
          split
          · exact findDataType_zero
          · exact hunknown rfl
      | _ => cases hone
  | decoded nodelete type content =>
      rw [Decoded] at hdata
      obtain ⟨rfl, hmem, _⟩ := hdata
      obtain ⟨i, hid, honWire, hwire⟩ := wireOf_decoded hmem false content
      have hplain : findDataType (binaryId type.typeId) = none := by
        by_contra hfind
        obtain ⟨pre, post, st, st', hst, hoff, hheap, _, hrun⟩ := h
        rw [wireOf, valProg_decoded hmem] at hst
        exact object_not_run hmem hfind hst hoff hheap hrun
      refine ⟨hplain, h.of_object hwire (fun _ => ?_)⟩
      rw [honWire, ← hid]
      exact hplain

theorem unambiguous_of_ne {t : DataType} (h : t ≠ .extensionObject) (v : Val t) : Unambiguous v := by
  cases v with
  | decoded nodelete type data => exact absurd rfl h
  | _ => trivial

theorem scalar_of_recovers {n : Nat} {type : DataType} {data : Val type} (hv : Decoded (.scalarVariant type data))
    (h : Recovers (variantDecodeBinary (decodeBinary n)) (wireOf (.scalarVariant type data))
    (.scalarVariant type data)) :
    wireType type.typeIndex = type ∧ Unambiguous data ∧
      (zeroCopyable type = false → Recovers (decodeBinary n type) (wireOf data) data) := by
  rw [Decoded] at hv
  obtain ⟨hmem, hdata⟩ := hv
  cases hb : type.builtin with
  | false =>
      obtain ⟨hi, harray, -⟩ := variantMask_structure hb false false
      rw [wireOf_scalarStructure hmem hb] at h
      have hat := h.of_variant hi (by decide)
      rw [variantAt, harray, if_neg (by decide), if_neg (by decide)] at hat
      obtain ⟨pre, post, st, st', hst, hoff, hheap, _, hrun⟩ := hat
      exact absurd hrun (structure_not_run hmem hb hst hoff hheap)
  | true =>
      obtain ⟨hi, harray, -⟩ := variantMask_builtin hb false false
      rw [wireOf_scalar hb] at h
      have hat := h.of_variant hi (typeIndex_le type)
      rw [variantAt, harray, if_neg (by decide)] at hat
      by_cases hobject : type = .extensionObject
      · subst hobject
        rw [if_neg (by decide)] at hat
        obtain ⟨hplain, hrecovers⟩ := unambiguous_of_recovers (hdata rfl) hat
        exact ⟨rfl, hplain, fun _ => hrecovers⟩
      · rw [if_pos (typeIndex_ne hobject)] at hat
        obtain ⟨a, harr, heq⟩ := hat.of_map
        generalize hT : wireType type.typeIndex = T at a harr heq
        cases a with
        | null => cases heq
        | items vs =>
            cases vs with
            | nil => cases heq
            | cons x vs =>
                simp only [scalarOf, Val.scalarVariant.injEq] at heq
                obtain ⟨rfl, hx⟩ := heq
                obtain rfl := eq_of_heq hx
                refine ⟨rfl, ?_, fun hcopy => ?_⟩
                · exact unambiguous_of_ne hobject x
                · have hitems : Recovers (itemsDecodeBinary (decodeBinary n _) (0 + 1))
                    (wireOf x ++ []) (.cons x vs) := by
                    rw [List.append_nil]
                    exact harr.of_array hcopy
                  exact hitems.of_items.1

theorem array_of_recovers {n : Nat} {type : DataType} {a : Arr type} {ds : List UInt32}
    (hv : Decoded (.arrayVariant type a ds))
    (h : Recovers (variantDecodeBinary (decodeBinary n)) (wireOf (.arrayVariant type a ds)) (.arrayVariant type a ds)) :
    Recovers (arrayDecodeBinary type (decodeBinary n type) (signedLength a)) (arrWire a) a := by
  rw [Decoded] at hv
  obtain ⟨⟨i, hi, rfl⟩, ha, _⟩ := hv
  obtain ⟨hb, hindex⟩ := wireType_spec hi
  obtain ⟨hmask, harray, hdims⟩ := variantMask_builtin hb true (decide (ds.length > 0))
  rw [hindex] at hmask
  rw [wireOf_array hb] at h
  have hat := h.of_variant hmask hi
  rw [variantAt, harray, if_pos rfl, hdims] at hat
  have hrest := hat.of_andThen (reads_decodedLength ha)
  cases hflag : (true && decide (ds.length > 0)) with
  | true =>
      rw [hflag, if_pos rfl] at hrest
      obtain ⟨pre, post, st, st', hdata, hoff, hheap, hpost, hrun⟩ := hrest
      obtain ⟨⟨a', m⟩, st1, hboth, hrun⟩ := andThen_ok hrun
      obtain ⟨st2, ha', _⟩ := both_ok hboth
      obtain ⟨ds', _, heq⟩ := map_ok hrun
      obtain rfl : a' = a := by
        simp only [Val.arrayVariant.injEq, heq_eq_eq, true_and] at heq
        exact heq.1
      refine ⟨pre, dimensionsWire ds ++ post, st, st2,
        by rw [hdata]; simp only [List.append_assoc], hoff, hheap, ?_, ha'⟩
      rw [List.length_append]
      omega
  | false =>
      rw [hflag, if_neg (by decide)] at hrest
      obtain ⟨a', ha', heq⟩ := hrest.of_map
      obtain rfl : a' = a := by
        simp only [Val.arrayVariant.injEq, heq_eq_eq, true_and] at heq
        exact heq.1
      obtain ⟨pre, post, st, st', hdata, hoff, hheap, hpost, hrun⟩ := ha'
      refine ⟨pre, dimensionsWire ds ++ post, st, st',
        by rw [hdata]; simp only [List.append_assoc], hoff, hheap, ?_, hrun⟩
      rw [List.length_append]
      omega

theorem value_of_recovers {variant : DecM (Val .variant)} {fields : DataValueFields} {value : Val .variant}
    (h : Recovers (dataValueDecodeBinary variant) (wireOf (.dataValue fields value)) (.dataValue fields value))
    (hflag : flagged fields.mask 0x01 = true) : Recovers variant (wireOf value) value := by
  obtain ⟨rest, hwire⟩ : ∃ rest, wireOf (.dataValue fields value) = [fields.mask] ++ (wireOf value ++ rest) := by
    rw [wireOf, valProg, dataValueProg, wire, wire, hflag]
    exact ⟨_, rfl⟩
  rw [hwire] at h
  obtain ⟨⟨value', others⟩, hboth, heq⟩ := (h.of_andThen (reads_byte fields.mask)).of_map
  obtain ⟨_, rfl⟩ := Val.dataValue.inj heq
  have hvalue := hboth.fst
  rwa [hflag] at hvalue

end Variants

mutual

/-- A decoded value that is recovered from its encoding is stable. Fuel is
taken large enough for the parts in front of the one looked at. -/
theorem stable_of_recovers : {t : DataType} → (v : Val t) → Decoded v →
    (∀ᶠ n in atTop, Recovers (decodeBinary (n + 1) t) (wireOf v) v) → Stable v
  | _, .simple (b := b) x, hv, h => by
      rw [Decoded] at hv
      obtain ⟨n, hn⟩ := h.exists
      rw [wireOf, valProg] at hn
      obtain ⟨x', hx, heq⟩ := hn.of_map
      rw [Val.simple.inj heq] at hx
      rw [Stable]
      exact stable_simple hv hx
  | _, .struct slots, hv, h => by
      rw [Decoded] at hv
      rw [Stable]
      refine stable_slots slots hv (h.mono (fun n hn => ?_))
      rw [wireOf, valProg] at hn
      obtain ⟨slots', hslots, heq⟩ := hn.of_map
      rwa [Val.struct.inj heq] at hslots
  | _, .encoded typeId encoding body, hv, h => by
      obtain ⟨n, hn⟩ := h.exists
      exact stable_encoded hv hn
  | _, .decoded nodelete type data, hv, h => by
      rw [Decoded] at hv
      obtain ⟨rfl, hmem, hdata, _⟩ := hv
      rw [Stable]
      refine stable_of_recovers data hdata ?_
      exact (eventually_succ (P := fun n => Recovers (decodeBinary n type) _ _)).mpr
        (h.mono (fun n hn => Recovers.of_decoded hmem hn))
  | _, .emptyVariant, hv, _ => by
      rw [Decoded] at hv
      exact hv.elim
  | _, .scalarVariant type data, hv, h => by
      have hparts := h.mono (fun n hn => scalar_of_recovers hv hn)
      obtain ⟨n, hn⟩ := hparts.exists
      rw [Decoded] at hv
      rw [Stable]
      refine ⟨hn.1, hn.2.1, fun hcopy => stable_of_recovers data (hv.2 hcopy) ?_⟩
      exact (eventually_succ (P := fun n => Recovers (decodeBinary n type) _ _)).mpr
        (hparts.mono (fun n hn => hn.2.2 hcopy))
  | _, .arrayVariant type a ds, hv, h => by
      have harr := h.mono (fun n hn => array_of_recovers hv hn)
      rw [Decoded] at hv
      rw [Stable]
      refine stable_arr a hv.2.1 ?_
      exact (eventually_succ (P := fun n => Recovers (arrayDecodeBinary type (decodeBinary n type) _) _ _)).mpr harr
  | _, .dataValue fields value, hv, h => by
      rw [Decoded] at hv
      rw [Stable]
      intro hflag
      exact stable_of_recovers value (hv.2.1 hflag) (h.mono (fun n hn => value_of_recovers hn hflag))

theorem stable_arr : {t : DataType} → (a : Arr t) → DecodedArr a →
    (∀ᶠ n in atTop, Recovers (arrayDecodeBinary t (decodeBinary (n + 1) t) (signedLength a)) (arrWire a) a) →
    StableArr a
  | _, .null, _, _ => by
      rw [StableArr]
      trivial
  | t, .items vs, ha, h => by
      rw [DecodedArr] at ha
      rw [StableArr]
      intro hcopy
      exact stable_vals vs (ha.2.2 hcopy) (h.mono (fun n hn => hn.of_array hcopy))

theorem stable_vals : {t : DataType} → (vs : Vals t) → DecodedVals vs →
    (∀ᶠ n in atTop, Recovers (itemsDecodeBinary (decodeBinary (n + 1) t) vs.length) (itemsWire vs) vs) →
    StableVals vs
  | _, .nil, _, _ => by
      rw [StableVals]
      trivial
  | _, .cons v vs, hvs, h => by
      rw [DecodedVals] at hvs
      rw [itemsWire_cons] at h
      have hv : Stable v := stable_of_recovers v hvs.1 (h.mono (fun n hn => hn.of_items.1))
      rw [StableVals]
      refine ⟨hv, stable_vals vs hvs.2 ?_⟩
      filter_upwards [h, reads_stable v hvs.1 hv] with n hn hread
      exact hn.of_items.2 hread

theorem stable_slots : {members : Members} → (slots : Slots members) → DecodedSlots slots →
    (∀ᶠ n in atTop, Recovers (membersDecodeBinary (n + 1) (decodeBinary n) members) (wire (slotsProg slots)) slots) →
    StableSlots slots
  | _, .nil, _, _ => by
      rw [StableSlots]
      trivial
  | .scalar t rest, .scalar v slots, hslots, h => by
      rw [DecodedSlots] at hslots
      rw [slotsProg] at h
      have hboth : ∀ᶠ n in atTop, Recovers (both (decodeBinary (n + 1) t)
        (membersDecodeBinary (n + 1) (decodeBinary n) rest))
          (wireOf v ++ wire (slotsProg slots)) (v, slots) := by
        refine h.mono (fun n hn => ?_)
        obtain ⟨⟨v', slots'⟩, hrun, heq⟩ := hn.of_map
        obtain ⟨rfl, rfl⟩ := Slots.scalar.inj heq
        exact hrun
      have hv : Stable v := stable_of_recovers v hslots.1 (hboth.mono (fun n hn => hn.fst))
      rw [StableSlots]
      refine ⟨hv, stable_slots slots hslots.2 ?_⟩
      filter_upwards [hboth, reads_stable v hslots.1 hv] with n hn hread
      exact hn.snd hread
  | .array t rest, .array a slots, hslots, h => by
      rw [DecodedSlots] at hslots
      rw [wire_arraySlot] at h
      have hboth : ∀ᶠ n in atTop, Recovers (both
        (andThen int32DecodeBinary (arrayDecodeBinary t (decodeBinary (n + 1) t)))
          (membersDecodeBinary (n + 1) (decodeBinary n) rest))
          ((arrayLengthBytes a ++ arrWire a) ++ wire (slotsProg slots)) (a, slots) := by
        refine h.mono (fun n hn => ?_)
        obtain ⟨⟨a', slots'⟩, hrun, heq⟩ := hn.of_map
        obtain ⟨rfl, rfl⟩ := Slots.array.inj heq
        exact hrun
      have ha : StableArr a := stable_arr a hslots.1
        (hboth.mono (fun n hn => hn.fst.of_andThen (reads_decodedLength hslots.1)))
      rw [StableSlots]
      refine ⟨ha, stable_slots slots hslots.2 ?_⟩
      filter_upwards [hboth, reads_stableArr a hslots.1 ha] with n hn hitems
      exact hn.snd (reads_arrayMember hslots.1 (le_refl _) hitems)

end

end OpcUa.Recoveries
