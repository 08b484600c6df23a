import OpcUa.Variants

namespace OpcUa.VariantShapes

open Filter
open StatusCodes LittleEndian NodeIds DataTypes TypeTable Values Writers ValueEncoding Readers Decoding ValueDecoding
  ReadBack WritePrograms EncoderPrograms EncoderRuns LeafReading NodeIdRoundTrips ValueReading SimpleRoundTrips
  ExtensionObjects Variants

variable {room limit : Nat}

/-- An enumeration may come back as `Int32`. -/
inductive SameType : DataType → DataType → Prop
  | same (t : DataType) : SameType t t
  | enumeration (id : NodeId) : SameType (.simple id .int32) int32

inductive SameValue : {t t' : DataType} → Val t → Val t' → Prop
  | same {t : DataType} (v : Val t) : SameValue v v
  | enumeration {id : NodeId} (x : UInt32) :
      SameValue (.simple x : Val (.simple id .int32)) (.simple x : Val int32)

def Pointwise {t t' : DataType} (R : Val t → Val t' → Prop) : Vals t → Vals t' → Prop
  | .nil, .nil => True
  | .cons v vs, .cons v' vs' => R v v' ∧ Pointwise R vs vs'
  | _, _ => False

def SameArray {t t' : DataType} (R : Val t → Val t' → Prop) : Arr t → Arr t' → Prop
  | .null, .null => True
  | .items vs, .items vs' => Pointwise R vs vs'
  | _, _ => False

/-- The variants that hold the same value. An array of structures may come
back as an array of ExtensionObjects with decoded content. -/
inductive SameVariant : Val .variant → Val .variant → Prop
  | scalar {t t' : DataType} {v : Val t} {v' : Val t'} (h : SameValue v v') :
      SameVariant (.scalarVariant t v) (.scalarVariant t' v')
  | array {t t' : DataType} {a : Arr t} {a' : Arr t'} (ds : List UInt32) (ht : SameType t t')
      (h : SameArray SameValue a a') : SameVariant (.arrayVariant t a ds) (.arrayVariant t' a' ds)
  | objects {t : DataType} {a : Arr t} {a' : Arr .extensionObject} (ds : List UInt32)
      (ht : t.builtin = false) (h : SameArray (fun v v' => v' = .decoded false t v) a a') :
      SameVariant (.arrayVariant t a ds) (.arrayVariant .extensionObject a' ds)

theorem pointwise_same {t : DataType} : (vs : Vals t) → Pointwise SameValue vs vs
  | .nil => trivial
  | .cons v vs => ⟨.same v, pointwise_same vs⟩

def toInt32s {id : NodeId} : Vals (.simple id .int32) → Vals int32
  | .nil => .nil
  | .cons (.simple x) vs => .cons (.simple x) (toInt32s vs)

theorem toInt32s_spec {id : NodeId} : (vs : Vals (.simple id .int32)) →
    Pointwise SameValue vs (toInt32s vs) ∧ itemsWire (toInt32s vs) = itemsWire vs ∧
      (toInt32s vs).length = vs.length ∧ Every (RoundTrips limit) (toInt32s vs)
  | .nil => by
      rw [toInt32s, itemsWire, itemsWire, valsProgs, valsProgs]
      exact ⟨trivial, rfl, rfl, trivial⟩
  | .cons (.simple x) vs => by
      obtain ⟨hsame, hwire, hlen, hround⟩ := toInt32s_spec vs
      rw [toInt32s, itemsWire_cons, itemsWire_cons, hwire, Vals.length, Vals.length, hlen]
      refine ⟨⟨.enumeration x, hsame⟩, ?_, rfl, simple_roundTrips trivial (Or.inr (by decide)), hround⟩
      rw [wireOf, wireOf, valProg]
      rfl

theorem exists_retyped {t : DataType} (hmem : t ∈ uaTypes) (hb : t.builtin = true) (vs : Vals t)
    (h : Every (RoundTrips limit) vs) :
    ∃ vs' : Vals (wireType t.typeIndex), Pointwise SameValue vs vs' ∧ itemsWire vs' = itemsWire vs ∧
      vs'.length = vs.length ∧ Every (RoundTrips limit) vs' := by
  rcases wireType_builtin hmem hb with heq | ⟨id, rfl⟩
  · rw [heq]
    exact ⟨vs, pointwise_same vs, rfl, rfl, h⟩
  · exact ⟨toInt32s vs, toInt32s_spec vs⟩

theorem sameType_wireType {t : DataType} (hmem : t ∈ uaTypes) (hb : t.builtin = true) :
    SameType t (wireType t.typeIndex) ∧ (wireType t.typeIndex).memSize = t.memSize := by
  rcases wireType_builtin hmem hb with heq | ⟨id, rfl⟩
  · rw [heq]
    exact ⟨.same t, rfl⟩
  · exact ⟨.enumeration id, rfl⟩

theorem eventually_every {t : DataType} : (vs : Vals t) → Every (RoundTrips limit) vs →
    ∀ᶠ n in atTop, Every (fun v => Reads 0 (decodeBinary n t) (wireOf v) v) vs
  | .nil, _ => Eventually.of_forall (fun _ => trivial)
  | .cons _ vs, h => h.1.2.and (eventually_every vs h.2)

section Wire

variable {t : DataType}

theorem wireOf_scalar (hb : t.builtin = true) (data : Val t) :
    wireOf (.scalarVariant t data) = variantMask t false false :: wireOf data := by
  rw [wireOf, valProg, variantProg, hb]
  change [variantMask t false false] ++ ([] ++ ((wire (valProg data) ++ []) ++ [])) = _
  simp [wireOf]

theorem wireOf_scalarStructure (hmem : t ∈ uaTypes) (hb : t.builtin = false) (data : Val t) :
    wireOf (.scalarVariant t data) =
      variantMask t false false :: wire (wrapProg t.typeId (valProg data)) := by
  rw [wireOf, valProg, variantProg, hb, typeId_isNumeric hmem]
  change [variantMask t false false] ++ ([] ++ ((wire (wrapProg t.typeId (valProg data)) ++ []) ++ [])) = _
  simp

theorem flatMap_arrProgs (a : Arr t) : (arrProgs a).flatMap wire = arrWire a := by
  cases a with
  | null => rw [arrProgs]; rfl
  | items vs => rw [arrProgs]; rfl

theorem wireOf_array (hb : t.builtin = true) (a : Arr t) (ds : List UInt32) :
    wireOf (.arrayVariant t a ds) = variantMask t true (decide (ds.length > 0)) ::
      (arrayLengthBytes a ++ (arrWire a ++ dimensionsWire ds)) := by
  rw [wireOf, valProg, variantProg, hb]
  change [variantMask t true (decide (ds.length > 0))] ++ (arrayLengthBytes a ++
    (wire (Prog.seqAll (arrProgs a)) ++ wire (Prog.optionally (decide (ds.length > 0)) (dimensionsProg ds)))) = _
  rw [wire_seqAll, flatMap_arrProgs, wire_optionally, dimensionsWire]
  simp

/-- Every element of an array of structures is an ExtensionObject. -/
def objectsWire : Arr t → List UInt8
  | .null => []
  | .items vs => ((valsProgs vs).map (wrapProg t.typeId)).flatMap wire

theorem wireOf_arrayStructure (hmem : t ∈ uaTypes) (hb : t.builtin = false) (a : Arr t)
    (ds : List UInt32) :
    wireOf (.arrayVariant t a ds) = variantMask t true (decide (ds.length > 0)) ::
      (arrayLengthBytes a ++ (objectsWire a ++ dimensionsWire ds)) := by
  have hobjects : ((arrProgs a).map (wrapProg t.typeId)).flatMap wire = objectsWire a := by
    cases a with
    | null => rw [arrProgs]; rfl
    | items vs => rw [arrProgs]; rfl
  rw [wireOf, valProg, variantProg, hb, typeId_isNumeric hmem]
  change [variantMask t true (decide (ds.length > 0))] ++ (arrayLengthBytes a ++
    (wire (Prog.seqAll ((arrProgs a).map (wrapProg t.typeId))) ++
      wire (Prog.optionally (decide (ds.length > 0)) (dimensionsProg ds)))) = _
  rw [wire_seqAll, hobjects, wire_optionally, dimensionsWire]
  simp

end Wire

section Encoder

theorem writes_seqAll {ps : List Prog} (h : ∀ p ∈ ps, Writes limit p.run (wire p)) :
    Writes limit (Prog.seqAll ps).run (wire (Prog.seqAll ps)) := by
  induction ps with
  | nil => exact writes_skip
  | cons p ps ih =>
      exact writes_orThen (h p (by simp)) (ih (fun q hq => h q (by simp [hq])))

theorem writes_dimensions (b : Bool) (ds : List UInt32) :
    Writes limit (Prog.optionally b (dimensionsProg ds)).run (wire (Prog.optionally b (dimensionsProg ds))) := by
  cases b with
  | false => exact writes_skip
  | true => exact writes_stop (writes_emit _) (writes_emit _)

theorem writes_variant {t : DataType} (hmem : t ∈ uaTypes) (length : Option (List UInt8))
    {items : List Prog} (ds : List UInt32) (h : ∀ p ∈ items, Writes limit p.run (wire p)) :
    Writes limit (variantProg t length items ds).run (wire (variantProg t length items ds)) := by
  simp only [variantProg, typeId_isNumeric hmem, Bool.not_true, Bool.and_false, Bool.false_eq_true,
    if_false]
  refine writes_orThen (writes_emit _) (writes_orThen ?_ (writes_orThen (writes_seqAll ?_)
    (writes_dimensions _ ds)))
  · cases length with
    | none => exact writes_skip
    | some bytes => exact writes_emit bytes
  · cases t.builtin with
    | true => exact h
    | false =>
        intro p hp
        obtain ⟨q, hq, rfl⟩ := List.mem_map.mp hp
        exact writes_wrapProg (h q hq)

theorem writes_of_every {t : DataType} : {vs : Vals t} → Every (RoundTrips limit) vs →
    ∀ p ∈ valsProgs vs, Writes limit p.run (wire p)
  | .nil, _, p, hp => by
      rw [valsProgs] at hp
      simp at hp
  | .cons v vs, h, p, hp => by
      rw [valsProgs] at hp
      rcases List.mem_cons.mp hp with rfl | hp
      · exact (roundTrips_iff.mp h.1).1
      · exact writes_of_every h.2 p hp

end Encoder

end OpcUa.VariantShapes
