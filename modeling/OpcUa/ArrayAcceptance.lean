import OpcUa.ElementPaths
import OpcUa.MinimalSizes
import OpcUa.ReadBack
import OpcUa.StableValues

namespace OpcUa.ArrayAcceptance

open Filter
open StatusCodes NodeIds DataTypes TypeTable Values Writers ValueEncoding Readers Decoding ValueDecoding
open ReadBack WritePrograms EncoderPrograms EncoderRuns LeafReading ValueReading SimpleRoundTrips StructureRoundTrips
open Variants VariantShapes VariantRoundTrips ElementPaths MinimalSizes

variable {limit : Nat} {t : DataType}

def anyArrayDecodeBinary (fuel : Nat) (t : DataType) : DecM (Arr t) :=
  andThen int32DecodeBinary (arrayDecodeBinary t (decodeBinary fuel t))

/-- The array is encoded, and decoded again from a message that ends `tail`
behind it. -/
def Accepted (a : Arr t) (st : Enc) (tail : List UInt8) : Prop :=
  ∃ st', copyArr a st = (good, st') ∧
    ∀ᶠ fuel in atTop, ∃ dst,
      anyArrayDecodeBinary fuel t ⟨st'.data.take st'.offset ++ tail, st.offset, [], []⟩ = some (.ok a, dst)

/-- A 1/32 of the array in memory is not more than what stands behind its
length field. -/
def Plausible (a : Arr t) (tail : List UInt8) : Prop :=
  t.memSize * a.length / 32 ≤ (arrWire a).length + tail.length

section Writing

theorem writes_stopAll {ps : List Prog} (h : ∀ p ∈ ps, Writes limit p.run (wire p)) :
    Writes limit (Prog.stopAll ps).run (ps.flatMap wire) := by
  induction ps with
  | nil => exact writes_skip
  | cons p ps ih =>
      rw [List.flatMap_cons, Prog.stopAll]
      exact writes_stop (h p List.mem_cons_self) (ih (fun q hq => h q (List.mem_cons_of_mem p hq)))

theorem writes_copyArr {a : Arr t} (h : EveryItem (RoundTrips limit) a) :
    Writes limit (copyArr a) (arrayLengthBytes a ++ arrWire a) := by
  cases a with
  | null =>
      have hrun : arrayEncodeBinary t true 0 [] ([].map Prog.run) = _ :=
        array_run t true [] (fun _ => rfl) (fun _ => rfl)
      rw [copyArr, ← List.map_nil (f := Prog.run), hrun]
      refine writes_stop (writes_emit nullLengthBytes) ?_
      split
      · exact writes_emit []
      · exact writes_skip
  | items vs =>
      rw [copyArr, encodeVals_run, array_run t false (valsProgs vs) (fun hzero => length_imageVals hzero vs) (by simp)]
      exact writes_array _ (writes_stopAll (writes_of_every h))

end Writing

section Sizes

theorem minSize_le {v : Val t} (h : RoundTrips limit v) : minSize t ≤ (wireOf v).length := by
  obtain ⟨fuel, hfuel⟩ := h.2.exists
  obtain ⟨st', hrun, hoff⟩ := hfuel.run []
  have hspent := spends_decodeBinary fuel t _ _ _ hrun
  simpa [hoff] using hspent

theorem length_itemsWire_ge : {vs : Vals t} → Every (RoundTrips limit) vs →
    vs.length * minSize t ≤ (itemsWire vs).length
  | .nil, _ => by simp [Vals.length]
  | .cons v vs, h => by
      have hfirst := minSize_le h.1
      have hrest := length_itemsWire_ge h.2
      rw [Vals.length, itemsWire_cons, List.length_append, Nat.succ_mul]
      omega

theorem plausible_of_not_sparse (hmem : t ∈ uaTypes) (hs : sparse t = false) {a : Arr t}
    (h : EveryItem (RoundTrips limit) a) (tail : List UInt8) : Plausible a tail := by
  cases a with
  | null => simp [Plausible, Arr.length]
  | items vs =>
      have hsize := memSize_le_minSize hmem hs
      have hwire := length_itemsWire_ge h
      have hmul : t.memSize * vs.length ≤ 32 * (vs.length * minSize t) := by
        calc t.memSize * vs.length ≤ 32 * minSize t * vs.length := Nat.mul_le_mul_right _ hsize
          _ = 32 * (vs.length * minSize t) := by rw [Nat.mul_assoc, Nat.mul_comm (minSize t)]
      have hdiv : t.memSize * vs.length / 32 ≤ (itemsWire vs).length := by omega
      exact hdiv.trans (Nat.le_add_right _ _)

theorem length_lt {a : Arr t} (hmem : t ∈ uaTypes) (hsize : t.memSize * a.length ≤ maxArraySize) :
    a.length < 2147483648 := by
  have hpos := memSize_pos hmem
  have hle : a.length ≤ t.memSize * a.length := Nat.le_mul_of_pos_left _ hpos
  have hmax : maxArraySize = 104857600 := rfl
  omega

end Sizes

section Reading

theorem reads_anyArray {a : Arr t} {room fuel : Nat} (hlength : a.length < 2147483648)
    (hsize : t.memSize * a.length ≤ maxArraySize) (hroom : t.memSize * a.length / 32 ≤ (arrWire a).length + room)
    (h : EveryItem (fun v => Reads 0 (decodeBinary fuel t) (wireOf v) v) a) :
    Reads room (anyArrayDecodeBinary fuel t) (arrayLengthBytes a ++ arrWire a) a := by
  cases a with
  | null => exact reads_andThen reads_nullLength reads_nullArray
  | items vs =>
      exact reads_andThen (reads_length hlength)
        (reads_array hsize hroom (fun _ => h.imp (fun v hv => hv.mono (Nat.zero_le _))))

theorem eventually_items {a : Arr t} (h : EveryItem (RoundTrips limit) a) :
    ∀ᶠ fuel in atTop, EveryItem (fun v => Reads 0 (decodeBinary fuel t) (wireOf v) v) a := by
  cases a with
  | null => exact Eventually.of_forall (fun _ => trivial)
  | items vs => exact eventually_every vs h

/-- An array that is too large for the rest of the message is refused before
its first element. -/
theorem anyArray_refused {a : Arr t} {pre tail : List UInt8} (hmem : t ∈ uaTypes)
    (hsize : t.memSize * a.length ≤ maxArraySize) (h : ¬ Plausible a tail) (fuel : Nat) {dst : Dec} :
    anyArrayDecodeBinary fuel t ⟨pre ++ (arrayLengthBytes a ++ arrWire a) ++ tail, pre.length, [], []⟩ ≠
      some (.ok a, dst) := by
  intro hrun
  cases a with
  | null => simp [Plausible, Arr.length] at h
  | items vs =>
      have hlt : vs.length < 2147483648 := length_lt hmem hsize
      have hread : Reads ((itemsWire vs).length + tail.length) int32DecodeBinary (lengthBytes vs.length) vs.length :=
        reads_length hlt
      obtain ⟨w, st1, hlength, hdata, hw, hoff, hheap⟩ := hread pre (itemsWire vs ++ tail)
        ⟨pre ++ (lengthBytes vs.length ++ itemsWire vs) ++ tail, pre.length, [], []⟩
        (by simp only [List.append_assoc]) rfl (by rw [List.length_append]) rfl
      obtain ⟨length, st1', hlength', harray⟩ := andThen_ok hrun
      obtain ⟨rfl, rfl⟩ : (vs.length : Int) = length ∧ st1 = st1' := by
        have heq := hlength.symm.trans hlength'
        simpa using heq
      have hpos : 0 < vs.length := by
        by_contra hzero
        refine h ?_
        rw [Plausible, Arr.length, Nat.eq_zero_of_not_pos hzero, Nat.mul_zero, Nat.zero_div]
        exact Nat.zero_le _
      have hshort : st1.offset + t.memSize * vs.length / 32 > st1.data.length := by
        have hmore : (itemsWire vs).length + tail.length < t.memSize * vs.length / 32 := Nat.not_le.mp h
        rw [hdata, hoff]
        simp only [List.length_append, hw]
        omega
      have hmax : ¬ t.memSize * vs.length > maxArraySize := Nat.not_lt.mpr hsize
      rw [arrayDecodeBinary, if_neg (by omega), Int.toNat_natCast, if_neg hmax, if_pos hshort] at harray
      simp at harray

end Reading

/-- An array that has been written is accepted exactly if it passes the check
against the size of the message, which only fails for DataValues and
DiagnosticInfos. -/
theorem array_accepted_iff (hmem : t ∈ uaTypes) {a : Arr t} (hsize : t.memSize * a.length ≤ maxArraySize)
    (hitems : EveryItem (RoundTrips limit) a) {st : Enc} (hlimit : st.data.length ≤ limit)
    (hroom : st.offset + (4 + (arrWire a).length) ≤ st.data.length) (tail : List UInt8) :
    Accepted a st tail ↔ sparse t = false ∨ Plausible a tail := by
  have hlength : (arrayLengthBytes a ++ arrWire a).length = 4 + (arrWire a).length := by
    rw [List.length_append, length_arrayLengthBytes]
  obtain ⟨pre, mid, post, hdata, hpre, hmid⟩ := split_at hroom
  obtain ⟨st1, hencode, hdata1, hoff1⟩ := writes_copyArr hitems pre mid post st hdata hpre.symm
    (hmid.trans hlength.symm) hlimit
  have hmessage : st1.data.take st1.offset = pre ++ (arrayLengthBytes a ++ arrWire a) := by
    rw [hdata1, hoff1, ← List.length_append, List.take_left]
  constructor
  · rintro ⟨st', hencode', hdecode⟩
    obtain rfl : st1 = st' := congrArg Prod.snd (hencode.symm.trans hencode')
    obtain ⟨fuel, dst, hrun⟩ := hdecode.exists
    rw [hmessage, ← hpre] at hrun
    by_contra hnot
    exact anyArray_refused hmem hsize (fun h => hnot (Or.inr h)) fuel hrun
  · intro h
    have hplausible : Plausible a tail := by
      rcases h with hs | hp
      · exact plausible_of_not_sparse hmem hs hitems tail
      · exact hp
    refine ⟨st1, hencode, ?_⟩
    filter_upwards [eventually_items hitems] with fuel hfuel
    obtain ⟨_, dst, hrun, _⟩ := reads_anyArray (length_lt hmem hsize) hsize hplausible hfuel pre tail
      ⟨st1.data.take st1.offset ++ tail, st.offset, [], []⟩ (by rw [hmessage]) hpre.symm (Nat.le_refl _) rfl
    exact ⟨dst, hrun⟩

def emptyDataValue : Arr .dataValue := .items (.cons (.dataValue ⟨0, 0, 0, 0, 0, 0⟩ .emptyVariant) .nil)

theorem emptyDataValue_roundTrips : EveryItem (RoundTrips 16) emptyDataValue := by
  refine ⟨roundTrips_iff.mpr ⟨?_, ?_⟩, trivial⟩
  · rw [wireOf]
    refine run_writes _ ?_ (Or.inl (by decide))
    simp only [valProg, dataValueProg, flagged]
    exact ⟨trivial, trivial, trivial, trivial, trivial, trivial, trivial⟩
  · refine Eventually.of_forall (fun n => ?_)
    refine StableValues.reads_dataValue ?_ (fun h => absurd h (by decide)) (fun _ => rfl)
    unfold DecodedValues.DecodedFields
    decide

theorem dataValue_mem : DataType.dataValue ∈ uaTypes := DecodedValues.wireType_mem (by decide : 22 ≤ 24)

theorem emptyDataValue_room : (1 + (4 + (arrWire emptyDataValue).length) ≤ 8) ∧
    Plausible emptyDataValue [0, 0] ∧ ¬ Plausible emptyDataValue [0] := by
  unfold Plausible
  decide

/-- With two bytes behind it the array passes the check. -/
theorem array_accepted_emptyDataValue :
    EveryItem (RoundTrips 16) emptyDataValue ∧ Accepted emptyDataValue ⟨List.replicate 8 0, 1, []⟩ [0, 0] :=
  ⟨emptyDataValue_roundTrips, (array_accepted_iff dataValue_mem (by decide) emptyDataValue_roundTrips (by decide)
    emptyDataValue_room.1 [0, 0]).mpr (Or.inr emptyDataValue_room.2.1)⟩

/-- As the last thing in the message it is refused. -/
theorem last_emptyDataValue_refused :
    EveryItem (RoundTrips 16) emptyDataValue ∧ DataType.dataValue.memSize * emptyDataValue.length ≤ maxArraySize ∧
      ¬ Accepted emptyDataValue ⟨[0, 0, 0, 0, 0], 0, []⟩ [] := by
  refine ⟨emptyDataValue_roundTrips, by decide, ?_⟩
  rintro ⟨st', hencode, hdecode⟩
  obtain ⟨fuel, dst, hrun⟩ := hdecode.exists
  have hwritten : copyArr emptyDataValue ⟨[0, 0, 0, 0, 0], 0, []⟩ = (good, ⟨[1, 0, 0, 0, 0], 5, [(4, 1), (0, 4)]⟩) := by
    decide
  have hrefused : (anyArrayDecodeBinary fuel .dataValue ⟨[1, 0, 0, 0, 0], 0, [], []⟩).map Prod.fst =
      some (.error badDecodingError) := rfl
  obtain rfl : _ = st' := congrArg Prod.snd (hwritten.symm.trans hencode)
  change anyArrayDecodeBinary fuel .dataValue ⟨[1, 0, 0, 0, 0], 0, [], []⟩ = _ at hrun
  rw [hrun] at hrefused
  cases hrefused

end OpcUa.ArrayAcceptance
