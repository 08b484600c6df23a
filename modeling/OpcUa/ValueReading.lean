import Mathlib.Order.Filter.AtTopBot.Basic
import OpcUa.LeafReading
import OpcUa.ValueDecoding
import OpcUa.EncoderRuns

namespace OpcUa.ValueReading

open Filter
open StatusCodes LittleEndian NodeIds DataTypes Values ValueEncoding Readers Decoding ValueDecoding ReadBack
  WritePrograms EncoderPrograms EncoderRuns LeafReading

variable {room : Nat}

theorem wire_seqAll (ps : List Prog) : wire (Prog.seqAll ps) = ps.flatMap wire := by
  induction ps with
  | nil => rfl
  | cons p ps ih => rw [Prog.seqAll, wire, ih, List.flatMap_cons]

theorem wire_stopAll (ps : List Prog) : wire (Prog.stopAll ps) = ps.flatMap wire := by
  induction ps with
  | nil => rfl
  | cons p ps ih => rw [Prog.stopAll, wire, ih, List.flatMap_cons]

def itemsWire {t : DataType} (vs : Vals t) : List UInt8 := (valsProgs vs).flatMap wire

theorem itemsWire_cons {t : DataType} (v : Val t) (vs : Vals t) :
    itemsWire (.cons v vs) = wireOf v ++ itemsWire vs := by
  rw [itemsWire, valsProgs, List.flatMap_cons]
  rfl

def Every {t : DataType} (P : Val t → Prop) : Vals t → Prop
  | .nil => True
  | .cons v vs => P v ∧ Every P vs

theorem Every.imp {t : DataType} {P Q : Val t → Prop} (h : ∀ v, P v → Q v) :
    {vs : Vals t} → Every P vs → Every Q vs
  | .nil, _ => trivial
  | .cons v _, hvs => ⟨h v hvs.1, hvs.2.imp h⟩

theorem reads_items {t : DataType} {item : DecM (Val t)} : (vs : Vals t) →
    Every (fun v => Reads room item (wireOf v) v) vs →
    Reads room (itemsDecodeBinary item vs.length) (itemsWire vs) vs
  | .nil, _ => by
      rw [itemsWire, valsProgs]
      exact reads_succeed Vals.nil
  | .cons v vs, h => by
      rw [itemsWire_cons]
      exact reads_andThen (h.1.mono (Nat.le_add_left _ _)) (reads_map (Vals.cons v) (reads_items vs h.2))

theorem simpleOfImage_simpleImage (b : Builtin) (x : b.Carrier) (rest : List UInt8)
    (h : b.zeroCopyable = true) : simpleOfImage b (simpleImage b x ++ rest) = x := by
  have h8 : ∀ x : UInt8, UInt8.ofNat (ofBytes (([x] ++ rest).take 1)) = x := by
    intro x
    simp [ofBytes]
  have h16 : ∀ x : UInt16, UInt16.ofNat (ofBytes ((toBytes 2 x.toNat ++ rest).take 2)) = x := by
    intro x
    have hlt : x.toNat < 256 ^ 2 := x.toNat_lt
    rw [List.take_left' (length_toBytes 2 _), ofBytes_toBytes, Nat.mod_eq_of_lt hlt,
      UInt16.ofNat_toNat]
  have h32 : ∀ x : UInt32, UInt32.ofNat (ofBytes ((toBytes 4 x.toNat ++ rest).take 4)) = x := by
    intro x
    have hlt : x.toNat < 256 ^ 4 := x.toNat_lt
    rw [List.take_left' (length_toBytes 4 _), ofBytes_toBytes, Nat.mod_eq_of_lt hlt,
      UInt32.ofNat_toNat]
  have h64 : ∀ x : UInt64, UInt64.ofNat (ofBytes ((toBytes 8 x.toNat ++ rest).take 8)) = x := by
    intro x
    have hlt : x.toNat < 256 ^ 8 := x.toNat_lt
    rw [List.take_left' (length_toBytes 8 _), ofBytes_toBytes, Nat.mod_eq_of_lt hlt,
      UInt64.ofNat_toNat]
  cases b with
  | boolean | sbyte | byte => exact h8 x
  | int16 | uint16 => exact h16 x
  | int32 | uint32 | float | statusCode => exact h32 x
  | int64 | uint64 | double | dateTime => exact h64 x
  | _ => cases h

mutual

theorem ofImage_image : {t : DataType} → (v : Val t) → flat t = true → (rest : List UInt8) →
    ofImage t (image v ++ rest) = v
  | _, .simple (b := b) x, h, rest => by
      rw [image, ofImage, simpleOfImage_simpleImage b x rest h]
  | _, .struct slots, h, rest => by
      simp only [flat, Bool.and_eq_true, beq_iff_eq] at h
      rw [image, ofImage, ofImageMembers_imageSlots slots h.1 rest]

theorem ofImageMembers_imageSlots : {members : Members} → (slots : Slots members) →
    flatMembers members = true → (rest : List UInt8) →
    ofImageMembers members (imageSlots slots ++ rest) = slots
  | _, .nil, _, _ => rfl
  | _, .scalar v slots, h, rest => by
      simp only [flatMembers, Bool.and_eq_true] at h
      rw [imageSlots, ofImageMembers, List.append_assoc, ofImage_image v h.1,
        List.drop_left' (length_image v h.1), ofImageMembers_imageSlots slots h.2]

end

theorem ofImages_imageVals {t : DataType} (h : flat t = true) :
    (vs : Vals t) → ofImages t vs.length (imageVals vs) = vs
  | .nil => rfl
  | .cons v vs => by
      rw [imageVals, Vals.length, ofImages, ofImage_image v h, List.drop_left' (length_image v h),
        ofImages_imageVals h vs]

theorem simpleImage_eq (b : Builtin) (x : b.Carrier) (h : b.zeroCopyable = true) :
    simpleImage b x = wire (simpleProg b x) := by
  cases b <;> first | rfl | cases h

mutual

theorem image_eq_wireOf : {t : DataType} → (v : Val t) → flat t = true → image v = wireOf v
  | _, .simple (b := b) x, h => by
      rw [image, wireOf, valProg]
      exact simpleImage_eq b x h
  | _, .struct slots, h => by
      simp only [flat, Bool.and_eq_true] at h
      rw [image, wireOf, valProg, imageSlots_eq_wire slots h.1]

theorem imageSlots_eq_wire : {members : Members} → (slots : Slots members) →
    flatMembers members = true → imageSlots slots = wire (slotsProg slots)
  | _, .nil, _ => by rw [imageSlots, slotsProg]; rfl
  | _, .scalar v slots, h => by
      simp only [flatMembers, Bool.and_eq_true] at h
      rw [imageSlots, slotsProg, image_eq_wireOf v h.1, imageSlots_eq_wire slots h.2]
      rfl

end

theorem imageVals_eq {t : DataType} (h : zeroCopyable t = true) :
    (vs : Vals t) → imageVals vs = itemsWire vs
  | .nil => by rw [imageVals, itemsWire, valsProgs]; rfl
  | .cons v vs => by
      rw [imageVals, itemsWire_cons, image_eq_wireOf v (flat_of_zeroCopyable h), imageVals_eq h vs]

theorem length_itemsWire {t : DataType} (h : zeroCopyable t = true) (vs : Vals t) :
    (itemsWire vs).length = t.memSize * vs.length := by
  rw [← imageVals_eq h, length_imageVals h]

theorem wire_arrayProg {t : DataType} (length : List UInt8) (vs : Vals t) :
    wire (arrayProg t length (imageVals vs) (valsProgs vs)) = length ++ itemsWire vs := by
  rw [arrayProg, wire]
  by_cases h : zeroCopyable t = true
  · rw [if_pos h, imageVals_eq h]
    rfl
  · rw [if_neg h, wire_stopAll]
    rfl

theorem reads_body {t : DataType} {item : DecM (Val t)} {vs : Vals t}
    (hitems : zeroCopyable t = false → Every (fun v => Reads room item (wireOf v) v) vs) :
    Reads room (if zeroCopyable t then
        map (fun bytes => Arr.items (ofImages t vs.length bytes)) (take (t.memSize * vs.length))
      else map Arr.items (itemsDecodeBinary item vs.length)) (itemsWire vs) (.items vs) := by
  by_cases h : zeroCopyable t = true
  · rw [if_pos h, ← imageVals_eq h, ← length_imageVals h vs]
    have hread : Reads room (map (fun bytes => Arr.items (ofImages t vs.length bytes)) _) _ _ :=
      reads_map _ (reads_take (imageVals vs))
    rwa [ofImages_imageVals (flat_of_zeroCopyable h)] at hread
  · rw [if_neg h]
    exact reads_map Arr.items (reads_items vs (hitems (by simpa using h)))

theorem reads_array {t : DataType} {item : DecM (Val t)} {vs : Vals t}
    (hsize : t.memSize * vs.length ≤ maxArraySize)
    (hroom : t.memSize * vs.length / 32 ≤ (itemsWire vs).length + room)
    (hitems : zeroCopyable t = false → Every (fun v => Reads room item (wireOf v) v) vs) :
    Reads room (arrayDecodeBinary t item vs.length) (itemsWire vs) (.items vs) := by
  intro pre post st hdata hoff hpost hheap
  by_cases hzero : vs.length = 0
  · match vs, hzero with
    | .nil, _ =>
        have hnil : itemsWire (.nil : Vals t) = [] := by
          rw [itemsWire, valsProgs]
          rfl
        rw [hnil] at hdata ⊢
        exact ⟨[], st, rfl, hdata, rfl, hoff, hheap⟩
  · have hfits : ¬ st.offset + t.memSize * vs.length / 32 > st.data.length := by
      rw [hdata, hoff]
      simp only [List.length_append]
      omega
    obtain ⟨v, st', hrun, hrest⟩ :=
      reads_allocated (reads_body hitems) pre post st hdata hoff hpost hheap
    refine ⟨v, st', ?_, hrest⟩
    rw [arrayDecodeBinary, if_neg (by omega), Int.toNat_natCast, if_neg (by omega), if_neg hfits, hrun]

theorem reads_nullArray {t : DataType} {item : DecM (Val t)} :
    Reads room (arrayDecodeBinary t item (-1)) [] .null := by
  intro pre post st hdata hoff _ hheap
  exact ⟨[], st, rfl, hdata, rfl, hoff, hheap⟩

/-- In buffers of at most `limit` bytes the value is encoded as `wireOf v`, and
enough fuel decodes it from there. -/
def RoundTrips (limit : Nat) {t : DataType} (v : Val t) : Prop :=
  Writes limit (encodeBinary v) (wireOf v) ∧
    ∀ᶠ fuel in atTop, Reads 0 (decodeBinary fuel t) (wireOf v) v

variable {limit : Nat}

theorem eventually_succ {P : Nat → Prop} : (∀ᶠ n in atTop, P (n + 1)) ↔ ∀ᶠ n in atTop, P n := by
  rw [← eventually_map (m := fun n => n + 1), map_add_atTop_eq_nat]

theorem roundTrips_iff {t : DataType} {v : Val t} : RoundTrips limit v ↔
    Writes limit (valProg v).run (wireOf v) ∧
      ∀ᶠ n in atTop, Reads 0 (decodeBinary (n + 1) t) (wireOf v) v := by
  rw [RoundTrips, encodeBinary_run, eventually_succ (P := fun n => Reads 0 (decodeBinary n t) _ v)]

end OpcUa.ValueReading
