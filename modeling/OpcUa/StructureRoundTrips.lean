import OpcUa.SimpleRoundTrips

namespace OpcUa.StructureRoundTrips

open Filter
open LittleEndian NodeIds DataTypes Values Writers ValueEncoding Readers ValueDecoding ReadBack WritePrograms
  EncoderPrograms EncoderRuns LeafReading ValueReading NodeIdRoundTrips SimpleRoundTrips

mutual

/-- The parts of a structure that are not structures themselves round-trip,
and its arrays keep to the limits of the decoder. -/
def Composed (limit : Nat) : {t : DataType} → Val t → Prop
  | _, .struct slots => ComposedSlots limit slots
  | _, v => RoundTrips limit v

def ComposedSlots (limit : Nat) : {members : Members} → Slots members → Prop
  | _, .nil => True
  | _, .scalar v slots => Composed limit v ∧ ComposedSlots limit slots
  | _, .array (.null) slots => ComposedSlots limit slots
  | _, .array (t := t) (.items vs) slots =>
      (vs.length ≤ 2147483647 ∧ t.memSize * vs.length ≤ maxArraySize ∧ ComposedVals limit vs) ∧
        ComposedSlots limit slots

def ComposedVals (limit : Nat) : {t : DataType} → Vals t → Prop
  | _, .nil => True
  | t, .cons v vs =>
      ((t.memSize + 31) / 32 ≤ (wireOf v).length ∧ Composed limit v) ∧ ComposedVals limit vs

end

variable {limit : Nat}

theorem itemsWire_length {t : DataType} : (vs : Vals t) → ComposedVals limit vs →
    (t.memSize + 31) / 32 * vs.length ≤ (itemsWire vs).length
  | .nil, _ => by simp [Vals.length]
  | .cons v vs, h => by
      rw [ComposedVals] at h
      have ih := itemsWire_length vs h.2
      rw [itemsWire_cons, List.length_append, Vals.length, Nat.mul_add, Nat.mul_one]
      have hv := h.1.1
      omega

theorem size_le_itemsWire {t : DataType} {vs : Vals t} (h : ComposedVals limit vs) :
    t.memSize * vs.length / 32 ≤ (itemsWire vs).length := by
  refine le_trans ?_ (itemsWire_length vs h)
  have hceil : t.memSize ≤ 32 * ((t.memSize + 31) / 32) := by omega
  rw [Nat.div_le_iff_le_mul_add_pred (by decide), ← Nat.mul_assoc]
  exact le_trans (Nat.mul_le_mul_right _ hceil) (Nat.le_add_right _ _)

theorem writes_array {t : DataType} {vs : Vals t} (length : List UInt8)
    (h : Writes limit (Prog.stopAll (valsProgs vs)).run (itemsWire vs)) :
    Writes limit (arrayProg t length (imageVals vs) (valsProgs vs)).run (length ++ itemsWire vs) := by
  rw [arrayProg]
  refine writes_stop (writes_emit length) ?_
  by_cases hzero : zeroCopyable t = true
  · rw [if_pos hzero, ← imageVals_eq hzero]
    exact writes_emit (imageVals vs)
  · rw [if_neg hzero]
    exact h

mutual

theorem roundTrips_of_composed : {t : DataType} → (v : Val t) → Composed limit v → RoundTrips limit v
  | _, .struct slots, h => by
      rw [Composed] at h
      obtain ⟨hwrites, hreads⟩ := slots_roundTrip slots h
      rw [roundTrips_iff, wireOf, valProg]
      exact ⟨hwrites, hreads.mono (fun n hn => reads_map Val.struct hn)⟩
  | _, .simple x, h => by rwa [Composed] at h; simp
  | _, .encoded typeId encoding body, h => by rwa [Composed] at h; simp
  | _, .decoded nodelete type data, h => by rwa [Composed] at h; simp
  | _, .emptyVariant, h => by rwa [Composed] at h; simp
  | _, .scalarVariant type data, h => by rwa [Composed] at h; simp
  | _, .arrayVariant type data dimensions, h => by rwa [Composed] at h; simp
  | _, .dataValue fields value, h => by rwa [Composed] at h; simp

theorem slots_roundTrip : {members : Members} → (slots : Slots members) → ComposedSlots limit slots →
    Writes limit (slotsProg slots).run (wire (slotsProg slots)) ∧
      ∀ᶠ n in atTop, Reads 0 (membersDecodeBinary (n + 1) (decodeBinary n) members)
        (wire (slotsProg slots)) slots
  | _, .nil, _ => by
      rw [slotsProg]
      exact ⟨writes_skip, Eventually.of_forall (fun n => reads_succeed Slots.nil)⟩
  | _, .scalar v slots, h => by
      rw [ComposedSlots] at h
      obtain ⟨hv, hvr⟩ := roundTrips_iff.mp (roundTrips_of_composed v h.1)
      obtain ⟨hs, hsr⟩ := slots_roundTrip slots h.2
      rw [slotsProg]
      refine ⟨writes_orThen hv hs, ?_⟩
      filter_upwards [hvr, hsr] with n hv hs
      exact reads_map (fun p => Slots.scalar p.1 p.2) (reads_both (hv.mono (Nat.zero_le _)) hs)
  | _, .array (t := t) (.null) slots, h => by
      rw [ComposedSlots] at h
      obtain ⟨hs, hsr⟩ := slots_roundTrip slots h
      have hwire : wire (arrayProg t nullLengthBytes [] []) = nullLengthBytes ++ [] := by
        have hw := wire_arrayProg (t := t) nullLengthBytes .nil
        rw [imageVals, valsProgs] at hw
        rw [hw, itemsWire, valsProgs]
        rfl
      rw [slotsProg, wire, hwire]
      refine ⟨writes_orThen ?_ hs, ?_⟩
      · refine writes_stop (writes_emit nullLengthBytes) ?_
        split
        · exact writes_emit []
        · exact writes_skip
      · filter_upwards [hsr] with n hs
        exact reads_map (fun p => Slots.array p.1 p.2)
          (reads_both (reads_andThen reads_nullLength reads_nullArray) hs)
  | _, .array (t := t) (.items vs) slots, h => by
      rw [ComposedSlots] at h
      obtain ⟨⟨hlen, hsize, hvs⟩, hslots⟩ := h
      obtain ⟨hs, hsr⟩ := slots_roundTrip slots hslots
      obtain ⟨hw, hr⟩ := vals_roundTrip vs hvs
      rw [slotsProg, wire, wire_arrayProg]
      refine ⟨writes_orThen (writes_array _ hw) hs, ?_⟩
      filter_upwards [hr, hsr] with n hitems hs
      refine reads_map (fun p => Slots.array p.1 p.2) (reads_both (reads_andThen
        (reads_length (by omega)) (reads_array hsize ?_
          (fun _ => hitems.imp (fun v hv => hv.mono (Nat.zero_le _))))) hs)
      exact (size_le_itemsWire hvs).trans (Nat.le_add_right _ _)

theorem vals_roundTrip : {t : DataType} → (vs : Vals t) → ComposedVals limit vs →
    Writes limit (Prog.stopAll (valsProgs vs)).run (itemsWire vs) ∧
      ∀ᶠ n in atTop, Every (fun v => Reads 0 (decodeBinary (n + 1) t) (wireOf v) v) vs
  | _, .nil, _ => by
      rw [itemsWire, valsProgs]
      exact ⟨writes_skip, Eventually.of_forall (fun n => trivial)⟩
  | _, .cons v vs, h => by
      rw [ComposedVals] at h
      obtain ⟨hv, hvr⟩ := roundTrips_iff.mp (roundTrips_of_composed v h.1.2)
      obtain ⟨hs, hsr⟩ := vals_roundTrip vs h.2
      rw [itemsWire_cons, valsProgs]
      exact ⟨writes_stop hv hs, hvr.and hsr⟩

end

/-- A structure round-trips, as a member of another one and by itself. -/
theorem structure_roundTrips {info : StructInfo} {members : Members} (slots : Slots members)
    (h : ComposedSlots limit slots) :
    RoundTrips limit (.struct slots : Val (.structure info members)) ∧
      ∃ w, Writes limit (uaEncodeBinary (.struct slots : Val (.structure info members))) w ∧
        ∀ᶠ fuel in atTop, Reads 0 (uaDecodeBinary fuel (.structure info members)) w (.struct slots) := by
  have hround : RoundTrips limit (.struct slots : Val (.structure info members)) := by
    refine roundTrips_of_composed _ ?_
    rwa [Composed]
  exact ⟨hround, wireOf (.struct slots : Val (.structure info members)), hround.1, hround.2⟩

/-- A path of one step to the name `1:Pump`. -/
def samplePath : Slots (.scalar TypeTable.nodeId (.scalar TypeTable.relativePath .nil)) :=
  .scalar (.simple (numericId 0 85)) <| .scalar
    (.struct (.array (.items (.cons
      (.struct (.scalar (.simple (numericId 0 33)) <| .scalar (.simple 0) <| .scalar (.simple 1) <|
        .scalar (.struct (.scalar (.simple 1) (.scalar (.simple (some [80, 117, 109, 112])) .nil))) .nil))
      .nil)) .nil)) .nil

theorem samplePath_composed : ComposedSlots 1000 samplePath := by
  have hsimple : ∀ {typeId : NodeId} (b : Builtin) (x : b.Carrier), InRange b x →
      RoundTrips 1000 (.simple x : Val (.simple typeId b)) := by
    intro typeId b x hx
    exact simple_roundTrips hx (Or.inl (by decide))
  simp only [samplePath, ComposedSlots, Composed, ComposedVals, and_true]
  refine ⟨hsimple .nodeId _ ?_, ⟨by decide, by decide, by decide, hsimple .nodeId _ ?_,
    hsimple .boolean _ ?_, hsimple .boolean _ ?_, hsimple .uint16 _ trivial, hsimple .string _ ?_⟩⟩
  · exact ⟨by decide, by decide⟩
  · exact ⟨by decide, by decide⟩
  · exact (by decide : (0 : UInt8) ≤ 1)
  · exact (by decide : (1 : UInt8) ≤ 1)
  · exact (by decide : UaString.length (some [80, 117, 109, 112]) < 2147483648)

theorem structure_roundTrips_samplePath :
    ComposedSlots 1000 samplePath ∧ RoundTrips 1000
      (.struct samplePath : Val (.structure ⟨numericId 0 543, false, false, 40⟩ _)) :=
  ⟨samplePath_composed, (structure_roundTrips samplePath samplePath_composed).1⟩

end OpcUa.StructureRoundTrips
