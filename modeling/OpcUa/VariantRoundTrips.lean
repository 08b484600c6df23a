import OpcUa.ObjectVariants
import OpcUa.StructureRoundTrips

namespace OpcUa.VariantRoundTrips

open Filter
open StatusCodes LittleEndian NodeIds DataTypes TypeTable Values Writers ValueEncoding Readers Decoding ValueDecoding
  ReadBack WritePrograms EncoderPrograms EncoderRuns LeafReading NodeIdRoundTrips ValueReading SimpleRoundTrips
  ExtensionObjects Variants VariantShapes ObjectVariants StructureRoundTrips

def EveryItem {t : DataType} (P : Val t → Prop) : Arr t → Prop
  | .null => True
  | .items vs => Every P vs

/-- The type is in the table and the elements round-trip by themselves. -/
def Known (limit : Nat) : Val .variant → Prop
  | .emptyVariant => False
  | .scalarVariant t data => t ∈ uaTypes ∧ RoundTrips limit data
  | .arrayVariant t a _ => t ∈ uaTypes ∧ EveryItem (RoundTrips limit) a

def itemSize (t : DataType) : Nat := if t.builtin then t.memSize else DataType.extensionObject.memSize

/-- The decoder accepts the sizes of the arrays. A scalar of a builtin type is
decoded as an array of one element. -/
def WithinLimits (room : Nat) : Val .variant → Prop
  | .emptyVariant => True
  | .scalarVariant t data =>
      t.builtin = true → t.memSize / 32 + 1 ≤ (wireOf (.scalarVariant t data)).length + room
  | .arrayVariant t a ds =>
      (a.length ≤ 2147483647 ∧ itemSize t * a.length ≤ maxArraySize ∧
        itemSize t * a.length / 32 + 5 ≤ (wireOf (.arrayVariant t a ds)).length + room) ∧
      ds.length ≤ 2147483647 ∧ 4 * ds.length ≤ maxArraySize

/-- A scalar structure loses its type. The content of a scalar ExtensionObject
is taken for another type if the id of its encoding is the id of a type. -/
def ScalarSurvives : {t : DataType} → Val t → Prop
  | .structure info _, _ => info.builtin = true
  | _, .decoded _ type _ => findDataType (binaryId type.typeId) = none
  | _, _ => True

def VariantSurvives : Val .variant → Prop
  | .emptyVariant => False
  | .scalarVariant _ data => ScalarSurvives data
  | .arrayVariant t a _ => t.builtin = true ∨ EveryItem (fun v => (wireOf v).length < 2147483648) a

variable {room limit : Nat}

theorem writes_scalar {t : DataType} (hmem : t ∈ uaTypes) {data : Val t} (h : RoundTrips limit data) :
    Writes limit (encodeBinary (.scalarVariant t data)) (wireOf (.scalarVariant t data)) := by
  rw [encodeBinary_run, wireOf, valProg]
  refine writes_variant hmem none [] ?_
  intro p hp
  rw [List.mem_singleton.mp hp]
  exact (roundTrips_iff.mp h).1

theorem writes_arrayVariant {t : DataType} (hmem : t ∈ uaTypes) {a : Arr t} (ds : List UInt32)
    (h : EveryItem (RoundTrips limit) a) :
    Writes limit (encodeBinary (.arrayVariant t a ds)) (wireOf (.arrayVariant t a ds)) := by
  rw [encodeBinary_run, wireOf, valProg]
  refine writes_variant hmem _ ds ?_
  cases a with
  | null =>
      rw [arrProgs]
      simp
  | items vs =>
      rw [arrProgs]
      exact writes_of_every h

theorem memSize_le {t : DataType} (h : t ∈ uaTypes) : t.memSize ≤ maxArraySize := by
  have hall : uaTypes.all (fun t => t.memSize ≤ maxArraySize) = true := by decide +kernel
  simpa using List.all_eq_true.mp hall t h

theorem scalar_returns {t : DataType} (hmem : t ∈ uaTypes) (hb : t.builtin = true)
    (hindex : t.typeIndex ≠ 21) {data : Val t} (h : RoundTrips limit data)
    (hroom : WithinLimits room (.scalarVariant t data)) :
    ∃ u, SameVariant (.scalarVariant t data) u ∧ ReturnsAs limit room (.scalarVariant t data) u := by
  obtain ⟨vs', hsame, hwire, hlen, hround⟩ := exists_retyped hmem hb (.cons data .nil) ⟨h, trivial⟩
  match vs', hsame with
  | .cons data' .nil, hsame =>
      refine ⟨.scalarVariant _ data', .scalar hsame.1, returnsAs_iff.mpr ⟨writes_scalar hmem h, ?_⟩⟩
      obtain ⟨hi, harray, -⟩ := variantMask_builtin hb false false
      have hroom := hroom hb
      rw [wireOf_scalar hb, List.length_cons] at hroom
      rw [itemsWire_cons, itemsWire_cons, itemsWire, itemsWire, valsProgs, valsProgs] at hwire
      simp only [List.flatMap_nil, List.append_nil] at hwire
      filter_upwards [hround.1.2] with n hn
      have hread : Reads room (arrayDecodeBinary (wireType t.typeIndex) (decodeBinary n _) 1)
          (itemsWire (.cons data' .nil)) (.items (.cons data' .nil)) := by
        have hsize := (sameType_wireType hmem hb).2
        refine reads_array (t := wireType t.typeIndex) ?_ ?_ (fun _ => ⟨hn.mono (Nat.zero_le _), trivial⟩)
        · rw [hsize, Vals.length, Vals.length, Nat.zero_add, Nat.mul_one]
          exact memSize_le hmem
        · rw [hsize, Vals.length, Vals.length, itemsWire_cons, List.length_append, hwire]
          simp only [Nat.zero_add, Nat.mul_one]
          omega
      rw [wireOf_scalar hb, ← hwire]
      refine reads_variant hi (typeIndex_le t) ?_
      rw [variantAt, harray, if_neg (by decide), if_pos hindex]
      have hmap := reads_map scalarOf hread
      rwa [itemsWire_cons, itemsWire, valsProgs, List.flatMap_nil, List.append_nil] at hmap

/-- A scalar ExtensionObject survives unless the id of its encoding is itself
the id of a type. -/
theorem object_returns_iff {data : Val .extensionObject} (h : RoundTrips limit data) :
    (∃ u, SameVariant (.scalarVariant .extensionObject data) u ∧
      ReturnsAs limit room (.scalarVariant .extensionObject data) u) ↔ ScalarSurvives data := by
  have hmem : DataType.extensionObject ∈ uaTypes :=
    List.getElem_mem (l := uaTypes) (n := 21) (by rw [uaTypes_length]; decide)
  obtain ⟨hi, harray, -⟩ := variantMask_builtin (t := .extensionObject) rfl false false
  have hsame : ∀ u, SameVariant (.scalarVariant .extensionObject data) u →
      u = .scalarVariant .extensionObject data := by
    intro u hu
    cases hu with
    | scalar hv => cases hv; rfl
  have hat : ∀ jump, variantAt jump (variantMask .extensionObject false false) 21 =
      objectVariantDecodeBinary jump := by
    intro jump
    rw [variantAt, harray, if_neg (by decide), if_neg (by decide)]
  have hreturns : (∀ n, Reads 0 (decodeBinary n .extensionObject) (wireOf data) data →
      Reads room (objectVariantDecodeBinary (decodeBinary n)) (wireOf data)
        (.scalarVariant .extensionObject data)) →
      ∃ u, SameVariant (.scalarVariant .extensionObject data) u ∧
        ReturnsAs limit room (.scalarVariant .extensionObject data) u := by
    intro hread
    refine ⟨_, .scalar (.same data), returnsAs_iff.mpr ⟨writes_scalar hmem h, ?_⟩⟩
    filter_upwards [h.2] with n hn
    rw [wireOf_scalar rfl]
    refine reads_variant (i := 21) hi (by decide) ?_
    rw [hat]
    exact hread n hn
  rcases object_cases h with ⟨i, body, rfl⟩ | ⟨i, body, rfl⟩ | ⟨type, content, rfl, htype⟩
  · refine iff_of_true (hreturns fun n hn => ?_) trivial
    exact reads_object (wireOf_encoded _ _ _) (fun h => absurd h (by decide)) (hn.mono (Nat.zero_le _))
  · refine iff_of_true (hreturns fun n hn => ?_) trivial
    exact reads_object (wireOf_encoded _ _ _) (fun h => absurd h (by decide)) (hn.mono (Nat.zero_le _))
  · have hwire : wireOf (.decoded false type content) = wire (wrapProg type.typeId (valProg content)) := by
      rw [wireOf, valProg_decoded htype]
    constructor
    · rintro ⟨u, hu, hround⟩
      obtain rfl := hsame u hu
      by_contra hfind
      obtain ⟨n, hn⟩ := (returnsAs_iff.mp hround).2.exists
      rw [wireOf_scalar rfl, hwire] at hn
      have hcan := canRead_variantAt hi (by decide) hn
      exact object_not_read htype hfind ((hat (decodeBinary n)) ▸ hcan)
    · intro hfind
      obtain ⟨i, hid, honWire, _⟩ := binaryId_of_mem htype
      refine hreturns fun n hn => ?_
      have hsplit : wireOf (.decoded false type content) = (wire (nodeIdProg (numericId 0 i)) ++ [1]) ++
          (lengthBytes (wireOf content).length ++ wireOf content) := by
        rw [hwire, wire_wrapProg, hid]
        rfl
      refine reads_object hsplit ?_ (hn.mono (Nat.zero_le _))
      intro _
      rw [honWire, ← hid]
      exact hfind

theorem structure_not_returned {t : DataType} (hmem : t ∈ uaTypes) (hb : t.builtin = false) {data : Val t} :
    ¬ ∃ u, SameVariant (.scalarVariant t data) u ∧ ReturnsAs limit room (.scalarVariant t data) u := by
  rintro ⟨u, hu, hround⟩
  obtain rfl : u = .scalarVariant t data := by
    cases hu with
    | scalar hv =>
        cases hv with
        | same => rfl
        | enumeration x => simp [DataType.builtin] at hb
  obtain ⟨hi, harray, -⟩ := variantMask_structure hb false false
  obtain ⟨n, hn⟩ := (returnsAs_iff.mp hround).2.exists
  rw [wireOf_scalarStructure hmem hb] at hn
  have hcan := canRead_variantAt hi (by decide) hn
  rw [variantAt, harray, if_neg (by decide), if_neg (by decide)] at hcan
  exact structure_not_read hmem hb data hcan

section Arrays

variable {ds : List UInt32}

theorem eventually_everyItem {t : DataType} {a : Arr t} (h : EveryItem (RoundTrips limit) a) :
    ∀ᶠ n in atTop, EveryItem (fun v => Reads 0 (decodeBinary n t) (wireOf v) v) a := by
  cases a with
  | null => exact Eventually.of_forall (fun _ => trivial)
  | items vs => exact eventually_every vs h

theorem reads_arr {jump : (t : DataType) → DecM (Val t)} {t : DataType} {a : Arr t}
    (h : EveryItem (fun v => Reads 0 (jump t) (wireOf v) v) a)
    (hsize : t.memSize * a.length ≤ maxArraySize)
    (hroom : t.memSize * a.length / 32 ≤ (arrWire a).length + room) :
    Reads room (arrayDecodeBinary t (jump t) (signedLength a)) (arrWire a) a := by
  cases a with
  | null => exact reads_nullArray
  | items vs => exact reads_array hsize hroom (fun _ => Every.imp (fun v hv => hv.mono (Nat.zero_le _)) h)

theorem array_returns_of {t t' : DataType} {a : Arr t} {a' : Arr t'} {mask : UInt8} {i : Nat}
    (hwrites : Writes limit (encodeBinary (.arrayVariant t a ds)) (wireOf (.arrayVariant t a ds)))
    (hwire : wireOf (.arrayVariant t a ds) =
      mask :: (arrayLengthBytes a' ++ (arrWire a' ++ dimensionsWire ds)))
    (hi : (mask &&& 0x3f).toNat = i + 1) (hle : i ≤ 24) (ht : wireType i = t')
    (harray : flagged mask 0x80 = true) (hdims : flagged mask 0x40 = decide (ds.length > 0))
    (h : EveryItem (RoundTrips limit) a') (hmem : itemSize t = t'.memSize) (hlen : a'.length = a.length)
    (hlimits : WithinLimits room (.arrayVariant t a ds)) :
    ReturnsAs limit room (.arrayVariant t a ds) (.arrayVariant t' a' ds) := by
  subst ht
  obtain ⟨⟨hlength, hsize, hroom⟩, hds, hdsSize⟩ := hlimits
  rw [hmem, ← hlen] at hsize hroom
  rw [hwire] at hroom
  simp only [List.length_cons, List.length_append, length_arrayLengthBytes] at hroom
  refine returnsAs_iff.mpr ⟨hwrites, ?_⟩
  filter_upwards [eventually_everyItem h] with n hn
  rw [hwire]
  refine reads_variant hi hle ?_
  rw [variantAt, harray, if_pos rfl, hdims]
  exact reads_arrayVariant (reads_arrayLength (hlen ▸ hlength))
    (reads_arr hn hsize (by omega)) hds hdsSize

theorem array_returns {t : DataType} (hmem : t ∈ uaTypes) (hb : t.builtin = true) {a : Arr t}
    (h : EveryItem (RoundTrips limit) a) (hlimits : WithinLimits room (.arrayVariant t a ds)) :
    ∃ u, SameVariant (.arrayVariant t a ds) u ∧ ReturnsAs limit room (.arrayVariant t a ds) u := by
  have hitem : itemSize t = (wireType t.typeIndex).memSize := by
    rw [itemSize, if_pos hb, (sameType_wireType hmem hb).2]
  obtain ⟨hi, harray, hdims⟩ := variantMask_builtin hb true (decide (ds.length > 0))
  obtain ⟨a', hsame, hwire, hlen, hround⟩ : ∃ a' : Arr (wireType t.typeIndex),
      SameArray SameValue a a' ∧ arrayLengthBytes a' ++ (arrWire a' ++ dimensionsWire ds) =
        arrayLengthBytes a ++ (arrWire a ++ dimensionsWire ds) ∧ a'.length = a.length ∧
        EveryItem (RoundTrips limit) a' := by
    cases a with
    | null => exact ⟨.null, trivial, rfl, rfl, trivial⟩
    | items vs =>
        obtain ⟨vs', hsame, hwire, hlen, hround⟩ := exists_retyped hmem hb vs h
        refine ⟨.items vs', hsame, ?_, hlen, hround⟩
        rw [arrWire, arrWire, arrayLengthBytes, arrayLengthBytes, hwire, hlen]
  refine ⟨.arrayVariant _ a' ds, .array ds (sameType_wireType hmem hb).1 hsame, ?_⟩
  refine array_returns_of (writes_arrayVariant hmem ds h) ?_ hi (typeIndex_le t) rfl harray hdims hround
    hitem hlen hlimits
  rw [wireOf_array hb, hwire]

/-- The elements of an array of structures as ExtensionObjects. -/
def wrapped {t : DataType} : Vals t → Vals .extensionObject
  | .nil => .nil
  | .cons v vs => .cons (.decoded false t v) (wrapped vs)

theorem wrapped_spec {t : DataType} (hmem : t ∈ uaTypes) : (vs : Vals t) →
    Pointwise (fun v v' => v' = .decoded false t v) vs (wrapped vs) ∧
      itemsWire (wrapped vs) = objectsWire (.items vs) ∧ (wrapped vs).length = vs.length
  | .nil => by
      rw [wrapped, itemsWire, valsProgs, objectsWire, valsProgs]
      exact ⟨trivial, rfl, rfl⟩
  | .cons v vs => by
      obtain ⟨hsame, hwire, hlen⟩ := wrapped_spec hmem vs
      rw [wrapped, itemsWire_cons, hwire, Vals.length, Vals.length, hlen, objectsWire, objectsWire,
        wireOf, valProg_decoded hmem, valsProgs]
      exact ⟨⟨rfl, hsame⟩, by rw [List.map_cons, List.flatMap_cons], rfl⟩

theorem wrapped_roundTrip {t : DataType} (hmem : t ∈ uaTypes) : (vs : Vals t) →
    Every (RoundTrips limit) vs → Every (fun v => (wireOf v).length < 2147483648) vs →
    Every (RoundTrips limit) (wrapped vs)
  | .nil, _, _ => trivial
  | .cons _ vs, h, hshort =>
      ⟨(decoded_returns_iff hmem h.1 : ReturnsAs limit 0 _ _ ↔ _).mpr hshort.1, wrapped_roundTrip hmem vs h.2 hshort.2⟩

/-- Each element that has been decoded had its length in the range of
`UA_Int32`. -/
theorem items_short {t : DataType} (hmem : t ∈ uaTypes) {jump : (t : DataType) → DecM (Val t)} :
    (vs : Vals t) → Every (fun v => Reads 0 (jump t) (wireOf v) v) vs →
    ∀ {pre post : List UInt8} {st st' : Dec} {us : Vals .extensionObject},
      st.data = pre ++ objectsWire (.items vs) ++ post → st.offset = pre.length → st.heap = [] →
      itemsDecodeBinary (extensionObjectDecodeBinary jump) vs.length st = some (.ok us, st') →
      Every (fun v => (wireOf v).length < 2147483648) vs
  | .nil, _, _, _, _, _, _, _, _, _, _ => trivial
  | .cons v vs, h, pre, post, st, st', us, hdata, hoff, hheap, hrun => by
      obtain ⟨u, st1, hitem, hrest⟩ := andThen_ok hrun
      obtain ⟨us', hitems, _⟩ := map_ok hrest
      have hsplit : objectsWire (.items (.cons v vs)) =
          wire (wrapProg t.typeId (valProg v)) ++ objectsWire (.items vs) := by
        rw [objectsWire, valsProgs, List.map_cons, List.flatMap_cons]
        rfl
      rw [hsplit] at hdata
      have hdata' : st.data = pre ++ wire (wrapProg t.typeId (valProg v)) ++
          (objectsWire (.items vs) ++ post) := by
        rw [hdata]
        simp only [List.append_assoc]
      obtain ⟨w, st1', hfirst, hdata1, hw, hoff1, hheap1⟩ :=
        wrapped_run hmem h.1 hdata' hoff (Nat.zero_le _) hheap
      rw [hitem] at hfirst
      by_cases hshort : (wireOf v).length < 2147483648
      · obtain rfl : st1 = st1' := by
          rw [if_pos hshort] at hfirst
          simpa using congrArg (Option.map Prod.snd) hfirst
        have hdata1' : st1.data = (pre ++ w) ++ objectsWire (.items vs) ++ post := by
          rw [hdata1]
          simp only [List.append_assoc]
        refine ⟨hshort, items_short hmem vs h.2 hdata1' ?_ hheap1 hitems⟩
        rw [hoff1, List.length_append, hw]
      · rw [if_neg hshort] at hfirst
        simp at hfirst

theorem arrayVariant_ok {jump : (t : DataType) → DecM (Val t)} {t : DataType} {dims : Bool} {u : Val .variant}
    {st st' : Dec} (h : arrayVariantDecodeBinary jump t dims st = some (.ok u, st')) :
    ∃ length st1 a st2, int32DecodeBinary st = some (.ok length, st1) ∧
      arrayDecodeBinary t (jump t) length st1 = some (.ok a, st2) := by
  obtain ⟨length, st1, hlength, h⟩ := andThen_ok h
  cases dims with
  | true =>
      obtain ⟨⟨a, dimensions⟩, st3, hboth, _⟩ := andThen_ok h
      obtain ⟨st2, harray, _⟩ := both_ok hboth
      exact ⟨length, st1, a, st2, hlength, harray⟩
  | false =>
      obtain ⟨a, harray, _⟩ := map_ok h
      exact ⟨length, st1, a, st', hlength, harray⟩

theorem array_ok {item : DecM (Val .extensionObject)} {n : Nat} (hn : 0 < n) {a : Arr .extensionObject}
    {st st' : Dec} (h : arrayDecodeBinary .extensionObject item n st = some (.ok a, st')) :
    ∃ us, itemsDecodeBinary item n { st with heap := st.heap.tail } = some (.ok us, st') := by
  rw [arrayDecodeBinary, if_neg (by omega), Int.toNat_natCast] at h
  split at h
  · simp at h
  split at h
  · simp at h
  · obtain ⟨_, st1, hallocate, h⟩ := andThen_ok h
    rw [if_neg (by decide)] at h
    obtain ⟨us, hitems, _⟩ := map_ok h
    exact ⟨us, allocate_ok hallocate ▸ hitems⟩

theorem everyItem_of_empty {t : DataType} {P : Val t → Prop} : {vs : Vals t} → vs.length = 0 → EveryItem P (.items vs)
  | .nil, _ => trivial

theorem objects_return_iff {t : DataType} (hmem : t ∈ uaTypes) (hb : t.builtin = false) {a : Arr t}
    (h : EveryItem (RoundTrips limit) a) (hlimits : WithinLimits room (.arrayVariant t a ds)) :
    (∃ u, SameVariant (.arrayVariant t a ds) u ∧ ReturnsAs limit room (.arrayVariant t a ds) u) ↔
      EveryItem (fun v => (wireOf v).length < 2147483648) a := by
  obtain ⟨hi, harray, hdims⟩ := variantMask_structure hb true (decide (ds.length > 0))
  have hitem : itemSize t = DataType.extensionObject.memSize := by
    rw [itemSize, if_neg (by simp [hb])]
  constructor
  · rintro ⟨u, _, hround⟩
    cases a with
    | null => exact trivial
    | items vs =>
        have hreads := eventually_succ.mpr (returnsAs_iff.mp hround).2
        obtain ⟨n, hn, hitems⟩ := (hreads.and (eventually_every vs h)).exists
        rw [wireOf_arrayStructure hmem hb] at hn
        obtain ⟨pre, post, st, st', hdata, hoff, hheap, _, hrun, _⟩ := canRead_variantAt hi (by decide) hn
        rw [variantAt, harray, if_pos rfl] at hrun
        obtain ⟨length, st1, a', st2, hlength, hdecoded⟩ := arrayVariant_ok hrun
        have hlengthRead : Reads 0 int32DecodeBinary (arrayLengthBytes (.items vs)) _ :=
          reads_arrayLength hlimits.1.1
        obtain ⟨_, st1', hlength', -, -, hoff1, hheap1⟩ := hlengthRead pre
          (objectsWire (.items vs) ++ dimensionsWire ds ++ post) st
          (by rw [hdata]; simp only [List.append_assoc]) hoff (Nat.zero_le _) hheap
        obtain ⟨rfl, rfl⟩ : length = signedLength (.items vs) ∧ st1 = st1' := by
          simpa using hlength.symm.trans hlength'
        have hdata1 : st1.data = st.data := (keeps_map _ keeps_uint32) _ _ _ hlength
        rcases Nat.eq_zero_or_pos vs.length with hzero | hpos
        · exact everyItem_of_empty hzero
        · obtain ⟨us, hdecoded⟩ := array_ok hpos hdecoded
          have hsplit : ({ st1 with heap := st1.heap.tail } : Dec).data =
              (pre ++ arrayLengthBytes (.items vs)) ++ objectsWire (.items vs) ++
                (dimensionsWire ds ++ post) := by
            change st1.data = _
            rw [hdata1, hdata]
            simp only [List.append_assoc]
          refine items_short hmem vs hitems hsplit ?_ ?_ hdecoded
          · change st1.offset = _
            rw [hoff1, List.length_append]
          · change st1.heap.tail = []
            rw [hheap1]
            rfl
  · intro hshort
    obtain ⟨a', hsame, hwire, hlen, hround⟩ : ∃ a' : Arr .extensionObject,
        SameArray (fun v v' => v' = .decoded false t v) a a' ∧
          arrayLengthBytes a' ++ (arrWire a' ++ dimensionsWire ds) =
            arrayLengthBytes a ++ (objectsWire a ++ dimensionsWire ds) ∧ a'.length = a.length ∧
          EveryItem (RoundTrips limit) a' := by
      cases a with
      | null => exact ⟨.null, trivial, rfl, rfl, trivial⟩
      | items vs =>
          obtain ⟨hsame, hwire, hlen⟩ := wrapped_spec hmem vs
          refine ⟨.items (wrapped vs), hsame, ?_, hlen, wrapped_roundTrip hmem vs h hshort⟩
          rw [arrWire, arrayLengthBytes, arrayLengthBytes, hwire, hlen]
    refine ⟨.arrayVariant .extensionObject a' ds, .objects ds hb hsame, ?_⟩
    refine array_returns_of (writes_arrayVariant hmem ds h) ?_ hi (by decide) rfl harray hdims hround
      hitem hlen hlimits
    rw [wireOf_arrayStructure hmem hb, hwire]

end Arrays

theorem scalar_survives_iff {t : DataType} (hmem : t ∈ uaTypes) {data : Val t} (h : RoundTrips limit data)
    (hlimits : WithinLimits room (.scalarVariant t data)) :
    (∃ u, SameVariant (.scalarVariant t data) u ∧ ReturnsAs limit room (.scalarVariant t data) u) ↔
      ScalarSurvives data := by
  cases t with
  | simple id b =>
      have hindex : (DataType.simple id b).typeIndex ≠ 21 := by
        cases b <;> simp [DataType.typeIndex, Builtin.typeIndex]
      cases data with
      | simple x => exact iff_of_true (scalar_returns hmem rfl hindex h hlimits) trivial
  | extensionObject => exact object_returns_iff h
  | dataValue =>
      cases data with
      | dataValue fields value =>
          exact iff_of_true (scalar_returns hmem rfl (by decide) h hlimits) trivial
  | variant =>
      have hreturns := scalar_returns hmem rfl (by decide) h hlimits
      cases data <;> exact iff_of_true hreturns trivial
  | «structure» info members =>
      cases data with
      | struct slots =>
          by_cases hb : info.builtin = true
          · exact iff_of_true (scalar_returns hmem hb (by simp [DataType.typeIndex]) h hlimits) hb
          · exact iff_of_false (structure_not_returned hmem (by simpa [DataType.builtin] using hb)) hb

/-- Variants of known types survive the way through the codec except for
scalar structures and the objects that look like another type. -/
theorem variant_returns_iff (v : Val .variant) (h : Known limit v) (hlimits : WithinLimits room v) :
    (∃ u, SameVariant v u ∧ ReturnsAs limit room v u) ↔ VariantSurvives v := by
  cases v with
  | emptyVariant => exact h.elim
  | scalarVariant t data => exact scalar_survives_iff h.1 h.2 hlimits
  | arrayVariant t a ds =>
      by_cases hb : t.builtin = true
      · exact iff_of_true (array_returns h.1 hb h.2 hlimits) (Or.inl hb)
      · rw [objects_return_iff h.1 (by simpa using hb) h.2 hlimits]
        exact ⟨Or.inr, fun hs => hs.resolve_left hb⟩

def sampleArray : Val .variant :=
  .arrayVariant nodeClass (.items (.cons (.simple 1) (.cons (.simple 2) .nil))) [2]

theorem sampleArray_known : Known 1000 sampleArray := by
  refine ⟨List.getElem_mem (l := uaTypes) (n := 26) (by rw [uaTypes_length]; decide), ?_, ?_, trivial⟩
  · exact simple_roundTrips trivial (Or.inl (by decide))
  · exact simple_roundTrips trivial (Or.inl (by decide))

theorem variant_returns_sampleArray : Known 1000 sampleArray ∧ WithinLimits 0 sampleArray ∧
    ∃ u, SameVariant sampleArray u ∧ ReturnsAs 1000 0 sampleArray u := by
  have hlimits : WithinLimits 0 sampleArray :=
    ⟨⟨by decide, by decide, by decide⟩, by decide, by decide⟩
  exact ⟨sampleArray_known, hlimits,
    (variant_returns_iff sampleArray sampleArray_known hlimits).mpr (Or.inl rfl)⟩

/-- A scalar SubscriptionAcknowledgement comes back as an ExtensionObject. -/
theorem variant_loses_structure : ¬ ∀ v : Val .variant, Known 1000 v → WithinLimits 0 v →
    ∃ u, SameVariant v u ∧ ReturnsAs 1000 0 v u := by
  intro h
  have hmem : subscriptionAcknowledgement ∈ uaTypes :=
    List.getElem_mem (l := uaTypes) (n := 138) (by rw [uaTypes_length]; decide)
  let data : Val subscriptionAcknowledgement :=
    .struct (.scalar (.simple 1) (.scalar (.simple 2) .nil))
  have hround : RoundTrips 1000 data := by
    refine roundTrips_of_composed _ ?_
    simp only [data, Composed, ComposedSlots, and_true]
    exact ⟨simple_roundTrips trivial (Or.inl (by decide)), simple_roundTrips trivial (Or.inl (by decide))⟩
  exact structure_not_returned hmem rfl
    (h (.scalarVariant subscriptionAcknowledgement data) ⟨hmem, hround⟩ (fun hb => absurd hb (by decide)))

end OpcUa.VariantRoundTrips
