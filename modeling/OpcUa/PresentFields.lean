import OpcUa.ReadBack
import OpcUa.StableValues

namespace OpcUa.PresentFields

open Filter
open StatusCodes LittleEndian NodeIds DataTypes Values Writers ValueEncoding Readers Decoding ValueDecoding
open ReadBack WritePrograms EncoderPrograms EncoderRuns ValueReading SimpleRoundTrips DecodedValues StableValues

/-- A field that is not flagged as the decoder leaves it. -/
def orZero {α : Type} (flag : Bool) (zero a : α) : α := if flag then a else zero

theorem orZero_true {α : Type} {flag : Bool} (zero a : α) (h : flag = true) : orZero flag zero a = a := by
  rw [orZero, if_pos h]

theorem orZero_false {α : Type} {flag : Bool} (zero a : α) (h : flag = false) : orZero flag zero a = zero := by
  rw [orZero, if_neg (by simp [h])]

theorem wire_orZero {α : Type} (p : α → Prog) (flag : Bool) (zero a : α) :
    wire (.optionally flag (p (orZero flag zero a))) = wire (.optionally flag (p a)) := by
  cases flag <;> rfl

theorem wire_orZero32 (flag : Bool) (x : UInt32) :
    wire (.optionally flag (plain (toBytes 4 (orZero flag 0 x).toNat))) =
      wire (.optionally flag (plain (toBytes 4 x.toNat))) :=
  wire_orZero (fun y : UInt32 => plain (toBytes 4 y.toNat)) flag 0 x

theorem wire_orZero64 (flag : Bool) (x : UInt64) :
    wire (.optionally flag (plain (toBytes 8 (orZero flag 0 x).toNat))) =
      wire (.optionally flag (plain (toBytes 8 x.toNat))) :=
  wire_orZero (fun y : UInt64 => plain (toBytes 8 y.toNat)) flag 0 x

theorem wire_orZero16 (flag : Bool) (x : UInt16) :
    wire (.optionally flag (plain (toBytes 2 (orZero flag 0 x).toNat))) =
      wire (.optionally flag (plain (toBytes 2 x.toNat))) :=
  wire_orZero (fun y : UInt16 => plain (toBytes 2 y.toNat)) flag 0 x

section DiagnosticInfos

/-- The same flags, and the same fields where they are set. -/
def SameFields (x y : DiagnosticFields) : Prop :=
  y.mask = x.mask ∧ (flagged x.mask 0x01 = true → y.symbolicId = x.symbolicId) ∧
    (flagged x.mask 0x02 = true → y.namespaceUri = x.namespaceUri) ∧
    (flagged x.mask 0x04 = true → y.localizedText = x.localizedText) ∧
    (flagged x.mask 0x08 = true → y.locale = x.locale) ∧
    (flagged x.mask 0x10 = true → y.additionalInfo = x.additionalInfo) ∧
    (flagged x.mask 0x20 = true → y.innerStatusCode = x.innerStatusCode)

def SameInfo : DiagnosticInfo → DiagnosticInfo → Prop
  | .plain x _, .plain y _ => SameFields x y
  | .nested x _ inner, .nested y _ inner' => SameFields x y ∧ SameInfo inner inner'
  | _, _ => False

/-- The length of a text that is present fits into 31 bits, at every level. -/
def TextsShort : DiagnosticInfo → Prop
  | .plain x _ => flagged x.mask 0x10 = true → Short x.additionalInfo
  | .nested x _ inner => (flagged x.mask 0x10 = true → Short x.additionalInfo) ∧ TextsShort inner

def clearedFields (x : DiagnosticFields) : DiagnosticFields :=
  ⟨x.mask, orZero (flagged x.mask 0x01) 0 x.symbolicId, orZero (flagged x.mask 0x02) 0 x.namespaceUri,
    orZero (flagged x.mask 0x04) 0 x.localizedText, orZero (flagged x.mask 0x08) 0 x.locale,
    orZero (flagged x.mask 0x10) none x.additionalInfo, orZero (flagged x.mask 0x20) 0 x.innerStatusCode⟩

def clearedInfo : DiagnosticInfo → DiagnosticInfo
  | .plain x h => .plain (clearedFields x) h
  | .nested x h inner => .nested (clearedFields x) h (clearedInfo inner)

theorem sameFields_cleared (x : DiagnosticFields) : SameFields x (clearedFields x) :=
  ⟨rfl, orZero_true _ _, orZero_true _ _, orZero_true _ _, orZero_true _ _, orZero_true _ _, orZero_true _ _⟩

theorem sameInfo_cleared (x : DiagnosticInfo) : SameInfo x (clearedInfo x) := by
  induction x with
  | plain x h => exact sameFields_cleared x
  | nested x h inner ih => exact ⟨sameFields_cleared x, ih⟩

theorem inRange_clearedFields {x : DiagnosticFields} (h : flagged x.mask 0x10 = true → Short x.additionalInfo) :
    FieldsInRange (clearedFields x) := by
  refine ⟨orZero_false _ _, orZero_false _ _, orZero_false _ _, orZero_false _ _, orZero_false _ _,
    orZero_false _ _, ?_⟩
  change Short (orZero _ none x.additionalInfo)
  cases hflag : flagged x.mask 0x10 with
  | true => exact h hflag
  | false => exact Nat.zero_lt_succ _

theorem inRange_cleared {x : DiagnosticInfo} (h : TextsShort x) : DiagnosticInRange (clearedInfo x) := by
  induction x with
  | plain x hmask => exact inRange_clearedFields h
  | nested x hmask inner ih => exact ⟨inRange_clearedFields h.1, ih h.2⟩

theorem wire_clearedFields (x : DiagnosticFields) :
    wire (diagnosticFieldsProg (clearedFields x)) = wire (diagnosticFieldsProg x) := by
  simp only [diagnosticFieldsProg, clearedFields, wire, wire_orZero32]
  rw [wire_orZero stringProg]

theorem wire_clearedInfo (x : DiagnosticInfo) :
    wire (diagnosticInfoProg (clearedInfo x)) = wire (diagnosticInfoProg x) := by
  induction x with
  | plain x h => exact wire_clearedFields x
  | nested x h inner ih =>
      simp only [clearedInfo, diagnosticInfoProg, wire, wire_clearedFields, ih]

theorem textsShort_of_same {x y : DiagnosticInfo} (h : SameInfo x y) (hy : DiagnosticInRange y) : TextsShort x := by
  have hfields : ∀ {x y : DiagnosticFields}, SameFields x y → FieldsInRange y →
      flagged x.mask 0x10 = true → Short x.additionalInfo := by
    intro x y hsame hy hflag
    have hshort : Short y.additionalInfo := hy.2.2.2.2.2.2
    rwa [hsame.2.2.2.2.2.1 hflag] at hshort
  induction x generalizing y with
  | plain x hmask =>
      cases y with
      | plain y _ => exact hfields h hy
      | nested y _ inner' => exact h.elim
  | nested x hmask inner ih =>
      cases y with
      | plain y _ => exact h.elim
      | nested y _ inner' => exact ⟨hfields h.1 hy.1, ih h.2 hy.2⟩

/-- The fields that are present come back with the flags, given the fuel for
the nesting. -/
def InfoReturned (x : DiagnosticInfo) (st : Enc) : Prop :=
  ∃ y, SameInfo x y ∧
    ∀ᶠ fuel in atTop, ComesBack (diagnosticInfoEncodeBinary x) (diagnosticInfoDecodeBinary fuel) st y

theorem writes_diagnosticInfo (limit : Nat) (x : DiagnosticInfo) :
    Writes limit (diagnosticInfoEncodeBinary x) (wire (diagnosticInfoProg x)) := by
  rw [diagnosticInfo_run]
  exact run_writes _ (encodable_diagnosticInfoProg x).1 (Or.inr (encodable_diagnosticInfoProg x).2)

theorem textsShort_of_returned {x : DiagnosticInfo} {st : Enc} (h : InfoReturned x st) : TextsShort x := by
  obtain ⟨y, hsame, hrun⟩ := h
  obtain ⟨fuel, hfuel⟩ := hrun.exists
  obtain ⟨_, _, hdecode⟩ := hfuel.decoded
  exact textsShort_of_same hsame (diagnosticInfo_ok fuel hdecode)

theorem infoReturned_of_short {x : DiagnosticInfo} {st : Enc}
    (hroom : st.offset + (wire (diagnosticInfoProg x)).length ≤ st.data.length) (h : TextsShort x) :
    InfoReturned x st := by
  refine ⟨clearedInfo x, sameInfo_cleared x, ?_⟩
  filter_upwards [reads_diagnosticInfo (inRange_cleared h)] with fuel hfuel
  have hread := hfuel 0
  rw [wire_clearedInfo] at hread
  exact comesBack_of_room (writes_diagnosticInfo st.data.length x) hread (Nat.le_refl _) hroom

end DiagnosticInfos

section DataValues

/-- The same flags, and the same fields where they are set. -/
def SameDataValue (x : DataValueFields) (v : Val .variant) (y : DataValueFields) (w : Val .variant) : Prop :=
  y.mask = x.mask ∧ (flagged x.mask 0x01 = true → w = v) ∧ (flagged x.mask 0x02 = true → y.status = x.status) ∧
    (flagged x.mask 0x04 = true → y.sourceTimestamp = x.sourceTimestamp) ∧
    (flagged x.mask 0x10 = true → y.sourcePicoseconds = x.sourcePicoseconds) ∧
    (flagged x.mask 0x08 = true → y.serverTimestamp = x.serverTimestamp) ∧
    (flagged x.mask 0x20 = true → y.serverPicoseconds = x.serverPicoseconds)

/-- At most 999 as a `UA_Int16`. -/
def PicosecondsInRange (x : UInt16) : Prop := ¬ (999 < x ∧ x < 32768)

def clearedData (x : DataValueFields) : DataValueFields :=
  ⟨x.mask, orZero (flagged x.mask 0x02) 0 x.status, orZero (flagged x.mask 0x04) 0 x.sourceTimestamp,
    orZero (flagged x.mask 0x10) 0 x.sourcePicoseconds, orZero (flagged x.mask 0x08) 0 x.serverTimestamp,
    orZero (flagged x.mask 0x20) 0 x.serverPicoseconds⟩

theorem sameDataValue_cleared (x : DataValueFields) (v : Val .variant) :
    SameDataValue x v (clearedData x) (orZero (flagged x.mask 0x01) .emptyVariant v) :=
  ⟨rfl, orZero_true _ _, orZero_true _ _, orZero_true _ _, orZero_true _ _, orZero_true _ _, orZero_true _ _⟩

theorem clampPicoseconds_orZero {flag : Bool} {x : UInt16} (h : flag = true → PicosecondsInRange x) :
    clampPicoseconds (orZero flag 0 x) = orZero flag 0 x := by
  cases flag with
  | true => exact if_neg (h rfl)
  | false => rfl

theorem decodedFields_cleared {x : DataValueFields}
    (hsource : flagged x.mask 0x10 = true → PicosecondsInRange x.sourcePicoseconds)
    (hserver : flagged x.mask 0x20 = true → PicosecondsInRange x.serverPicoseconds) : DecodedFields (clearedData x) :=
  ⟨orZero_false _ _, orZero_false _ _, orZero_false _ _, orZero_false _ _, orZero_false _ _,
    clampPicoseconds_orZero hsource, clampPicoseconds_orZero hserver⟩

theorem wire_clearedData (x : DataValueFields) (v : Val .variant) :
    wireOf (.dataValue (clearedData x) (orZero (flagged x.mask 0x01) .emptyVariant v)) = wireOf (.dataValue x v) := by
  simp only [wireOf, valProg, dataValueProg, clearedData, wire, wire_orZero32, wire_orZero64, wire_orZero16]
  rw [wire_orZero valProg]

variable {limit : Nat}

theorem writes_optionally {b : Bool} {p : Prog} (h : b = true → Writes limit p.run (wire p)) :
    Writes limit (Prog.optionally b p).run (wire (.optionally b p)) := by
  cases b with
  | true => exact h rfl
  | false => exact writes_skip

theorem writes_dataValue {x : DataValueFields} {v : Val .variant}
    (hvalue : flagged x.mask 0x01 = true → RoundTrips limit v) :
    Writes limit (encodeBinary (.dataValue x v)) (wireOf (.dataValue x v)) := by
  have hfield : ∀ b bytes, Writes limit (Prog.optionally b (plain bytes)).run (wire (.optionally b (plain bytes))) :=
    fun b bytes => writes_optionally (fun _ => writes_emit bytes)
  have hv : Writes limit (Prog.optionally (flagged x.mask 0x01) (valProg v)).run _ :=
    writes_optionally (fun hflag => by
      have h := (hvalue hflag).1
      rwa [encodeBinary_run, wireOf] at h)
  rw [encodeBinary_run, wireOf, valProg, dataValueProg]
  exact writes_orThen (writes_emit _) (writes_orThen hv (writes_orThen (hfield _ _) (writes_orThen (hfield _ _)
    (writes_orThen (hfield _ _) (writes_orThen (hfield _ _) (hfield _ _))))))

def DataValueReturned (x : DataValueFields) (v : Val .variant) (st : Enc) : Prop :=
  ∃ y w, SameDataValue x v y w ∧
    ∀ᶠ fuel in atTop, ComesBack (encodeBinary (.dataValue x v)) (decodeBinary fuel .dataValue) st (.dataValue y w)

theorem dataValue_returned {x : DataValueFields} {v : Val .variant} {st : Enc}
    (hvalue : flagged x.mask 0x01 = true → RoundTrips limit v)
    (hsource : flagged x.mask 0x10 = true → PicosecondsInRange x.sourcePicoseconds)
    (hserver : flagged x.mask 0x20 = true → PicosecondsInRange x.serverPicoseconds) (hlimit : st.data.length ≤ limit)
    (hroom : st.offset + (wireOf (.dataValue x v)).length ≤ st.data.length) : DataValueReturned x v st := by
  refine ⟨clearedData x, orZero (flagged x.mask 0x01) .emptyVariant v, sameDataValue_cleared x v, ?_⟩
  have hread : ∀ᶠ n in atTop, flagged x.mask 0x01 = true →
      Reads 0 (variantDecodeBinary (decodeBinary n)) (wireOf v) v := by
    cases hflag : flagged x.mask 0x01 with
    | true => exact (roundTrips_iff.mp (hvalue hflag)).2.mono (fun n hn _ => hn)
    | false => exact Eventually.of_forall (fun _ h => by cases h)
  refine (eventually_succ (P := fun n => ComesBack _ (decodeBinary n .dataValue) st _)).mp ?_
  filter_upwards [hread] with n hn
  have hvariant : flagged x.mask 0x01 = true → Reads 0 (variantDecodeBinary (decodeBinary n))
      (wireOf (orZero (flagged x.mask 0x01) .emptyVariant v)) (orZero (flagged x.mask 0x01) .emptyVariant v) := by
    intro hflag
    rw [orZero_true _ _ hflag]
    exact hn hflag
  have hdata : Reads 0 (dataValueDecodeBinary (variantDecodeBinary (decodeBinary n))) _ _ :=
    reads_dataValue (decodedFields_cleared hsource hserver) hvariant (orZero_false _ _)
  rw [wire_clearedData] at hdata
  exact comesBack_of_room (writes_dataValue hvalue) hdata hlimit hroom

end DataValues

/-- DataValues come back with what they hold, DiagnosticInfos exactly if their
texts are short. -/
theorem presentFields_returned_iff {limit : Nat} {x : DataValueFields} {v : Val .variant} {st : Enc}
    (hvalue : flagged x.mask 0x01 = true → RoundTrips limit v)
    (hsource : flagged x.mask 0x10 = true → PicosecondsInRange x.sourcePicoseconds)
    (hserver : flagged x.mask 0x20 = true → PicosecondsInRange x.serverPicoseconds) (hlimit : st.data.length ≤ limit)
    (hroom : st.offset + (wireOf (.dataValue x v)).length ≤ st.data.length) {info : DiagnosticInfo} {st' : Enc}
    (hroom' : st'.offset + (wire (diagnosticInfoProg info)).length ≤ st'.data.length) :
    DataValueReturned x v st ∧ (InfoReturned info st' ↔ TextsShort info) :=
  ⟨dataValue_returned hvalue hsource hserver hlimit hroom, textsShort_of_returned, infoReturned_of_short hroom'⟩

def sampleFields : DataValueFields := ⟨0x12, 5, 7, 999, 0, 0⟩

def sampleInfo : DiagnosticInfo := .nested ⟨0x41, 3, 9, 0, 0, none, 0⟩ rfl (.plain ⟨0x18, 0, 0, 0, 2, some [65], 0⟩ rfl)

theorem sample_returned :
    DataValueReturned sampleFields .emptyVariant ⟨List.replicate 10 0, 1, []⟩ ∧
      InfoReturned sampleInfo ⟨List.replicate 24 0, 1, []⟩ := by
  have hpico : PicosecondsInRange sampleFields.sourcePicoseconds := by
    unfold PicosecondsInRange
    decide
  have h : DataValueReturned sampleFields .emptyVariant ⟨List.replicate 10 0, 1, []⟩ ∧
      (InfoReturned sampleInfo ⟨List.replicate 24 0, 1, []⟩ ↔ TextsShort sampleInfo) :=
    presentFields_returned_iff (fun h => absurd h (by decide)) (fun _ => hpico) (fun h => absurd h (by decide))
      (Nat.le_refl _) (by decide) (by decide)
  exact ⟨h.1, h.2.mpr ⟨fun h => absurd h (by decide), fun _ => (by decide : 1 < 2147483648)⟩⟩

def textInfo (text : UaString) : DiagnosticInfo :=
  .plain ⟨0x10, 0, 0, 0, 0, text, 0⟩ (by decide : hasInner 0x10 = false)

theorem length_textInfo (text : UaString) : (wire (diagnosticInfoProg (textInfo text))).length = 5 + text.length := by
  have hwire : wire (diagnosticInfoProg (textInfo text)) = 0x10 :: (wire (stringProg text) ++ []) := by
    simp only [textInfo, diagnosticInfoProg, diagnosticFieldsProg, wire, wire_optionally]
    rfl
  rw [hwire, List.length_cons, List.append_nil, LeafReading.wire_stringProg_length]
  omega

theorem short_of_textInfo {text : UaString} {st : Enc} (h : InfoReturned (textInfo text) st) : Short text :=
  textsShort_of_returned h (by decide : flagged 0x10 0x10 = true)

/-- The length of a text of 2^31 bytes is read back as a negative number. -/
theorem longText_not_returned :
    (wire (diagnosticInfoProg (textInfo (some (List.replicate 2147483648 0))))).length = 2147483653 ∧
      ¬ InfoReturned (textInfo (some (List.replicate 2147483648 0))) ⟨List.replicate 2147483653 0, 0, []⟩ := by
  have hlength : UaString.length (some (List.replicate 2147483648 0)) = 2147483648 := List.length_replicate
  constructor
  · rw [length_textInfo, hlength]
  · intro h
    have hshort := short_of_textInfo h
    rw [Short, hlength] at hshort
    exact absurd hshort (Nat.lt_irrefl _)

end OpcUa.PresentFields
