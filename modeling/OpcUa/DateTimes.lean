import Mathlib.Data.UInt
import OpcUa.Calendars
import OpcUa.NodeIds

namespace OpcUa.DateTimes

open NodeIds Calendars

section Model

def unixEpochBiasSec : Int := 11644473600

/-- `struct tm`: months are counted from zero, years from 1900. -/
structure Tm where
  sec : Int
  min : Int
  hour : Int
  mday : Int
  mon : Int
  year : Int
deriving DecidableEq, Repr

def gmtime (s : Int) : Tm :=
  let m := ofSeconds s
  ⟨m.second, m.minute, m.hour, m.day, (m.month : Int) - 1, m.year - 1900⟩

structure DateTimeStruct where
  nanoSec : UInt16
  microSec : UInt16
  milliSec : UInt16
  sec : UInt16
  min : UInt16
  hour : UInt16
  day : UInt16
  month : UInt16
  year : UInt16
deriving DecidableEq, Repr

/-- `UA_DateTime_toStruct`. No operation leaves the 64 bits. -/
def toStruct (atime : Int64) : DateTimeStruct :=
  let t := atime.toInt
  let ts := gmtime (t.tdiv 10000000 - unixEpochBiasSec)
  { nanoSec := .ofInt (t.tmod 10 * 100)
    microSec := .ofInt ((t.tmod 10000).tdiv 10)
    milliSec := .ofInt ((t.tmod 10000000).tdiv 10000)
    sec := .ofInt ts.sec
    min := .ofInt ts.min
    hour := .ofInt ts.hour
    day := .ofInt ts.mday
    month := .ofInt (ts.mon + 1)
    year := .ofInt (ts.year + 1900) }

def printNumber : Nat → UInt16 → List UInt8
  | 0, _ => []
  | digits + 1, n => printNumber digits (n / 10) ++ [(n % 10).toUInt8 + 48]

/-- `UA_DateTime_toString`. The string is null without memory for it. -/
def toString (memory : Bool) (time : Int64) : UaString :=
  let tSt := toStruct time
  if !memory then none
  else some (printNumber 2 tSt.month ++ 47 :: (printNumber 2 tSt.day ++ 47 :: (printNumber 4 tSt.year ++ 32 ::
    (printNumber 2 tSt.hour ++ 58 :: (printNumber 2 tSt.min ++ 58 :: (printNumber 2 tSt.sec ++ 46 ::
      (printNumber 3 tSt.milliSec ++ 46 :: (printNumber 3 tSt.microSec ++ 46 :: printNumber 3 tSt.nanoSec))))))))

end Model

section Recomposition

/-- The second of the calendar with its parts, as a time. -/
def recompose (s : DateTimeStruct) : Int :=
  (secondNumber ⟨s.year.toNat, s.month.toNat, s.day.toNat, s.hour.toNat, s.min.toNat, s.sec.toNat⟩ + unixEpochBiasSec) *
    10000000 + s.milliSec.toNat * 10000 + s.microSec.toNat * 10 + s.nanoSec.toNat / 100

structure Decomposed (atime : Int64) : Prop where
  milliSec : (toStruct atime).milliSec < 1000
  microSec : (toStruct atime).microSec < 1000
  nanoSec : (toStruct atime).nanoSec < 1000
  hundreds : (toStruct atime).nanoSec % 100 = 0
  recomposed : recompose (toStruct atime) = atime.toInt

def value (digits : List UInt8) : Nat := digits.foldl (fun v d => v * 10 + (d.toNat - 48)) 0

/-- Numbers of the given widths, with a character between each two of them. -/
def readNumbers : List Nat → List UInt8 → List Nat
  | [], _ => []
  | width :: widths, s => value (s.take width) :: readNumbers widths (s.drop (width + 1))

def fromString (s : List UInt8) : Option Int :=
  match readNumbers [2, 2, 4, 2, 2, 2, 3, 3, 3] s with
  | [month, day, year, hour, min, sec, milliSec, microSec, nanoSec] =>
      some (recompose ⟨.ofNat nanoSec, .ofNat microSec, .ofNat milliSec, .ofNat sec, .ofNat min,
        .ofNat hour, .ofNat day,
        .ofNat month, .ofNat year⟩)
  | _ => none

def moment (atime : Int64) : Moment := ofSeconds (atime.toInt.tdiv 10000000 - unixEpochBiasSec)

def Recovered (atime : Int64) : Prop :=
  0 ≤ (moment atime).year → (moment atime).year ≤ 9999 →
    ∀ memory s, toString memory atime = some s → fromString s = some atime.toInt

end Recomposition

section Printing

variable {n : UInt16} {digits : Nat}

theorem length_printNumber (digits : Nat) (n : UInt16) : (printNumber digits n).length = digits := by
  induction digits generalizing n with
  | zero => rfl
  | succ digits ih => simp [printNumber, ih]

theorem value_append (ds : List UInt8) (d : UInt8) : value (ds ++ [d]) = value ds * 10 + (d.toNat - 48) := by
  simp [value, List.foldl_append]

theorem value_printNumber (digits : Nat) (n : UInt16) : value (printNumber digits n) = n.toNat % 10 ^ digits := by
  induction digits generalizing n with
  | zero => simp [printNumber, value, Nat.mod_one]
  | succ digits ih =>
      have hdigit : ((n % 10).toUInt8 + 48).toNat - 48 = n.toNat % 10 := by
        have hlt : n.toNat % 10 < 10 := Nat.mod_lt _ (by decide)
        simp [UInt8.toNat_add, UInt16.toNat_mod]
        omega
      rw [printNumber, value_append, ih, hdigit, UInt16.toNat_div, Nat.pow_succ,
        Nat.mul_comm (10 ^ digits), Nat.mod_mul]
      simp
      omega

theorem readNumbers_printNumber (widths : List Nat) (c : UInt8) (rest : List UInt8) :
    readNumbers (digits :: widths) (printNumber digits n ++ c :: rest) =
      n.toNat % 10 ^ digits :: readNumbers widths rest := by
  have hlength := length_printNumber digits n
  rw [readNumbers, List.take_left' hlength, value_printNumber]
  congr 2
  rw [List.drop_append, hlength, List.drop_eq_nil_of_le (by omega)]
  simp

theorem readNumbers_last : readNumbers [digits] (printNumber digits n) = [n.toNat % 10 ^ digits] := by
  rw [readNumbers, List.take_of_length_le (length_printNumber digits n).le, value_printNumber]
  rfl

end Printing

section Decomposition

variable {atime : Int64} {t : Int}

theorem toNat_ofInt (n : Int) : ((UInt16.ofInt n).toNat : Int) = n % 65536 := by
  simp only [UInt16.ofInt, UInt16.toNat_ofNat']
  omega

theorem year_bounds (atime : Int64) : -32768 ≤ (moment atime).year ∧ (moment atime).year < 32768 := by
  have hlow := atime.le_toInt
  have hhigh := atime.toInt_lt
  have hsmall : -922337203686 ≤ atime.toInt.tdiv 10000000 ∧ atime.toInt.tdiv 10000000 ≤ 922337203686 := by
    rcases Int.le_total 0 atime.toInt with h | h
    · rw [Int.tdiv_eq_ediv_of_nonneg h]
      omega
    · have hneg : atime.toInt = -(-atime.toInt) := (Int.neg_neg _).symm
      rw [hneg, Int.neg_tdiv, Int.tdiv_eq_ediv_of_nonneg (by omega)]
      omega
  obtain ⟨hstart, hend⟩ := yearOf_spec ((atime.toInt.tdiv 10000000 - unixEpochBiasSec) / 86400 + 719162)
  have hyear : (moment atime).year = yearOf ((atime.toInt.tdiv 10000000 - unixEpochBiasSec) / 86400 + 719162) := rfl
  rw [← hyear] at hstart hend
  simp only [yearStart, unixEpochBiasSec] at *
  omega

def namedMoment (s : DateTimeStruct) : Moment :=
  ⟨s.year.toNat, s.month.toNat, s.day.toNat, s.hour.toNat, s.min.toNat, s.sec.toNat⟩

theorem namedMoment_toStruct (atime : Int64) :
    namedMoment (toStruct atime) = { moment atime with year := (moment atime).year % 65536 } := by
  obtain ⟨⟨hmonth, hmonth'⟩, ⟨hday, hday'⟩, hhour, hminute, hsecond⟩ : (moment atime).Regular := regular_ofSeconds _
  have hnat {k : Nat} (hk : k < 65536) : (UInt16.ofInt k).toNat = k := by
    have h := toNat_ofInt k
    omega
  have hyear := toNat_ofInt ((moment atime).year - 1900 + 1900)
  have hshift : ((moment atime).month : Int) - 1 + 1 = (moment atime).month := by omega
  simp only [namedMoment, toStruct, gmtime]
  change (⟨((UInt16.ofInt ((moment atime).year - 1900 + 1900)).toNat : Int),
    (UInt16.ofInt ((moment atime).month - 1 + 1)).toNat, (UInt16.ofInt (moment atime).day).toNat,
    (UInt16.ofInt (moment atime).hour).toNat, (UInt16.ofInt (moment atime).minute).toNat,
    (UInt16.ofInt (moment atime).second).toNat⟩ : Moment) = _
  rw [hshift, hyear, hnat (by omega), hnat (by omega), hnat (by omega), hnat (by omega),
    hnat (by omega), sub_add_cancel]

/-- The time is not before 1601, or a full second after the start of year 0. -/
def Representable (atime : Int64) : Prop :=
  0 ≤ atime.toInt ∨ 10000000 ∣ atime.toInt ∧ 0 ≤ (moment atime).year

theorem parts_eq (h : 0 ≤ t ∨ 10000000 ∣ t) : t.tmod 10 = t % 10 ∧ t.tmod 10000 = t % 10000 ∧
    t.tmod 10000000 = t % 10000000 ∧ t.tdiv 10000000 = t / 10000000 := by
  rcases h with h | ⟨k, rfl⟩
  · simp only [Int.tmod_eq_emod_of_nonneg h, Int.tdiv_eq_ediv_of_nonneg h, and_self]
  · have hzero {d : Int} (hd : d ∣ 10000000) : (10000000 * k).tmod d = 10000000 * k % d := by
      rw [Int.tmod_eq_zero_of_dvd (Dvd.dvd.mul_right hd k), Int.emod_eq_zero_of_dvd (Dvd.dvd.mul_right hd k)]
    refine ⟨hzero (by decide), hzero (by decide), hzero (by decide), ?_⟩
    rw [Int.mul_tdiv_cancel_left _ (by decide), Int.mul_ediv_cancel_left _ (by decide)]

theorem fractions_of_parts (h : 0 ≤ atime.toInt ∨ 10000000 ∣ atime.toInt) :
    ((toStruct atime).nanoSec.toNat : Int) = atime.toInt % 10 * 100 ∧
      ((toStruct atime).microSec.toNat : Int) = atime.toInt % 10000 / 10 ∧
      ((toStruct atime).milliSec.toNat : Int) = atime.toInt % 10000000 / 10000 := by
  obtain ⟨hten, hthousands, hmillions, _⟩ := parts_eq h
  simp only [toStruct, toNat_ofInt, hten, hthousands, hmillions]
  rw [Int.tdiv_eq_ediv_of_nonneg (by omega), Int.tdiv_eq_ediv_of_nonneg (by omega)]
  omega

theorem eq_zero_of_ofInt_neg {x : Int} (hpos : 0 ≤ x) (hsmall : x < 1000) (h : UInt16.ofInt (-x) < 1000) : x = 0 := by
  have hlt : (UInt16.ofInt (-x)).toNat < 1000 := UInt16.lt_iff_toNat_lt.mp h
  have hvalue := toNat_ofInt (-x)
  by_contra hne
  have hwrapped : -x % 65536 = 65536 - x := by omega
  omega

theorem parts_of_fractions (hnano : (toStruct atime).nanoSec < 1000) (hmicro : (toStruct atime).microSec < 1000)
    (hmilli : (toStruct atime).milliSec < 1000) : 0 ≤ atime.toInt ∨ 10000000 ∣ atime.toInt := by
  by_cases h : 0 ≤ atime.toInt
  · exact .inl h
  · obtain ⟨u, hu⟩ : ∃ u : Int, atime.toInt = -u := ⟨-atime.toInt, (Int.neg_neg _).symm⟩
    have hpos : 0 ≤ u := by omega
    simp only [toStruct, hu, Int.neg_tmod, Int.neg_tdiv, Int.tmod_eq_emod_of_nonneg hpos,
      Int.neg_mul] at hnano hmicro hmilli
    rw [Int.tdiv_eq_ediv_of_nonneg (by omega)] at hmicro hmilli
    have htens := eq_zero_of_ofInt_neg (by omega) (by omega) hnano
    have hhundreds := eq_zero_of_ofInt_neg (by omega) (by omega) hmicro
    have hmillis := eq_zero_of_ofInt_neg (by omega) (by omega) hmilli
    right
    omega

theorem secondNumber_moment (atime : Int64) :
    secondNumber (moment atime) = atime.toInt.tdiv 10000000 - unixEpochBiasSec := secondNumber_ofSeconds _

theorem recompose_of_parts (h : 0 ≤ atime.toInt ∨ 10000000 ∣ atime.toInt) :
    recompose (toStruct atime) =
      (secondNumber (namedMoment (toStruct atime)) + unixEpochBiasSec) * 10000000 + atime.toInt % 10000000 := by
  obtain ⟨hnano, hmicro, hmilli⟩ := fractions_of_parts h
  simp only [recompose, namedMoment, hnano, hmicro, hmilli]
  omega

theorem namedMoment_eq (hyear : 0 ≤ (moment atime).year) : namedMoment (toStruct atime) = moment atime := by
  obtain ⟨_, hhigh⟩ := year_bounds atime
  rw [namedMoment_toStruct, Int.emod_eq_of_lt hyear (by omega)]

theorem year_nonneg_of_nonneg (h : 0 ≤ atime.toInt) : 0 ≤ (moment atime).year := by
  obtain ⟨_, hend⟩ := yearOf_spec ((atime.toInt.tdiv 10000000 - unixEpochBiasSec) / 86400 + 719162)
  have hyear : (moment atime).year = yearOf ((atime.toInt.tdiv 10000000 - unixEpochBiasSec) / 86400 + 719162) := rfl
  rw [← hyear, Int.tdiv_eq_ediv_of_nonneg h] at hend
  simp only [yearStart, unixEpochBiasSec] at hend
  omega

theorem decomposed_iff (atime : Int64) : Decomposed atime ↔ Representable atime := by
  constructor
  · intro h
    have hparts := parts_of_fractions h.nanoSec h.microSec h.milliSec
    refine hparts.imp_right (fun hdvd => ⟨hdvd, ?_⟩)
    by_contra hneg
    have hrecomposed := h.recomposed
    rw [recompose_of_parts hparts] at hrecomposed
    obtain ⟨_, _, _, hsecs⟩ := parts_eq hparts
    have hsame : secondNumber (moment atime) = secondNumber (namedMoment (toStruct atime)) := by
      rw [secondNumber_moment, hsecs]
      omega
    obtain ⟨hlow, _⟩ := year_bounds atime
    have hregular : (moment atime).Regular := regular_ofSeconds _
    rw [namedMoment_toStruct] at hsame
    refine secondNumber_ne_of_year hregular ?_ ?_ hsame
    · exact ⟨hregular.month, hregular.day, hregular.hour, hregular.minute, hregular.second⟩
    · dsimp only
      omega
  · intro h
    have hparts : 0 ≤ atime.toInt ∨ 10000000 ∣ atime.toInt := h.imp_right And.left
    have hyear : 0 ≤ (moment atime).year := h.elim year_nonneg_of_nonneg And.right
    obtain ⟨hnano, hmicro, hmilli⟩ := fractions_of_parts hparts
    obtain ⟨_, _, _, hsecs⟩ := parts_eq hparts
    refine ⟨UInt16.lt_iff_toNat_lt.mpr ?_, UInt16.lt_iff_toNat_lt.mpr ?_, UInt16.lt_iff_toNat_lt.mpr ?_, ?_, ?_⟩
    · change (toStruct atime).milliSec.toNat < 1000
      omega
    · change (toStruct atime).microSec.toNat < 1000
      omega
    · change (toStruct atime).nanoSec.toNat < 1000
      omega
    · rw [← UInt16.toNat_inj, UInt16.toNat_mod]
      change (toStruct atime).nanoSec.toNat % 100 = 0
      omega
    · rw [recompose_of_parts hparts, namedMoment_eq hyear, secondNumber_moment, hsecs]
      omega

end Decomposition

section Strings

variable {atime : Int64}

theorem ofNat_mod {n : UInt16} {k : Nat} (h : n.toNat < k) : UInt16.ofNat (n.toNat % k) = n := by
  rw [Nat.mod_eq_of_lt h, UInt16.ofNat_toNat]

theorem fromString_toString (h : Decomposed atime) (hlow : 0 ≤ (moment atime).year) (hhigh : (moment atime).year ≤ 9999)
    {memory : Bool} {s : List UInt8} (hs : toString memory atime = some s) : fromString s = some atime.toInt := by
  have hnamed := namedMoment_eq hlow
  obtain ⟨⟨_, hmonth⟩, ⟨_, hday⟩, hhour, hminute, hsecond⟩ : (moment atime).Regular := regular_ofSeconds _
  rw [← hnamed] at hmonth hday hhour hminute hsecond hhigh
  simp only [namedMoment] at hmonth hday hhour hminute hsecond hhigh
  have hmilli : (toStruct atime).milliSec.toNat < 1000 := UInt16.lt_iff_toNat_lt.mp h.milliSec
  have hmicro : (toStruct atime).microSec.toNat < 1000 := UInt16.lt_iff_toNat_lt.mp h.microSec
  have hnano : (toStruct atime).nanoSec.toNat < 1000 := UInt16.lt_iff_toNat_lt.mp h.nanoSec
  simp only [toString] at hs
  split at hs
  · cases hs
  · obtain rfl := Option.some.inj hs
    simp only [fromString, readNumbers_printNumber, readNumbers_last]
    simp only [Nat.reducePow]
    rw [ofNat_mod hnano, ofNat_mod hmicro, ofNat_mod hmilli, ofNat_mod (by omega), ofNat_mod (by omega),
      ofNat_mod (by omega), ofNat_mod (by omega), ofNat_mod (by omega), ofNat_mod (by omega)]
    exact congrArg some h.recomposed

/-- A time is taken apart and printed such that it can be put together again if
and only if it is not a fraction of a second before 1601 and no time before
year 0. -/
theorem decomposition_iff (atime : Int64) : Decomposed atime ∧ Recovered atime ↔ Representable atime := by
  rw [← decomposed_iff]
  constructor
  · exact And.left
  · intro h
    exact ⟨h, fun hlow hhigh memory s hs => fromString_toString h hlow hhigh hs⟩

/-- Half a millisecond before 1601 is printed like the start of 1601. -/
theorem fraction_not_recovered :
    ¬ Decomposed (-1) ∧ ¬ Recovered (-5360) ∧ toString true (-5360) = toString true 0 := by
  have hsame : toString true (-5360) = toString true 0 := by decide
  refine ⟨fun h => absurd h.nanoSec (by decide), fun h => ?_, hsame⟩
  obtain ⟨s, hs⟩ := Option.isSome_iff_exists.mp (show (toString true 0).isSome = true by decide)
  have hread : (toString true 0).bind fromString = some 0 := by decide
  have hvalue := h (by decide) (by decide) true s (hsame.trans hs)
  rw [hs, Option.bind_some, hvalue] at hread
  exact absurd hread (by decide)

end Strings

end OpcUa.DateTimes
