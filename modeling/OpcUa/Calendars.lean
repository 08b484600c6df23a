import Mathlib.Algebra.BigOperators.Group.List.Basic
import Mathlib.Algebra.Ring.Nat

namespace OpcUa.Calendars

/-- A date and a time of day in the Gregorian calendar. Months and days are
counted from one. -/
structure Moment where
  year : Int
  month : Nat
  day : Nat
  hour : Nat
  minute : Nat
  second : Nat
deriving DecidableEq, Repr

section Years

def isLeap (y : Int) : Bool := y % 4 == 0 && (y % 100 != 0 || y % 400 == 0)

def yearLength (y : Int) : Int := if isLeap y then 366 else 365

/-- The days from the start of year 1 to the start of a year. -/
def yearStart (y : Int) : Int := 365 * (y - 1) + (y - 1) / 4 - (y - 1) / 100 + (y - 1) / 400

/-- The year of a day. The average length of a year gives it up to one. -/
def yearOf (n : Int) : Int :=
  let y := 400 * n / 146097 + 1
  if n < yearStart y then y - 1 else if yearStart (y + 1) ≤ n then y + 1 else y

theorem yearStart_succ (y : Int) : yearStart (y + 1) = yearStart y + yearLength y := by
  have hleap : isLeap y = true ↔ y % 4 = 0 ∧ (¬ y % 100 = 0 ∨ y % 400 = 0) := by simp [isLeap]
  simp only [yearStart, yearLength, add_sub_cancel_right]
  by_cases hfour : y % 4 = 0
  · by_cases hhundred : y % 100 = 0
    · by_cases hcycle : y % 400 = 0
      · rw [if_pos (hleap.mpr ⟨hfour, .inr hcycle⟩)]
        omega
      · rw [if_neg (mt hleap.mp (by simp [hhundred, hcycle]))]
        omega
    · rw [if_pos (hleap.mpr ⟨hfour, .inl hhundred⟩)]
      omega
  · rw [if_neg (mt hleap.mp (by simp [hfour]))]
    have hhundred : y % 100 ≠ 0 := by omega
    omega

theorem yearOf_spec (n : Int) : yearStart (yearOf n) ≤ n ∧ n < yearStart (yearOf n + 1) := by
  rw [yearOf]
  generalize hy : 400 * n / 146097 + 1 = y
  split
  · next hbefore =>
    simp only [yearStart] at *
    omega
  · next hstarted =>
    split
    · next hbehind =>
      simp only [yearStart] at *
      omega
    · next hwithin =>
      simp only [yearStart] at *
      omega

theorem yearStart_lt {y y' : Int} (h : y < y') : yearStart y + 365 ≤ yearStart y' := by
  simp only [yearStart]
  omega

end Years

section Months

def monthLengths (leap : Bool) : List Nat := [31, if leap then 29 else 28, 31, 30, 31, 30, 31, 31, 30, 31, 30, 31]

def monthStart (leap : Bool) (month : Nat) : Nat := ((monthLengths leap).take (month - 1)).sum

/-- The place of a day in parts of the given lengths, and how far it is into
its part. -/
def locate : List Nat → Nat → Nat × Nat
  | [], n => (0, n)
  | l :: ls, n => if n < l then (0, n) else ((locate ls (n - l)).1 + 1, (locate ls (n - l)).2)

theorem locate_sum (ls : List Nat) (n : Nat) : (ls.take (locate ls n).1).sum + (locate ls n).2 = n := by
  induction ls generalizing n with
  | nil => simp [locate]
  | cons l ls ih =>
      by_cases h : n < l
      · simp [locate, h]
      · have hrest := ih (n - l)
        simp only [locate, h, if_false, List.take_succ_cons, List.sum_cons]
        omega

theorem locate_lt {ls : List Nat} {n : Nat} (h : n < ls.sum) :
    ∃ l, ls[(locate ls n).1]? = some l ∧ (locate ls n).2 < l := by
  induction ls generalizing n with
  | nil => simp at h
  | cons l ls ih =>
      by_cases hl : n < l
      · exact ⟨l, by simp [locate, hl], by simp [locate, hl]⟩
      · simp only [List.sum_cons] at h
        obtain ⟨l', hget, hlt⟩ := ih (n := n - l) (by omega)
        exact ⟨l', by simp [locate, hl, hget], by simp [locate, hl, hlt]⟩

theorem sum_monthLengths (leap : Bool) : (monthLengths leap).sum = if leap then 366 else 365 := by
  cases leap <;> rfl

theorem length_monthLengths (leap : Bool) : (monthLengths leap).length = 12 := rfl

theorem monthLengths_le (leap : Bool) : ∀ l ∈ monthLengths leap, l ≤ 31 := by
  cases leap <;> decide

theorem monthStart_le (leap : Bool) (month : Nat) : monthStart leap month ≤ 366 := by
  have hsum := List.sum_take_add_sum_drop (monthLengths leap) (month - 1)
  rw [sum_monthLengths] at hsum
  rw [monthStart]
  split at hsum <;> omega

end Months

section Conversions

def dayNumber (year : Int) (month day : Nat) : Int :=
  yearStart year + monthStart (isLeap year) month + day - 1 - 719162

def secondNumber (m : Moment) : Int :=
  dayNumber m.year m.month m.day * 86400 + m.hour * 3600 + m.minute * 60 + m.second

def ofSeconds (s : Int) : Moment :=
  let n := s / 86400 + 719162
  let year := yearOf n
  let place := locate (monthLengths (isLeap year)) (n - yearStart year).toNat
  let rem := (s % 86400).toNat
  { year := year
    month := place.1 + 1
    day := place.2 + 1
    hour := rem / 3600
    minute := rem % 3600 / 60
    second := rem % 60 }

/-- The members are those of a date and a time of day. -/
structure Moment.Regular (m : Moment) : Prop where
  month : 1 ≤ m.month ∧ m.month ≤ 12
  day : 1 ≤ m.day ∧ m.day ≤ 31
  hour : m.hour < 24
  minute : m.minute < 60
  second : m.second < 60

theorem secondNumber_ofSeconds (s : Int) : secondNumber (ofSeconds s) = s := by
  obtain ⟨hstart, _⟩ := yearOf_spec (s / 86400 + 719162)
  have hplace := locate_sum (monthLengths (isLeap (yearOf (s / 86400 + 719162))))
    (s / 86400 + 719162 - yearStart (yearOf (s / 86400 + 719162))).toNat
  simp only [secondNumber, dayNumber, ofSeconds, monthStart, Nat.add_sub_cancel]
  omega

theorem regular_ofSeconds (s : Int) : (ofSeconds s).Regular := by
  obtain ⟨hstart, hend⟩ := yearOf_spec (s / 86400 + 719162)
  have hlength : (s / 86400 + 719162 - yearStart (yearOf (s / 86400 + 719162))).toNat <
      (monthLengths (isLeap (yearOf (s / 86400 + 719162)))).sum := by
    rw [yearStart_succ] at hend
    rw [sum_monthLengths]
    simp only [yearLength] at hend
    split at hend <;> split <;> omega
  obtain ⟨l, hget, hlt⟩ := locate_lt hlength
  have hmonth : (locate (monthLengths (isLeap (yearOf (s / 86400 + 719162))))
      (s / 86400 + 719162 - yearStart (yearOf (s / 86400 + 719162))).toNat).1 < 12 := by
    rw [← length_monthLengths (isLeap (yearOf (s / 86400 + 719162)))]
    exact (List.getElem?_eq_some_iff.mp hget).1
  have hday := monthLengths_le _ l (List.mem_of_getElem? hget)
  refine ⟨⟨?_, ?_⟩, ⟨?_, ?_⟩, ?_, ?_, ?_⟩ <;> simp only [ofSeconds] <;> omega

theorem secondNumber_ne_of_year {m m' : Moment} (hm : m.Regular) (hm' : m'.Regular) (h : m.year + 2 ≤ m'.year) :
    secondNumber m ≠ secondNumber m' := by
  have hyears := yearStart_lt (show m.year < m.year + 1 by omega)
  have hyears' : yearStart (m.year + 1) + 365 ≤ yearStart m'.year := yearStart_lt (by omega)
  have hbound := monthStart_le (isLeap m.year) m.month
  obtain ⟨_, ⟨_, hday⟩, hhour, hminute, hsecond⟩ := hm
  obtain ⟨_, ⟨hday', _⟩, _, _, _⟩ := hm'
  simp only [secondNumber, dayNumber]
  omega

end Conversions

end OpcUa.Calendars
