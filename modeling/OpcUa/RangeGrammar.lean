import Mathlib.Data.List.TakeWhile
import OpcUa.SeparatedLists
import OpcUa.ValueRanges

namespace OpcUa.RangeGrammar

open StatusCodes VariantRanges ValueRanges
open SeparatedLists (Separated Begun separated_single_iff separated_append_iff begun_append)

section Numerals

variable {text more : List UInt8}

/-- The number that a sequence of decimal digits denotes. -/
def value (digits : List UInt8) : Nat := digits.foldl (fun n c => n * 10 + (c - 48).toNat) 0

def IsNumeral (text : List UInt8) : Prop := text ≠ [] ∧ ∀ c ∈ text, isDigit c = true

theorem le_foldl (digits : List UInt8) (n : Nat) : n ≤ digits.foldl (fun n c => n * 10 + (c - 48).toNat) n := by
  induction digits generalizing n with
  | nil => exact Nat.le_refl n
  | cons c digits ih =>
      have hrest := ih (n * 10 + (c - 48).toNat)
      rw [List.foldl_cons]
      omega

theorem value_le_append (text more : List UInt8) : value text ≤ value (text ++ more) := by
  rw [value, value, List.foldl_append]
  exact le_foldl more _

theorem foldl_wraps (digits : List UInt8) (n : Nat) :
    digits.foldl (fun n c => n * 10 + (c - 48).toUInt32) (UInt32.ofNat n) =
      UInt32.ofNat (digits.foldl (fun n c => n * 10 + (c - 48).toNat) n) := by
  induction digits generalizing n with
  | nil => rfl
  | cons c digits ih =>
      rw [List.foldl_cons, List.foldl_cons, ← ih]
      congr 1
      apply UInt32.toNat_inj.mp
      simp

theorem takeWhile_numeral (h : ∀ c ∈ text, isDigit c = true) (hmore : ∀ c ∈ more.head?, isDigit c = false) :
    (text ++ more).takeWhile isDigit = text := by
  rw [List.takeWhile_append_of_pos h]
  cases more with
  | nil => simp
  | cons c more => simp [hmore c rfl]

theorem readNumber_numeral (h : ∀ c ∈ text, isDigit c = true) (hmore : ∀ c ∈ more.head?, isDigit c = false) :
    readNumber (text ++ more) = (UInt32.ofNat (value text), text.length) := by
  rw [readNumber, takeWhile_numeral h hmore, value, ← foldl_wraps]
  rfl

end Numerals

section Dimensions

variable {text rest buf : List UInt8} {pair pair' : Nat × Nat}

/-- A dimension is an index or two of them with a colon. -/
inductive IsDimension : List UInt8 → Nat × Nat → Prop
  | index {a : List UInt8} (ha : IsNumeral a) : IsDimension a (value a, value a)
  | range {a b : List UInt8} (ha : IsNumeral a) (hb : IsNumeral b) : IsDimension (a ++ 58 :: b) (value a, value b)

/-- The dimensions that a string lists, with commas between them. -/
def Denotes (s : List UInt8) (pairs : List (Nat × Nat)) : Prop := Separated 44 IsDimension s pairs

def NamesRange (s : List UInt8) (range : NumericRange) : Prop :=
  Denotes s (range.map (fun d => (d.min.toNat, d.max.toNat)))

def LacksDigit (s : List UInt8) : Prop := ∀ c ∈ s.head?, isDigit c = false

/-- A digit is missing at the start or behind the colon. -/
def Stops (buf : List UInt8) : Prop :=
  LacksDigit buf ∨ ∃ a more, IsNumeral a ∧ LacksDigit more ∧ buf = a ++ 58 :: more

/-- A dimension at the start of a buffer that does not go on behind it. -/
structure Reads (buf text rest : List UInt8) (pair : Nat × Nat) : Prop where
  split : buf = text ++ rest
  dimension : IsDimension text pair
  digit : LacksDigit rest
  colon : ∀ c ∈ rest.head?, c = 58 → 58 ∈ text

theorem not_mem_numeral {c : UInt8} (h : IsNumeral text) (hc : isDigit c = false) : c ∉ text := by
  intro hmem
  rw [h.2 c hmem] at hc
  cases hc

theorem IsDimension.comma (h : IsDimension text pair) : 44 ∉ text := by
  cases h with
  | index ha => exact not_mem_numeral ha rfl
  | range ha hb =>
      intro hmem
      rcases List.mem_append.mp hmem with hmem | hmem
      · exact not_mem_numeral ha rfl hmem
      · rcases List.mem_cons.mp hmem with hmem | hmem
        · cases hmem
        · exact not_mem_numeral hb rfl hmem

theorem IsDimension.unique (h : IsDimension text pair) (h' : IsDimension text pair') : pair = pair' := by
  generalize heq : text = other at h'
  cases h with
  | index ha =>
      cases h' with
      | index ha' => rw [heq]
      | range ha' hb' =>
          have hmem : 58 ∈ text := heq ▸ List.mem_append_right _ List.mem_cons_self
          exact absurd hmem (not_mem_numeral ha rfl)
  | range ha hb =>
      cases h' with
      | index ha' =>
          have hmem : 58 ∈ other := heq ▸ List.mem_append_right _ List.mem_cons_self
          exact absurd hmem (not_mem_numeral ha' rfl)
      | range ha' hb' =>
          obtain ⟨rfl, rfl⟩ := SeparatedLists.append_sep_inj (not_mem_numeral ha rfl) (not_mem_numeral ha' rfl) heq
          rfl

theorem Denotes.unique {s : List UInt8} {pairs pairs' : List (Nat × Nat)} (h : Denotes s pairs)
    (h' : Denotes s pairs') : pairs = pairs' :=
  Separated.unique IsDimension.comma IsDimension.unique h h'

theorem exists_numeral (h : ¬ LacksDigit buf) : ∃ a rest, IsNumeral a ∧ LacksDigit rest ∧ buf = a ++ rest := by
  refine ⟨buf.takeWhile isDigit, buf.dropWhile isDigit, ⟨?_, fun c hc => List.mem_takeWhile_imp hc⟩, ?_,
    (List.takeWhile_append_dropWhile).symm⟩
  · intro hnil
    apply h
    intro c hc
    cases buf with
    | nil => cases hc
    | cons d buf =>
        cases hc
        rw [List.takeWhile_cons] at hnil
        split at hnil
        · cases hnil
        · next hdigit => exact Bool.eq_false_iff.mpr hdigit
  · intro c hc
    have hhead := List.head?_dropWhile_not isDigit buf
    rw [hc] at hhead
    exact Bool.eq_false_iff.mpr (by simpa using hhead)

theorem stops_or_reads (buf : List UInt8) : Stops buf ∨ ∃ text rest pair, Reads buf text rest pair := by
  by_cases hfirst : LacksDigit buf
  · exact .inl (.inl hfirst)
  · obtain ⟨a, rest, ha, hrest, rfl⟩ := exists_numeral hfirst
    cases rest with
    | nil => exact .inr ⟨a, [], _, rfl, .index ha, hrest, fun c hc => nomatch hc⟩
    | cons c rest =>
        by_cases hcolon : c = 58
        · subst hcolon
          by_cases hsecond : LacksDigit rest
          · exact .inl (.inr ⟨a, rest, ha, hsecond, rfl⟩)
          · obtain ⟨b, rest, hb, hlast, rfl⟩ := exists_numeral hsecond
            refine .inr ⟨a ++ 58 :: b, rest, _, ?_, .range ha hb, hlast, fun _ _ _ => ?_⟩
            · rw [List.append_assoc, List.cons_append]
            · exact List.mem_append_right a List.mem_cons_self
        · refine .inr ⟨a, c :: rest, _, rfl, .index ha, hrest, ?_⟩
          rintro _ ⟨⟩ heq
          exact absurd heq hcolon

theorem readNumber_none (h : LacksDigit buf) : readNumber buf = (UInt32.ofNat (value []), 0) := by
  have hnumber : readNumber ([] ++ buf) = (UInt32.ofNat (value []), 0) := readNumber_numeral (fun c hc => nomatch hc) h
  rw [List.nil_append] at hnumber
  exact hnumber

theorem readDimension_stops (h : Stops buf) : readDimension buf = none := by
  rcases h with hfirst | ⟨a, more, ha, hmore, rfl⟩
  · rw [readDimension, readNumber_none hfirst]
    rfl
  · have hcolon : LacksDigit (58 :: more) := by
      rintro _ ⟨⟩
      rfl
    rw [readDimension, readNumber_numeral ha.2 hcolon]
    dsimp only
    rw [if_neg (List.length_pos_iff.mpr ha.1).ne', List.drop_left]
    change (if (readNumber more).2 = 0 then none else some (_, _ + (readNumber more).2 + 1)) = none
    rw [readNumber_none hmore]
    rfl

theorem readDimension_reads (h : Reads buf text rest pair) :
    readDimension buf = some (⟨UInt32.ofNat pair.1, UInt32.ofNat pair.2⟩, text.length) := by
  obtain ⟨rfl, hdimension, hdigit, hcolon⟩ := h
  cases hdimension with
  | index ha =>
      rw [readDimension, readNumber_numeral ha.2 hdigit]
      dsimp only
      rw [if_neg (List.length_pos_iff.mpr ha.1).ne', List.drop_left]
      split
      · next more =>
        exact absurd (hcolon 58 rfl rfl) (not_mem_numeral ha rfl)
      · rfl
  | @range a b ha hb =>
      have hfirst : LacksDigit (58 :: (b ++ rest)) := by
        rintro _ ⟨⟩
        rfl
      rw [List.append_assoc, List.cons_append, readDimension, readNumber_numeral ha.2 hfirst]
      dsimp only
      rw [if_neg (List.length_pos_iff.mpr ha.1).ne', List.drop_left]
      change (if (readNumber (b ++ rest)).2 = 0 then none
        else some ((⟨_, (readNumber (b ++ rest)).1⟩ : RangeDimension), _ + (readNumber (b ++ rest)).2 + 1)) = _
      rw [readNumber_numeral hb.2 hdigit]
      dsimp only
      rw [if_neg (List.length_pos_iff.mpr hb.1).ne', List.length_append, List.length_cons]
      rfl

end Dimensions

section Scanning

/-- How much of a buffer is read if its length has become a `UA_Int32`. It is
nothing if that is negative. -/
def buflen (length : Nat) : Nat :=
  if length % 4294967296 < 2147483648 then length % 4294967296 else 0

/-- `parse_numericrange` for strings of every length, with memory for all
dimensions. -/
def parseNumericRange (s : List UInt8) : Except StatusCode NumericRange :=
  match readDimension (s.take (buflen s.length)) with
  | none => .error badIndexRangeInvalid
  | some (dim, progress) =>
      match _h : s.drop progress with
      | 44 :: rest => (parseNumericRange rest).map (dim :: ·)
      | _ => .ok [dim]
termination_by s.length
decreasing_by
  have hlength := congrArg List.length _h
  rw [List.length_drop, List.length_cons] at hlength
  omega

theorem buflen_of_short {n : Nat} (h : n < 2147483648) : buflen n = n := by
  rw [buflen]
  split <;> omega

theorem buflen_le (n : Nat) : buflen n ≤ n := by
  rw [buflen]
  split <;> omega

theorem buflen_sub {n j : Nat} (h : j ≤ buflen n) : buflen (n - j) = buflen n - j := by
  rw [buflen] at h
  rw [buflen, buflen]
  split at h <;> split <;> omega

theorem buflen_behind {n : Nat} (h : buflen n < n) (hpos : 0 < buflen n) : buflen (n - (buflen n + 1)) = 0 := by
  have hmod : n % 4294967296 < 2147483648 ∧ buflen n = n % 4294967296 := by
    rw [buflen] at hpos ⊢
    split at hpos
    · next hshort => exact ⟨hshort, if_pos hshort⟩
    · omega
  rw [hmod.2] at h hpos ⊢
  rw [buflen, if_neg]
  omega

def Window (seen unseen : List UInt8) : Prop := buflen (seen ++ unseen).length = seen.length

variable {seen unseen text rest : List UInt8} {pair : Nat × Nat} {range : NumericRange}

theorem take_of_window (h : Window seen unseen) : (seen ++ unseen).take (buflen (seen ++ unseen).length) = seen := by
  rw [h]
  exact List.take_left

def dimension (pair : Nat × Nat) : RangeDimension := ⟨UInt32.ofNat pair.1, UInt32.ofNat pair.2⟩

theorem parse_stops (h : Window seen unseen) (hstops : Stops seen) :
    parseNumericRange (seen ++ unseen) = .error badIndexRangeInvalid := by
  rw [parseNumericRange, take_of_window h, readDimension_stops hstops]

theorem parse_reads (h : Window seen unseen) (hreads : Reads seen text rest pair) :
    parseNumericRange (seen ++ unseen) = match rest ++ unseen with
      | 44 :: more => (parseNumericRange more).map (dimension pair :: ·)
      | _ => .ok [dimension pair] := by
  have hdrop : (seen ++ unseen).drop text.length = rest ++ unseen := by
    rw [hreads.split, List.append_assoc]
    exact List.drop_left
  rw [parseNumericRange, take_of_window h, readDimension_reads hreads]
  dsimp only
  split
  · next more hmore =>
    rw [hdrop] at hmore
    rw [hmore]
    rfl
  · next hmore =>
    rw [hdrop] at hmore
    split
    · next more heq => exact absurd heq (hmore more)
    · rfl

inductive Pass (seen unseen : List UInt8) : Prop
  | stops (h : Stops seen) (hparse : parseNumericRange (seen ++ unseen) = .error badIndexRangeInvalid)
  | goesOn {text rest : List UInt8} {pair : Nat × Nat} (hdimension : IsDimension text pair)
      (hseen : seen = text ++ 44 :: rest) (hwindow : Window rest unseen)
      (hparse : parseNumericRange (seen ++ unseen) = (parseNumericRange (rest ++ unseen)).map (dimension pair :: ·))
  | runsOut {more : List UInt8} {pair : Nat × Nat} (hdimension : IsDimension seen pair) (hunseen : unseen = 44 :: more)
      (hparse : parseNumericRange (seen ++ unseen) = .error badIndexRangeInvalid)
  | ends {text rest : List UInt8} {pair : Nat × Nat} (hreads : Reads seen text rest pair)
      (hcomma : 44 ∉ (rest ++ unseen).head?) (hparse : parseNumericRange (seen ++ unseen) = .ok [dimension pair])

theorem window_rest (h : Window (text ++ 44 :: rest) unseen) : Window rest unseen := by
  have hlength : (rest ++ unseen).length = (text ++ 44 :: rest ++ unseen).length - (text.length + 1) := by
    simp only [List.length_append, List.length_cons]
    omega
  rw [Window] at h ⊢
  rw [hlength, buflen_sub, h]
  · simp only [List.length_append, List.length_cons]
    omega
  · rw [h, List.length_append, List.length_cons]
    omega

theorem window_behind {more : List UInt8} (h : Window seen (44 :: more)) (hne : seen ≠ []) : Window [] more := by
  have hlength : ([] ++ more : List UInt8).length = (seen ++ 44 :: more).length - (seen.length + 1) := by
    simp only [List.length_append, List.length_cons, List.length_nil]
    omega
  rw [Window] at h ⊢
  rw [hlength, ← h]
  apply buflen_behind
  · rw [h, List.length_append, List.length_cons]
    omega
  · rw [h]
    exact List.length_pos_iff.mpr hne

theorem IsDimension.ne_nil (h : IsDimension text pair) : text ≠ [] := by
  cases h with
  | index ha => exact ha.1
  | range ha hb => simp

theorem pass (h : Window seen unseen) : Pass seen unseen := by
  rcases stops_or_reads seen with hstops | ⟨text, rest, pair, hreads⟩
  · exact .stops hstops (parse_stops h hstops)
  · have hparse := parse_reads h hreads
    by_cases hcomma : 44 ∈ (rest ++ unseen).head?
    · cases rest with
      | cons c rest =>
          obtain rfl : c = 44 := Option.some.inj hcomma
          have hseen := hreads.split
          subst hseen
          exact .goesOn hreads.dimension rfl (window_rest h) hparse
      | nil =>
          cases unseen with
          | nil => cases hcomma
          | cons c more =>
              obtain rfl : c = 44 := Option.some.inj hcomma
              have hseen := hreads.split
              rw [List.append_nil] at hseen
              subst hseen
              have hwindow := window_behind h hreads.dimension.ne_nil
              have hmore : parseNumericRange more = .error badIndexRangeInvalid :=
                parse_stops hwindow (.inl (fun _ hc => nomatch hc))
              refine .runsOut hreads.dimension rfl ?_
              rw [hparse, List.nil_append]
              change (parseNumericRange more).map _ = _
              rw [hmore]
              rfl
    · refine .ends hreads hcomma ?_
      rw [hparse]
      split
      · next more heq =>
        rw [heq] at hcomma
        exact absurd rfl hcomma
      · rfl

end Scanning

section Ranges

variable {seen unseen text rest text' rest' : List UInt8} {pair pair' : Nat × Nat} {range : NumericRange}

def Small (pair : Nat × Nat) : Prop := pair.1 < 4294967296 ∧ pair.2 < 4294967296

theorem small_dimension_iff (d : RangeDimension) :
    pair = (d.min.toNat, d.max.toNat) ↔ Small pair ∧ d = dimension pair := by
  constructor
  · rintro rfl
    refine ⟨⟨d.min.toNat_lt, d.max.toNat_lt⟩, ?_⟩
    rw [dimension, UInt32.ofNat_toNat, UInt32.ofNat_toNat]
  · rintro ⟨hsmall, rfl⟩
    rw [dimension, UInt32.toNat_ofNat_of_lt' hsmall.1, UInt32.toNat_ofNat_of_lt' hsmall.2]

theorem namesRange_single_iff (h : IsDimension text pair) : NamesRange text range ↔ Small pair ∧ range =
    [dimension pair] := by
  rw [NamesRange, Denotes, separated_single_iff h.comma]
  constructor
  · rintro ⟨b, hrange, hb⟩
    obtain ⟨d, range, rfl, hd, hrest⟩ := List.map_eq_cons_iff.mp hrange
    obtain ⟨hsmall, rfl⟩ := (small_dimension_iff d).mp ((h.unique hb).trans hd.symm)
    exact ⟨hsmall, by rw [List.map_eq_nil_iff.mp hrest]⟩
  · rintro ⟨hsmall, rfl⟩
    have hpair := (small_dimension_iff (dimension pair)).mpr ⟨hsmall, rfl⟩
    exact ⟨pair, by rw [List.map_singleton, ← hpair], h⟩

theorem namesRange_append_iff (h : IsDimension text pair) : NamesRange (text ++ 44 :: rest) range ↔
    Small pair ∧ ∃ tail, range = dimension pair :: tail ∧ NamesRange rest tail := by
  rw [NamesRange, Denotes, separated_append_iff IsDimension.comma h.comma]
  constructor
  · rintro ⟨b, cs, hrange, hb, hrest⟩
    obtain ⟨d, range, rfl, hd, rfl⟩ := List.map_eq_cons_iff.mp hrange
    obtain ⟨hsmall, rfl⟩ := (small_dimension_iff d).mp ((h.unique hb).trans hd.symm)
    exact ⟨hsmall, range, rfl, hrest⟩
  · rintro ⟨hsmall, tail, rfl, hrest⟩
    have hpair := (small_dimension_iff (dimension pair)).mpr ⟨hsmall, rfl⟩
    exact ⟨pair, _, by rw [List.map_cons, ← hpair], h, hrest⟩

theorem not_namesRange_nil : ¬ NamesRange text [] := by
  intro h
  cases h

theorem reads_whole (h : IsDimension text pair) : Reads text text [] pair :=
  ⟨(List.append_nil text).symm, h, fun _ hc => (nomatch hc), fun _ hc => nomatch hc⟩

theorem reads_comma (h : IsDimension text pair) : Reads (text ++ 44 :: rest) text (44 :: rest) pair := by
  refine ⟨rfl, h, ?_, ?_⟩
  · rintro _ ⟨⟩
    rfl
  · rintro _ ⟨⟩ hcolon
    cases hcolon

theorem Reads.not_stops (h : Reads seen text rest pair) : ¬ Stops seen := by
  intro hstops
  have hread := readDimension_reads h
  rw [readDimension_stops hstops] at hread
  cases hread

theorem Reads.unique (h : Reads seen text rest pair) (h' : Reads seen text' rest' pair') :
    text = text' ∧ rest = rest' := by
  have hread := readDimension_reads h
  rw [readDimension_reads h', Option.some.injEq, Prod.mk.injEq] at hread
  exact List.append_inj (h.split.symm.trans h'.split) hread.2.symm

/-- The scan comes to a place where a digit is missing, or to a comma that it
sees too late. -/
def Refused (seen unseen : List UInt8) : Prop :=
  ∃ s, Begun 44 IsDimension seen s ∧ (Stops s ∨ unseen.head? = some 44 ∧ ∃ pair, IsDimension s pair)

theorem refused_append_iff (h : IsDimension text pair) : Refused (text ++ 44 :: rest) unseen ↔ Refused rest unseen := by
  constructor
  · rintro ⟨s, hbegun, hs⟩
    rcases begun_append IsDimension.comma h.comma hbegun with rfl | ⟨_, hrest⟩
    · rcases hs with hstops | ⟨_, pair', hpair⟩
      · exact absurd hstops (reads_comma h).not_stops
      · exact absurd (List.mem_append_right _ List.mem_cons_self) hpair.comma
    · exact ⟨s, hrest, hs⟩
  · rintro ⟨s, hbegun, hs⟩
    exact ⟨s, .item h hbegun, hs⟩

theorem not_refused_of_ends (h : Reads seen text rest pair) (hcomma : 44 ∉ (rest ++ unseen).head?) :
    ¬ Refused seen unseen := by
  rintro ⟨s, hbegun, hs⟩
  cases hbegun with
  | refl =>
      rcases hs with hstops | ⟨hunseen, pair', hpair⟩
      · exact h.not_stops hstops
      · obtain ⟨_, rfl⟩ := h.unique (reads_whole hpair)
        exact hcomma hunseen
  | item hitem _ =>
      obtain ⟨_, rfl⟩ := h.unique (reads_comma hitem)
      exact hcomma rfl

theorem parse_error_iff (h : Window seen unseen) :
    (∃ code, parseNumericRange (seen ++ unseen) = .error code) ↔ Refused seen unseen := by
  induction hlength : seen.length using Nat.strong_induction_on generalizing seen with
  | _ n ih =>
      cases pass h with
      | stops hstops hparse => exact ⟨fun _ => ⟨seen, .refl, .inl hstops⟩, fun _ => ⟨_, hparse⟩⟩
      | @runsOut more pair hdimension hunseen hparse =>
          refine ⟨fun _ => ⟨seen, .refl, .inr ⟨?_, pair, hdimension⟩⟩, fun _ => ⟨_, hparse⟩⟩
          rw [hunseen]
          rfl
      | ends hreads hcomma hparse =>
          rw [hparse]
          constructor
          · rintro ⟨code, hcode⟩
            cases hcode
          · intro hrefused
            exact absurd hrefused (not_refused_of_ends hreads hcomma)
      | @goesOn text rest pair hdimension hseen hwindow hparse =>
          subst hseen
          have hrest := ih rest.length (by rw [← hlength, List.length_append, List.length_cons]; omega) hwindow rfl
          rw [hparse, refused_append_iff hdimension, ← hrest]
          cases parseNumericRange (rest ++ unseen) with
          | error code => simp [Except.map]
          | ok range => simp [Except.map]

theorem eq_nil_of_digits (hlacks : LacksDigit rest) (h : ∀ c ∈ rest, isDigit c = true) : rest = [] := by
  cases rest with
  | nil => rfl
  | cons c rest =>
      have hdigit := h c List.mem_cons_self
      rw [hlacks c rfl] at hdigit
      cases hdigit

theorem prefix_numeral {a b more : List UInt8} (h : 58 ∉ text) (heq : text ++ more = a ++ 58 :: b) :
    ∃ c, a = text ++ c ∧ more = c ++ 58 :: b := by
  rcases List.append_eq_append_iff.mp heq with ⟨c, ha, hmore⟩ | ⟨c, htext, hmore⟩
  · exact ⟨c, ha, hmore⟩
  · cases c with
    | nil =>
        rw [List.append_nil] at htext
        exact ⟨[], by rw [htext, List.append_nil], hmore.symm⟩
    | cons d c =>
        obtain rfl : 58 = d := (List.cons.inj hmore).1
        rw [htext] at h
        exact absurd (List.mem_append_right a List.mem_cons_self) h

/-- A dimension that goes on behind the window begins in it with a smaller
one. -/
theorem Reads.prefix_le (h : Reads seen text rest pair) (hwhole : IsDimension (seen ++ unseen) pair') :
    rest = [] ∧ pair.1 ≤ pair'.1 ∧ (pair.2 ≤ pair'.2 ∨ pair.2 = pair.1) := by
  obtain ⟨rfl, hdimension, hdigit, hcolon⟩ := h
  rw [List.append_assoc] at hwhole
  generalize heq : text ++ (rest ++ unseen) = whole at hwhole
  cases hwhole with
  | index hwhole =>
      subst heq
      have hrest : rest = [] := eq_nil_of_digits hdigit (fun c hc => hwhole.2 c (by simp [hc]))
      cases hdimension with
      | index ha => exact ⟨hrest, value_le_append text _, .inr rfl⟩
      | range ha hb =>
          have hc := hwhole.2 58 (by simp)
          cases hc
  | @range a b ha hb =>
      cases hdimension with
      | index htext =>
          have hnot : 58 ∉ text := not_mem_numeral htext rfl
          obtain ⟨c, rfl, hmore⟩ := prefix_numeral hnot heq
          refine ⟨?_, value_le_append text c, .inr rfl⟩
          cases rest with
          | nil => rfl
          | cons d rest =>
              cases c with
              | nil => exact absurd (hcolon d rfl (List.cons.inj hmore).1) hnot
              | cons d' c =>
                  have hd := ha.2 d (by simp [(List.cons.inj hmore).1])
                  rw [hdigit d rfl] at hd
                  cases hd
      | range ha' hb' =>
          rw [List.append_assoc, List.cons_append] at heq
          obtain ⟨rfl, rfl⟩ := SeparatedLists.append_sep_inj (not_mem_numeral ha' rfl) (not_mem_numeral ha rfl) heq
          have hrest : rest = [] := eq_nil_of_digits hdigit (fun c hc => hb.2 c (by simp [hc]))
          exact ⟨hrest, Nat.le_refl _, .inl (value_le_append _ _)⟩

/-- If the dimensions are those of the whole string, they are those of its
first part. -/
theorem namesRange_of_parse (h : Window seen unseen) (hparse : parseNumericRange (seen ++ unseen) = .ok range)
    (hrange : NamesRange (seen ++ unseen) range) : NamesRange seen range := by
  induction hlength : seen.length using Nat.strong_induction_on generalizing seen range with
  | _ n ih =>
      cases pass h with
      | stops _ hpass | runsOut _ _ hpass =>
          rw [hparse] at hpass
          cases hpass
      | @goesOn text rest pair hdimension hseen hwindow hpass =>
          subst hseen
          rw [List.append_assoc, List.cons_append] at hrange
          obtain ⟨hsmall, tail, rfl, hrest⟩ := (namesRange_append_iff hdimension).mp hrange
          have htail : parseNumericRange (rest ++ unseen) = .ok tail := by
            rw [hparse] at hpass
            cases hmore : parseNumericRange (rest ++ unseen) with
            | error code =>
                rw [hmore] at hpass
                cases hpass
            | ok range =>
                rw [hmore] at hpass
                cases hpass
                rfl
          have hshorter : rest.length < n := by
            rw [← hlength, List.length_append, List.length_cons]
            omega
          exact (namesRange_append_iff hdimension).mpr ⟨hsmall, tail, rfl, ih _ hshorter hwindow htail hrest rfl⟩
      | @ends text rest pair hreads _ hpass =>
          rw [hparse] at hpass
          cases hpass
          have hwhole : ∃ pair', IsDimension (seen ++ unseen) pair' ∧ Small pair' := by
            rcases Separated.head_cases hrange with ⟨pair', hitem, heq⟩ | ⟨_, _, _, cs, _, _, heq, hrest⟩
            · obtain rfl := (List.cons.inj heq).1
              exact ⟨_, hitem, (dimension pair).min.toNat_lt, (dimension pair).max.toNat_lt⟩
            · obtain rfl : [] = cs := (List.cons.inj heq).2
              cases hrest
          obtain ⟨pair', hpair', hsmall'⟩ := hwhole
          obtain ⟨rfl, hfirst, hsecond⟩ := hreads.prefix_le hpair'
          have hsmall : Small pair := by
            refine ⟨Nat.lt_of_le_of_lt hfirst hsmall'.1, ?_⟩
            rcases hsecond with hle | heq
            · exact Nat.lt_of_le_of_lt hle hsmall'.2
            · rw [heq]
              exact Nat.lt_of_le_of_lt hfirst hsmall'.1
          have hseen := hreads.split
          rw [List.append_nil] at hseen
          rw [hseen]
          exact (namesRange_single_iff hreads.dimension).mpr ⟨hsmall, rfl⟩

theorem parse_of_namesRange (h : Window seen unseen) (hseen : NamesRange seen range)
    (hrange : NamesRange (seen ++ unseen) range) : parseNumericRange (seen ++ unseen) = .ok range := by
  induction hlength : seen.length using Nat.strong_induction_on generalizing seen range with
  | _ n ih =>
      cases pass h with
      | stops hstops _ =>
          exfalso
          rcases Separated.head_cases hseen with ⟨_, hitem, _⟩ | ⟨_, _, _, _, hitem, rfl, _, _⟩
          · exact (reads_whole hitem).not_stops hstops
          · exact (reads_comma hitem).not_stops hstops
      | runsOut hdimension hunseen _ =>
          exfalso
          subst hunseen
          obtain ⟨_, rfl⟩ := (namesRange_single_iff hdimension).mp hseen
          obtain ⟨_, tail, htail, hmore⟩ := (namesRange_append_iff hdimension).mp hrange
          rw [← (List.cons.inj htail).2] at hmore
          exact not_namesRange_nil hmore
      | @goesOn text rest pair hdimension hsplit hwindow hpass =>
          subst hsplit
          rw [List.append_assoc, List.cons_append] at hrange
          obtain ⟨_, tail, rfl, hmore⟩ := (namesRange_append_iff hdimension).mp hseen
          obtain ⟨_, tail', htail, hrest⟩ := (namesRange_append_iff hdimension).mp hrange
          rw [← (List.cons.inj htail).2] at hrest
          have hshorter : rest.length < n := by
            rw [← hlength, List.length_append, List.length_cons]
            omega
          rw [hpass, ih _ hshorter hwindow hmore hrest rfl]
          rfl
      | @ends text rest pair hreads hcomma hpass =>
          rw [hpass]
          have hsingle : rest = [] := by
            rcases Separated.head_cases hseen with ⟨_, hitem, _⟩ | ⟨_, _, _, _, hitem, rfl, _, _⟩
            · exact (hreads.unique (reads_whole hitem)).2
            · rw [(hreads.unique (reads_comma hitem)).2] at hcomma
              exact absurd rfl hcomma
          have hsplit := hreads.split
          rw [hsingle, List.append_nil] at hsplit
          rw [hsplit] at hseen
          rw [((namesRange_single_iff hreads.dimension).mp hseen).2]

theorem NamesRange.unique {s : List UInt8} {range range' : NumericRange} (h : NamesRange s range)
    (h' : NamesRange s range') : range = range' := by
  refine List.map_injective_iff.mpr ?_ (Denotes.unique h h')
  rintro ⟨min, max⟩ ⟨min', max'⟩ heq
  obtain ⟨hmin, hmax⟩ := Prod.mk.inj heq
  rw [RangeDimension.mk.injEq]
  exact ⟨UInt32.toNat_inj.mp hmin, UInt32.toNat_inj.mp hmax⟩

end Ranges

section Parsing

variable (s : List UInt8)

def visible : List UInt8 := s.take (buflen s.length)

def hidden : List UInt8 := s.drop (buflen s.length)

def ParsesExactly : Prop := ∀ range, parseNumericRange s = .ok range ↔ NamesRange s range

theorem window_visible : Window (visible s) (hidden s) := by
  rw [Window, visible, hidden, List.take_append_drop, List.length_take, Nat.min_eq_left (buflen_le s.length)]

theorem visible_append_hidden : visible s ++ hidden s = s := List.take_append_drop _ _

/-- Numbers wrap around and what follows the last dimension is not looked
at. -/
theorem parses_exactly_iff : ParsesExactly s ↔
    (∃ range, NamesRange s range ∧ NamesRange (visible s) range) ∨
      (∀ range, ¬ NamesRange s range) ∧ Refused (visible s) (hidden s) := by
  have hwindow := window_visible s
  have hrefused := parse_error_iff hwindow
  rw [visible_append_hidden] at hrefused
  constructor
  · intro h
    cases hparse : parseNumericRange s with
    | error code =>
        refine .inr ⟨fun range hrange => ?_, hrefused.mp ⟨code, hparse⟩⟩
        rw [(h range).mpr hrange] at hparse
        cases hparse
    | ok range =>
        have hrange := (h range).mp hparse
        rw [← visible_append_hidden s] at hparse hrange
        have hvisible := namesRange_of_parse hwindow hparse hrange
        rw [visible_append_hidden] at hrange
        exact .inl ⟨range, hrange, hvisible⟩
  · rintro (⟨range, hrange, hvisible⟩ | ⟨hnone, herror⟩) range'
    · have hparse := hrange
      rw [← visible_append_hidden s] at hparse
      have hok := parse_of_namesRange hwindow hvisible hparse
      rw [visible_append_hidden] at hok
      rw [hok, Except.ok.injEq]
      constructor
      · rintro rfl
        exact hrange
      · intro hrange'
        exact hrange.unique hrange'
    · obtain ⟨code, hcode⟩ := hrefused.mpr herror
      rw [hcode]
      constructor
      · intro hok
        cases hok
      · intro hrange'
        exact absurd hrange' (hnone range')

theorem window_of_short {s : List UInt8} (h : s.length < 2147483648) : Window s [] := by
  rw [Window, List.append_nil]
  exact buflen_of_short h

theorem short_stops {s : List UInt8} (h : Stops s) : ValueRanges.parseNumericRange s = .error badIndexRangeInvalid := by
  rw [ValueRanges.parseNumericRange, readDimension_stops h]

theorem short_reads_comma {s text more : List UInt8} {pair : Nat × Nat} (h : Reads s text (44 :: more) pair) :
    ValueRanges.parseNumericRange s = (ValueRanges.parseNumericRange more).map (dimension pair :: ·) := by
  have hdrop : s.drop text.length = 44 :: more := by
    rw [h.split]
    exact List.drop_left
  rw [ValueRanges.parseNumericRange, readDimension_reads h]
  dsimp only
  split
  · next hmore =>
    rw [hdrop] at hmore
    obtain ⟨-, rfl⟩ := List.cons.inj hmore
    rfl
  · next hmore => exact absurd hdrop (hmore more)

theorem short_reads_end {s text rest : List UInt8} {pair : Nat × Nat} (h : Reads s text rest pair)
    (hcomma : 44 ∉ rest.head?) : ValueRanges.parseNumericRange s = .ok [dimension pair] := by
  have hdrop : s.drop text.length = rest := by
    rw [h.split]
    exact List.drop_left
  rw [ValueRanges.parseNumericRange, readDimension_reads h]
  dsimp only
  split
  · next hmore =>
    rw [hdrop] at hmore
    rw [hmore] at hcomma
    exact absurd rfl hcomma
  · rfl

/-- Where the length is not cut, the parser over lists that the services use
reads what this one reads. -/
theorem parseNumericRange_of_short (h : s.length < 2147483648) :
    parseNumericRange s = ValueRanges.parseNumericRange s := by
  induction hlength : s.length using Nat.strong_induction_on generalizing s with
  | _ n ih =>
      have hpass := pass (window_of_short h)
      rw [← List.append_nil s]
      cases hpass with
      | stops hstops hparse => rw [hparse, List.append_nil, short_stops hstops]
      | runsOut _ hunseen _ => cases hunseen
      | ends hreads hcomma hparse =>
          rw [List.append_nil] at hcomma
          rw [hparse, List.append_nil, short_reads_end hreads hcomma]
      | @goesOn text rest pair hdimension hsplit _ hparse =>
          subst hsplit
          have hmore : parseNumericRange rest = ValueRanges.parseNumericRange rest := by
            rw [List.length_append, List.length_cons] at h hlength
            exact ih rest.length (by omega) rest (by omega) rfl
          rw [hparse, List.append_nil, List.append_nil, short_reads_comma (reads_comma hdimension), hmore]

/-- The letter behind the 1 is ignored. -/
theorem trailing_letter_accepted : ¬ ParsesExactly [49, 120] := by
  intro h
  have hnumeral : IsNumeral [49] := by
    refine ⟨List.cons_ne_nil 49 [], fun c hc => ?_⟩
    obtain rfl := List.mem_singleton.mp hc
    rfl
  have hreads : Reads [49, 120] [49] [120] (1, 1) := by
    refine ⟨rfl, .index hnumeral, ?_, ?_⟩
    · rintro _ ⟨⟩
      rfl
    · rintro _ ⟨⟩ hcolon
      cases hcolon
  have hwindow : Window [49, 120] [] := window_of_short (by simp)
  have hrange := (h [⟨1, 1⟩]).mp (parse_reads hwindow hreads)
  rcases Separated.head_cases hrange with ⟨_, hitem, _⟩ | ⟨_, _, _, _, hitem, heq, _, _⟩
  · cases (hreads.unique (reads_whole hitem)).2
  · rw [heq] at hreads
    cases (hreads.unique (reads_comma hitem)).2

end Parsing

end OpcUa.RangeGrammar
