import Mathlib.Data.List.TakeWhile
import Mathlib.Data.Nat.Digits.Lemmas

namespace OpcUa.ServerUrls

def isSpace (b : UInt8) : Bool := b = 32 || (9 ≤ b && b ≤ 13)

def isDigit (b : UInt8) : Bool := 48 ≤ b && b ≤ 57

def digit (b : UInt8) : Nat := b.toNat - 48

def numeral (digits : List UInt8) : Nat := digits.foldl (fun n b => n * 10 + digit b) 0

/-- What `strtoul` returns for the base 10, where there are digits, and whether
it sets `errno` to `ERANGE`. A number of 64 bits is negated if there is a minus
sign. -/
def strtoul (s : List UInt8) : Option (Nat × Bool) :=
  let s := s.dropWhile isSpace
  let sign := s.head?.filter (fun b => b = 43 || b = 45)
  let digits := (s.drop sign.toList.length).takeWhile isDigit
  let n := numeral digits
  if digits = [] then none
  else if n ≥ 2 ^ 64 then some (2 ^ 64 - 1, true)
  else if sign = some 45 then some ((2 ^ 64 - n) % 2 ^ 64, false)
  else some (n, false)

/-- The port behind the colon, or 0. An earlier `ERANGE` is still in `errno`. -/
def portNumber (outOfRange : Bool) (s : List UInt8) : UInt16 :=
  match strtoul s with
  | none => 0
  | some (n, overflow) => if (outOfRange || overflow) = false ∧ n < 65535 then n.toUInt16 else 0

/-- The loop over the positions before the last one: the bytes up to the colon
and the port. -/
def hostAndPort (outOfRange : Bool) : List UInt8 → List UInt8 × UInt16
  | [] => ([], 0)
  | [_] => ([], 0)
  | b :: next :: rest =>
      if b = 58 then ([], portNumber outOfRange (next :: rest))
      else
        let r := hostAndPort outOfRange (next :: rest)
        (b :: r.1, r.2)

/-- `opc.tcp://` -/
def scheme : List UInt8 := [111, 112, 99, 46, 116, 99, 112, 58, 47, 47]

/-- The host and the port of the server in `ClientNetworkLayerTCP_connect`, for
a url without the zero at its end. -/
def serverOf (outOfRange : Bool) (endpointUrl : List UInt8) : Option (List UInt8 × UInt16) :=
  if endpointUrl.length < 11 ∨ endpointUrl.length ≥ 512 then none
  else if endpointUrl.take 10 ≠ scheme then none
  else
    -- the search begins at the last slash of the scheme, which is no colon
    let r := hostAndPort outOfRange (endpointUrl.drop 10)
    if r.2 = 0 then none else some r

section Numbers

/-- What `strtoul` takes for a number: blanks, a sign or none, and digits as
far as they go. -/
structure Numbered (s blanks : List UInt8) (sign : Option UInt8) (digits suffix : List UInt8) : Prop where
  parts : s = blanks ++ (sign.toList ++ (digits ++ suffix))
  blanks : ∀ b ∈ blanks, isSpace b = true
  sign : ∀ b ∈ sign, b = 43 ∨ b = 45
  some_digits : digits ≠ []
  digits : ∀ b ∈ digits, isDigit b = true
  ends : ∀ b ∈ suffix.head?, isDigit b = false

def value (sign : Option UInt8) (digits : List UInt8) : Nat :=
  if sign = some 45 then (2 ^ 64 - numeral digits) % 2 ^ 64 else numeral digits

def result (sign : Option UInt8) (digits : List UInt8) : Nat × Bool :=
  if numeral digits ≥ 2 ^ 64 then (2 ^ 64 - 1, true) else (value sign digits, false)

variable {s blanks digits suffix host url : List UInt8} {sign : Option UInt8} {port : UInt16} {outOfRange : Bool}

theorem digit_plain {b : UInt8} (h : isDigit b = true) : isSpace b = false ∧ ¬ (b = 43 ∨ b = 45) := by
  simp only [isDigit, isSpace, Bool.and_eq_true, decide_eq_true_eq, UInt8.le_iff_toNat_le, Bool.or_eq_false_iff,
    Bool.and_eq_false_iff, decide_eq_false_iff_not, ← UInt8.toNat_inj] at h ⊢
  simp only [UInt8.reduceToNat] at h ⊢
  omega

theorem takeWhile_stops {p : UInt8 → Bool} {l l' : List UInt8} (hl : ∀ b ∈ l, p b = true)
    (hl' : ∀ b ∈ l'.head?, p b = false) : (l ++ l').takeWhile p = l ∧ (l ++ l').dropWhile p = l' := by
  rw [List.takeWhile_append_of_pos hl, List.dropWhile_append_of_pos hl]
  cases l' with
  | nil => exact ⟨List.append_nil l, rfl⟩
  | cons b l' =>
      have hb : p b = false := hl' b rfl
      exact ⟨by simp [hb], by simp [hb]⟩

theorem strtoul_numbered (h : Numbered s blanks sign digits suffix) : strtoul s = some (result sign digits) := by
  obtain ⟨d, rest, hdigits⟩ := List.exists_cons_of_ne_nil h.some_digits
  obtain ⟨hspace, hplain⟩ := digit_plain (h.digits d (hdigits ▸ List.mem_cons_self))
  have hdropped : s.dropWhile isSpace = sign.toList ++ (digits ++ suffix) := by
    rw [h.parts]
    refine (takeWhile_stops h.blanks ?_).2
    cases hsign : sign with
    | none =>
        rw [hdigits]
        rintro _ ⟨⟩
        exact hspace
    | some b =>
        rintro _ ⟨⟩
        rcases h.sign b hsign with rfl | rfl <;> rfl
  have hsign : (sign.toList ++ (digits ++ suffix)).head?.filter (fun b => b = 43 || b = 45) = sign := by
    cases hsign : sign with
    | none =>
        rw [hdigits]
        simp only [Option.toList_none, List.nil_append, List.cons_append, List.head?_cons, Option.filter_some]
        rw [if_neg (by simpa using hplain)]
    | some b =>
        simp only [Option.toList_some, List.cons_append, List.head?_cons, Option.filter_some]
        rw [if_pos (by simpa using h.sign b hsign)]
  have htaken := (takeWhile_stops h.digits h.ends).1
  rw [strtoul]
  simp only [hdropped, hsign, List.drop_left, htaken, if_neg h.some_digits, result, value]
  split
  · rfl
  · split <;> rfl

theorem sign_dropped (rest : List UInt8) (p : UInt8 → Bool) :
    rest = (rest.head?.filter p).toList ++ rest.drop (rest.head?.filter p).toList.length := by
  cases rest with
  | nil => rfl
  | cons b rest =>
      rw [List.head?_cons, Option.filter_some]
      split <;> rfl

theorem head_dropWhile {p : UInt8 → Bool} {l : List UInt8} : ∀ b ∈ (l.dropWhile p).head?, p b = false := by
  intro b hb
  have hhead := List.head?_dropWhile_not p l
  rw [hb] at hhead
  exact hhead

theorem numbered_of_strtoul {r : Nat × Bool} (h : strtoul s = some r) :
    ∃ blanks sign digits suffix, Numbered s blanks sign digits suffix := by
  unfold strtoul at h
  extract_lets rest sign digits at h
  split at h
  · cases h
  · rename_i hdigits
    have hsign : ∀ b ∈ sign, b = 43 ∨ b = 45 := by
      intro b hb
      simpa using (Option.mem_filter_iff.mp hb).2
    refine ⟨s.takeWhile isSpace, sign, digits, (rest.drop sign.toList.length).dropWhile isDigit, ?_,
      fun b hb => List.mem_takeWhile_imp hb, hsign, hdigits, fun b hb => List.mem_takeWhile_imp hb, head_dropWhile⟩
    have hparts : sign.toList ++ (digits ++ (rest.drop sign.toList.length).dropWhile isDigit) = rest := by
      rw [List.takeWhile_append_dropWhile]
      exact (sign_dropped rest _).symm
    rw [hparts, List.takeWhile_append_dropWhile]

theorem strtoul_iff {r : Nat × Bool} : strtoul s = some r ↔
    ∃ blanks sign digits suffix, Numbered s blanks sign digits suffix ∧ r = result sign digits := by
  constructor
  · intro h
    obtain ⟨blanks, sign, digits, suffix, hnumbered⟩ := numbered_of_strtoul h
    refine ⟨blanks, sign, digits, suffix, hnumbered, ?_⟩
    exact Option.some.inj (h.symm.trans (strtoul_numbered hnumbered))
  · rintro ⟨blanks, sign, digits, suffix, hnumbered, rfl⟩
    exact strtoul_numbered hnumbered

end Numbers

section Urls

variable {s host url : List UInt8} {port : UInt16} {outOfRange : Bool}

/-- A number that is a port, other than the last one. -/
structure Port (s : List UInt8) (port : UInt16) : Prop where
  bounds : port ≠ 0 ∧ port < 65535
  number : ∃ blanks sign digits suffix, Numbered s blanks sign digits suffix ∧ numeral digits < 2 ^ 64 ∧
    value sign digits = port.toNat

theorem portNumber_iff (hport : port ≠ 0) : portNumber outOfRange s = port ↔ outOfRange = false ∧ Port s port := by
  constructor
  · intro h
    rw [portNumber] at h
    split at h
    · exact absurd h.symm hport
    · rename_i n overflow hs
      split at h
      · rename_i hvalid
        obtain ⟨hrange, hlt⟩ := hvalid
        rw [Bool.or_eq_false_iff] at hrange
        obtain ⟨blanks, sign, digits, suffix, hnumbered, hresult⟩ := strtoul_iff.mp hs
        rw [result] at hresult
        split at hresult
        · rename_i hbig
          cases hresult
          exact absurd hrange.2 (by decide)
        · rename_i hsmall
          obtain ⟨rfl, rfl⟩ := Prod.mk.inj hresult
          have hnat : value sign digits = port.toNat := by
            rw [← h, Nat.toUInt16_eq, UInt16.toNat_ofNat']
            omega
          refine ⟨hrange.1, ⟨hport, ?_⟩, blanks, sign, digits, suffix, hnumbered, not_le.mp hsmall, hnat⟩
          rw [UInt16.lt_iff_toNat_lt]
          exact hnat ▸ hlt
      · exact absurd h.symm hport
  · rintro ⟨rfl, ⟨_, hbound⟩, blanks, sign, digits, suffix, hnumbered, hsmall, hvalue⟩
    rw [UInt16.lt_iff_toNat_lt] at hbound
    have hresult : result sign digits = (port.toNat, false) := by
      rw [result, if_neg (not_le.mpr hsmall), hvalue]
    rw [portNumber, strtoul_numbered hnumbered, hresult]
    dsimp only
    rw [if_pos ⟨rfl, hbound⟩]
    exact UInt16.ofNat_toNat

theorem hostAndPort_iff (hport : port ≠ 0) : hostAndPort outOfRange s = (host, port) ↔
    ∃ rest, s = host ++ 58 :: rest ∧ 58 ∉ host ∧ portNumber outOfRange rest = port := by
  have hempty : portNumber outOfRange [] = 0 := rfl
  induction s using hostAndPort.induct outOfRange generalizing host with
  | case1 =>
      rw [hostAndPort]
      constructor
      · intro h
        exact absurd (Prod.mk.inj h).2.symm hport
      · rintro ⟨rest, hs, _⟩
        simp at hs
  | case2 b =>
      rw [hostAndPort]
      constructor
      · intro h
        exact absurd (Prod.mk.inj h).2.symm hport
      · rintro ⟨rest, hs, _, hrest⟩
        cases host with
        | nil =>
            obtain ⟨rfl, rfl⟩ := List.cons.inj hs
            exact absurd (hrest.symm.trans hempty) hport
        | cons c host => simp at hs
  | case3 next rest =>
      rw [hostAndPort, if_pos rfl]
      constructor
      · intro h
        obtain ⟨rfl, hnumber⟩ := Prod.mk.inj h
        exact ⟨next :: rest, rfl, List.not_mem_nil, hnumber⟩
      · rintro ⟨rest', hs, hhost, hnumber⟩
        cases host with
        | nil =>
            obtain ⟨_, rfl⟩ := List.cons.inj hs
            rw [hnumber]
        | cons c host =>
            obtain ⟨rfl, _⟩ := List.cons.inj hs
            exact absurd List.mem_cons_self hhost
  | case4 b next rest hb ih =>
      rw [hostAndPort, if_neg hb]
      constructor
      · intro h
        obtain ⟨rfl, hnumber⟩ := Prod.mk.inj h
        obtain ⟨rest', hs, hhost, hport'⟩ := ih.mp (Prod.ext rfl hnumber)
        refine ⟨rest', congrArg (b :: ·) hs, ?_, hport'⟩
        exact fun hmem => (List.mem_cons.mp hmem).elim (fun heq => hb heq.symm) hhost
      · rintro ⟨rest', hs, hhost, hnumber⟩
        cases host with
        | nil => exact absurd (List.cons.inj hs).1 hb
        | cons c host =>
            obtain ⟨rfl, hs'⟩ := List.cons.inj hs
            have hrest := ih.mpr ⟨rest', hs', fun hmem => hhost (List.mem_cons_of_mem _ hmem), hnumber⟩
            rw [hrest]

/-- The urls that are accepted, with the host and the port that are read from
them: a host without colons, a colon and a number that is a port. The number may
follow blanks and a sign, and anything may follow it. -/
theorem serverOf_iff : serverOf outOfRange url = some (host, port) ↔
    outOfRange = false ∧ url.length < 512 ∧
      ∃ rest, url = scheme ++ (host ++ 58 :: rest) ∧ 58 ∉ host ∧ Port rest port := by
  constructor
  · intro h
    rw [serverOf] at h
    split at h
    · cases h
    · rename_i hlength
      split at h
      · cases h
      · rename_i hscheme
        extract_lets r at h
        split at h
        · cases h
        · rename_i hport
          have hr : hostAndPort outOfRange (url.drop 10) = (host, port) := Option.some.inj h
          have hport' : port ≠ 0 := fun hzero => hport ((congrArg Prod.snd hr).trans hzero)
          obtain ⟨rest, hrest, hhost, hnumber⟩ := (hostAndPort_iff hport').mp hr
          obtain ⟨hrange, hvalid⟩ := (portNumber_iff hport').mp hnumber
          refine ⟨hrange, by omega, rest, ?_, hhost, hvalid⟩
          rw [← hrest, ← not_not.mp hscheme, List.take_append_drop]
  · rintro ⟨rfl, hlength, rest, rfl, hhost, hvalid⟩
    have hport := hvalid.bounds.1
    have hr : hostAndPort false (host ++ 58 :: rest) = (host, port) :=
      (hostAndPort_iff hport).mpr ⟨rest, rfl, hhost, (portNumber_iff hport).mpr ⟨rfl, hvalid⟩⟩
    have hlong : (scheme ++ (host ++ 58 :: rest)).length ≥ 11 := by
      simp only [List.length_append, List.length_cons, scheme, List.length_nil]
      omega
    rw [serverOf, if_neg (by omega), if_neg (fun hne => hne (List.take_left' rfl))]
    have hdrop : (scheme ++ (host ++ 58 :: rest)).drop 10 = host ++ 58 :: rest := List.drop_left' rfl
    rw [hdrop, hr]
    exact if_neg hport

end Urls

end OpcUa.ServerUrls
