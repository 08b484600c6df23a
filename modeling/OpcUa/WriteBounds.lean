import OpcUa.WritePrograms

namespace OpcUa.WriteBounds

open StatusCodes LittleEndian Buffers Writers WritePrograms

/-- Whether a write succeeds at the offset `o` of a buffer of length `size`,
and the offset after it. -/
def walkWrite (size : Nat) : Write → Nat → Bool × Nat
  | .plain bytes, o => if o + bytes.length > size then (false, o) else (true, o + bytes.length)
  | .text bytes, o =>
      if o + bytes.length > size then (false, o)
      else if o + 4 > size then (false, o + bytes.length)
      else (true, o + 4 + bytes.length)

/-- The room for the length of a text is not part of its check. -/
def SafeWrite (size : Nat) : Write → Nat → Prop
  | .plain _, _ => True
  | .text bytes, o => o + bytes.length ≤ size → o + 4 ≤ size → o + 4 + bytes.length ≤ size

def walkOptions (size : Nat) : List (Write × UInt8) → Nat → Bool × Nat
  | [], o => (true, o)
  | (w, _) :: rest, o =>
      let r := walkWrite size w o
      let s := walkOptions size rest r.2
      (r.1 && s.1, s.2)

/-- Each option sets its flag in the byte at `start`. -/
def SafeOptions (size top start : Nat) : List (Write × UInt8) → Nat → Prop
  | [], _ => True
  | (w, _) :: rest, o =>
      SafeWrite size w o ∧ (top ≤ start ∧ start < size) ∧
        SafeOptions size top start rest (walkWrite size w o).2

/-- The way of a program through a buffer: a part that does not fit leaves the
offset where it is, and the parts after it go on from there. -/
def walk (size : Nat) : Prog → Nat → Bool × Nat
  | .skip, o => (true, o)
  | .fail code, o => (code == good, o)
  | .write w, o => walkWrite size w o
  | .seq p q, o =>
      let r := walk size p o
      let s := walk size q r.2
      (r.1 && s.1, s.2)
  | .stop p q, o =>
      let r := walk size p o
      if r.1 then walk size q r.2 else r
  | .wrap header content, o =>
      let r := walk size header o
      let s := walk size content (r.2 + 4)
      (r.1 && s.1 && decide (r.2 + 4 ≤ size), s.2)
  | .tagged head options, o =>
      let r := walk size head o
      let s := walkOptions size options r.2
      (r.1 && s.1, s.2)

/-- No write on this way leaves the bytes from `top` up to `size`. -/
def Safe (size top : Nat) : Prog → Nat → Prop
  | .skip, _ | .fail _, _ => True
  | .write w, o => SafeWrite size w o
  | .seq p q, o => Safe size top p o ∧ Safe size top q (walk size p o).2
  | .stop p q, o =>
      Safe size top p o ∧ ((walk size p o).1 = true → Safe size top q (walk size p o).2)
  | .wrap header content, o =>
      Safe size top header o ∧ Safe size top content ((walk size header o).2 + 4)
  | .tagged head options, o =>
      Safe size top head o ∧ SafeOptions size top (o % 4294967296) options (walk size head o).2

instance decidableSafeWrite (size : Nat) : (w : Write) → (o : Nat) → Decidable (SafeWrite size w o)
  | .plain _, _ => isTrue trivial
  | .text bytes, o =>
      inferInstanceAs (Decidable (o + bytes.length ≤ size → o + 4 ≤ size → o + 4 + bytes.length ≤ size))

instance decidableSafeOptions (size top start : Nat) : (options : List (Write × UInt8)) → (o : Nat) →
    Decidable (SafeOptions size top start options o)
  | [], _ => isTrue trivial
  | (_, _) :: rest, _ =>
      have := decidableSafeOptions size top start rest
      inferInstanceAs (Decidable (_ ∧ _ ∧ _))

instance decidableSafe (size top : Nat) : (p : Prog) → (o : Nat) → Decidable (Safe size top p o)
  | .skip, _ | .fail _, _ => isTrue trivial
  | .write w, o => decidableSafeWrite size w o
  | .seq p q, _ =>
      have := decidableSafe size top p
      have := decidableSafe size top q
      inferInstanceAs (Decidable (_ ∧ _))
  | .stop p q, _ =>
      have := decidableSafe size top p
      have := decidableSafe size top q
      inferInstanceAs (Decidable (_ ∧ (_ → _)))
  | .wrap p q, _ =>
      have := decidableSafe size top p
      have := decidableSafe size top q
      inferInstanceAs (Decidable (_ ∧ _))
  | .tagged p _, _ =>
      have := decidableSafe size top p
      inferInstanceAs (Decidable (_ ∧ _))

/-- A write of at least one byte stays between `top` and `size`. -/
def InBounds (top size : Nat) (w : Nat × Nat) : Prop := 0 < w.2 → top ≤ w.1 ∧ w.1 + w.2 ≤ size

/-- The outcome `r` of a step from `e`. -/
structure Effect (e : Enc) (r : StatusCode × Enc) (ok : Bool) (stop : Nat) (safe : Nat → Prop) : Prop where
  status : r.1 = good ↔ ok = true
  offset : r.2.offset = stop
  offset_le : e.offset ≤ r.2.offset
  length : r.2.data.length = e.data.length
  writes : ∃ new, r.2.writes = new ++ e.writes ∧
    ∀ top ≤ e.offset, (∀ w ∈ new, InBounds top e.data.length w) ↔ safe top

theorem toBytes_ne_nil (n : Nat) : toBytes 4 n ≠ [] := by
  rw [← List.length_pos_iff, length_toBytes]
  decide

theorem effect_idle {e : Enc} (code : StatusCode) :
    Effect e (code, e) (code == good) e.offset (fun _ => True) :=
  ⟨by simp, rfl, le_refl _, rfl, [], rfl, by simp⟩

variable {e : Enc} {f g : EncM} {ok ok' : Bool} {stop stop' : Nat} {safe safe' : Nat → Prop}

theorem effect_write (code : StatusCode) (bytes : List UInt8) :
    Effect e (code, e.write bytes) (code == good) (e.offset + bytes.length)
      (fun _ => e.offset + bytes.length ≤ e.data.length ∨ bytes = []) := by
  refine ⟨by simp, rfl, Nat.le_add_right _ _, length_overwrite _ _ _, [(e.offset, bytes.length)], rfl, ?_⟩
  intro top htop
  simp only [List.mem_singleton, forall_eq, InBounds, List.length_pos_iff]
  constructor
  · intro h
    by_cases hnil : bytes = []
    · exact Or.inr hnil
    · exact Or.inl (h hnil).2
  · rintro (hle | hnil) hne
    · exact ⟨htop, hle⟩
    · exact absurd hnil hne

theorem effect_poke (code : StatusCode) (index : Nat) (bytes : List UInt8) (hne : bytes ≠ []) :
    Effect e (code, e.poke index bytes) (code == good) e.offset
      (fun top => top ≤ index ∧ index + bytes.length ≤ e.data.length) := by
  refine ⟨by simp, rfl, le_refl _, length_overwrite _ _ _, [(index, bytes.length)], rfl, ?_⟩
  intro top _
  simp only [List.mem_singleton, forall_eq, InBounds]
  constructor
  · intro h
    exact h (List.length_pos_iff.mpr hne)
  · intro h _
    exact h

theorem Effect.congr {r : StatusCode × Enc} (h : Effect e r ok stop safe) (hok : ok = ok')
    (hstop : stop = stop') (hsafe : ∀ top ≤ e.offset, safe top ↔ safe' top) :
    Effect e r ok' stop' safe' := by
  obtain ⟨hstatus, hoffset, hle, hlength, new, hnew, hwrites⟩ := h
  subst hok hstop
  exact ⟨hstatus, hoffset, hle, hlength, new, hnew,
    fun top htop => (hwrites top htop).trans (hsafe top htop)⟩

/-- Two steps in a row; `code` is what the caller makes of their results. -/
theorem Effect.trans {r r' : StatusCode × Enc} {code : StatusCode} (h : Effect e r ok stop safe)
    (h' : Effect r.2 r' ok' stop' safe') (hcode : code = good ↔ ok = true ∧ ok' = true) :
    Effect e (code, r'.2) (ok && ok') stop' (fun top => safe top ∧ safe' top) := by
  obtain ⟨new, hnew, hwrites⟩ := h.writes
  obtain ⟨new', hnew', hwrites'⟩ := h'.writes
  refine ⟨by rw [hcode, Bool.and_eq_true], h'.offset, h.offset_le.trans h'.offset_le,
    h'.length.trans h.length, new' ++ new, by rw [hnew', hnew, List.append_assoc], ?_⟩
  intro top htop
  rw [← hwrites top htop, ← hwrites' top (htop.trans h.offset_le), h.length]
  simp only [List.mem_append]
  constructor
  · intro hall
    exact ⟨fun w hw => hall w (Or.inr hw), fun w hw => hall w (Or.inl hw)⟩
  · rintro ⟨hold, hnew⟩ w (hw | hw)
    · exact hnew w hw
    · exact hold w hw

theorem effect_move (k : Nat) :
    Effect e (good, { e with offset := e.offset + k }) true (e.offset + k) (fun _ => True) :=
  ⟨by simp, rfl, Nat.le_add_right _ _, rfl, [], rfl, by simp⟩

theorem effect_emitAt (index : Nat) {bytes : List UInt8} (hne : bytes ≠ []) :
    Effect e (emitAt index bytes e) (decide (index + bytes.length ≤ e.data.length)) e.offset
      (fun top => index + bytes.length ≤ e.data.length → top ≤ index) := by
  rw [emitAt]
  split
  · refine (effect_idle badEncodingError).congr ?_ rfl (fun top _ => ?_)
    · rw [decide_eq_false (by omega)]
      decide
    · exact iff_of_true trivial (by omega)
  · refine (effect_poke good index bytes hne).congr ?_ rfl (fun top _ => ?_)
    · rw [decide_eq_true (by omega)]
      decide
    · omega

theorem Effect.both {r r' : StatusCode × Enc} (h : Effect e r ok stop safe)
    (h' : Effect r.2 r' ok' stop' safe') :
    Effect e (r.1 ||| r'.1, r'.2) (ok && ok') stop' (fun top => safe top ∧ safe' top) := by
  refine h.trans h' ?_
  rw [← h.status, ← h'.status]
  exact or_eq_good _ _

theorem effect_plain (bytes : List UInt8) :
    Effect e (emit bytes e) (walkWrite e.data.length (.plain bytes) e.offset).1
      (walkWrite e.data.length (.plain bytes) e.offset).2 (fun _ => True) := by
  rw [emit, walkWrite]
  split
  · exact effect_idle badEncodingError
  · refine (effect_write good bytes).congr rfl rfl (fun top _ => ?_)
    simp only [iff_true]
    exact Or.inl (by omega)

theorem effect_text (bytes : List UInt8) :
    Effect e ((Write.text bytes).run e) (walkWrite e.data.length (.text bytes) e.offset).1
      (walkWrite e.data.length (.text bytes) e.offset).2
      (fun _ => SafeWrite e.data.length (.text bytes) e.offset) := by
  simp only [Write.run, walkWrite, SafeWrite]
  by_cases hfits : e.offset + bytes.length > e.data.length
  · rw [if_pos hfits, if_pos hfits]
    refine (effect_idle badEncodingError).congr rfl rfl (fun top _ => ?_)
    simp only [true_iff]
    omega
  rw [if_neg hfits, if_neg hfits, emit, length_toBytes]
  by_cases hlength : e.offset + 4 > e.data.length
  · rw [if_pos hlength, if_pos hlength]
    refine (effect_write badEncodingError bytes).congr rfl rfl (fun top _ => ?_)
    exact iff_of_true (Or.inl (by omega)) (by omega)
  rw [if_neg hlength, if_neg hlength]
  have hfirst := effect_write (e := e) good (toBytes 4 bytes.length)
  have hsecond := effect_write (e := e.write (toBytes 4 bytes.length)) good bytes
  have hdata : (e.write (toBytes 4 bytes.length)).data.length = e.data.length := hfirst.length
  have hoffset : (e.write (toBytes 4 bytes.length)).offset = e.offset + 4 := by
    rw [hfirst.offset, length_toBytes]
  rw [hdata, hoffset] at hsecond
  refine (hfirst.trans hsecond (by simp)).congr rfl rfl (fun top _ => ?_)
  rw [length_toBytes]
  constructor
  · rintro ⟨_, hle | hnil⟩ _ _
    · exact hle
    · rw [hnil, List.length_nil]
      omega
  · intro h
    exact ⟨Or.inl (by omega), Or.inl (h (by omega) (by omega))⟩

theorem effect_walkWrite (w : Write) :
    Effect e (w.run e) (walkWrite e.data.length w e.offset).1 (walkWrite e.data.length w e.offset).2
      (fun _ => SafeWrite e.data.length w e.offset) := by
  cases w with
  | plain bytes => exact effect_plain bytes
  | text bytes => exact effect_text bytes

theorem effect_options (start : Nat) (options : List (Write × UInt8)) :
    Effect e (runOptions start options e) (walkOptions e.data.length options e.offset).1
      (walkOptions e.data.length options e.offset).2
      (fun top => SafeOptions e.data.length top start options e.offset) := by
  induction options generalizing e with
  | nil => exact effect_idle good
  | cons o options ih =>
      obtain ⟨w, flag⟩ := o
      have hw := effect_walkWrite (e := e) w
      have hflag := effect_poke (e := (w.run e).2) good start
        [(w.run e).2.data.getD start 0 ||| flag] (by simp)
      have hboth : Effect e (orThen w.run (flagAt start flag) e) _ _ _ := hw.both hflag
      have hrest := ih (e := (orThen w.run (flagAt start flag) e).2)
      rw [hboth.length, hboth.offset, hw.offset] at hrest
      refine (hboth.both hrest).congr ?_ rfl (fun top _ => ?_)
      · rw [walkOptions]
        simp
      · rw [SafeOptions, and_assoc, hw.length]
        exact Iff.rfl

theorem effect_run (p : Prog) :
    Effect e (p.run e) (walk e.data.length p e.offset).1 (walk e.data.length p e.offset).2
      (fun top => Safe e.data.length top p e.offset) := by
  induction p generalizing e with
  | skip => exact effect_idle good
  | fail code => exact effect_idle code
  | write w => exact effect_walkWrite w
  | seq p q ihp ihq =>
      have hp := ihp (e := e)
      have hq := ihq (e := (p.run e).2)
      rw [hp.length, hp.offset] at hq
      exact hp.both hq
  | stop p q ihp ihq =>
      have hp := ihp (e := e)
      have hq := ihq (e := (p.run e).2)
      rw [hp.length, hp.offset] at hq
      simp only [Prog.run, walk]
      by_cases hgood : (p.run e).1 = good
      · have hok := hp.status.mp hgood
        rw [if_pos hgood, if_pos hok]
        refine (hp.trans hq ?_).congr ?_ rfl (fun top _ => ?_)
        · rw [← hq.status]
          exact ⟨fun h => ⟨hok, h⟩, And.right⟩
        · rw [hok, Bool.true_and]
        · rw [Safe]
          exact and_congr_right' ⟨fun h _ => h, fun h => h hok⟩
      · have hok := mt hp.status.mpr hgood
        rw [if_neg hgood, if_neg hok]
        refine hp.congr rfl rfl (fun top _ => ?_)
        rw [Safe]
        exact ⟨fun h => ⟨h, fun h' => absurd h' hok⟩, And.left⟩
  | wrap header content ihh ihc =>
      let h := header.run e
      let moved : Enc := { h.2 with offset := h.2.offset + 4 }
      let body := content.run moved
      have hh : Effect e h _ _ _ := ihh
      have hmove : Effect e (h.1, moved) _ _ _ := hh.trans (effect_move 4) (by rw [hh.status]; simp)
      have hbody : Effect moved body _ _ _ := ihc
      have hpatch : Effect body.2 (emitAt h.2.offset (toBytes 4 (body.2.offset - (h.2.offset + 4))) body.2)
          _ _ _ := effect_emitAt h.2.offset (toBytes_ne_nil _)
      have hlength : moved.data.length = e.data.length := hh.length
      have hoffset : moved.offset = (walk e.data.length header e.offset).2 + 4 :=
        congrArg (· + 4) hh.offset
      refine ((hmove.both hbody).both hpatch).congr ?_ ?_ (fun top htop => ?_)
      · rw [hbody.length, hlength, hoffset, hh.offset, length_toBytes, walk, Bool.and_true]
      · rw [hbody.offset, hlength, hoffset, walk]
      · rw [Safe, and_true, hlength, hoffset]
        have hpatched : top ≤ h.2.offset := htop.trans hh.offset_le
        exact ⟨fun hs => hs.1, fun hs => ⟨hs, fun _ => hpatched⟩⟩
  | tagged head options ih =>
      have hh := ih (e := e)
      have ho := effect_options (e := (head.run e).2) (e.offset % 4294967296) options
      rw [hh.length, hh.offset] at ho
      exact hh.both ho

section Room

variable {size o : Nat}

theorem walkWrite_of_room {w : Write} (h : o + w.wire.length ≤ size) :
    walkWrite size w o = (true, o + w.wire.length) := by
  cases w with
  | plain bytes =>
      rw [walkWrite, if_neg (by simpa [Write.wire] using h)]
      rfl
  | text bytes =>
      simp only [Write.wire, List.length_append, length_toBytes] at h ⊢
      rw [walkWrite, if_neg (by omega), if_neg (by omega), Nat.add_assoc]

theorem walkWrite_end {w : Write} (h : (walkWrite size w o).1 = true) :
    (walkWrite size w o).2 = o + w.wire.length := by
  cases w with
  | plain bytes =>
      rw [walkWrite] at h ⊢
      split at h
      · cases h
      · rw [if_neg ‹_›]
        rfl
  | text bytes =>
      simp only [walkWrite] at h ⊢
      split at h
      · cases h
      · rw [if_neg ‹_›]
        split at h
        · cases h
        · rw [if_neg ‹_›]
          simp only [Write.wire, List.length_append, length_toBytes, Nat.add_assoc]

theorem walkOptions_of_room {options : List (Write × UInt8)}
    (h : o + (options.flatMap (fun x => x.1.wire)).length ≤ size) :
    walkOptions size options o = (true, o + (options.flatMap (fun x => x.1.wire)).length) := by
  induction options generalizing o with
  | nil => rfl
  | cons x options ih =>
      rw [List.flatMap_cons, List.length_append] at h ⊢
      simp only [walkOptions]
      rw [walkWrite_of_room (by omega), ih (by omega), Nat.add_assoc]
      rfl

theorem walkOptions_end {options : List (Write × UInt8)} (h : (walkOptions size options o).1 = true) :
    (walkOptions size options o).2 = o + (options.flatMap (fun x => x.1.wire)).length := by
  induction options generalizing o with
  | nil => rfl
  | cons x options ih =>
      simp only [walkOptions, Bool.and_eq_true] at h ⊢
      rw [ih h.2, walkWrite_end h.1, List.flatMap_cons, List.length_append, Nat.add_assoc]

theorem walk_end {p : Prog} (h : (walk size p o).1 = true) : (walk size p o).2 = o + (wire p).length := by
  induction p generalizing o with
  | skip | fail code => rfl
  | write w => exact walkWrite_end h
  | seq p q ihp ihq =>
      simp only [walk, Bool.and_eq_true] at h ⊢
      rw [ihq h.2, ihp h.1, wire, List.length_append, Nat.add_assoc]
  | stop p q ihp ihq =>
      simp only [walk] at h ⊢
      split at h
      · rw [if_pos ‹_›, ihq h, ihp ‹_›, wire, List.length_append, Nat.add_assoc]
      · exact absurd h ‹_›
  | wrap header content ihh ihc =>
      simp only [walk, Bool.and_eq_true] at h ⊢
      rw [ihc h.1.2, ihh h.1.1, wire]
      simp only [List.length_append, length_toBytes]
      omega
  | tagged head options ih =>
      simp only [walk, Bool.and_eq_true] at h ⊢
      rw [walkOptions_end h.2, ih h.1, wire, length_withOptions, Nat.add_assoc]

theorem walk_of_room {p : Prog} (h : (walk size p o).1 = true) {size' o' : Nat}
    (hroom : o' + (wire p).length ≤ size') : walk size' p o' = (true, o' + (wire p).length) := by
  induction p generalizing o o' with
  | skip => rfl
  | fail code => exact Prod.ext h rfl
  | write w => exact walkWrite_of_room hroom
  | seq p q ihp ihq =>
      simp only [walk, Bool.and_eq_true] at h
      rw [wire, List.length_append] at hroom ⊢
      simp only [walk]
      rw [ihp h.1 (by omega), ihq h.2 (by omega), Nat.add_assoc]
      rfl
  | stop p q ihp ihq =>
      simp only [walk] at h
      split at h
      · rw [wire, List.length_append] at hroom ⊢
        simp only [walk]
        rw [ihp ‹_› (by omega), if_pos rfl, ihq h (by omega), Nat.add_assoc]
      · exact absurd h ‹_›
  | wrap header content ihh ihc =>
      simp only [walk, Bool.and_eq_true] at h
      rw [wire] at hroom ⊢
      simp only [List.length_append, length_toBytes] at hroom ⊢
      simp only [walk]
      rw [ihh h.1.1 (by omega), ihc h.1.2 (by omega), decide_eq_true (by omega)]
      refine Prod.ext rfl ?_
      dsimp only
      omega
  | tagged head options ih =>
      simp only [walk, Bool.and_eq_true] at h
      rw [wire, length_withOptions] at hroom ⊢
      simp only [walk]
      rw [ih h.1 (by omega), walkOptions_of_room (by omega), Nat.add_assoc]
      rfl

theorem walkWrite_le {w : Write} (hsafe : SafeWrite size w o) (hok : (walkWrite size w o).1 = true) :
    (walkWrite size w o).2 ≤ size := by
  cases w with
  | plain bytes =>
      rw [walkWrite] at hok ⊢
      split at hok
      · cases hok
      · rw [if_neg ‹_›]
        dsimp only
        omega
  | text bytes =>
      simp only [walkWrite, SafeWrite] at hsafe hok ⊢
      split at hok
      · cases hok
      · rw [if_neg ‹_›]
        split at hok
        · cases hok
        · rw [if_neg ‹_›]
          exact hsafe (by omega) (by omega)

theorem walkOptions_le {top start : Nat} {options : List (Write × UInt8)} (ho : o ≤ size)
    (hsafe : SafeOptions size top start options o) (hok : (walkOptions size options o).1 = true) :
    (walkOptions size options o).2 ≤ size := by
  induction options generalizing o with
  | nil => exact ho
  | cons x options ih =>
      simp only [walkOptions, SafeOptions, Bool.and_eq_true] at hsafe hok ⊢
      exact ih (walkWrite_le hsafe.1 hok.1) hsafe.2.2 hok.2

theorem walk_le {top : Nat} {p : Prog} (ho : o ≤ size) (hsafe : Safe size top p o)
    (hok : (walk size p o).1 = true) : (walk size p o).2 ≤ size := by
  induction p generalizing o with
  | skip | fail code => exact ho
  | write w => exact walkWrite_le hsafe hok
  | seq p q ihp ihq =>
      simp only [walk, Bool.and_eq_true] at hok ⊢
      exact ihq (ihp ho hsafe.1 hok.1) hsafe.2 hok.2
  | stop p q ihp ihq =>
      simp only [walk] at hok ⊢
      split at hok
      · rw [if_pos ‹_›]
        exact ihq (ihp ho hsafe.1 ‹_›) (hsafe.2 ‹_›) hok
      · exact absurd hok ‹_›
  | wrap header content ihh ihc =>
      simp only [walk, Bool.and_eq_true, decide_eq_true_eq] at hok ⊢
      exact ihc hok.2 hsafe.2 hok.1.2
  | tagged head options ih =>
      simp only [walk, Bool.and_eq_true] at hok ⊢
      exact walkOptions_le (ih ho hsafe.1 hok.1) hsafe.2 hok.2

end Room

end OpcUa.WriteBounds
