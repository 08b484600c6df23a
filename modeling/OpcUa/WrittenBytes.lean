import OpcUa.WriteBounds

namespace OpcUa.WrittenBytes

open StatusCodes LittleEndian Buffers Writers WritePrograms WriteBounds

variable {e e' : Enc} {size o : Nat} {p q : Prog}

section Slack

def accepted : Prog → Bool
  | .fail code => code == good
  | .skip | .write _ => true
  | .seq p q | .stop p q | .wrap p q => accepted p && accepted q
  | .tagged head _ => accepted head

/-- How far a write may lie behind the end of the buffer without being
refused. -/
def slackWrite : Write → Nat
  | .plain _ => 0
  | .text bytes => min 4 bytes.length

def slackOptions : List (Write × UInt8) → Option Nat
  | [] => none
  | (w, _) :: rest => (slackOptions rest).or (some (slackWrite w))

/-- The same for a program. It is that of its last check, if it makes one. -/
def slack : Prog → Option Nat
  | .skip | .fail _ => none
  | .write w => some (slackWrite w)
  | .seq p q | .stop p q => (slack q).or (slack p)
  | .wrap _ content => (slack content).or (some 0)
  | .tagged head options => (slackOptions options).or (slack head)

/-- With `k` bytes behind the end of the buffer the last check lets the `n`
bytes from `o` on pass. -/
def Passes (size : Nat) (k : Option Nat) (o n : Nat) : Prop := ∀ k' ∈ k, o + n ≤ size + k'

theorem slackWrite_le (w : Write) : slackWrite w ≤ min 4 w.wire.length := by
  cases w with
  | plain bytes => exact Nat.zero_le _
  | text bytes =>
      simp only [slackWrite, Write.wire, List.length_append, length_toBytes]
      omega

theorem walkWrite_iff (w : Write) : (walkWrite size w o).1 = true ↔ o + w.wire.length ≤ size + slackWrite w := by
  cases w with
  | plain bytes =>
      by_cases h : o + bytes.length > size
      · simp [walkWrite, slackWrite, Write.wire, h]
      · simp [walkWrite, slackWrite, Write.wire, h]
        omega
  | text bytes =>
      simp only [walkWrite, slackWrite, Write.wire, List.length_append, length_toBytes]
      by_cases h : o + bytes.length > size
      · rw [if_pos h]
        simp only [Bool.false_eq_true, false_iff]
        omega
      rw [if_neg h]
      by_cases h' : o + 4 > size
      · rw [if_pos h']
        simp only [Bool.false_eq_true, false_iff]
        omega
      · rw [if_neg h']
        simp only [true_iff]
        omega

/-- What the last check lets pass may be at most four bytes, and at most its
own bytes, behind the end. -/
structure Trailing (k : Option Nat) (bytes : List UInt8) : Prop where
  le : ∀ k' ∈ k, k' ≤ min 4 bytes.length
  nil : k = none → bytes = []

theorem Trailing.append {k k' : Option Nat} {bytes bytes' : List UInt8} (h : Trailing k bytes)
    (h' : Trailing k' bytes') : Trailing (k'.or k) (bytes ++ bytes') := by
  cases k' with
  | none =>
      rw [Option.none_or, h'.nil rfl, List.append_nil]
      exact h
  | some n =>
      refine ⟨?_, fun hnone => nomatch hnone⟩
      rintro _ ⟨⟩
      have hn := h'.le n rfl
      rw [List.length_append]
      omega

theorem passes_append {k k' : Option Nat} {bytes bytes' : List UInt8} (h' : Trailing k' bytes') :
    Passes size k o bytes.length ∧ Passes size k' (o + bytes.length) bytes'.length ↔
      Passes size (k'.or k) o (bytes ++ bytes').length := by
  rw [List.length_append, Passes, Passes, Passes, ← Nat.add_assoc]
  cases k' with
  | none =>
      rw [Option.none_or, h'.nil rfl]
      simp
  | some n =>
      have hn := h'.le n rfl
      rw [Option.some_or]
      constructor
      · rintro ⟨_, h⟩
        exact h
      · intro h
        refine ⟨fun k'' _ => ?_, h⟩
        have hle := h n rfl
        omega

theorem trailing_options (options : List (Write × UInt8)) :
    Trailing (slackOptions options) (options.flatMap (fun x => x.1.wire)) := by
  induction options with
  | nil => exact ⟨fun _ h => (nomatch h), fun _ => rfl⟩
  | cons x options ih =>
      obtain ⟨w, flag⟩ := x
      rw [List.flatMap_cons]
      refine Trailing.append ⟨?_, fun h => nomatch h⟩ ih
      rintro _ ⟨⟩
      exact slackWrite_le w

theorem Trailing.congr {k : Option Nat} {bytes bytes' : List UInt8} (h : Trailing k bytes)
    (hlength : bytes.length = bytes'.length) : Trailing k bytes' := by
  refine ⟨?_, fun hnone => ?_⟩
  · rw [← hlength]
    exact h.le
  · rw [h.nil hnone, List.length_nil] at hlength
    exact List.eq_nil_of_length_eq_zero hlength.symm

theorem trailing_slack (p : Prog) : Trailing (slack p) (wire p) := by
  induction p with
  | skip | fail code => exact ⟨fun _ h => (nomatch h), fun _ => rfl⟩
  | write w =>
      refine ⟨?_, fun h => nomatch h⟩
      rintro _ ⟨⟩
      exact slackWrite_le w
  | seq p q ihp ihq => exact ihp.append ihq
  | stop p q ihp ihq => exact ihp.append ihq
  | wrap header content _ ihc =>
      have hgap : Trailing (some 0) (wire header ++ toBytes 4 (wire content).length) := by
        refine ⟨?_, fun h => nomatch h⟩
        rintro _ ⟨⟩
        exact Nat.zero_le _
      rw [slack, wire, ← List.append_assoc]
      exact hgap.append ihc
  | tagged head options ih =>
      refine (ih.append (trailing_options options)).congr ?_
      rw [wire, length_withOptions, List.length_append]

theorem walkOptions_iff (options : List (Write × UInt8)) : (walkOptions size options o).1 = true ↔
    Passes size (slackOptions options) o (options.flatMap (fun x => x.1.wire)).length := by
  induction options generalizing o with
  | nil => exact ⟨fun _ _ h => (nomatch h), fun _ => rfl⟩
  | cons x options ih =>
      obtain ⟨w, flag⟩ := x
      have hfirst : Passes size (some (slackWrite w)) o w.wire.length ↔ (walkWrite size w o).1 = true := by
        rw [walkWrite_iff, Passes]
        simp
      rw [slackOptions, List.flatMap_cons, ← passes_append (trailing_options options), hfirst, walkOptions,
        Bool.and_eq_true]
      refine and_congr_right (fun hok => ?_)
      rw [ih, walkWrite_end hok]

/-- Two parts one after the other, of which the second one begins where the
first one ends. -/
theorem both_pass {ok ok' : Bool} {a a' : Bool} {k k' : Option Nat} {bytes bytes' : List UInt8}
    (hfirst : ok = true ↔ a = true ∧ Passes size k o bytes.length)
    (hsecond : ok = true → (ok' = true ↔ a' = true ∧ Passes size k' (o + bytes.length) bytes'.length))
    (h' : Trailing k' bytes') :
    (ok && ok') = true ↔ (a && a') = true ∧ Passes size (k'.or k) o (bytes ++ bytes').length := by
  rw [Bool.and_eq_true, Bool.and_eq_true, ← passes_append h']
  constructor
  · rintro ⟨hok, hok'⟩
    obtain ⟨ha, hpass⟩ := hfirst.mp hok
    obtain ⟨ha', hpass'⟩ := (hsecond hok).mp hok'
    exact ⟨⟨ha, ha'⟩, hpass, hpass'⟩
  · rintro ⟨⟨ha, ha'⟩, hpass, hpass'⟩
    have hok := hfirst.mpr ⟨ha, hpass⟩
    exact ⟨hok, (hsecond hok).mpr ⟨ha', hpass'⟩⟩

/-- A program succeeds at the offset `o` exactly if its last check passes. -/
theorem walk_iff (p : Prog) :
    (walk size p o).1 = true ↔ accepted p = true ∧ Passes size (slack p) o (wire p).length := by
  induction p generalizing o with
  | skip => exact ⟨fun _ => ⟨rfl, fun _ h => nomatch h⟩, fun _ => rfl⟩
  | fail code => exact ⟨fun h => ⟨h, fun _ h => nomatch h⟩, fun h => h.1⟩
  | write w =>
      rw [walk, walkWrite_iff, accepted, slack, wire, Passes]
      simp
  | seq p q ihp ihq =>
      refine both_pass ihp (fun hok => ?_) (trailing_slack q)
      rw [walk_end hok]
      exact ihq
  | stop p q ihp ihq =>
      have hstop : (walk size (.stop p q) o).1 = ((walk size p o).1 && (walk size q (walk size p o).2).1) := by
        rw [walk]
        cases hok : (walk size p o).1 with
        | false => simp [hok]
        | true => rfl
      rw [hstop]
      refine both_pass ihp (fun hok => ?_) (trailing_slack q)
      rw [walk_end hok]
      exact ihq
  | wrap header content ihh ihc =>
      have hgap : ((walk size header o).1 && decide ((walk size header o).2 + 4 ≤ size)) = true ↔
          accepted header = true ∧
            Passes size (some 0) o (wire header ++ toBytes 4 (wire content).length).length := by
        rw [Bool.and_eq_true, decide_eq_true_eq, ihh, List.length_append, length_toBytes]
        have htrailing := (trailing_slack header).le
        constructor
        · rintro ⟨⟨ha, hpass⟩, hroom⟩
          rw [walk_end (ihh.mpr ⟨ha, hpass⟩)] at hroom
          refine ⟨ha, ?_⟩
          rintro _ ⟨⟩
          omega
        · rintro ⟨ha, hpass⟩
          have hroom := hpass 0 rfl
          have hheader : Passes size (slack header) o (wire header).length := fun k _ => by omega
          refine ⟨⟨ha, hheader⟩, ?_⟩
          rw [walk_end (ihh.mpr ⟨ha, hheader⟩)]
          omega
      have hwalk : (walk size (.wrap header content) o).1 =
          (((walk size header o).1 && decide ((walk size header o).2 + 4 ≤ size)) &&
            (walk size content ((walk size header o).2 + 4)).1) := by
        exact Bool.and_right_comm _ _ _
      rw [hwalk, accepted, slack, wire, ← List.append_assoc]
      refine both_pass hgap (fun hok => ?_) (trailing_slack content)
      rw [Bool.and_eq_true] at hok
      rw [walk_end hok.1, List.length_append, length_toBytes, ← Nat.add_assoc]
      exact ihc
  | tagged head options ih =>
      have hlength : (wire (.tagged head options)).length =
          (wire head ++ options.flatMap (fun x => x.1.wire)).length := by
        rw [wire, length_withOptions, List.length_append]
      have hoptions : (walk size head o).1 = true → ((walkOptions size options (walk size head o).2).1 = true ↔
          true = true ∧ Passes size (slackOptions options) (o + (wire head).length)
            (options.flatMap (fun x => x.1.wire)).length) := by
        intro hok
        rw [walk_end hok, walkOptions_iff]
        exact (and_iff_right rfl).symm
      have hboth := both_pass ih hoptions (trailing_options options)
      rw [Bool.and_true] at hboth
      rw [hlength, walk, accepted, slack]
      exact hboth

end Slack

section Covered

/-- Every byte between the two offsets has been written. -/
def Covers (e e' : Enc) : Prop := ∀ i, e.offset ≤ i → i < e'.offset → ∃ w ∈ e'.writes, w.1 ≤ i ∧ i < w.1 + w.2

theorem writes_mono {r : StatusCode × Enc} {ok : Bool} {stop : Nat} {safe : Nat → Prop}
    (h : Effect e r ok stop safe) : ∀ w ∈ e.writes, w ∈ r.2.writes := by
  obtain ⟨new, hnew, _⟩ := h.writes
  intro w hw
  rw [hnew]
  exact List.mem_append_right new hw

theorem Covers.trans {e'' : Enc} (h : Covers e e') (h' : Covers e' e'')
    (hmono : ∀ w ∈ e'.writes, w ∈ e''.writes) : Covers e e'' := by
  intro i hlow hhigh
  by_cases hi : i < e'.offset
  · obtain ⟨w, hw, hin⟩ := h i hlow hi
    exact ⟨w, hmono w hw, hin⟩
  · exact h' i (Nat.le_of_not_lt hi) hhigh

theorem Covers.refl (e : Enc) : Covers e e := fun _ hlow hhigh => absurd hhigh (Nat.not_lt.mpr hlow)

theorem covers_write (bytes : List UInt8) : Covers e (e.write bytes) := by
  intro i hlow hhigh
  exact ⟨(e.offset, bytes.length), List.mem_cons_self .., hlow, hhigh⟩

theorem covers_emit {bytes : List UInt8} (h : (emit bytes e).1 = good) : Covers e (emit bytes e).2 := by
  rw [emit] at h ⊢
  split at h
  · exact absurd h (show badEncodingError ≠ good by decide)
  · rw [if_neg ‹_›]
    exact covers_write bytes

theorem covers_runWrite {w : Write} (h : (w.run e).1 = good) : Covers e (w.run e).2 := by
  cases w with
  | plain bytes => exact covers_emit h
  | text bytes =>
      simp only [Write.run] at h ⊢
      split at h
      · exact absurd h (show badEncodingError ≠ good by decide)
      · rw [if_neg ‹_›]
        refine (covers_emit h).trans (covers_write bytes) (fun w hw => ?_)
        exact List.mem_cons_of_mem _ hw

theorem covers_runOptions {start : Nat} {options : List (Write × UInt8)} (h : (runOptions start options e).1 = good) :
    Covers e (runOptions start options e).2 := by
  induction options generalizing e with
  | nil => exact .refl e
  | cons x options ih =>
      obtain ⟨w, flag⟩ := x
      obtain ⟨hfirst, hrest⟩ := (or_eq_good _ _).mp h
      obtain ⟨hwrite, _⟩ := (or_eq_good _ _).mp hfirst
      let e' := (w.run e).2.setFlag start flag
      have hflag : Covers e e' := by
        intro i hlow hhigh
        obtain ⟨x, hx, hin⟩ := covers_runWrite hwrite i hlow hhigh
        exact ⟨x, List.mem_cons_of_mem _ hx, hin⟩
      have hmono : ∀ x ∈ e'.writes, x ∈ (runOptions start options e').2.writes :=
        writes_mono (effect_options start options)
      exact hflag.trans (ih hrest) hmono

theorem emitAt_writes {index : Nat} {bytes : List UInt8} (h : (emitAt index bytes e).1 = good) :
    (emitAt index bytes e).2.writes = (index, bytes.length) :: e.writes := by
  rw [emitAt] at h ⊢
  split at h
  · exact absurd h (show badEncodingError ≠ good by decide)
  · rw [if_neg ‹_›]
    rfl

theorem covers_run (p : Prog) (h : (p.run e).1 = good) : Covers e (p.run e).2 := by
  induction p generalizing e with
  | skip | fail code => exact .refl e
  | write w => exact covers_runWrite h
  | seq p q ihp ihq =>
      obtain ⟨hp, hq⟩ := (or_eq_good _ _).mp h
      have hmono : ∀ w ∈ (p.run e).2.writes, w ∈ (q.run (p.run e).2).2.writes := writes_mono (effect_run q)
      exact (ihp hp).trans (ihq hq) hmono
  | stop p q ihp ihq =>
      rw [Prog.run] at h ⊢
      dsimp only at h ⊢
      split at h
      · rename_i hp
        rw [if_pos hp]
        have hmono : ∀ w ∈ (p.run e).2.writes, w ∈ (q.run (p.run e).2).2.writes := writes_mono (effect_run q)
        exact (ihp hp).trans (ihq h) hmono
      · rename_i hp
        exact absurd h hp
  | wrap header content ihh ihc =>
      let first := header.run e
      let body := content.run { first.2 with offset := first.2.offset + 4 }
      let bytes := toBytes 4 (body.2.offset - (first.2.offset + 4))
      obtain ⟨hboth, hpatch⟩ := (or_eq_good _ _).mp h
      obtain ⟨hheader, hcontent⟩ := (or_eq_good _ _).mp hboth
      have hfirst : Covers e first.2 := ihh hheader
      have hbody : Covers { first.2 with offset := first.2.offset + 4 } body.2 := ihc hcontent
      have hkept : ∀ w ∈ first.2.writes, w ∈ body.2.writes :=
        writes_mono (e := { first.2 with offset := first.2.offset + 4 }) (effect_run content)
      have hwritten : (emitAt first.2.offset bytes body.2).2.writes = (first.2.offset, bytes.length) :: body.2.writes :=
        emitAt_writes hpatch
      have hend : (emitAt first.2.offset bytes body.2).2.offset = body.2.offset :=
        (effect_emitAt first.2.offset (toBytes_ne_nil _)).offset
      intro i hlow hhigh
      change ∃ w ∈ (emitAt first.2.offset bytes body.2).2.writes, w.1 ≤ i ∧ i < w.1 + w.2
      change i < (emitAt first.2.offset bytes body.2).2.offset at hhigh
      rw [hend] at hhigh
      rw [hwritten]
      by_cases hi : i < first.2.offset
      · obtain ⟨w, hw, hin⟩ := hfirst i hlow hi
        exact ⟨w, List.mem_cons_of_mem _ (hkept w hw), hin⟩
      by_cases hi' : i < first.2.offset + 4
      · exact ⟨(first.2.offset, bytes.length), List.mem_cons_self .., Nat.le_of_not_lt hi, by
          rw [length_toBytes]
          exact hi'⟩
      · obtain ⟨w, hw, hin⟩ := hbody i (Nat.le_of_not_lt hi') hhigh
        exact ⟨w, List.mem_cons_of_mem _ hw, hin⟩
  | tagged head options ih =>
      obtain ⟨hhead, hoptions⟩ := (or_eq_good _ _).mp h
      have hmono : ∀ w ∈ (head.run e).2.writes,
          w ∈ (runOptions (e.offset % 4294967296) options (head.run e).2).2.writes :=
        writes_mono (effect_options _ options)
      exact (ih hhead).trans (covers_runOptions hoptions) hmono

end Covered

end OpcUa.WrittenBytes
