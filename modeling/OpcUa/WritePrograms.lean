import OpcUa.Writers

namespace OpcUa.WritePrograms

open StatusCodes LittleEndian Buffers Writers

/-- A write of fixed bytes. `text` announces its length first, and checks the
room for the bytes without it. -/
inductive Write
  | plain (bytes : List UInt8)
  | text (bytes : List UInt8)
deriving DecidableEq, Repr

/-- The shape of an encoder. `stop` leaves out the second part after a
failure, `wrap` fills in the length of the content behind the header, and
`tagged` sets flags in the first byte after each further write. -/
inductive Prog
  | skip
  | fail (code : StatusCode)
  | write (w : Write)
  | seq (p q : Prog)
  | stop (p q : Prog)
  | wrap (header content : Prog)
  | tagged (head : Prog) (options : List (Write × UInt8))

def Write.run : Write → EncM
  | .plain bytes => emit bytes
  | .text bytes => fun st =>
      if st.offset + bytes.length > st.data.length then (badEncodingError, st)
      else
        let r := emit (toBytes 4 bytes.length) st
        (r.1, r.2.write bytes)

def Write.wire : Write → List UInt8
  | .plain bytes => bytes
  | .text bytes => toBytes 4 bytes.length ++ bytes

def runOptions (start : Nat) : List (Write × UInt8) → EncM
  | [] => Writers.skip
  | (w, flag) :: rest => orThen (orThen w.run (flagAt start flag)) (runOptions start rest)

namespace Prog

def run : Prog → EncM
  | skip => Writers.skip
  | fail code => fun st => (code, st)
  | write w => w.run
  | seq p q => orThen p.run q.run
  | stop p q => fun st =>
      let r := p.run st
      if r.1 = good then q.run r.2 else r
  | wrap header content => fun st =>
      let h := header.run st
      let body := content.run { h.2 with offset := h.2.offset + 4 }
      let patched := emitAt h.2.offset (toBytes 4 (body.2.offset - (h.2.offset + 4))) body.2
      (h.1 ||| body.1 ||| patched.1, patched.2)
  | tagged head options => fun st =>
      orThen head.run (runOptions (st.offset % 4294967296) options) st

def optionally (b : Bool) (p : Prog) : Prog := if b then p else skip

def seqAll : List Prog → Prog
  | [] => skip
  | p :: ps => seq p (seqAll ps)

def stopAll : List Prog → Prog
  | [] => skip
  | p :: ps => stop p (stopAll ps)

end Prog

def setFirst (flag : UInt8) : List UInt8 → List UInt8
  | [] => []
  | b :: bs => (b ||| flag) :: bs

def withOptions (bytes : List UInt8) (options : List (Write × UInt8)) : List UInt8 :=
  options.foldl (fun bytes o => setFirst o.2 bytes ++ o.1.wire) bytes

def wire : Prog → List UInt8
  | .skip | .fail _ => []
  | .write w => w.wire
  | .seq p q | .stop p q => wire p ++ wire q
  | .wrap header content => wire header ++ (toBytes 4 (wire content).length ++ wire content)
  | .tagged head options => withOptions (wire head) options

/-- No part of the program fails by itself, and a flag has a byte to be in. -/
def Encodable : Prog → Prop
  | .skip | .write _ => True
  | .fail _ => False
  | .seq p q | .stop p q => Encodable p ∧ Encodable q
  | .wrap header content => Encodable header ∧ Encodable content
  | .tagged head _ => Encodable head ∧ wire head ≠ []

def Untagged : Prog → Prop
  | .skip | .fail _ | .write _ => True
  | .seq p q | .stop p q => Untagged p ∧ Untagged q
  | .wrap header content => Untagged header ∧ Untagged content
  | .tagged head options => Untagged head ∧ options = []

/-- Given the room, `f` succeeds and leaves the bytes `w` and nothing else. -/
def Writes (limit : Nat) (f : EncM) (w : List UInt8) : Prop :=
  ∀ pre mid post st, st.data = pre ++ mid ++ post → st.offset = pre.length →
    mid.length = w.length → st.data.length ≤ limit →
    ∃ st', f st = (good, st') ∧ st'.data = pre ++ w ++ post ∧ st'.offset = pre.length + w.length

variable {limit : Nat} {f g : EncM} {w w' : List UInt8}

theorem writes_unique (h : ∀ limit, Writes limit f w) (h' : ∀ limit, Writes limit f w') : w = w' := by
  let size := max w.length w'.length
  let st : Enc := ⟨List.replicate size 0, 0, []⟩
  have hsplit : ∀ k, k ≤ size → st.data = [] ++ List.replicate k 0 ++ List.replicate (size - k) 0 := by
    intro k hk
    rw [List.nil_append, List.replicate_append_replicate, Nat.add_sub_cancel' hk]
  obtain ⟨st1, hrun1, hdata1, hoff1⟩ := h size [] _ _ st (hsplit w.length (le_max_left _ _)) rfl
    List.length_replicate (by simp [st])
  obtain ⟨st2, hrun2, hdata2, hoff2⟩ := h' size [] _ _ st (hsplit w'.length (le_max_right _ _)) rfl
    List.length_replicate (by simp [st])
  obtain rfl : st1 = st2 := congrArg Prod.snd (hrun1.symm.trans hrun2)
  have hlen : w.length = w'.length := by
    rw [hoff1] at hoff2
    simpa using hoff2
  rw [hdata1] at hdata2
  exact (List.append_inj (by simpa using hdata2) hlen).1

theorem writes_skip : Writes limit Writers.skip [] := by
  intro pre mid post st hdata hoff hmid _
  have hnil : mid = [] := List.eq_nil_of_length_eq_zero hmid
  subst hnil
  exact ⟨st, rfl, hdata, hoff⟩

theorem write_data {st : Enc} {pre mid post bytes : List UInt8} (hdata : st.data = pre ++ mid ++ post)
    (hoff : st.offset = pre.length) (hmid : mid.length = bytes.length) :
    (st.write bytes).data = pre ++ bytes ++ post := by
  change overwrite st.data st.offset bytes = _
  rw [hdata, hoff, overwrite_middle _ _ _ _ hmid]

theorem writes_emit (bytes : List UInt8) : Writes limit (emit bytes) bytes := by
  intro pre mid post st hdata hoff hmid _
  have hroom : ¬ st.offset + bytes.length > st.data.length := by
    rw [hdata, hoff]
    simp only [List.length_append]
    omega
  refine ⟨st.write bytes, by rw [emit, if_neg hroom], write_data hdata hoff hmid, ?_⟩
  change st.offset + bytes.length = _
  rw [hoff]

theorem length_le_of_data {st st' : Enc} {pre mid post w : List UInt8}
    (hdata : st.data = pre ++ mid ++ post) (hdata' : st'.data = pre ++ w ++ post)
    (hmid : mid.length = w.length) (h : st.data.length ≤ limit) : st'.data.length ≤ limit := by
  rw [hdata] at h
  rw [hdata']
  simp only [List.length_append] at h ⊢
  omega

theorem Writes.bind (hf : Writes limit f w) (hg : Writes limit g w') {pre mid post : List UInt8}
    {st : Enc} (hdata : st.data = pre ++ mid ++ post) (hoff : st.offset = pre.length)
    (hmid : mid.length = (w ++ w').length) (hlim : st.data.length ≤ limit) :
    ∃ st' st'', f st = (good, st') ∧ g st' = (good, st'') ∧
      st''.data = pre ++ (w ++ w') ++ post ∧ st''.offset = pre.length + (w ++ w').length := by
  rw [List.length_append] at hmid
  have hsplit : st.data = pre ++ mid.take w.length ++ (mid.drop w.length ++ post) := by
    rw [hdata, List.append_assoc, List.append_assoc, ← List.append_assoc (mid.take _),
      List.take_append_drop]
  have hlen : (mid.take w.length).length = w.length := by
    rw [List.length_take]
    omega
  obtain ⟨st', hrun, hdata', hoff'⟩ := hf pre _ _ st hsplit hoff hlen hlim
  have hdata'' : st'.data = (pre ++ w) ++ mid.drop w.length ++ post := by
    rw [hdata', List.append_assoc, List.append_assoc, List.append_assoc]
  obtain ⟨st'', hrun', hfinal, hend⟩ := hg (pre ++ w) (mid.drop w.length) post st' hdata''
    (by rw [hoff', List.length_append]) (by rw [List.length_drop]; omega)
    (length_le_of_data hsplit hdata' hlen hlim)
  refine ⟨st', st'', hrun, hrun', ?_, ?_⟩
  · rw [hfinal, List.append_assoc, List.append_assoc, List.append_assoc]
    simp only [List.append_assoc]
  · rw [hend]
    simp only [List.length_append]
    omega

theorem writes_orThen (hf : Writes limit f w) (hg : Writes limit g w') :
    Writes limit (orThen f g) (w ++ w') := by
  intro pre mid post st hdata hoff hmid hlim
  obtain ⟨st', st'', hrun, hrun', hfinal, hend⟩ := hf.bind hg hdata hoff hmid hlim
  exact ⟨st'', by simp [orThen, hrun, hrun'], hfinal, hend⟩

theorem writes_text (bytes : List UInt8) : Writes limit (Write.text bytes).run (Write.text bytes).wire := by
  intro pre mid post st hdata hoff hmid hlim
  have hbody : Writes limit (fun st => (good, st.write bytes)) bytes := by
    intro pre mid post st hdata hoff hmid _
    exact ⟨_, rfl, write_data hdata hoff hmid, by rw [← hoff]; rfl⟩
  obtain ⟨st', st'', hrun, hrun', hfinal, hend⟩ :=
    (writes_emit (toBytes 4 bytes.length)).bind hbody hdata hoff hmid hlim
  have hroom : ¬ st.offset + bytes.length > st.data.length := by
    rw [hdata, hoff]
    simp only [Write.wire, List.length_append, length_toBytes] at hmid ⊢
    omega
  refine ⟨st'', ?_, hfinal, hend⟩
  have hst : st'.write bytes = st'' := congrArg Prod.snd hrun'
  simp only [Write.run, if_neg hroom, hrun, hst]

theorem writes_write (w : Write) : Writes limit w.run w.wire := by
  cases w with
  | plain bytes => exact writes_emit bytes
  | text bytes => exact writes_text bytes

theorem writes_stop {p q : Prog} (hp : Writes limit p.run w) (hq : Writes limit q.run w') :
    Writes limit (Prog.stop p q).run (w ++ w') := by
  intro pre mid post st hdata hoff hmid hlim
  obtain ⟨st', st'', hrun, hrun', hfinal, hend⟩ := hp.bind hq hdata hoff hmid hlim
  exact ⟨st'', by simp [Prog.run, hrun, hrun'], hfinal, hend⟩

/-- The content is written behind a gap of four bytes, which is filled in
last. -/
theorem writes_wrap {header content : Prog} (hh : Writes limit header.run w)
    (hc : Writes limit content.run w') :
    Writes limit (Prog.wrap header content).run (w ++ (toBytes 4 w'.length ++ w')) := by
  intro pre mid post st hdata hoff hmid hlim
  simp only [List.length_append, length_toBytes] at hmid
  obtain ⟨m1, m2, m3, rfl, h1, h2, h3⟩ : ∃ m1 m2 m3, mid = m1 ++ (m2 ++ m3) ∧
      m1.length = w.length ∧ m2.length = 4 ∧ m3.length = w'.length := by
    refine ⟨mid.take w.length, (mid.drop w.length).take 4, (mid.drop w.length).drop 4, ?_, ?_, ?_, ?_⟩
    · rw [List.take_append_drop, List.take_append_drop]
    all_goals
      simp only [List.length_take, List.length_drop]
      omega
  have hsplit : st.data = pre ++ m1 ++ (m2 ++ (m3 ++ post)) := by
    rw [hdata]
    simp only [List.append_assoc]
  obtain ⟨st1, hrun1, hdata1, hoff1⟩ := hh pre m1 _ st hsplit hoff h1 hlim
  have hlim1 := length_le_of_data hsplit hdata1 h1 hlim
  have hsplit1 : st1.data = (pre ++ w ++ m2) ++ m3 ++ post := by
    rw [hdata1]
    simp only [List.append_assoc]
  obtain ⟨st2, hrun2, hdata2, hoff2⟩ := hc (pre ++ w ++ m2) m3 post
    { st1 with offset := st1.offset + 4 } hsplit1
    (by simp only [hoff1, List.length_append, h2]) h3 hlim1
  have hsplit2 : st2.data = (pre ++ w) ++ m2 ++ (w' ++ post) := by
    rw [hdata2]
    simp only [List.append_assoc]
  have hlength : st2.offset - (st1.offset + 4) = w'.length := by
    rw [hoff2, hoff1]
    simp only [List.length_append, h2]
    omega
  have hroom : ¬ st1.offset + 4 > st2.data.length := by
    rw [hsplit2, hoff1]
    simp only [List.length_append, h2]
    omega
  have hpatch : emitAt st1.offset (toBytes 4 w'.length) st2 =
      (good, st2.poke st1.offset (toBytes 4 w'.length)) := by
    rw [emitAt, length_toBytes, if_neg hroom]
  refine ⟨st2.poke st1.offset (toBytes 4 w'.length), ?_, ?_, ?_⟩
  · simp only [Prog.run, hrun1, hrun2, hlength, hpatch, or_good]
  · change overwrite st2.data st1.offset _ = _
    have hpos : st1.offset = (pre ++ w).length := by rw [hoff1, List.length_append]
    rw [hsplit2, hpos, overwrite_middle _ _ _ _ (by rw [h2, length_toBytes])]
    simp only [List.append_assoc]
  · change st2.offset = _
    rw [hoff2]
    simp only [List.length_append, length_toBytes, h2]
    omega

theorem setFirst_ne_nil {flag : UInt8} {bytes : List UInt8} (h : bytes ≠ []) :
    setFirst flag bytes ≠ [] := by
  cases bytes with
  | nil => exact h
  | cons b bs => simp [setFirst]

theorem length_setFirst (flag : UInt8) (bytes : List UInt8) :
    (setFirst flag bytes).length = bytes.length := by
  cases bytes <;> rfl

theorem setFlag_data {st : Enc} {pre bytes post : List UInt8} (flag : UInt8) (hne : bytes ≠ [])
    (hdata : st.data = pre ++ bytes ++ post) :
    (st.setFlag pre.length flag).data = pre ++ setFirst flag bytes ++ post := by
  cases bytes with
  | nil => exact absurd rfl hne
  | cons b bs =>
      have hbyte : st.data.getD pre.length 0 = b := by
        rw [hdata, List.append_assoc]
        simp
      change overwrite st.data pre.length [st.data.getD pre.length 0 ||| flag] = _
      have hsplit : st.data = pre ++ [b] ++ (bs ++ post) := by
        rw [hdata]
        simp
      rw [hbyte, hsplit, overwrite_middle pre [b] [b ||| flag] (bs ++ post) rfl]
      simp [setFirst]

theorem length_withOptions (bytes : List UInt8) (options : List (Write × UInt8)) :
    (withOptions bytes options).length =
      bytes.length + (options.flatMap (fun o => o.1.wire)).length := by
  induction options generalizing bytes with
  | nil => simp [withOptions]
  | cons o options ih =>
      have hstep : withOptions bytes (o :: options) =
          withOptions (setFirst o.2 bytes ++ o.1.wire) options := rfl
      rw [hstep, ih, List.flatMap_cons]
      simp only [List.length_append, length_setFirst]
      omega

/-- `bytes` stand at the offset `start` already; the flags go to their first
byte. -/
theorem runOptions_writes (options : List (Write × UInt8)) {pre bytes mid post : List UInt8}
    {st : Enc} (hne : bytes ≠ []) (hdata : st.data = pre ++ bytes ++ (mid ++ post))
    (hoff : st.offset = pre.length + bytes.length)
    (hmid : mid.length = (options.flatMap (fun o => o.1.wire)).length)
    (hlim : st.data.length ≤ limit) :
    ∃ st', runOptions pre.length options st = (good, st') ∧
      st'.data = pre ++ withOptions bytes options ++ post ∧
      st'.offset = pre.length + (withOptions bytes options).length := by
  induction options generalizing bytes mid st with
  | nil =>
      have hnil : mid = [] := List.eq_nil_of_length_eq_zero hmid
      subst hnil
      exact ⟨st, rfl, hdata, hoff⟩
  | cons o options ih =>
      obtain ⟨w, flag⟩ := o
      rw [List.flatMap_cons, List.length_append] at hmid
      dsimp only at hmid
      have hsplit : st.data = (pre ++ bytes) ++ mid.take w.wire.length ++
          (mid.drop w.wire.length ++ post) := by
        rw [hdata, List.append_assoc (pre ++ bytes), ← List.append_assoc (mid.take _),
          List.take_append_drop]
      have hlen : (mid.take w.wire.length).length = w.wire.length := by
        rw [List.length_take]
        omega
      obtain ⟨st1, hrun, hdata1, hoff1⟩ := writes_write w (pre ++ bytes) _ _ st hsplit
        (by rw [hoff, List.length_append]) hlen hlim
      have hdata1' : st1.data = pre ++ bytes ++ (w.wire ++ (mid.drop w.wire.length ++ post)) := by
        rw [hdata1, List.append_assoc (pre ++ bytes)]
      have hdata2 : (st1.setFlag pre.length flag).data = pre ++ (setFirst flag bytes ++ w.wire) ++
          (mid.drop w.wire.length ++ post) := by
        rw [setFlag_data flag hne hdata1']
        simp only [List.append_assoc]
      have hlim2 : (st1.setFlag pre.length flag).data.length ≤ limit := by
        rw [hdata2]
        rw [hdata] at hlim
        simp only [List.length_append, length_setFirst, List.length_drop] at hlim ⊢
        omega
      obtain ⟨st', hrest, hfinal, hend⟩ := ih (by simp [setFirst_ne_nil hne]) hdata2
        (by
          change st1.offset = _
          rw [hoff1]
          simp only [List.length_append, length_setFirst]
          omega)
        (by rw [List.length_drop]; omega) hlim2
      refine ⟨st', ?_, hfinal, hend⟩
      simp only [runOptions, orThen, hrun, flagAt, hrest, or_good]

/-- The flags are set in the right place as long as the offset of the head is
one of 32 bits. -/
theorem run_tagged {head : Prog} (options : List (Write × UInt8)) (hh : Writes limit head.run w) (hne : w ≠ [])
    {pre mid post : List UInt8} {st : Enc} (hdata : st.data = pre ++ mid ++ post) (hoff : st.offset = pre.length)
    (hmid : mid.length = (withOptions w options).length) (hlim : st.data.length ≤ limit)
    (hfits : pre.length < 4294967296 ∨ options = []) :
    ∃ st', (Prog.tagged head options).run st = (good, st') ∧ st'.data = pre ++ withOptions w options ++ post ∧
      st'.offset = pre.length + (withOptions w options).length := by
  rw [length_withOptions] at hmid
  have hsplit : st.data = pre ++ mid.take w.length ++ (mid.drop w.length ++ post) := by
    rw [hdata, List.append_assoc, List.append_assoc, ← List.append_assoc (mid.take _),
      List.take_append_drop]
  have hlen : (mid.take w.length).length = w.length := by
    rw [List.length_take]
    omega
  obtain ⟨st1, hrun, hdata1, hoff1⟩ := hh pre _ _ st hsplit hoff hlen hlim
  have hlim1 := length_le_of_data hsplit hdata1 hlen hlim
  rcases hfits with hstart | rfl
  · obtain ⟨st2, hrun2, hdata2, hoff2⟩ := runOptions_writes options hne hdata1 hoff1
      (by rw [List.length_drop]; omega) hlim1
    refine ⟨st2, ?_, hdata2, hoff2⟩
    simp only [Prog.run, orThen, hrun, hoff, Nat.mod_eq_of_lt hstart, hrun2, or_good]
  · have hnil : mid.drop w.length = [] := by
      apply List.eq_nil_of_length_eq_zero
      rw [List.length_drop]
      simp only [List.flatMap_nil, List.length_nil] at hmid
      omega
    rw [hnil] at hdata1
    exact ⟨st1, by simp [Prog.run, orThen, hrun, runOptions, Writers.skip], hdata1, hoff1⟩

theorem writes_tagged {head : Prog} (options : List (Write × UInt8)) (hh : Writes limit head.run w)
    (hne : w ≠ []) (hfits : limit ≤ 4294967296 ∨ options = []) :
    Writes limit (Prog.tagged head options).run (withOptions w options) := by
  intro pre mid post st hdata hoff hmid hlim
  refine run_tagged options hh hne hdata hoff hmid hlim (hfits.imp_left (fun hlimit => ?_))
  have hpos : 0 < (withOptions w options).length := by
    rw [length_withOptions]
    exact Nat.add_pos_left (List.length_pos_iff.mpr hne) _
  rw [hdata] at hlim
  simp only [List.length_append] at hlim
  omega

theorem run_writes (p : Prog) (h : Encodable p) (hfits : limit ≤ 4294967296 ∨ Untagged p) :
    Writes limit p.run (wire p) := by
  induction p with
  | skip => exact writes_skip
  | fail code => exact absurd h (by simp [Encodable])
  | write w => exact writes_write w
  | seq p q ihp ihq =>
      exact writes_orThen (ihp h.1 (hfits.imp id And.left)) (ihq h.2 (hfits.imp id And.right))
  | stop p q ihp ihq =>
      exact writes_stop (ihp h.1 (hfits.imp id And.left)) (ihq h.2 (hfits.imp id And.right))
  | wrap header content ihh ihc =>
      exact writes_wrap (ihh h.1 (hfits.imp id And.left)) (ihc h.2 (hfits.imp id And.right))
  | tagged head options ih =>
      exact writes_tagged options (ih h.1 (hfits.imp id And.left)) h.2 (hfits.imp id And.right)

end OpcUa.WritePrograms
