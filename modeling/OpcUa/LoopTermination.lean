import OpcUa.HandlerMoves

namespace OpcUa.LoopTermination

open StatusCodes LittleEndian NodeIds Connections Buffers Readers Decoding Servers SecureChannels ServiceTable
open MessageHandlers BoundedReading HandlerMoves Loops

section Passes

def wordAt (data : List UInt8) (pos : Nat) : UInt32 := UInt32.ofNat (ofBytes ((data.drop pos).take 4))

/-- The type of the message at a position, as the loop reads it. -/
def typeAt (data : List UInt8) (pos : Nat) : Option MessageType := messageType (wordAt data pos)

def sizeAt (data : List UInt8) (pos : Nat) : Nat := (wordAt data (pos + 4)).toNat

variable {b : Build} {env : Environment} {s : Server} {c : Nat} {st : Dec}

theorem uint32_take {st : Dec} (h : st.offset + 4 ≤ st.data.length) :
    uint32DecodeBinary st = some (.ok (wordAt st.data st.offset), st.advance 4) := by
  have htake : take 4 st = some (.ok ((st.data.drop st.offset).take 4), st.advance 4) :=
    if_neg (by omega)
  rw [uint32DecodeBinary, map, andThen, htake]
  rfl

theorem uint32_short {st : Dec} (h : st.data.length < st.offset + 4) :
    uint32DecodeBinary st = some (.error badDecodingError, st) := by
  have htake : take 4 st = some (.error badDecodingError, st) := if_pos (by omega)
  rw [uint32DecodeBinary, map, andThen, htake]

theorem header_read (h : st.offset + 8 ≤ st.data.length) :
    attempt headerDecodeBinary st =
      (.ok (wordAt st.data st.offset, wordAt st.data (st.offset + 4)), (st.advance 4).advance 4) := by
  have hsecond : uint32DecodeBinary (st.advance 4) =
      some (.ok (wordAt st.data (st.offset + 4)), (st.advance 4).advance 4) :=
    @uint32_take (st.advance 4) h
  rw [attempt, headerDecodeBinary, both, uint32_take (by omega)]
  dsimp only
  rw [hsecond]
  rfl

theorem header_short (h : st.data.length < st.offset + 8) :
    ∃ code st', attempt headerDecodeBinary st = (.error code, st') := by
  rw [attempt, headerDecodeBinary, both]
  by_cases hfirst : st.offset + 4 ≤ st.data.length
  · have hsecond : uint32DecodeBinary (st.advance 4) = some (.error badDecodingError, st.advance 4) :=
      @uint32_short (st.advance 4) h
    rw [uint32_take hfirst]
    dsimp only
    rw [hsecond]
    exact ⟨_, _, rfl⟩
  · rw [uint32_short (by omega)]
    dsimp only
    rw [uint32_short (by omega)]
    exact ⟨_, _, rfl⟩

theorem pass_eq (h : st.offset + 8 ≤ st.data.length) :
    pass b env s c st = dispatch b env s c (st.offset + sizeAt st.data st.offset)
      (typeAt st.data st.offset) ((st.advance 4).advance 4) := by
  rw [MessageHandlers.pass, header_read h]
  rfl

def returns (s : Server) (c : Nat) (type : Option MessageType) : Bool :=
  type == some .clo || type == some .msg && !established s c

/-- A pass that goes on behind the announced length, in the same buffer up to
bits that the handler has cleared. -/
structure Skips (st : Dec) (r : Pass) : Prop where
  again : r.again = decide (st.offset + sizeAt st.data st.offset < st.data.length)
  offset : r.dec.offset = st.offset + sizeAt st.data st.offset
  cleared : Cleared st.data r.dec.data
  reads_le : ∀ x ∈ r.dec.reads, x.1 + x.2 ≤ r.dec.data.length

theorem header_moves (h : st.offset + 8 ≤ st.data.length) (hst : Valid st) :
    Moves st ((st.advance 4).advance 4) := by
  have hagree : ∀ most, Agree most headerDecodeBinary headerDecodeBinary := fun _ =>
    agree_both DecodeBounds.agree_uint32 DecodeBounds.agree_uint32
  have hmoves := attempt_moves hagree hst
  rw [header_read h] at hmoves
  exact hmoves

theorem skipTo_skips {hd : Handled} (type : Option MessageType) (hmoves : Moves st hd.dec) :
    Skips st (skipTo (st.offset + sizeAt st.data st.offset) type hd) := by
  refine ⟨?_, rfl, hmoves.cleared, hmoves.valid.reads_le⟩
  change decide (hd.dec.data.length > _) = _
  rw [hmoves.length_eq]

theorem dispatch_type {targetpos : Nat} {type : Option MessageType} :
    (dispatch b env s c targetpos type st).type = type := by
  rcases type with _ | _ | _ | _ | _ | _ <;> try rfl
  rw [dispatch]
  split <;> rfl

theorem dispatch_returned {targetpos : Nat} {type : Option MessageType} :
    (dispatch b env s c targetpos type st).returned = returns s c type := by
  rcases type with _ | _ | _ | _ | _ | _ <;> try rfl
  rw [dispatch]
  by_cases hest : established s c = true <;> simp [hest, returns, skipTo]

theorem dispatch_offset {targetpos : Nat} {type : Option MessageType} (h : returns s c type = false) :
    (dispatch b env s c targetpos type st).dec.offset = targetpos := by
  rcases type with _ | _ | _ | _ | _ | _ <;> try rfl
  · have hest : established s c = true := by simpa [returns] using h
    rw [dispatch, hest]
    rfl
  · simp [returns] at h

theorem pass_type (h : st.offset + 8 ≤ st.data.length) :
    (pass b env s c st).type = typeAt st.data st.offset := by
  rw [pass_eq h, dispatch_type]

theorem pass_returned (h : st.offset + 8 ≤ st.data.length) :
    (pass b env s c st).returned = returns s c (typeAt st.data st.offset) := by
  rw [pass_eq h, dispatch_returned]

theorem pass_of_returned (h : st.offset + 8 ≤ st.data.length)
    (hreturns : returns s c (typeAt st.data st.offset) = true) : (pass b env s c st).again = false := by
  rw [pass_eq h]
  generalize typeAt st.data st.offset = type at hreturns
  rcases type with _ | _ | _ | _ | _ | _
  · simp [returns] at hreturns
  · have hest : established s c = false := by simpa [returns] using hreturns
    simp [dispatch, hest]
  · simp [returns] at hreturns
  · simp [returns] at hreturns
  · simp [returns] at hreturns
  · rfl

theorem pass_skips (h : st.offset + 8 ≤ st.data.length) (hst : Valid st)
    (hreturns : returns s c (typeAt st.data st.offset) = false) : Skips st (pass b env s c st) := by
  have hheader := header_moves h hst
  rw [pass_eq h]
  generalize typeAt st.data st.offset = type at hreturns
  rcases type with _ | _ | _ | _ | _ | _
  · exact skipTo_skips _ hheader
  · have hest : established s c = true := by simpa [returns] using hreturns
    rw [dispatch, hest]
    exact skipTo_skips _ (hheader.trans (processMSG_moves hheader.valid))
  · exact skipTo_skips _ (hheader.trans (processOPN_moves hheader.valid))
  · exact skipTo_skips _ (hheader.trans (processHEL_moves hheader.valid))
  · exact skipTo_skips _ hheader
  · simp [returns] at hreturns

theorem pass_unknown (h : st.offset + 8 ≤ st.data.length) (htype : typeAt st.data st.offset = none) :
    (pass b env s c st).dec.data = st.data := by
  rw [pass_eq h, htype]
  rfl

theorem pass_short (h : st.data.length < st.offset + 8) : (pass b env s c st).again = false := by
  obtain ⟨code, st', hread⟩ := header_short h
  rw [MessageHandlers.pass, hread]

end Passes

section Ends

def letters : MessageType → List UInt8
  | .msg => [77, 83, 71]
  | .opn => [79, 80, 78]
  | .hel => [72, 69, 76]
  | .ack => [65, 67, 75]
  | .clo => [67, 76, 79]

theorem code_letters (t : MessageType) : t.code = ofBytes (letters t) := by
  cases t <;> rfl

theorem zipWith_of_cleared {bytes bytes' : List UInt8} (h : Cleared bytes bytes') :
    List.zipWith (· &&& ·) bytes' bytes = bytes' := by
  induction h with
  | nil => rfl
  | cons hb _ ih => rw [List.zipWith_cons_cons, hb, ih]

theorem letters_of_cleared {t t' : MessageType} (h : Cleared (letters t) (letters t')) : t = t' := by
  have hzip := zipWith_of_cleared h
  revert hzip
  cases t <;> cases t' <;> decide

variable {data data' : List UInt8} {pos : Nat}

theorem typeAt_letters {t : MessageType} (hlen : pos + 4 ≤ data.length) (h : typeAt data pos = some t) :
    (data.drop pos).take 3 = letters t := by
  have hcode : t.code = (wordAt data pos).toNat % 16777216 := by
    simpa using List.find?_some h
  obtain ⟨b0, b1, b2, b3, hbytes⟩ : ∃ b0 b1 b2 b3, (data.drop pos).take 4 = [b0, b1, b2, b3] := by
    have hfour : ((data.drop pos).take 4).length = 4 := by
      rw [List.length_take, List.length_drop]
      omega
    exact List.length_eq_four.mp hfour
  have hthree : (data.drop pos).take 3 = [b0, b1, b2] := by
    rw [show 3 = min 3 4 from rfl, ← List.take_take, hbytes]
    rfl
  have hword : (wordAt data pos).toNat % 16777216 = ofBytes [b0, b1, b2] := by
    have h0 := b0.toNat_lt
    have h1 := b1.toNat_lt
    have h2 := b2.toNat_lt
    have h3 := b3.toNat_lt
    rw [wordAt, hbytes, UInt32.toNat_ofNat']
    simp only [ofBytes]
    omega
  rw [hword, code_letters] at hcode
  rw [hthree, ← toBytes_ofBytes [b0, b1, b2], ← hcode]
  cases t <;> rfl

theorem typeAt_of_cleared {t t' : MessageType} (hcleared : Cleared data data')
    (hlen : pos + 4 ≤ data.length) (h : typeAt data pos = some t) (h' : typeAt data' pos = some t') :
    t = t' := by
  have hlen' : pos + 4 ≤ data'.length := by
    rw [← hcleared.length_eq]
    exact hlen
  have hbytes := List.forall₂_take 3 (List.forall₂_drop pos hcleared)
  rw [typeAt_letters hlen h, typeAt_letters hlen' h'] at hbytes
  exact letters_of_cleared hbytes

theorem ofBytes_le_of_cleared {bytes bytes' : List UInt8} (h : Cleared bytes bytes') :
    ofBytes bytes' ≤ ofBytes bytes := by
  induction h with
  | nil => exact le_refl _
  | @cons b b' _ _ hb _ ih =>
      have hle : b'.toNat ≤ b.toNat := by
        rw [← hb, UInt8.toNat_and]
        exact Nat.and_le_right
      rw [ofBytes, ofBytes]
      omega

theorem wordAt_toNat (data : List UInt8) (pos : Nat) :
    (wordAt data pos).toNat = ofBytes ((data.drop pos).take 4) := by
  have hlt := ofBytes_lt ((data.drop pos).take 4)
  have hlen : ((data.drop pos).take 4).length ≤ 4 := List.length_take_le _ _
  have hpow : 256 ^ ((data.drop pos).take 4).length ≤ 256 ^ 4 := Nat.pow_le_pow_right (by decide) hlen
  rw [wordAt, UInt32.toNat_ofNat', Nat.mod_eq_of_lt]
  omega

theorem sizeAt_le_of_cleared (h : Cleared data data') (pos : Nat) : sizeAt data' pos ≤ sizeAt data pos := by
  rw [sizeAt, sizeAt, wordAt_toNat, wordAt_toNat]
  exact ofBytes_le_of_cleared (List.forall₂_take 4 (List.forall₂_drop _ h))

variable {b : Build} {env : Nat → Environment} {c : Nat} {x₀ : State}

theorem next_eq_some {k : Nat} {x y : State} (h : next b env c k x = some y) :
    (pass b (env k) x.1 c x.2).again = true ∧
      y = ((pass b (env k) x.1 c x.2).server, (pass b (env k) x.1 c x.2).dec) := by
  rw [next] at h
  split at h
  · exact ⟨‹_›, (Option.some.inj h).symm⟩
  · cases h

theorem next_eq_none {k : Nat} {x : State} :
    next b env c k x = none ↔ (pass b (env k) x.1 c x.2).again = false := by
  rw [next]
  split
  · simp [*]
  · simp [*]

theorem step_of_next {k : Nat} {x y : State} (hx : Valid x.2) (h : next b env c k x = some y) :
    x.2.offset + 8 ≤ x.2.data.length ∧ returns x.1 c (typeAt x.2.data x.2.offset) = false ∧
      y.2.offset = x.2.offset + sizeAt x.2.data x.2.offset ∧ Cleared x.2.data y.2.data ∧ Valid y.2 ∧
      (typeAt x.2.data x.2.offset = none → y.2.data = x.2.data) := by
  obtain ⟨hagain, rfl⟩ := next_eq_some h
  have hlen : x.2.offset + 8 ≤ x.2.data.length := by
    by_contra hshort
    rw [pass_short (by omega)] at hagain
    cases hagain
  have hreturns : returns x.1 c (typeAt x.2.data x.2.offset) = false := by
    by_contra hreturns
    rw [pass_of_returned hlen (by simpa using hreturns)] at hagain
    cases hagain
  have hskips : Skips x.2 (pass b (env k) x.1 c x.2) := pass_skips hlen hx hreturns
  refine ⟨hlen, hreturns, hskips.offset, hskips.cleared, ⟨?_, hskips.reads_le⟩, pass_unknown hlen⟩
  have hlt : x.2.offset + sizeAt x.2.data x.2.offset < x.2.data.length := by
    have h := hskips.again.symm.trans hagain
    exact of_decide_eq_true h
  have hlength := hskips.cleared.length_eq
  have hoffset := hskips.offset
  dsimp only
  omega

/-- The loop goes on after a readable header unless it returns or comes to the
end of the buffer. -/
theorem returns_of_last {k : Nat} {x : State} (hx : Valid x.2) (hlen : x.2.offset + 8 ≤ x.2.data.length)
    (hroom : x.2.offset + sizeAt x.2.data x.2.offset < x.2.data.length)
    (h : next b env c k x = none) : returns x.1 c (typeAt x.2.data x.2.offset) = true := by
  by_contra hreturns
  have hskips : Skips x.2 (pass b (env k) x.1 c x.2) := pass_skips hlen hx (by simpa using hreturns)
  have hagain := next_eq_none.mp h
  rw [hskips.again, decide_eq_true hroom] at hagain
  cases hagain

theorem reached_valid (hx₀ : Valid x₀.2) {k : Nat} {x : State}
    (h : reach (next b env c) x₀ k = some x) : Valid x.2 ∧ Cleared x₀.2.data x.2.data := by
  refine reach_invariant (P := fun x => Valid x.2 ∧ Cleared x₀.2.data x.2.data)
    ⟨hx₀, Cleared.refl _⟩ ?_ h
  rintro k x y ⟨hvalid, hcleared⟩ hnext
  obtain ⟨_, _, _, hclear, hy, _⟩ := step_of_next hvalid hnext
  exact ⟨hy, hcleared.trans hclear⟩

theorem reach_none_of_le {j k : Nat} (hle : j ≤ k) (h : reach (next b env c) x₀ j = none) :
    reach (next b env c) x₀ k = none := by
  cases hk : reach (next b env c) x₀ k with
  | none => rfl
  | some x =>
      obtain ⟨y, hy⟩ := reach_isSome_of_le hle hk
      rw [h] at hy
      cases hy

theorem processed_iff {fuel k : Nat} {x : State} (h : reach (next b env c) x₀ k = some x) :
    (processBinaryMessage b env c fuel k x).isSome = true ↔ reach (next b env c) x₀ (k + fuel) = none := by
  induction fuel generalizing k x with
  | zero => simp [processBinaryMessage, h]
  | succ fuel ih =>
      rw [processBinaryMessage]
      split
      · rename_i hagain
        have hnext : reach (next b env c) x₀ (k + 1) =
            some ((pass b (env k) x.1 c x.2).server, (pass b (env k) x.1 c x.2).dec) := by
          rw [reach_of_next h, next]
          exact if_pos hagain
        rw [Option.isSome_map, ih hnext, Nat.add_right_comm, Nat.add_assoc]
      · rename_i hagain
        have hnone : reach (next b env c) x₀ (k + 1) = none := by
          rw [reach_of_next h, next_eq_none]
          simpa using hagain
        have hle : k + 1 ≤ k + (fuel + 1) := by omega
        rw [reach_none_of_le hle hnone]
        simp

theorem terminates_iff_ends : Terminates b env c x₀ ↔ Ends (next b env c) x₀ := by
  have hstart : reach (next b env c) x₀ 0 = some x₀ := rfl
  constructor
  · rintro ⟨fuel, p, hp⟩
    refine ⟨fuel, ?_⟩
    have h := (processed_iff hstart).mp (Option.isSome_iff_exists.mpr ⟨p, hp⟩)
    rwa [Nat.zero_add] at h
  · rintro ⟨fuel, h⟩
    have hsome : (processBinaryMessage b env c fuel 0 x₀).isSome = true :=
      (processed_iff hstart).mpr (by rwa [Nat.zero_add])
    obtain ⟨p, hp⟩ := Option.isSome_iff_exists.mp hsome
    exact ⟨fuel, p, hp⟩

/-- No message of announced size 0 is reached, apart from CLO messages and from
MSG messages for which the connection is not established, at once or when
they are processed again. -/
def Unstalled (b : Build) (env : Nat → Environment) (c : Nat) (x₀ : State) : Prop :=
  ∀ k x, reach (next b env c) x₀ k = some x → x.2.offset + 8 ≤ x.2.data.length →
    sizeAt x.2.data x.2.offset = 0 →
    typeAt x.2.data x.2.offset = some .clo ∨
      ∃ j ≥ k, ∃ y, reach (next b env c) x₀ j = some y ∧ y.2.offset = x.2.offset ∧
        typeAt y.2.data y.2.offset = some .msg ∧ established y.1 c = false

/-- The state of the buffer while the loop stays at a message of size 0. -/
structure Stalled (x y : State) : Prop where
  valid : Valid y.2
  offset : y.2.offset = x.2.offset
  cleared : Cleared x.2.data y.2.data
  unknown : typeAt x.2.data x.2.offset = none → typeAt y.2.data y.2.offset = none

theorem Stalled.size {x y : State} (h : Stalled x y) (hsize : sizeAt x.2.data x.2.offset = 0) :
    sizeAt y.2.data y.2.offset = 0 := by
  have hle := sizeAt_le_of_cleared h.cleared x.2.offset
  rw [h.offset]
  omega

theorem stalled_next {x y z : State} {k : Nat} (hsize : sizeAt x.2.data x.2.offset = 0)
    (h : Stalled x y) (hnext : next b env c k y = some z) : Stalled x z := by
  obtain ⟨_, _, hoffset, hcleared, hvalid, hunknown⟩ := step_of_next h.valid hnext
  have hsame : z.2.offset = y.2.offset := by
    rw [hoffset, h.size hsize, Nat.add_zero]
  refine ⟨hvalid, hsame.trans h.offset, h.cleared.trans hcleared, fun htype => ?_⟩
  have hy := h.unknown htype
  rw [hunknown hy, hsame, hy]

theorem stalled_reach {x y : State} {k j : Nat} (hx : Valid x.2) (hsize : sizeAt x.2.data x.2.offset = 0)
    (hk : reach (next b env c) x₀ k = some x) (hle : k ≤ j) (hj : reach (next b env c) x₀ j = some y) :
    Stalled x y := by
  induction j generalizing y with
  | zero =>
      obtain rfl : k = 0 := Nat.le_zero.mp hle
      obtain rfl : x = y := Option.some.inj (hk.symm.trans hj)
      exact ⟨hx, rfl, Cleared.refl _, id⟩
  | succ j ih =>
      rcases Nat.lt_or_ge k (j + 1) with hlt | hge
      · obtain ⟨z, hz, hnext⟩ := reach_succ_eq_some.mp hj
        exact stalled_next hsize (ih (by omega) hz) hnext
      · obtain rfl : k = j + 1 := by omega
        obtain rfl : x = y := Option.some.inj (hk.symm.trans hj)
        exact ⟨hx, rfl, Cleared.refl _, id⟩

theorem unstalled_of_ends (hx₀ : Valid x₀.2) (h : Ends (next b env c) x₀) : Unstalled b env c x₀ := by
  intro k x hk hlen hsize
  obtain ⟨j, y, hj, hlast⟩ := last_of_ends h
  have hkj : k ≤ j := by
    by_contra hlt
    have hnone := (reach_of_next hj).trans hlast
    rw [reach_none_of_le (by omega) hnone] at hk
    cases hk
  have hstalled := stalled_reach (reached_valid hx₀ hk).1 hsize hk hkj hj
  have hleny : y.2.offset + 8 ≤ y.2.data.length := by
    rw [hstalled.offset, ← hstalled.cleared.length_eq]
    exact hlen
  have hreturns := returns_of_last hstalled.valid hleny (by rw [hstalled.size hsize]; omega) hlast
  simp only [returns, Bool.or_eq_true, Bool.and_eq_true, beq_iff_eq, Bool.not_eq_true'] at hreturns
  rcases hreturns with hclo | ⟨hmsg, hest⟩
  · left
    cases htype : typeAt x.2.data x.2.offset with
    | none => exact absurd (hstalled.unknown htype) (by rw [hclo]; simp)
    | some t =>
        rw [hstalled.offset] at hclo
        rw [typeAt_of_cleared hstalled.cleared (by omega) htype hclo]
  · exact Or.inr ⟨j, hkj, y, hj, hstalled.offset, hmsg, hest⟩

theorem ends_of_unstalled (hx₀ : Valid x₀.2) (h : Unstalled b env c x₀) : Ends (next b env c) x₀ := by
  by_contra hends
  obtain ⟨k, x, y, hk, hnext, hoffset⟩ := stall_of_not_ends (fun x => x.2.offset) x₀.2.data.length
    (fun k x hk => by
      obtain ⟨hvalid, hcleared⟩ := reached_valid hx₀ hk
      rw [hcleared.length_eq]
      exact hvalid.offset_le)
    (fun k x y hk hnext => by
      rw [(step_of_next (reached_valid hx₀ hk).1 hnext).2.2.1]
      exact Nat.le_add_right _ _) hends
  have hvalid := (reached_valid hx₀ hk).1
  obtain ⟨hlen, hreturns, hskip, _⟩ := step_of_next hvalid hnext
  have hsize : sizeAt x.2.data x.2.offset = 0 := by omega
  rcases h k x hk hlen hsize with hclo | ⟨j, hkj, y, hj, hsame, hmsg, hest⟩
  · rw [hclo] at hreturns
    simp [returns] at hreturns
  · have hleny : y.2.offset + 8 ≤ y.2.data.length := by
      rw [hsame, ← (stalled_reach hvalid hsize hk hkj hj).cleared.length_eq]
      exact hlen
    refine hends (ends_of_last hj (next_eq_none.mpr (pass_of_returned hleny ?_)))
    simp [returns, hmsg, hest]

theorem terminates_iff_unstalled (hx₀ : Valid x₀.2) :
    Terminates b env c x₀ ↔ Unstalled b env c x₀ := by
  rw [terminates_iff_ends]
  exact ⟨unstalled_of_ends hx₀, ends_of_unstalled hx₀⟩

theorem not_terminates_of_stall (hx₀ : Valid x₀.2) {k : Nat} {x : State}
    (hk : reach (next b env c) x₀ k = some x) (hlen : x.2.offset + 8 ≤ x.2.data.length)
    (hsize : sizeAt x.2.data x.2.offset = 0) (hclo : typeAt x.2.data x.2.offset ≠ some .clo)
    (hmsg : typeAt x.2.data x.2.offset ≠ some .msg) : ¬ Terminates b env c x₀ := by
  rw [terminates_iff_unstalled hx₀]
  intro h
  rcases h k x hk hlen hsize with htype | ⟨j, hj, y, hy, hoffset, htype, _⟩
  · exact hclo htype
  · have hstalled := stalled_reach (reached_valid hx₀ hk).1 hsize hk hj hy
    cases hx : typeAt x.2.data x.2.offset with
    | none => exact absurd (hstalled.unknown hx) (by rw [htype]; simp)
    | some t =>
        rw [hoffset] at htype
        rw [typeAt_of_cleared hstalled.cleared (by omega) hx htype] at hx
        exact hmsg hx

end Ends

end OpcUa.LoopTermination
