import OpcUa.DecodeBounds
import OpcUa.DecoderPrograms

namespace OpcUa.PureDecoding

open StatusCodes LittleEndian NodeIds DataTypes Values Buffers Readers Decoding ValueDecoding
open BoundedReading DecodeBounds ReadPrograms DecoderPrograms

variable {α β : Type}

section Clearing

theorem and_antisymm {b c : UInt8} (h : c &&& b = c) (h' : b &&& c = b) : b = c := by
  rw [← h', UInt8.and_comm, h]

theorem Cleared.antisymm {data data' : List UInt8} (h : Cleared data data') (h' : Cleared data' data) :
    data' = data := by
  induction h with
  | nil => rfl
  | cons hb _ ih =>
      cases h' with
      | cons hb' h' => rw [ih h', and_antisymm hb hb']

theorem overwrite_getD (data : List UInt8) (i : Nat) : overwrite data i [data.getD i 0] = data := by
  induction data generalizing i with
  | nil => cases i <;> rfl
  | cons b data ih =>
      cases i with
      | zero => cases data <;> rfl
      | succ i => exact congrArg (List.cons b) (ih i)

theorem getD_overwrite (data : List UInt8) {i : Nat} (hi : i < data.length) (b : UInt8) :
    (overwrite data i [b]).getD i 0 = b := by
  induction data generalizing i with
  | nil => cases hi
  | cons c data ih =>
      cases i with
      | zero => rfl
      | succ i => exact ih (Nat.lt_of_succ_lt_succ hi)

theorem unflag_data_eq_iff (st : Dec) :
    (unflag st).data = st.data ↔ st.data.getD st.offset 0 &&& 0x3f = st.data.getD st.offset 0 := by
  constructor
  · intro h
    rcases Nat.lt_or_ge st.offset st.data.length with hlt | hge
    · have hbyte : (unflag st).data.getD st.offset 0 = st.data.getD st.offset 0 &&& 0x3f :=
        getD_overwrite st.data hlt _
      rw [h] at hbyte
      exact hbyte.symm
    · have hzero : st.data.getD st.offset 0 = 0 := by simp [hge]
      rw [hzero]
      rfl
  · intro h
    rw [unflag, h]
    exact overwrite_getD st.data st.offset

theorem cleared_unflag (st : Dec) : Cleared st.data (unflag st).data := cleared_overwrite _ _ _

theorem allocated_data (st : Dec) : (allocated st).2.data = st.data := by
  rw [allocated]
  split <;> rfl

theorem cleared_run (p : Prog α) {st st' : Dec} {r : Except StatusCode α} (h : p.run st = some (r, st')) :
    Cleared st.data st'.data := by
  induction p generalizing st with
  | done r' =>
      obtain ⟨_, rfl⟩ := Prod.mk.inj (Option.some.inj h)
      exact Cleared.refl _
  | stuck => cases h
  | take k next ih =>
      rw [Prog.run] at h
      split at h
      · exact ih none h
      · have hrest := ih _ h
        exact hrest
  | fits k next ih => exact ih _ h
  | allocate next ih =>
      have hrest := ih _ h
      rw [allocated_data] at hrest
      exact hrest
  | flags next ih => exact (cleared_unflag st).trans (ih _ h)
  | offset next ih => exact ih _ h
  | seek position next ih =>
      have hrest := ih (h : next.run { st with offset := position } = _)
      exact hrest
  | peek position next ih => exact ih _ h

/-- Going through the program, no byte that is read for its flags has one. -/
def unflagged : Prog α → Dec → Bool
  | .done _, _ | .stuck, _ => true
  | .take k next, st =>
      if st.offset + k > st.data.length then unflagged (next none) st
      else unflagged (next (some ((st.data.drop st.offset).take k))) (st.advance k)
  | .fits k next, st => unflagged (next (decide (st.offset + k ≤ st.data.length))) st
  | .allocate next, st => unflagged (next (allocated st).1) (allocated st).2
  | .flags next, st =>
      st.data.getD st.offset 0 &&& 0x3f == st.data.getD st.offset 0 &&
        unflagged (next (st.data.getD st.offset 0)) (unflag st)
  | .offset next, st => unflagged (next st.offset) st
  | .seek position next, st => unflagged next { st with offset := position }
  | .peek position next, st => unflagged (next (st.data.getD position 0)) st

theorem run_data_eq_iff (p : Prog α) {st st' : Dec} {r : Except StatusCode α} (h : p.run st = some (r, st')) :
    st'.data = st.data ↔ unflagged p st = true := by
  induction p generalizing st with
  | done r' =>
      obtain ⟨_, rfl⟩ := Prod.mk.inj (Option.some.inj h)
      exact ⟨fun _ => rfl, fun _ => rfl⟩
  | stuck => cases h
  | take k next ih =>
      rw [Prog.run] at h
      rw [unflagged]
      split at h
      · rw [if_pos ‹_›]
        exact ih none h
      · rw [if_neg ‹_›]
        have hrest := ih _ h
        exact hrest
  | fits k next ih => exact ih _ h
  | allocate next ih =>
      have hrest := ih _ h
      rw [allocated_data] at hrest
      exact hrest
  | flags next ih =>
      have hrest := ih _ h
      rw [unflagged, Bool.and_eq_true, beq_iff_eq, ← unflag_data_eq_iff, ← hrest]
      constructor
      · intro hsame
        -- what is cleared first stays cleared
        have hfirst : (unflag st).data = st.data := by
          refine Cleared.antisymm (cleared_unflag st) ?_
          rw [← hsame]
          exact cleared_run _ h
        exact ⟨hfirst, hsame.trans hfirst.symm⟩
      · rintro ⟨hfirst, hsame⟩
        exact hsame.trans hfirst
  | offset next ih => exact ih _ h
  | seek position next ih =>
      have hrest := ih (h : next.run { st with offset := position } = _)
      exact hrest
  | peek position next ih => exact ih _ h

end Clearing

section Beyond

/-- Behind the end of the buffer the decoder fails, and nothing happens. -/
def Fails (d : DecM α) : Prop := ∀ st, st.data.length < st.offset → ∃ code, d st = some (.error code, st)

/-- Behind the end of the buffer the decoder returns, and nothing happens. -/
def Returns (d : DecM α) : Prop := ∀ st, st.data.length < st.offset → ∃ r, d st = some (r, st)

variable {d : DecM α} {e : DecM β}

theorem Fails.returns (h : Fails d) : Returns d := by
  intro st hst
  obtain ⟨code, hrun⟩ := h st hst
  exact ⟨.error code, hrun⟩

theorem fails_take (k : Nat) : Fails (take k) := fun _ hst => ⟨badDecodingError, if_pos (by omega)⟩

theorem fails_andThen {f : α → DecM β} (h : Fails d) : Fails (andThen d f) := by
  intro st hst
  obtain ⟨code, hrun⟩ := h st hst
  exact ⟨code, by rw [andThen, hrun]⟩

theorem fails_map {f : α → β} (h : Fails d) : Fails (map f d) := fails_andThen h

theorem fails_withError {code : StatusCode} (h : Fails d) : Fails (withError code d) := by
  intro st hst
  obtain ⟨c, hrun⟩ := h st hst
  exact ⟨code, by rw [withError, hrun]⟩

theorem returns_map {f : α → β} (h : Returns d) : Returns (map f d) := by
  intro st hst
  obtain ⟨r, hrun⟩ := h st hst
  cases r with
  | error code => exact ⟨.error code, by rw [map, andThen, hrun]⟩
  | ok a =>
      refine ⟨.ok (f a), ?_⟩
      rw [map, andThen, hrun]
      rfl

theorem returns_both (hd : Returns d) (he : Returns e) : Returns (both d e) := by
  intro st hst
  obtain ⟨r, hrun⟩ := hd st hst
  obtain ⟨s, hrun'⟩ := he st hst
  exact ⟨joined r s, by simp only [both, hrun, hrun']⟩

theorem fails_both (hd : Fails d) (he : Returns e) : Fails (both d e) := by
  intro st hst
  obtain ⟨code, hrun⟩ := hd st hst
  obtain ⟨s, hrun'⟩ := he st hst
  cases s with
  | error code' => exact ⟨code ||| code', by simp only [both, hrun, hrun', joined]⟩
  | ok b => exact ⟨code, by simp only [both, hrun, hrun', joined]⟩

theorem fails_byte : Fails byteDecodeBinary := fails_map (fails_take 1)

theorem fails_int32 : Fails int32DecodeBinary := fails_map (fails_map (fails_take 4))

theorem fails_string : Fails stringDecodeBinary := fails_andThen (fails_withError fails_int32)

theorem fails_nodeId : Fails nodeIdDecodeBinary := fails_andThen fails_byte

theorem returns_bytes (n : Nat) : Returns (bytesDecodeBinary n) := by
  induction n with
  | zero => exact fun st _ => ⟨.ok [], rfl⟩
  | succ n ih => exact returns_map (returns_both fails_byte.returns ih)

theorem fails_simple (fuel : Nat) (b : Builtin) : Fails (simpleDecodeBinary (fuel + 1) b) := by
  cases b with
  | boolean => exact fails_map fails_byte
  | sbyte | byte => exact fails_byte
  | int16 | uint16 => exact fails_map (fails_take 2)
  | int32 | uint32 | float | statusCode => exact fails_map (fails_take 4)
  | int64 | uint64 | double | dateTime => exact fails_map (fails_take 8)
  | string | byteString | xmlElement => exact fails_string
  | guid =>
      exact fails_map (fails_both (fails_map (fails_take 4)) (returns_both (fails_map (fails_take 2)).returns
        (returns_both (fails_map (fails_take 2)).returns (returns_bytes 8))))
  | nodeId => exact fails_nodeId
  | expandedNodeId => exact fun st hst => ⟨badDecodingError, if_pos hst.le⟩
  | localizedText => exact fails_andThen fails_byte
  | diagnosticInfo => exact fails_andThen fails_byte

theorem fails_header : Fails headerDecodeBinary := by
  intro st hst
  obtain ⟨code, hrun⟩ := fails_both fails_nodeId fails_byte.returns st hst
  exact ⟨_, by rw [headerDecodeBinary, hrun]⟩

variable {fuel : Nat} {jump : (t : DataType) → DecM (Val t)}

mutual

theorem returns_type : (t : DataType) → Returns (typeDecodeBinary (fuel + 1) jump t)
  | .simple _ b => returns_map (fails_simple fuel b).returns
  | .extensionObject => (fails_andThen fails_header).returns
  | .dataValue => (fails_andThen fails_byte).returns
  | .variant => (fails_andThen fails_byte).returns
  | .structure _ members => returns_map (returns_members members)

theorem returns_members : (members : Members) → Returns (membersDecodeBinary (fuel + 1) jump members)
  | .nil => fun _ _ => ⟨.ok .nil, rfl⟩
  | .scalar t rest => returns_map (returns_both (returns_type t) (returns_members rest))
  | .array _ rest => returns_map (returns_both (fails_andThen fails_int32).returns (returns_members rest))

end

theorem returns_ua (t : DataType) : Returns (uaDecodeBinary (fuel + 1) t) := by
  cases t with
  | simple typeId b =>
      cases b with
      | string | byteString | xmlElement =>
          exact (fails_map (fails_map (fails_andThen fails_int32))).returns
      | expandedNodeId =>
          exact (fails_map (fails_both fails_nodeId (returns_both fails_string.returns
            (fails_map (fails_take 4)).returns))).returns
      | localizedText => exact (fails_map (fails_both fails_string fails_string.returns)).returns
      | _ => exact returns_type _
  | _ => exact returns_type _

end Beyond

/-- The fuel is more than the bytes of the buffer, which is enough at every
offset. -/
theorem uaDecodeBinary_returns (t : DataType) (data : List UInt8) (offset : Nat) (heap : List Bool) :
    ∃ r st', uaDecodeBinary (data.length + 1) t ⟨data, offset, [], heap⟩ = some (r, st') := by
  rcases Nat.lt_or_ge data.length offset with hbeyond | hle
  · obtain ⟨r, hrun⟩ := returns_ua t ⟨data, offset, [], heap⟩ hbeyond
    exact ⟨r, _, hrun⟩
  · obtain ⟨r, st', hrun, _⟩ := uaDecodeBinary_bounded t data offset heap hle
    exact ⟨r, st', hrun (data.length + 1) (by omega)⟩

/-- The buffer is left as it was, and decoding it once more gives the same. -/
def LeavesBuffer (t : DataType) (data : List UInt8) (offset : Nat) (heap : List Bool) : Prop :=
  ∃ r st', uaDecodeBinary (data.length + 1) t ⟨data, offset, [], heap⟩ = some (r, st') ∧ st'.data = data ∧
    ∃ st'', uaDecodeBinary (data.length + 1) t ⟨st'.data, offset, [], heap⟩ = some (r, st'')

/-- Decoding leaves the buffer alone if and only if it meets no ExpandedNodeId
with a flag. -/
theorem uaDecodeBinary_leavesBuffer_iff (t : DataType) (data : List UInt8) (offset : Nat) (heap : List Bool) :
    LeavesBuffer t data offset heap ↔
      unflagged (uaDecodeProg (data.length + 1) t) ⟨data, offset, [], heap⟩ = true := by
  obtain ⟨r, st', hrun⟩ := uaDecodeBinary_returns t data offset heap
  have hprog : (uaDecodeProg (data.length + 1) t).run ⟨data, offset, [], heap⟩ = some (r, st') := by
    rw [uaDecode_run, hrun]
  rw [← run_data_eq_iff _ hprog]
  constructor
  · rintro ⟨r₁, st₁, hrun₁, hdata, _⟩
    rw [hrun] at hrun₁
    obtain ⟨_, rfl⟩ := Prod.mk.inj (Option.some.inj hrun₁)
    exact hdata
  · intro hdata
    refine ⟨r, st', hrun, hdata, st', ?_⟩
    rw [hdata]
    exact hrun

/-- A variant with an ExpandedNodeId, two-byte id 1 in the namespace `A`. -/
def sampleExpanded : List UInt8 := [0x12, 0x80, 1, 1, 0, 0, 0, 65]

/-- The second run does not see the namespace any more and stops behind the id. -/
theorem uaDecodeBinary_clears_flag :
    (uaDecodeBinary 9 .variant ⟨sampleExpanded, 0, [], []⟩).map (fun x => (x.1.isOk, x.2.data, x.2.offset)) =
        some (true, [0x12, 0x00, 1, 1, 0, 0, 0, 65], 8) ∧
      (uaDecodeBinary 9 .variant ⟨[0x12, 0x00, 1, 1, 0, 0, 0, 65], 0, [], []⟩).map
          (fun x => (x.1.isOk, x.2.offset)) = some (true, 3) ∧
      ¬ LeavesBuffer .variant sampleExpanded 0 [] := by
  have hfirst : (uaDecodeBinary 9 .variant ⟨sampleExpanded, 0, [], []⟩).map
      (fun x => (x.1.isOk, x.2.data, x.2.offset)) = some (true, [0x12, 0x00, 1, 1, 0, 0, 0, 65], 8) := by
    decide +kernel
  refine ⟨hfirst, by decide +kernel, ?_⟩
  rintro ⟨r, st', hrun, hdata, _⟩
  have hfuel : sampleExpanded.length + 1 = 9 := rfl
  rw [hfuel] at hrun
  rw [hrun, Option.map_some, hdata] at hfirst
  revert hfirst
  rw [sampleExpanded]
  simp

end OpcUa.PureDecoding
