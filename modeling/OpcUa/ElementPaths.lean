import OpcUa.EncoderRuns
import OpcUa.EntryPoints

namespace OpcUa.ElementPaths

open StatusCodes LittleEndian NodeIds DataTypes Values Buffers Writers ValueEncoding Readers Decoding
open ValueDecoding ReadPrograms EncoderRuns EntryPoints

mutual

/-- The sizes of the numbers that a value consists of, in their order. -/
def leafSizes : DataType → List Nat
  | .simple _ b => [b.memSize]
  | .structure _ members => leafSizesMembers members
  | _ => []

def leafSizesMembers : Members → List Nat
  | .nil => []
  | .scalar t rest => leafSizes t ++ leafSizesMembers rest
  | .array _ rest => leafSizesMembers rest

end

mutual

/-- The indices of the Booleans in the memory of a value. -/
def booleanOffsets : DataType → List Nat
  | .simple _ .boolean => [0]
  | .structure _ members => booleanOffsetsMembers members
  | _ => []

def booleanOffsetsMembers : Members → List Nat
  | .nil => []
  | .scalar t rest => booleanOffsets t ++ (booleanOffsetsMembers rest).map (t.memSize + ·)
  | .array _ rest => booleanOffsetsMembers rest

end

section Encoding

/-- `Array_encodeBinary` without the branch for zero-copyable types, as it is
in a build for another byte order. -/
def elementsEncodeBinary (null : Bool) (length : Nat) (items : List EncM) : EncM := fun st =>
  let r := emit (if length > 0 then lengthBytes length
    else if null then nullLengthBytes else lengthBytes 0) st
  if r.1 ≠ good then r else untilFailure items r.2

def copyArr {t : DataType} : Arr t → EncM
  | .null => arrayEncodeBinary t true 0 [] []
  | .items vs => arrayEncodeBinary t false vs.length (imageVals vs) (encodeVals vs)

def loopArr {t : DataType} : Arr t → EncM
  | .null => elementsEncodeBinary true 0 []
  | .items vs => elementsEncodeBinary false vs.length (encodeVals vs)

/-- How far the offset moves when pieces of these sizes are written and those
that do not fit are left out. -/
def moved : List Nat → Nat → Nat
  | [], _ => 0
  | k :: ks, room => if k ≤ room then k + moved ks (room - k) else moved ks room

theorem moved_le (ks : List Nat) (room : Nat) : moved ks room ≤ room := by
  induction ks generalizing room with
  | nil => exact Nat.zero_le _
  | cons k ks ih =>
      rw [moved]
      split
      · have hrest := ih (room - k)
        omega
      · exact ih room

theorem moved_append (ks ls : List Nat) (room : Nat) :
    moved (ks ++ ls) room = moved ks room + moved ls (room - moved ks room) := by
  induction ks generalizing room with
  | nil => simp [moved]
  | cons k ks ih =>
      rw [List.cons_append, moved, moved]
      split
      · rw [ih, Nat.add_assoc, Nat.sub_sub]
      · exact ih room

theorem moved_of_room {ks : List Nat} {room : Nat} (h : ks.sum ≤ room) : moved ks room = ks.sum := by
  induction ks generalizing room with
  | nil => rfl
  | cons k ks ih =>
      rw [List.sum_cons] at h
      rw [moved, if_pos (by omega), ih (by omega), List.sum_cons]

theorem moved_eq_zero_iff {ks : List Nat} (hpos : ∀ k ∈ ks, 0 < k) (room : Nat) :
    moved ks room = 0 ↔ ∀ k ∈ ks, room < k := by
  induction ks with
  | nil => simp [moved]
  | cons k ks ih =>
      have hk := hpos k List.mem_cons_self
      have hrest := ih (fun k hk => hpos k (List.mem_cons_of_mem _ hk))
      rw [moved, List.forall_mem_cons]
      split
      · exact ⟨fun h => by omega, fun h => by omega⟩
      · exact hrest.trans ⟨fun h => ⟨by omega, h⟩, fun h => h.2⟩

/-- `f` writes the bytes `w` in pieces of the sizes `ks`, each only if it
fits. -/
structure Pieces (f : EncM) (w : List UInt8) (ks : List Nat) : Prop where
  sum_eq : ks.sum = w.length
  pos : ∀ k ∈ ks, 0 < k
  status : ∀ st : Enc, st.offset ≤ st.data.length →
    (f st).1 = if st.offset + w.length ≤ st.data.length then good else badEncodingError
  length_eq : ∀ st, (f st).2.data.length = st.data.length
  offset_eq : ∀ st : Enc, st.offset ≤ st.data.length →
    (f st).2.offset = st.offset + moved ks (st.data.length - st.offset)
  data_eq : ∀ st : Enc, st.offset + w.length ≤ st.data.length → (f st).2.data = overwrite st.data st.offset w
  untouched : ∀ st : Enc, st.offset ≤ st.data.length → moved ks (st.data.length - st.offset) = 0 →
    (f st).2.data = st.data

theorem overwrite_overwrite (data w w' : List UInt8) (i : Nat) :
    overwrite (overwrite data i w) (i + w.length) w' = overwrite data i (w ++ w') := by
  induction data generalizing i w with
  | nil => cases i <;> cases w <;> cases w' <;> rfl
  | cons d data ih =>
      cases i with
      | succ i =>
          rw [overwrite, overwrite, ← ih w i, Nat.add_right_comm, overwrite]
      | zero =>
          cases w with
          | nil => rw [overwrite_nil]; rfl
          | cons b w =>
              rw [overwrite, List.cons_append, overwrite, ← ih w 0, List.length_cons, ← Nat.add_assoc, overwrite]

theorem pieces_skip : Pieces skip [] [] where
  sum_eq := rfl
  pos := by simp
  status st h := (if_pos h).symm
  length_eq st := rfl
  offset_eq st h := rfl
  data_eq st h := (overwrite_nil _ _).symm
  untouched st h hmoved := rfl

theorem pieces_emit {bytes : List UInt8} (h : 0 < bytes.length) : Pieces (emit bytes) bytes [bytes.length] where
  sum_eq := by simp
  pos := by simpa using h
  status st hst := by
    by_cases hroom : st.offset + bytes.length ≤ st.data.length
    · rw [emit_room hroom, if_pos hroom]
    · rw [emit_short (by omega), if_neg hroom]
  length_eq st := length_emit bytes st
  offset_eq st hst := by
    by_cases hroom : st.offset + bytes.length ≤ st.data.length
    · rw [emit_room hroom, moved, if_pos (by omega)]
      rfl
    · rw [emit_short (by omega), moved, if_neg (by omega)]
      rfl
  data_eq st hroom := by
    rw [emit_room hroom]
    rfl
  untouched st hst hmoved := by
    rw [emit_short]
    have hnone := (moved_eq_zero_iff (by simpa using h) _).mp hmoved bytes.length (by simp)
    omega

variable {f g : EncM} {w w' : List UInt8} {ks ls : List Nat}

theorem Pieces.inside (hf : Pieces f w ks) {st : Enc} (hst : st.offset ≤ st.data.length) :
    (f st).2.offset ≤ (f st).2.data.length := by
  have hle := moved_le ks (st.data.length - st.offset)
  rw [hf.offset_eq st hst, hf.length_eq]
  omega

theorem Pieces.offset_of_room (hf : Pieces f w ks) {st : Enc} (h : st.offset + w.length ≤ st.data.length) :
    (f st).2.offset = st.offset + w.length := by
  rw [hf.offset_eq st (by omega), moved_of_room (by rw [hf.sum_eq]; omega), hf.sum_eq]

/-- What is left behind `f`. -/
theorem Pieces.left (hf : Pieces f w ks) {st : Enc} (hst : st.offset ≤ st.data.length) :
    (f st).2.data.length - (f st).2.offset =
      st.data.length - st.offset - moved ks (st.data.length - st.offset) := by
  rw [hf.offset_eq st hst, hf.length_eq, Nat.sub_sub]

theorem pieces_orThen (hf : Pieces f w ks) (hg : Pieces g w' ls) : Pieces (orThen f g) (w ++ w') (ks ++ ls) where
  sum_eq := by rw [List.sum_append, List.length_append, hf.sum_eq, hg.sum_eq]
  pos k hk := by
    rcases List.mem_append.mp hk with hk | hk
    · exact hf.pos k hk
    · exact hg.pos k hk
  status st hst := by
    rw [orThen, List.length_append]
    dsimp only
    rw [hf.status st hst, hg.status _ (hf.inside hst), hf.length_eq]
    by_cases hroom : st.offset + w.length ≤ st.data.length
    · rw [if_pos hroom, hf.offset_of_room hroom, Nat.add_assoc, good_or]
    · have hneither : ¬ st.offset + (w.length + w'.length) ≤ st.data.length := by omega
      rw [if_neg hroom, if_neg hneither]
      split <;> decide
  length_eq st := (hg.length_eq _).trans (hf.length_eq st)
  offset_eq st hst := by
    rw [moved_append, ← Nat.add_assoc, ← hf.offset_eq st hst, ← hf.left hst]
    exact hg.offset_eq _ (hf.inside hst)
  data_eq st hroom := by
    rw [List.length_append] at hroom
    have hfirst : st.offset + w.length ≤ st.data.length := by omega
    rw [← overwrite_overwrite, ← hf.data_eq st hfirst, ← hf.offset_of_room hfirst]
    refine hg.data_eq _ ?_
    rw [hf.offset_of_room hfirst, hf.length_eq]
    omega
  untouched st hst hmoved := by
    rw [moved_append] at hmoved
    refine (hg.untouched _ (hf.inside hst) ?_).trans (hf.untouched st hst (by omega))
    rw [hf.left hst]
    omega

theorem pieces_simple (b : Builtin) (x : b.Carrier) (h : b.zeroCopyable = true) :
    Pieces (simpleEncodeBinary b x) (simpleImage b x) [b.memSize] := by
  rw [← length_simpleImage b x h]
  have hpos : 0 < (simpleImage b x).length := by
    rw [length_simpleImage b x h]
    cases b <;> decide
  cases b <;> first | exact pieces_emit hpos | cases h

mutual

theorem pieces_encode : {t : DataType} → (v : Val t) → flat t = true → Pieces (encodeBinary v) (image v) (leafSizes t)
  | _, .simple (b := b) x, h => by
      rw [encodeBinary, image, leafSizes]
      exact pieces_simple b x h
  | _, .struct slots, h => by
      simp only [flat, Bool.and_eq_true] at h
      rw [encodeBinary, image, leafSizes]
      exact pieces_members slots h.1

theorem pieces_members : {members : Members} → (slots : Slots members) → flatMembers members = true →
    Pieces (encodeMembers slots) (imageSlots slots) (leafSizesMembers members)
  | _, .nil, _ => by
      rw [encodeMembers, imageSlots, leafSizesMembers]
      exact pieces_skip
  | _, .scalar v slots, h => by
      simp only [flatMembers, Bool.and_eq_true] at h
      rw [encodeMembers, imageSlots, leafSizesMembers]
      exact pieces_orThen (pieces_encode v h.1) (pieces_members slots h.2)

end

variable {t : DataType}

theorem memSize_eq_sum (h : flat t = true) (v : Val t) : (leafSizes t).sum = t.memSize :=
  (pieces_encode v h).sum_eq.trans (length_image v h)

theorem loop_of_room (h : zeroCopyable t = true) : (vs : Vals t) → (st : Enc) →
    st.offset + (imageVals vs).length ≤ st.data.length →
    SameBytes (untilFailure (encodeVals vs) st) (good, st.write (imageVals vs))
  | .nil, st, _ => by
      rw [encodeVals]
      exact ⟨rfl, (overwrite_nil _ _).symm, rfl⟩
  | .cons v vs, st, hroom => by
      have hv := pieces_encode v (flat_of_zeroCopyable h)
      rw [imageVals, List.length_append] at hroom
      have hfirst : st.offset + (image v).length ≤ st.data.length := by omega
      have hgood : (encodeBinary v st).1 = good := (hv.status st (by omega)).trans (if_pos hfirst)
      obtain ⟨hstatus, hdata, hoffset⟩ := loop_of_room h vs (encodeBinary v st).2 (by
        rw [hv.offset_of_room hfirst, hv.length_eq]
        omega)
      rw [encodeVals, untilFailure]
      dsimp only
      rw [if_pos hgood]
      refine ⟨hstatus, hdata.trans ?_, hoffset.trans ?_⟩
      · change overwrite (encodeBinary v st).2.data (encodeBinary v st).2.offset (imageVals vs) =
          overwrite st.data st.offset (image v ++ imageVals vs)
        rw [hv.data_eq st hfirst, hv.offset_of_room hfirst, overwrite_overwrite]
      · change (encodeBinary v st).2.offset + (imageVals vs).length = st.offset + (image v ++ imageVals vs).length
        rw [hv.offset_of_room hfirst, List.length_append, Nat.add_assoc]

/-- Without the room the loop fails as well, but behind the numbers that still
had their place. -/
theorem loop_of_short (h : zeroCopyable t = true) : (vs : Vals t) → (st : Enc) → st.offset ≤ st.data.length →
    st.data.length < st.offset + (imageVals vs).length →
    st.offset ≤ (untilFailure (encodeVals vs) st).2.offset ∧
      (SameBytes (untilFailure (encodeVals vs) st) (badEncodingError, st) ↔
        ∀ k ∈ leafSizes t, st.data.length < st.offset + k)
  | .nil, st, hst, hshort => absurd hshort (by simpa [imageVals] using hst)
  | .cons v vs, st, hst, hshort => by
      have hv := pieces_encode v (flat_of_zeroCopyable h)
      have hsize := length_image v (flat_of_zeroCopyable h)
      have hnone : (∀ k ∈ leafSizes t, st.data.length < st.offset + k) ↔
          moved (leafSizes t) (st.data.length - st.offset) = 0 := by
        rw [moved_eq_zero_iff hv.pos]
        exact forall₂_congr (fun k _ => by omega)
      rw [imageVals, List.length_append] at hshort
      rw [hnone, encodeVals, untilFailure]
      dsimp only
      by_cases hfirst : st.offset + (image v).length ≤ st.data.length
      · have hgood : (encodeBinary v st).1 = good := (hv.status st hst).trans (if_pos hfirst)
        have hoffset := hv.offset_of_room hfirst
        have hrest := (loop_of_short h vs (encodeBinary v st).2 (hv.inside hst) (by
          rw [hoffset, hv.length_eq]
          omega)).1
        have hpos : 0 < t.memSize := by
          rw [length_imageVals h] at hshort
          refine Nat.pos_of_ne_zero (fun hzero => ?_)
          rw [hzero, Nat.zero_mul] at hshort
          omega
        rw [if_pos hgood, moved_of_room (by rw [memSize_eq_sum (flat_of_zeroCopyable h) v]; omega),
          memSize_eq_sum (flat_of_zeroCopyable h) v]
        rw [hoffset, hsize] at hrest
        refine ⟨by omega, fun hsame => ?_, fun hzero => by omega⟩
        have hmoved : _ = st.offset := hsame.2.2
        omega
      · have hbad : (encodeBinary v st).1 = badEncodingError := (hv.status st hst).trans (if_neg hfirst)
        have hfailed : ¬ (encodeBinary v st).1 = good := by
          rw [hbad]
          decide
        have hoffset := hv.offset_eq st hst
        rw [if_neg hfailed]
        refine ⟨by omega, fun hsame => ?_, fun hzero => ⟨hbad, hv.untouched st hst hzero, ?_⟩⟩
        · have hmoved : (encodeBinary v st).2.offset = st.offset := hsame.2.2
          omega
        · change (encodeBinary v st).2.offset = st.offset
          omega

/-- The length does not fit, or the whole array does, or not even one number
fits behind the length. -/
def CopyFits (t : DataType) (length : Nat) (st : Enc) : Prop :=
  st.data.length < st.offset + 4 ∨ st.offset + 4 + t.memSize * length ≤ st.data.length ∨
    ∀ k ∈ leafSizes t, st.data.length < st.offset + 4 + k

theorem copy_loop_iff (h : zeroCopyable t = true) (null : Bool) (vs : Vals t) (st : Enc) :
    SameBytes (arrayEncodeBinary t null vs.length (imageVals vs) (encodeVals vs) st)
      (elementsEncodeBinary null vs.length (encodeVals vs) st) ↔ CopyFits t vs.length st := by
  obtain ⟨header, hheader, hlength⟩ : ∃ header, (if vs.length > 0 then lengthBytes vs.length
      else if null then nullLengthBytes else lengthBytes 0) = header ∧ header.length = 4 := by
    refine ⟨_, rfl, ?_⟩
    split
    · exact length_lengthBytes _
    · split <;> rfl
  have hgood : ¬ good ≠ good := fun hne => hne rfl
  rw [arrayEncodeBinary, elementsEncodeBinary, hheader, CopyFits, ← length_imageVals h]
  by_cases hroom : st.offset + 4 ≤ st.data.length
  · have hoffset : (st.write header).offset = st.offset + 4 := congrArg (st.offset + ·) hlength
    have hdata : (st.write header).data.length = st.data.length := length_overwrite _ _ _
    rw [emit_room (by rw [hlength]; exact hroom)]
    dsimp only
    rw [if_neg hgood, if_neg hgood, if_pos h, hoffset, hdata]
    by_cases hall : st.offset + 4 + (imageVals vs).length ≤ st.data.length
    · have hloop := loop_of_room h vs (st.write header) (by rw [hoffset, hdata]; exact hall)
      rw [if_neg (by omega)]
      exact ⟨fun _ => .inr (.inl hall), fun _ => hloop.symm⟩
    · have hloop := (loop_of_short h vs (st.write header) (by omega) (by omega)).2
      rw [hoffset, hdata] at hloop
      rw [if_pos (by omega)]
      refine ⟨fun hsame => .inr (.inr (hloop.mp hsame.symm)), fun hfits => (hloop.mpr ?_).symm⟩
      exact (hfits.resolve_left (by omega)).resolve_left hall
  · rw [emit_short (by rw [hlength]; omega)]
    have hbad : badEncodingError ≠ good := by decide
    dsimp only
    rw [if_pos hbad, if_pos hbad]
    exact ⟨fun _ => .inl (by omega), fun _ => SameBytes.refl _⟩

theorem sameBytes_array_iff (h : zeroCopyable t = true) (a : Arr t) (st : Enc) :
    SameBytes (copyArr a st) (loopArr a st) ↔ CopyFits t a.length st := by
  cases a with
  | null =>
      have hnil := copy_loop_iff h true .nil st
      rw [encodeVals] at hnil
      exact hnil
  | items vs => exact copy_loop_iff h false vs st

end Encoding

section Decoding

variable {α β : Type}

/-- `d` reads `size` bytes and nothing else. -/
def Fixed (d : DecM α) (size : Nat) (value : List UInt8 → α) : Prop :=
  ∀ st, st.offset ≤ st.data.length → ∃ st', st'.data = st.data ∧ st.offset ≤ st'.offset ∧
    st'.offset ≤ st.data.length ∧
    if st.offset + size ≤ st.data.length then
      d st = some (.ok (value (st.data.drop st.offset)), st') ∧ st'.offset = st.offset + size
    else d st = some (.error badDecodingError, st')

theorem fixed_succeed (a : α) : Fixed (succeed a) 0 (fun _ => a) := by
  intro st hst
  refine ⟨st, rfl, le_refl _, hst, ?_⟩
  rw [if_pos (by simpa using hst)]
  exact ⟨rfl, rfl⟩

theorem fixed_take (k : Nat) : Fixed (take k) k (·.take k) := by
  intro st hst
  by_cases hroom : st.offset + k ≤ st.data.length
  · refine ⟨st.advance k, rfl, Nat.le_add_right _ _, hroom, ?_⟩
    rw [if_pos hroom, take, if_neg (by omega)]
    exact ⟨rfl, rfl⟩
  · refine ⟨st, rfl, le_refl _, hst, ?_⟩
    rw [if_neg hroom, take, if_pos (by omega)]

variable {d : DecM α} {e : DecM β} {m n : Nat} {value : List UInt8 → α} {value' : List UInt8 → β}

theorem Fixed.ok (h : Fixed d m value) (st : Dec) (hroom : st.offset + m ≤ st.data.length) :
    ∃ st', d st = some (.ok (value (st.data.drop st.offset)), st') ∧ st'.data = st.data ∧
      st'.offset = st.offset + m := by
  obtain ⟨st', hdata, _, _, hrun⟩ := h st (by omega)
  rw [if_pos hroom] at hrun
  exact ⟨st', hrun.1, hdata, hrun.2⟩

theorem Fixed.error (h : Fixed d m value) (st : Dec) (hst : st.offset ≤ st.data.length)
    (hshort : ¬ st.offset + m ≤ st.data.length) :
    ∃ st', d st = some (.error badDecodingError, st') ∧ st'.data = st.data ∧ st.offset ≤ st'.offset ∧
      st'.offset ≤ st.data.length := by
  obtain ⟨st', hdata, hle, hinside, hrun⟩ := h st hst
  rw [if_neg hshort] at hrun
  exact ⟨st', hrun, hdata, hle, hinside⟩

theorem fixed_andThen {f : α → DecM β} {after : α → List UInt8 → β} (hd : Fixed d m value)
    (hf : ∀ a, Fixed (f a) n (after a)) :
    Fixed (andThen d f) (m + n) (fun bytes => after (value bytes) (bytes.drop m)) := by
  intro st hst
  by_cases hfirst : st.offset + m ≤ st.data.length
  · obtain ⟨st1, hrun, hdata, hoffset⟩ := hd.ok st hfirst
    obtain ⟨st2, hdata2, hle, hinside, hrun2⟩ :=
      hf (value (st.data.drop st.offset)) st1 (by rw [hoffset, hdata]; exact hfirst)
    rw [hoffset, hdata, ← List.drop_drop, Nat.add_assoc] at hrun2
    rw [hoffset] at hle
    rw [hdata] at hdata2 hinside
    refine ⟨st2, hdata2, by omega, hinside, ?_⟩
    rw [andThen, hrun]
    exact hrun2
  · obtain ⟨st1, hrun, hdata, hle, hinside⟩ := hd.error st hst hfirst
    refine ⟨st1, hdata, hle, hinside, ?_⟩
    rw [if_neg (by omega), andThen, hrun]

theorem fixed_map (f : α → β) (h : Fixed d m value) : Fixed (map f d) m (fun bytes => f (value bytes)) :=
  fixed_andThen h (fun a => fixed_succeed (f a))

theorem fixed_both (hd : Fixed d m value) (he : Fixed e n value') :
    Fixed (both d e) (m + n) (fun bytes => (value bytes, value' (bytes.drop m))) := by
  intro st hst
  by_cases hfirst : st.offset + m ≤ st.data.length
  · obtain ⟨st1, hrun, hdata, hoffset⟩ := hd.ok st hfirst
    obtain ⟨st2, hdata2, hle, hinside, hrun2⟩ := he st1 (by rw [hoffset, hdata]; exact hfirst)
    rw [hoffset, hdata, ← List.drop_drop, Nat.add_assoc] at hrun2
    rw [hoffset] at hle
    rw [hdata] at hdata2 hinside
    refine ⟨st2, hdata2, by omega, hinside, ?_⟩
    rw [both, hrun]
    dsimp only
    by_cases hall : st.offset + (m + n) ≤ st.data.length
    · rw [if_pos hall] at hrun2 ⊢
      rw [hrun2.1]
      exact ⟨rfl, hrun2.2⟩
    · rw [if_neg hall] at hrun2 ⊢
      rw [hrun2]
      rfl
  · -- the second part still runs, with any outcome
    obtain ⟨st1, hrun, hdata, hle, hinside⟩ := hd.error st hst hfirst
    obtain ⟨st2, hdata2, hle2, hinside2, hrun2⟩ := he st1 (by rw [hdata]; exact hinside)
    rw [hdata] at hdata2 hinside2
    refine ⟨st2, hdata2, by omega, hinside2, ?_⟩
    rw [if_neg (by omega), both, hrun]
    dsimp only
    split at hrun2
    · rw [hrun2.1]
      rfl
    · rw [hrun2]
      rfl

def normalSimple : (b : Builtin) → b.Carrier → b.Carrier
  | .boolean, x => if x > 0 then 1 else 0
  | _, x => x

mutual

def normal : {t : DataType} → Val t → Val t
  | _, .simple (b := b) x => .simple (normalSimple b x)
  | _, .struct slots => .struct (normalSlots slots)
  | _, v => v

def normalSlots : {members : Members} → Slots members → Slots members
  | _, .nil => .nil
  | _, .scalar v slots => .scalar (normal v) (normalSlots slots)
  | _, .array a slots => .array a (normalSlots slots)

end

def normalVals {t : DataType} : Vals t → Vals t
  | .nil => .nil
  | .cons v vs => .cons (normal v) (normalVals vs)

theorem fixed_simple (fuel : Nat) (b : Builtin) (h : b.zeroCopyable = true) :
    Fixed (simpleDecodeBinary fuel b) b.memSize (fun bytes => normalSimple b (simpleOfImage b bytes)) := by
  cases b with
  | boolean => exact fixed_map _ (fixed_map _ (fixed_take 1))
  | sbyte | byte => exact fixed_map _ (fixed_take 1)
  | int16 | uint16 => exact fixed_map _ (fixed_take 2)
  | int32 | uint32 | float | statusCode => exact fixed_map _ (fixed_take 4)
  | int64 | uint64 | double | dateTime => exact fixed_map _ (fixed_take 8)
  | _ => cases h

variable (fuel : Nat) (jump : (t : DataType) → DecM (Val t))

mutual

theorem fixed_type : (t : DataType) → flat t = true →
    Fixed (typeDecodeBinary fuel jump t) t.memSize (fun bytes => normal (ofImage t bytes))
  | .simple _ b, h => by
      simp only [typeDecodeBinary, ofImage, normal]
      exact fixed_map Val.simple (fixed_simple fuel b h)
  | .structure info members, h => by
      simp only [flat, Bool.and_eq_true, beq_iff_eq] at h
      simp only [typeDecodeBinary, ofImage, normal, DataType.memSize]
      rw [h.2]
      exact fixed_map Val.struct (fixed_members members h.1)

theorem fixed_members : (members : Members) → flatMembers members = true →
    Fixed (membersDecodeBinary fuel jump members) (packedSize members)
      (fun bytes => normalSlots (ofImageMembers members bytes))
  | .nil, _ => by
      simp only [membersDecodeBinary, ofImageMembers, normalSlots, packedSize]
      exact fixed_succeed _
  | .scalar t rest, h => by
      simp only [flatMembers, Bool.and_eq_true] at h
      simp only [membersDecodeBinary, ofImageMembers, normalSlots, packedSize]
      exact fixed_map _ (fixed_both (fixed_type t h.1) (fixed_members rest h.2))

end

theorem fixed_items {t : DataType} {item : DecM (Val t)}
    (h : Fixed item t.memSize (fun bytes => normal (ofImage t bytes))) (length : Nat) :
    Fixed (itemsDecodeBinary item length) (t.memSize * length) (fun bytes => normalVals (ofImages t length bytes)) := by
  induction length with
  | zero => exact fixed_succeed _
  | succ length ih =>
      have hstep := fixed_andThen h (fun v => fixed_map (Vals.cons v) ih)
      rw [Nat.mul_succ, Nat.add_comm (t.memSize * length)]
      exact hstep

mutual

theorem ofImage_take : (t : DataType) → flat t = true → (bytes : List UInt8) → (k : Nat) → t.memSize ≤ k →
    ofImage t (bytes.take k) = ofImage t bytes
  | .simple _ b, h, bytes, k, hk => by
      have htake : ∀ m, m ≤ k → (bytes.take k).take m = bytes.take m := by
        intro m hm
        rw [List.take_take, Nat.min_eq_left hm]
      rw [ofImage, ofImage]
      cases b with
      | boolean | sbyte | byte => rw [simpleOfImage, htake 1 hk]; rfl
      | int16 | uint16 => rw [simpleOfImage, htake 2 hk]; rfl
      | int32 | uint32 | float | statusCode => rw [simpleOfImage, htake 4 hk]; rfl
      | int64 | uint64 | double | dateTime => rw [simpleOfImage, htake 8 hk]; rfl
      | _ => cases h
  | .structure info members, h, bytes, k, hk => by
      simp only [flat, Bool.and_eq_true, beq_iff_eq] at h
      rw [ofImage, ofImage, ofImageMembers_take members h.1 bytes k (by rw [← h.2]; exact hk)]

theorem ofImageMembers_take : (members : Members) → flatMembers members = true → (bytes : List UInt8) →
    (k : Nat) → packedSize members ≤ k → ofImageMembers members (bytes.take k) = ofImageMembers members bytes
  | .nil, _, _, _, _ => rfl
  | .scalar t rest, h, bytes, k, hk => by
      simp only [flatMembers, Bool.and_eq_true] at h
      rw [packedSize] at hk
      rw [ofImageMembers, ofImageMembers, ofImage_take t h.1 bytes k (by omega), List.drop_take,
        ofImageMembers_take rest h.2 _ _ (by omega)]

end

theorem ofImages_take {t : DataType} (h : flat t = true) (length : Nat) (bytes : List UInt8) :
    ofImages t length (bytes.take (t.memSize * length)) = ofImages t length bytes := by
  induction length generalizing bytes with
  | zero => rfl
  | succ length ih =>
      have hsize : t.memSize * (length + 1) - t.memSize = t.memSize * length := by
        rw [Nat.mul_succ, Nat.add_sub_cancel]
      rw [ofImages, ofImages, ofImage_take t h bytes _ (Nat.le_mul_of_pos_right _ (Nat.succ_pos _)), List.drop_take,
        hsize, ih]

theorem getD_drop (bytes : List UInt8) (m j : Nat) : (bytes.drop m).getD j 0 = bytes.getD (m + j) 0 := by
  rw [List.getD_eq_getElem?_getD, List.getElem?_drop, List.getD_eq_getElem?_getD]

theorem normalSimple_boolean_iff (bytes : List UInt8) :
    normalSimple .boolean (simpleOfImage .boolean bytes) = simpleOfImage .boolean bytes ↔ bytes.getD 0 0 ≤ 1 := by
  have hbyte : simpleOfImage .boolean bytes = bytes.getD 0 0 := by
    cases bytes with
    | nil => rfl
    | cons b bytes => simp [simpleOfImage, ofBytes]
  rw [hbyte, normalSimple]
  generalize bytes.getD 0 0 = x
  split
  · rename_i hpos
    rw [gt_iff_lt, UInt8.lt_iff_toNat_lt] at hpos
    rw [UInt8.le_iff_toNat_le, ← UInt8.toNat_inj]
    change 1 = x.toNat ↔ x.toNat ≤ 1
    change 0 < x.toNat at hpos
    omega
  · rename_i hzero
    rw [gt_iff_lt, UInt8.lt_iff_toNat_lt] at hzero
    rw [UInt8.le_iff_toNat_le, ← UInt8.toNat_inj]
    change 0 = x.toNat ↔ x.toNat ≤ 1
    change ¬ 0 < x.toNat at hzero
    omega

mutual

theorem normal_ofImage_iff : (t : DataType) → (bytes : List UInt8) →
    (normal (ofImage t bytes) = ofImage t bytes ↔ ∀ j ∈ booleanOffsets t, bytes.getD j 0 ≤ 1)
  | .simple _ b, bytes => by
      rw [ofImage, normal, Val.simple.injEq]
      cases b with
      | boolean =>
          rw [normalSimple_boolean_iff, booleanOffsets]
          simp
      | _ => simp [booleanOffsets, normalSimple]
  | .structure _ members, bytes => by
      rw [ofImage, normal, Val.struct.injEq, booleanOffsets]
      exact normal_ofImageMembers_iff members bytes
  | .extensionObject, _ | .dataValue, _ | .variant, _ => by simp [ofImage, normal, booleanOffsets]

theorem normal_ofImageMembers_iff : (members : Members) → (bytes : List UInt8) →
    (normalSlots (ofImageMembers members bytes) = ofImageMembers members bytes ↔
      ∀ j ∈ booleanOffsetsMembers members, bytes.getD j 0 ≤ 1)
  | .nil, _ => by simp [ofImageMembers, normalSlots, booleanOffsetsMembers]
  | .scalar t rest, bytes => by
      rw [ofImageMembers, normalSlots, Slots.scalar.injEq, normal_ofImage_iff t bytes,
        normal_ofImageMembers_iff rest, booleanOffsetsMembers, List.forall_mem_append, List.forall_mem_map]
      simp only [getD_drop]
  | .array t rest, bytes => by
      rw [ofImageMembers, normalSlots, Slots.array.injEq, booleanOffsetsMembers, normal_ofImageMembers_iff rest]
      simp

end

theorem normalVals_ofImages_iff (t : DataType) (length : Nat) (bytes : List UInt8) :
    normalVals (ofImages t length bytes) = ofImages t length bytes ↔
      ∀ i < length, ∀ j ∈ booleanOffsets t, bytes.getD (t.memSize * i + j) 0 ≤ 1 := by
  induction length generalizing bytes with
  | zero => simp [ofImages, normalVals]
  | succ length ih =>
      rw [ofImages, normalVals, Vals.cons.injEq, normal_ofImage_iff, ih, Nat.forall_lt_succ_left]
      simp only [getD_drop, Nat.mul_zero, Nat.zero_add, Nat.mul_succ]
      refine and_congr_right (fun _ => forall₂_congr (fun i _ => forall₂_congr (fun j _ => ?_)))
      rw [← Nat.add_assoc, Nat.add_comm t.memSize]

/-- `Array_decodeBinary` without the branch for zero-copyable types. -/
def elementsDecodeBinary (t : DataType) (item : DecM (Val t)) (signedLength : Int) : DecM (Arr t) := fun st =>
  let length := signedLength.toNat
  if signedLength ≤ 0 then some (.ok (if signedLength = 0 then .items .nil else .null), st)
  else if t.memSize * length > maxArraySize then some (.error badOutOfMemory, st)
  else if st.offset + t.memSize * length / 32 > st.data.length then some (.error badDecodingError, st)
  else andThen allocate (fun _ => map Arr.items (itemsDecodeBinary item length)) st

/-- The whole array is in the message and there is memory for it. -/
def Copied (t : DataType) (signedLength : Int) (st : Dec) : Prop :=
  0 < signedLength ∧ t.memSize * signedLength.toNat ≤ maxArraySize ∧
    st.offset + t.memSize * signedLength.toNat ≤ st.data.length ∧ (allocated st).1 = true

def BooleansNormal (t : DataType) (length : Nat) (st : Dec) : Prop :=
  ∀ i < length, ∀ j ∈ booleanOffsets t, st.data.getD (st.offset + (t.memSize * i + j)) 0 ≤ 1

theorem returned_array_iff {t : DataType} (h : zeroCopyable t = true) (fuel : Nat) (signedLength : Int) (st : Dec) :
    returned (arrayDecodeBinary t (decodeBinary (fuel + 1) t) signedLength st) =
        returned (elementsDecodeBinary t (decodeBinary (fuel + 1) t) signedLength st) ↔
      (Copied t signedLength st → BooleansNormal t signedLength.toNat st) := by
  rw [arrayDecode_eq h, elementsDecodeBinary]
  by_cases hnull : signedLength ≤ 0
  · rw [if_pos hnull, if_pos hnull]
    exact ⟨fun _ hcopied => absurd hcopied.1 (by omega), fun _ => rfl⟩
  rw [if_neg hnull, if_neg hnull]
  by_cases hmax : t.memSize * signedLength.toNat > maxArraySize
  · rw [if_pos hmax, if_pos hmax]
    exact ⟨fun _ hcopied => absurd hcopied.2.1 (by omega), fun _ => rfl⟩
  rw [if_neg hmax, if_neg hmax]
  by_cases hfilter : st.offset + t.memSize * signedLength.toNat / 32 > st.data.length
  · rw [if_pos hfilter, if_pos hfilter]
    exact ⟨fun _ hcopied => absurd hcopied.2.2.1 (by omega), fun _ => rfl⟩
  rw [if_neg hfilter, if_neg hfilter, andThen, allocate_eq]
  by_cases hmemory : (allocated st).1 = true
  · obtain ⟨hdata, hoffset⟩ := allocated_rest st
    have hitems := fixed_items (fixed_type (fuel + 1) (decodeBinary fuel) t (flat_of_zeroCopyable h)) signedLength.toNat
    rw [hmemory, if_neg (by simp), if_pos rfl]
    dsimp only
    by_cases hroom : st.offset + t.memSize * signedLength.toNat ≤ st.data.length
    · obtain ⟨st', hrun, _, hoffset'⟩ := hitems.ok (allocated st).2 (by rw [hdata, hoffset]; exact hroom)
      rw [if_neg (by omega), Readers.map, andThen, decodeBinary, hrun, ofImages_take (flat_of_zeroCopyable h)]
      have hnormal := normalVals_ofImages_iff t signedLength.toNat (st.data.drop st.offset)
      simp only [getD_drop] at hnormal
      rw [BooleansNormal, ← hnormal, hdata, hoffset]
      have hcopied : Copied t signedLength st := ⟨by omega, by omega, hroom, hmemory⟩
      change some (Except.ok (Arr.items (ofImages t signedLength.toNat (st.data.drop st.offset)),
          (allocated st).2.offset + t.memSize * signedLength.toNat)) =
        some (Except.ok (Arr.items (normalVals (ofImages t signedLength.toNat (st.data.drop st.offset))),
          st'.offset)) ↔ _
      rw [hoffset', Option.some.injEq, Except.ok.injEq, Prod.mk.injEq, Arr.items.injEq, eq_comm]
      exact ⟨fun heq _ => heq.1, fun hnormal => ⟨hnormal hcopied, rfl⟩⟩
    · obtain ⟨st', hrun, _⟩ := hitems.error (allocated st).2 (by rw [hdata, hoffset]; omega)
        (by rw [hdata, hoffset]; exact hroom)
      rw [if_pos (by omega), Readers.map, andThen, decodeBinary, hrun]
      exact ⟨fun _ hcopied => absurd hcopied.2.2.1 hroom, fun _ => rfl⟩
  · rw [if_neg hmemory, if_pos (by simpa using hmemory)]
    exact ⟨fun _ hcopied => absurd hcopied.2.2.2 hmemory, fun _ => rfl⟩

end Decoding

section Arrays

/-- Copying an array does what encoding or decoding its elements does, except
that it writes nothing of an array that does not fit, and that it takes over
Booleans other than 0 and 1. -/
theorem arrayBinary_agrees_iff (t : DataType) (h : zeroCopyable t = true) :
    (∀ (a : Arr t) st, SameBytes (copyArr a st) (loopArr a st) ↔ CopyFits t a.length st) ∧
      ∀ fuel signedLength st,
        returned (arrayDecodeBinary t (decodeBinary (fuel + 1) t) signedLength st) =
            returned (elementsDecodeBinary t (decodeBinary (fuel + 1) t) signedLength st) ↔
          (Copied t signedLength st → BooleansNormal t signedLength.toNat st) :=
  ⟨sameBytes_array_iff h, returned_array_iff h⟩

def sampleNumbers : Arr TypeTable.uint16 :=
  .items (.cons (.simple (b := .uint16) 7) (.cons (.simple (b := .uint16) 8) .nil))

theorem arrayBinary_agrees_sampleNumbers :
    zeroCopyable TypeTable.uint16 = true ∧
      SameBytes (copyArr sampleNumbers ⟨List.replicate 8 0, 0, []⟩)
        (loopArr sampleNumbers ⟨List.replicate 8 0, 0, []⟩) ∧
      returned (arrayDecodeBinary TypeTable.boolean (decodeBinary 1 TypeTable.boolean) 2 ⟨[1, 0], 0, [], []⟩) =
        returned (elementsDecodeBinary TypeTable.boolean (decodeBinary 1 TypeTable.boolean) 2 ⟨[1, 0], 0, [], []⟩) :=
  ⟨rfl, ((arrayBinary_agrees_iff TypeTable.uint16 rfl).1 sampleNumbers _).mpr (.inr (.inl (by decide))),
    ((arrayBinary_agrees_iff TypeTable.boolean rfl).2 0 2 _).mpr (fun _ => by unfold BooleansNormal; decide)⟩

/-- A Boolean 2 stays as it is in an array that is copied and becomes 1 in one
that is decoded by its elements. Where only the first of two numbers fits,
it is left out by the copy. -/
theorem arrayBinary_differs :
    returned (arrayDecodeBinary TypeTable.boolean (decodeBinary 1 TypeTable.boolean) 1 ⟨[2], 0, [], []⟩) =
        some (.ok (.items (.cons (.simple (b := .boolean) 2) .nil), 1)) ∧
      returned (elementsDecodeBinary TypeTable.boolean (decodeBinary 1 TypeTable.boolean) 1 ⟨[2], 0, [], []⟩) =
        some (.ok (.items (.cons (.simple (b := .boolean) 1) .nil), 1)) ∧
      returned (arrayDecodeBinary TypeTable.boolean (decodeBinary 1 TypeTable.boolean) 1 ⟨[2], 0, [], []⟩) ≠
        returned (elementsDecodeBinary TypeTable.boolean (decodeBinary 1 TypeTable.boolean) 1 ⟨[2], 0, [], []⟩) ∧
      (copyArr sampleNumbers ⟨List.replicate 6 0, 0, []⟩).2.offset = 4 ∧
      (loopArr sampleNumbers ⟨List.replicate 6 0, 0, []⟩).2.offset = 6 := by
  have hcopy : returned (arrayDecodeBinary TypeTable.boolean (decodeBinary 1 TypeTable.boolean) 1 ⟨[2], 0, [], []⟩) =
      some (.ok (.items (.cons (.simple (b := .boolean) 2) .nil), 1)) := rfl
  have hloop : returned (elementsDecodeBinary TypeTable.boolean (decodeBinary 1 TypeTable.boolean) 1 ⟨[2], 0, [], []⟩) =
      some (.ok (.items (.cons (.simple (b := .boolean) 1) .nil), 1)) := rfl
  refine ⟨hcopy, hloop, ?_, by decide +kernel, by decide +kernel⟩
  rw [hcopy, hloop]
  intro hsame
  cases hsame

end Arrays

end OpcUa.ElementPaths
