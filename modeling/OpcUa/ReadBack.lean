import OpcUa.Readers
import OpcUa.WritePrograms

namespace OpcUa.ReadBack

open StatusCodes LittleEndian Buffers Readers Writers WritePrograms

section Reading

/-- With `w` at the offset and at least `room` bytes behind it, `d` returns `a`
and consumes `w`. It may change these bytes, but no others. -/
def Reads {α : Type} (room : Nat) (d : DecM α) (w : List UInt8) (a : α) : Prop :=
  ∀ pre post st, st.data = pre ++ w ++ post → st.offset = pre.length → room ≤ post.length →
    st.heap = [] →
    ∃ w' st', d st = some (.ok a, st') ∧ st'.data = pre ++ w' ++ post ∧ w'.length = w.length ∧
      st'.offset = pre.length + w.length ∧ st'.heap = []

variable {α β : Type} {room : Nat} {d : DecM α} {e : DecM β} {w w' : List UInt8} {a : α} {b : β}

theorem Reads.mono {room' : Nat} (h : Reads room d w a) (hroom : room ≤ room') :
    Reads room' d w a := by
  intro pre post st hdata hoff hpost hheap
  exact h pre post st hdata hoff (hroom.trans hpost) hheap

/-- What a decoder makes of the bytes `w` does not depend on their place. -/
theorem Reads.unique {a' : α} (h : Reads room d w a) (h' : Reads room d w a') : a = a' := by
  let st : Dec := ⟨w ++ List.replicate room 0, 0, [], []⟩
  obtain ⟨_, _, hrun, _⟩ := h [] (List.replicate room 0) st rfl rfl (by simp) rfl
  obtain ⟨_, _, hrun', _⟩ := h' [] (List.replicate room 0) st rfl rfl (by simp) rfl
  rw [hrun] at hrun'
  simpa using congrArg (Option.map Prod.fst) hrun'

theorem reads_succeed (a : α) : Reads room (succeed a) [] a := by
  intro pre post st hdata hoff _ hheap
  exact ⟨[], st, rfl, hdata, rfl, hoff, hheap⟩

theorem reads_take (w : List UInt8) : Reads room (take w.length) w w := by
  intro pre post st hdata hoff _ hheap
  have hroom : ¬ st.offset + w.length > st.data.length := by
    rw [hdata, hoff]
    simp only [List.length_append]
    omega
  have hbytes : (st.data.drop st.offset).take w.length = w := by
    rw [hdata, hoff, List.append_assoc, List.drop_left, List.take_left]
  refine ⟨w, st.advance w.length, by rw [take, if_neg hroom, hbytes], hdata, rfl, ?_, hheap⟩
  rw [← hoff]
  rfl

theorem reads_allocate : Reads room allocate [] () := by
  intro pre post st hdata hoff _ hheap
  refine ⟨[], { st with heap := st.heap.tail }, by rw [allocate, hheap], hdata, rfl, hoff, ?_⟩
  rw [hheap]
  rfl

/-- Two reads one after the other, where the second one may depend on the
result of the first. -/
theorem Reads.bind (hd : Reads (w'.length + room) d w a) (he : Reads room e w' b)
    {pre post : List UInt8} {st : Dec} (hdata : st.data = pre ++ (w ++ w') ++ post)
    (hoff : st.offset = pre.length) (hpost : room ≤ post.length) (hheap : st.heap = []) :
    ∃ v st' st'', d st = some (.ok a, st') ∧ e st' = some (.ok b, st'') ∧
      st''.data = pre ++ v ++ post ∧ v.length = (w ++ w').length ∧
      st''.offset = pre.length + (w ++ w').length ∧ st''.heap = [] := by
  obtain ⟨v, st', hrun, hdata', hv, hoff', hheap'⟩ := hd pre (w' ++ post) st
    (by rw [hdata]; simp only [List.append_assoc]) hoff
    (by rw [List.length_append]; omega) hheap
  obtain ⟨v', st'', hrun', hdata'', hv', hoff'', hheap''⟩ := he (pre ++ v) post st'
    (by rw [hdata']; simp only [List.append_assoc])
    (by rw [hoff', List.length_append, hv]) hpost hheap'
  refine ⟨v ++ v', st', st'', hrun, hrun', ?_, ?_, ?_, hheap''⟩
  · rw [hdata'']
    simp only [List.append_assoc]
  · simp only [List.length_append, hv, hv']
  · rw [hoff'']
    simp only [List.length_append, hv]
    omega

theorem reads_andThen {f : α → DecM β} (hd : Reads (w'.length + room) d w a)
    (hf : Reads room (f a) w' b) : Reads room (andThen d f) (w ++ w') b := by
  intro pre post st hdata hoff hpost hheap
  obtain ⟨v, st', st'', hrun, hrun', hrest⟩ := hd.bind hf hdata hoff hpost hheap
  exact ⟨v, st'', by simp only [andThen, hrun, hrun'], hrest⟩

theorem reads_both (hd : Reads (w'.length + room) d w a) (he : Reads room e w' b) :
    Reads room (both d e) (w ++ w') (a, b) := by
  intro pre post st hdata hoff hpost hheap
  obtain ⟨v, st', st'', hrun, hrun', hrest⟩ := hd.bind he hdata hoff hpost hheap
  exact ⟨v, st'', by simp only [both, hrun, hrun', joined], hrest⟩

theorem reads_map (f : α → β) (h : Reads room d w a) : Reads room (map f d) w (f a) := by
  have hbind : Reads room (map f d) (w ++ []) (f a) :=
    reads_andThen (h.mono (by simp)) (reads_succeed (f a))
  rwa [List.append_nil] at hbind

theorem reads_allocated (h : Reads room d w a) : Reads room (andThen allocate (fun _ => d)) w a :=
  reads_andThen reads_allocate h

theorem reads_withError (code : StatusCode) (h : Reads room d w a) :
    Reads room (withError code d) w a := by
  intro pre post st hdata hoff hpost hheap
  obtain ⟨v, st', hrun, hrest⟩ := h pre post st hdata hoff hpost hheap
  exact ⟨v, st', by rw [withError, hrun], hrest⟩

theorem reads_whenFlagged {flag : Bool} (zero : α) (htrue : flag = true → Reads room d w a)
    (hfalse : flag = false → zero = a) :
    Reads room (whenFlagged flag zero d) (if flag then w else []) a := by
  cases flag with
  | true => exact htrue rfl
  | false =>
      rw [← hfalse rfl]
      exact reads_succeed zero

theorem Reads.run (h : Reads room d w a) (reads : List (Nat × Nat)) :
    ∃ st', d ⟨w ++ List.replicate room 0, 0, reads, []⟩ = some (.ok a, st') ∧
      st'.offset = w.length := by
  obtain ⟨_, st', hrun, _, _, hoff, _⟩ := h [] (List.replicate room 0)
    ⟨w ++ List.replicate room 0, 0, reads, []⟩ rfl rfl (by simp) rfl
  exact ⟨st', hrun, by simpa using hoff⟩

theorem andThen_ok {f : α → DecM β} {st st'' : Dec} (h : andThen d f st = some (.ok b, st'')) :
    ∃ a st', d st = some (.ok a, st') ∧ f a st' = some (.ok b, st'') := by
  rw [andThen] at h
  split at h
  · simp at h
  · simp at h
  · rename_i a st' hrun
    exact ⟨a, st', hrun, h⟩

theorem map_ok {f : α → β} {st st' : Dec} (h : map f d st = some (.ok b, st')) :
    ∃ a, d st = some (.ok a, st') ∧ f a = b := by
  obtain ⟨a, st1, hrun, hrest⟩ := andThen_ok h
  simp only [succeed, Option.some.injEq, Prod.mk.injEq, Except.ok.injEq] at hrest
  obtain ⟨rfl, rfl⟩ := hrest
  exact ⟨a, hrun, rfl⟩

theorem withError_ok {code : StatusCode} {st st' : Dec} (h : withError code d st = some (.ok a, st')) :
    d st = some (.ok a, st') := by
  rw [withError] at h
  split at h
  · simp at h
  · exact h

theorem both_ok {st st'' : Dec} (h : both d e st = some (.ok (a, b), st'')) :
    ∃ st', d st = some (.ok a, st') ∧ e st' = some (.ok b, st'') := by
  rw [both] at h
  split at h
  · simp at h
  · rename_i r st' hd
    split at h
    · simp at h
    · rename_i s st1 he
      cases r <;> cases s <;> simp [joined] at h
      obtain ⟨⟨rfl, rfl⟩, rfl⟩ := h
      exact ⟨st', hd, he⟩

theorem take_ok {k : Nat} {st st' : Dec} (h : take k st = some (.ok w, st')) :
    w.length = k ∧ w = (st.data.drop st.offset).take k ∧ st' = st.advance k := by
  rw [take] at h
  split at h
  · simp at h
  · simp only [Option.some.injEq, Prod.mk.injEq, Except.ok.injEq] at h
    obtain ⟨rfl, rfl⟩ := h
    refine ⟨?_, rfl, rfl⟩
    simp only [List.length_take, List.length_drop]
    omega

theorem allocate_ok {st st' : Dec} {x : Unit} (h : allocate st = some (.ok x, st')) :
    st' = { st with heap := st.heap.tail } := by
  rw [allocate] at h
  split at h
  · simp at h
  · simpa using h.symm

def Keeps {α : Type} (d : DecM α) : Prop := ∀ st r st', d st = some (r, st') → st'.data = st.data

theorem keeps_succeed (a : α) : Keeps (succeed a) := by
  intro st r st' h
  simp only [succeed, Option.some.injEq, Prod.mk.injEq] at h
  rw [← h.2]

theorem keeps_fail (code : StatusCode) : Keeps (fail code : DecM α) := by
  intro st r st' h
  simp only [fail, Option.some.injEq, Prod.mk.injEq] at h
  rw [← h.2]

theorem keeps_take (k : Nat) : Keeps (take k) := by
  intro st r st' h
  rw [take] at h
  split at h <;> simp only [Option.some.injEq, Prod.mk.injEq] at h <;> rw [← h.2]
  rfl

theorem keeps_allocate : Keeps allocate := by
  intro st r st' h
  rw [allocate] at h
  split at h <;> simp only [Option.some.injEq, Prod.mk.injEq] at h <;> rw [← h.2]

theorem keeps_andThen {f : α → DecM β} (hd : Keeps d) (hf : ∀ a, Keeps (f a)) :
    Keeps (andThen d f) := by
  intro st r st'' h
  rw [andThen] at h
  split at h
  · simp at h
  · rename_i code st' hrun
    simp only [Option.some.injEq, Prod.mk.injEq] at h
    rw [← h.2, hd _ _ _ hrun]
  · rename_i a st' hrun
    rw [hf a _ _ _ h, hd _ _ _ hrun]

theorem keeps_map (f : α → β) (h : Keeps d) : Keeps (map f d) :=
  keeps_andThen h (fun a => keeps_succeed (f a))

theorem keeps_both (hd : Keeps d) (he : Keeps e) : Keeps (both d e) := by
  intro st r st'' h
  rw [both] at h
  split at h
  · simp at h
  · rename_i s st' hrun
    split at h
    · simp at h
    · rename_i s' st1 hrun'
      simp only [Option.some.injEq, Prod.mk.injEq] at h
      rw [← h.2, he _ _ _ hrun', hd _ _ _ hrun]

theorem keeps_withError (code : StatusCode) (h : Keeps d) : Keeps (withError code d) := by
  intro st r st' hrun
  rw [withError] at hrun
  split at hrun
  · rename_i c st1 hd
    simp only [Option.some.injEq, Prod.mk.injEq] at hrun
    rw [← hrun.2, h _ _ _ hd]
  · exact h _ _ _ hrun

theorem keeps_if (c : Dec → Prop) [DecidablePred c] {f : DecM α} (hd : Keeps d) (hf : Keeps f) :
    Keeps (fun st => if c st then d st else f st) := by
  intro st r st' h
  dsimp only at h
  split at h
  · exact hd _ _ _ h
  · exact hf _ _ _ h

end Reading

section RoundTrips

variable {α : Type} {limit : Nat} {f : EncM} {d : DecM α} {w : List UInt8} {a : α} {st : Enc}

/-- The encoder works in the buffer. From the same offset the decoder returns
`a`, and it stops where the encoder did. -/
def ComesBack (f : EncM) (d : DecM α) (st : Enc) (a : α) : Prop :=
  ∃ st', f st = (good, st') ∧
    ∀ reads, ∃ dst, d ⟨st'.data, st.offset, reads, []⟩ = some (.ok a, dst) ∧ dst.offset = st'.offset

theorem split_at {β : Type} {data : List β} {offset k : Nat} (h : offset + k ≤ data.length) :
    ∃ pre mid post, data = pre ++ mid ++ post ∧ pre.length = offset ∧ mid.length = k := by
  refine ⟨data.take offset, (data.drop offset).take k, (data.drop offset).drop k, ?_, ?_, ?_⟩
  · rw [List.append_assoc, List.take_append_drop, List.take_append_drop]
  · rw [List.length_take]
    omega
  · rw [List.length_take, List.length_drop]
    omega

theorem comesBack_of_written {pre post : List UInt8} {st' : Enc} (hrun : f st = (good, st'))
    (hdata : st'.data = pre ++ w ++ post) (hpre : pre.length = st.offset)
    (hoff : st'.offset = pre.length + w.length) (hd : Reads 0 d w a) : ComesBack f d st a := by
  refine ⟨st', hrun, fun reads => ?_⟩
  obtain ⟨_, dst, hread, _, _, hdst, _⟩ := hd pre post ⟨st'.data, st.offset, reads, []⟩ hdata hpre.symm
    (Nat.zero_le _) rfl
  exact ⟨dst, hread, hdst.trans hoff.symm⟩

theorem comesBack_of_room (hf : Writes limit f w) (hd : Reads 0 d w a) (hlimit : st.data.length ≤ limit)
    (hroom : st.offset + w.length ≤ st.data.length) : ComesBack f d st a := by
  obtain ⟨pre, mid, post, hdata, hpre, hmid⟩ := split_at hroom
  obtain ⟨st', hrun, hdata', hoff⟩ := hf pre mid post st hdata hpre.symm hmid hlimit
  exact comesBack_of_written hrun hdata' hpre hoff hd

theorem ComesBack.unique {b : α} (h : ComesBack f d st a) (h' : ComesBack f d st b) : a = b := by
  obtain ⟨st1, hrun, hread⟩ := h
  obtain ⟨st2, hrun', hread'⟩ := h'
  obtain rfl : st1 = st2 := congrArg Prod.snd (hrun.symm.trans hrun')
  obtain ⟨dst, hdst, _⟩ := hread []
  obtain ⟨dst', hdst', _⟩ := hread' []
  rw [hdst] at hdst'
  exact (by simpa using hdst' : a = b ∧ dst = dst').1

theorem ComesBack.decoded (h : ComesBack f d st a) : ∃ before after, d before = some (.ok a, after) := by
  obtain ⟨st', _, hread⟩ := h
  obtain ⟨dst, hdst, _⟩ := hread []
  exact ⟨_, dst, hdst⟩

end RoundTrips

end OpcUa.ReadBack
