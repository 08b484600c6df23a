import Mathlib.Data.List.GetD
import OpcUa.PureDecoding

namespace OpcUa.ProgramLocality

open StatusCodes Buffers Readers ReadPrograms PureDecoding

variable {α β : Type} {low high : Nat}

/-- Going through the program, everything that is read or asked for lies
between `low` and `high`. -/
def inside (low high : Nat) : Prog α → Dec → Bool
  | .done _, _ | .stuck, _ => true
  | .take k next, st =>
      st.offset + k ≤ high &&
        inside low high (next (some ((st.data.drop st.offset).take k))) (st.advance k)
  | .fits k next, st => st.offset + k ≤ high && inside low high (next true) st
  | .allocate next, st => inside low high (next (allocated st).1) (allocated st).2
  | .flags next, st =>
      st.offset < high && inside low high (next (st.data.getD st.offset 0)) (unflag st)
  | .offset next, st => inside low high (next st.offset) st
  | .seek position next, st => low ≤ position && inside low high next { st with offset := position }
  | .peek position next, st =>
      low ≤ position && position < high && inside low high (next (st.data.getD position 0)) st

/-- Two buffers with the same bytes between `low` and `high`, read from the
same place. -/
structure Shares (low high : Nat) (st st' : Dec) : Prop where
  offset : st'.offset = st.offset
  low_le : low ≤ st.offset
  heap : st'.heap = st.heap
  high_le : high ≤ st.data.length
  high_le' : high ≤ st'.data.length
  bytes : ∀ i, low ≤ i → i < high → st'.data.getD i 0 = st.data.getD i 0

variable {st st' : Dec}

theorem take_drop_eq {data data' : List UInt8} {o k : Nat} (h : o + k ≤ data.length) (h' : o + k ≤ data'.length)
    (hbytes : ∀ i, o ≤ i → i < o + k → data'.getD i 0 = data.getD i 0) :
    (data'.drop o).take k = (data.drop o).take k := by
  apply List.ext_getElem
  · rw [List.length_take, List.length_take, List.length_drop, List.length_drop]
    omega
  · intro i hi hi'
    rw [List.length_take, List.length_drop] at hi hi'
    rw [List.getElem_take, List.getElem_take, List.getElem_drop, List.getElem_drop]
    have hbyte := hbytes (o + i) (by omega) (by omega)
    rw [List.getD_eq_getElem _ _ (by omega), List.getD_eq_getElem _ _ (by omega)] at hbyte
    exact hbyte

theorem getD_overwrite_of_ne (data : List UInt8) {i j : Nat} (hij : j ≠ i) (b : UInt8) :
    (overwrite data i [b]).getD j 0 = data.getD j 0 := by
  induction data generalizing i j with
  | nil => cases i <;> rfl
  | cons c data ih =>
      cases i with
      | zero =>
          cases j with
          | zero => exact absurd rfl hij
          | succ j => cases data <;> rfl
      | succ i =>
          cases j with
          | zero => rfl
          | succ j => exact ih (fun h => hij (congrArg Nat.succ h))

theorem Shares.advance (h : Shares low high st st') (k : Nat) : Shares low high (st.advance k) (st'.advance k) :=
  ⟨congrArg (· + k) h.offset, h.low_le.trans (Nat.le_add_right _ _), h.heap, h.high_le, h.high_le', h.bytes⟩

theorem Shares.allocated (h : Shares low high st st') :
    (allocated st').1 = (allocated st).1 ∧ Shares low high (allocated st).2 (allocated st').2 := by
  obtain ⟨data, offset, reads, heap⟩ := st
  obtain ⟨data', offset', reads', heap'⟩ := st'
  obtain rfl : heap' = heap := h.heap
  match heap' with
  | [] | true :: _ | false :: _ =>
      exact ⟨rfl, h.offset, h.low_le, rfl, h.high_le, h.high_le', h.bytes⟩

theorem Shares.unflag (h : Shares low high st st') (hlt : st.offset < high) :
    Shares low high (unflag st) (unflag st') := by
  have hbyte := h.bytes st.offset h.low_le hlt
  refine ⟨h.offset, h.low_le, h.heap, ?_, ?_, ?_⟩
  · rw [ReadPrograms.unflag, length_overwrite]
    exact h.high_le
  · rw [ReadPrograms.unflag, length_overwrite]
    exact h.high_le'
  · intro i hlow hhigh
    rw [ReadPrograms.unflag, ReadPrograms.unflag]
    dsimp only
    rw [h.offset, hbyte]
    by_cases hi : i = st.offset
    · subst hi
      rw [getD_overwrite _ (hlt.trans_le h.high_le'), getD_overwrite _ (hlt.trans_le h.high_le)]
    · rw [getD_overwrite_of_ne _ hi, getD_overwrite_of_ne _ hi]
      exact h.bytes i hlow hhigh

theorem Shares.take_eq (h : Shares low high st st') {k : Nat} (hk : st.offset + k ≤ high) :
    (st'.data.drop st'.offset).take k = (st.data.drop st.offset).take k := by
  rw [h.offset]
  apply take_drop_eq (hk.trans h.high_le) (hk.trans h.high_le')
  intro i hlow hhigh
  exact h.bytes i (h.low_le.trans hlow) (hhigh.trans_le hk)

/-- Both runs return the same and still share their bytes, or both run out of
fuel. -/
def Alike (low high : Nat) (x x' : Outcome α) : Prop :=
  x = none ∧ x' = none ∨
    ∃ r st st', x = some (r, st) ∧ x' = some (r, st') ∧ Shares low high st st'

theorem run_alike (p : Prog α) (h : inside low high p st = true) (hshares : Shares low high st st') :
    Alike low high (p.run st) (p.run st') := by
  induction p generalizing st st' with
  | done r => exact .inr ⟨r, st, st', rfl, rfl, hshares⟩
  | stuck => exact .inl ⟨rfl, rfl⟩
  | take k next ih =>
      rw [inside, Bool.and_eq_true, decide_eq_true_eq] at h
      obtain ⟨hk, hrest⟩ := h
      have hin : ¬ st.offset + k > st.data.length := by
        have := hshares.high_le
        omega
      have hin' : ¬ st'.offset + k > st'.data.length := by
        have := hshares.high_le'
        have := hshares.offset
        omega
      rw [Prog.run, Prog.run, if_neg hin, if_neg hin', hshares.take_eq hk]
      exact ih _ hrest (hshares.advance k)
  | fits k next ih =>
      rw [inside, Bool.and_eq_true, decide_eq_true_eq] at h
      obtain ⟨hk, hrest⟩ := h
      have hin : st.offset + k ≤ st.data.length := hk.trans hshares.high_le
      have hin' : st'.offset + k ≤ st'.data.length := by
        rw [hshares.offset]
        exact hk.trans hshares.high_le'
      rw [Prog.run, Prog.run, decide_eq_true hin, decide_eq_true hin']
      exact ih _ hrest hshares
  | allocate next ih =>
      obtain ⟨hgiven, hafter⟩ := hshares.allocated
      rw [Prog.run, Prog.run, hgiven]
      exact ih _ h hafter
  | flags next ih =>
      rw [inside, Bool.and_eq_true, decide_eq_true_eq] at h
      obtain ⟨hlt, hrest⟩ := h
      rw [Prog.run, Prog.run, hshares.offset, hshares.bytes st.offset hshares.low_le hlt]
      exact ih _ hrest (hshares.unflag hlt)
  | offset next ih =>
      rw [Prog.run, Prog.run, hshares.offset]
      exact ih _ h hshares
  | seek position next ih =>
      rw [inside, Bool.and_eq_true, decide_eq_true_eq] at h
      obtain ⟨hlow, hrest⟩ := h
      rw [Prog.run, Prog.run]
      exact ih hrest ⟨rfl, hlow, hshares.heap, hshares.high_le, hshares.high_le', hshares.bytes⟩
  | peek position next ih =>
      rw [inside, Bool.and_eq_true, Bool.and_eq_true, decide_eq_true_eq, decide_eq_true_eq] at h
      obtain ⟨⟨hlow, hlt⟩, hrest⟩ := h
      rw [Prog.run, Prog.run, hshares.bytes position hlow hlt]
      exact ih _ hrest hshares

theorem inside_shares (p : Prog α) (h : inside low high p st = true) (hshares : Shares low high st st') :
    inside low high p st' = true := by
  induction p generalizing st st' with
  | done r => rfl
  | stuck => rfl
  | take k next ih =>
      rw [inside, Bool.and_eq_true, decide_eq_true_eq] at h ⊢
      have hbytes : (st'.data.drop st'.offset).take k = (st.data.drop st.offset).take k := hshares.take_eq h.1
      rw [hshares.offset] at hbytes ⊢
      rw [hbytes]
      exact ⟨h.1, ih _ h.2 (hshares.advance k)⟩
  | fits k next ih =>
      rw [inside, Bool.and_eq_true] at h ⊢
      rw [hshares.offset]
      exact ⟨h.1, ih _ h.2 hshares⟩
  | allocate next ih =>
      obtain ⟨hgiven, hafter⟩ := hshares.allocated
      rw [inside] at h ⊢
      rw [hgiven]
      exact ih _ h hafter
  | flags next ih =>
      rw [inside, Bool.and_eq_true, decide_eq_true_eq] at h ⊢
      rw [hshares.offset, hshares.bytes st.offset hshares.low_le h.1]
      exact ⟨h.1, ih _ h.2 (hshares.unflag h.1)⟩
  | offset next ih =>
      rw [inside] at h ⊢
      rw [hshares.offset]
      exact ih _ h hshares
  | seek position next ih =>
      rw [inside, Bool.and_eq_true, decide_eq_true_eq] at h ⊢
      exact ⟨h.1, ih h.2 ⟨rfl, h.1, hshares.heap, hshares.high_le, hshares.high_le', hshares.bytes⟩⟩
  | peek position next ih =>
      rw [inside, Bool.and_eq_true, Bool.and_eq_true, decide_eq_true_eq, decide_eq_true_eq] at h ⊢
      rw [hshares.bytes position h.1.1 h.1.2]
      exact ⟨h.1, ih _ h.2 hshares⟩

theorem run_frame (p : Prog α) {r : Except StatusCode α} (h : inside low high p st = true)
    (hrun : p.run st = some (r, st')) (hhigh : high ≤ st.data.length) {i : Nat} (hi : high ≤ i) :
    st'.data.getD i 0 = st.data.getD i 0 := by
  induction p generalizing st with
  | done r' =>
      obtain ⟨_, rfl⟩ := Prod.mk.inj (Option.some.inj hrun)
      rfl
  | stuck => cases hrun
  | take k next ih =>
      rw [inside, Bool.and_eq_true, decide_eq_true_eq] at h
      rw [Prog.run, if_neg (by omega)] at hrun
      have hadvance : high ≤ (st.advance k).data.length := hhigh
      have hrest := ih _ h.2 hrun hadvance
      exact hrest
  | fits k next ih =>
      rw [inside, Bool.and_eq_true, decide_eq_true_eq] at h
      rw [Prog.run, decide_eq_true (h.1.trans hhigh)] at hrun
      exact ih _ h.2 hrun hhigh
  | allocate next ih =>
      have hrest := ih _ h hrun (by rw [allocated_data]; exact hhigh)
      rw [allocated_data] at hrest
      exact hrest
  | flags next ih =>
      rw [inside, Bool.and_eq_true, decide_eq_true_eq] at h
      have hlen : (ReadPrograms.unflag st).data.length = st.data.length := length_overwrite _ _ _
      have hrest := ih _ h.2 hrun (by rw [hlen]; exact hhigh)
      rw [hrest]
      exact getD_overwrite_of_ne _ (by omega) _
  | offset next ih => exact ih _ h hrun hhigh
  | seek position next ih =>
      rw [inside, Bool.and_eq_true] at h
      rw [Prog.run] at hrun
      have hrest := ih h.2 hrun hhigh
      exact hrest
  | peek position next ih =>
      rw [inside, Bool.and_eq_true] at h
      exact ih _ h.2 hrun hhigh

theorem inside_bind {p : Prog α} {f : Except StatusCode α → Prog β} (hhigh : high ≤ st.data.length)
    (h : inside low high (p.bind f) st = true) :
    inside low high p st = true ∧
      ∀ r st', p.run st = some (r, st') → inside low high (f r) st' = true := by
  induction p generalizing st with
  | done r' =>
      refine ⟨rfl, ?_⟩
      intro r st' hrun
      obtain ⟨rfl, rfl⟩ := Prod.mk.inj (Option.some.inj hrun)
      exact h
  | stuck => exact ⟨rfl, fun _ _ hrun => by cases hrun⟩
  | take k next ih =>
      rw [Prog.bind, inside, Bool.and_eq_true] at h
      have hk := of_decide_eq_true h.1
      have hadvance : high ≤ (st.advance k).data.length := hhigh
      obtain ⟨hfirst, hrest⟩ := ih _ hadvance h.2
      refine ⟨?_, ?_⟩
      · rw [inside, Bool.and_eq_true]
        exact ⟨h.1, hfirst⟩
      · intro r st' hrun
        rw [Prog.run, if_neg (by omega)] at hrun
        exact hrest r st' hrun
  | fits k next ih =>
      rw [Prog.bind, inside, Bool.and_eq_true] at h
      have hk := of_decide_eq_true h.1
      obtain ⟨hfirst, hrest⟩ := ih _ hhigh h.2
      refine ⟨?_, ?_⟩
      · rw [inside, Bool.and_eq_true]
        exact ⟨h.1, hfirst⟩
      · intro r st' hrun
        rw [Prog.run, decide_eq_true (hk.trans hhigh)] at hrun
        exact hrest r st' hrun
  | allocate next ih => exact ih _ (by rw [allocated_data]; exact hhigh) h
  | flags next ih =>
      rw [Prog.bind, inside, Bool.and_eq_true] at h
      have hlen : (ReadPrograms.unflag st).data.length = st.data.length := length_overwrite _ _ _
      obtain ⟨hfirst, hrest⟩ := ih _ (by rw [hlen]; exact hhigh) h.2
      refine ⟨?_, hrest⟩
      rw [inside, Bool.and_eq_true]
      exact ⟨h.1, hfirst⟩
  | offset next ih => exact ih _ hhigh h
  | seek position next ih =>
      rw [Prog.bind, inside, Bool.and_eq_true] at h
      have hmoved : high ≤ ({ st with offset := position } : Dec).data.length := hhigh
      obtain ⟨hfirst, hrest⟩ := ih hmoved h.2
      refine ⟨?_, hrest⟩
      rw [inside, Bool.and_eq_true]
      exact ⟨h.1, hfirst⟩
  | peek position next ih =>
      rw [Prog.bind, inside, Bool.and_eq_true] at h
      obtain ⟨hfirst, hrest⟩ := ih _ hhigh h.2
      refine ⟨?_, hrest⟩
      rw [inside, Bool.and_eq_true]
      exact ⟨h.1, hfirst⟩

end OpcUa.ProgramLocality
