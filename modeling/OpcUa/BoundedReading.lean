import Mathlib.Data.List.Forall2
import OpcUa.Readers

namespace OpcUa.BoundedReading

open StatusCodes LittleEndian Buffers Readers

/-- Everything read so far, and the offset, lie in the buffer. -/
structure Valid (st : Dec) : Prop where
  offset_le : st.offset ≤ st.data.length
  reads_le : ∀ r ∈ st.reads, r.1 + r.2 ≤ st.data.length

def Cleared (data data' : List UInt8) : Prop := List.Forall₂ (fun b b' => b' &&& b = b') data data'

structure Moves (st st' : Dec) : Prop where
  valid : Valid st'
  cleared : Cleared st.data st'.data
  offset_le : st.offset ≤ st'.offset

/-- With at most `most` bytes left, both decoders return, they return the
same, and they stay in the buffer. -/
def Agree {α : Type} (most : Nat) (d d' : DecM α) : Prop :=
  ∀ st, Valid st → st.data.length - st.offset ≤ most →
    ∃ r st', d st = some (r, st') ∧ d' st = some (r, st') ∧ Moves st st'

def Consumes {α : Type} (d : DecM α) : Prop :=
  ∀ st a st', Valid st → d st = some (.ok a, st') → st.offset < st'.offset

variable {α β : Type} {most : Nat} {d d' : DecM α} {e e' : DecM β}

theorem Cleared.refl (data : List UInt8) : Cleared data data := by
  induction data with
  | nil => exact .nil
  | cons b data ih => exact .cons (UInt8.and_self) ih

theorem Cleared.trans {data data' data'' : List UInt8} (h : Cleared data data')
    (h' : Cleared data' data'') : Cleared data data'' := by
  induction h generalizing data'' with
  | nil => exact h'
  | cons hb _ ih =>
      cases h' with
      | cons hb' h' =>
          refine .cons ?_ (ih h')
          rw [← hb', UInt8.and_assoc, hb]

theorem cleared_overwrite (data : List UInt8) (i : Nat) (mask : UInt8) :
    Cleared data (overwrite data i [data.getD i 0 &&& mask]) := by
  induction data generalizing i with
  | nil => cases i <;> exact .nil
  | cons b data ih =>
      cases i with
      | zero =>
          refine .cons ?_ ?_
          · change b &&& mask &&& b = b &&& mask
            rw [UInt8.and_comm b mask, UInt8.and_assoc, UInt8.and_self]
          · cases data <;> exact Cleared.refl _
      | succ i => exact .cons UInt8.and_self (ih i)

theorem Moves.length_eq {st st' : Dec} (h : Moves st st') : st'.data.length = st.data.length :=
  h.cleared.length_eq.symm

theorem Moves.refl {st : Dec} (h : Valid st) : Moves st st := ⟨h, Cleared.refl _, le_refl _⟩

theorem Moves.trans {st st' st'' : Dec} (h : Moves st st') (h' : Moves st' st'') : Moves st st'' :=
  ⟨h'.valid, h.cleared.trans h'.cleared, h.offset_le.trans h'.offset_le⟩

theorem Moves.left_le {st st' : Dec} (h : Moves st st') (hmost : st.data.length - st.offset ≤ most) :
    st'.data.length - st'.offset ≤ most := by
  rw [h.length_eq]
  have hle := h.offset_le
  omega

theorem agree_succeed (a : α) : Agree most (succeed a) (succeed a) := by
  intro st hst _
  exact ⟨.ok a, st, rfl, rfl, Moves.refl hst⟩

theorem agree_fail (code : StatusCode) : Agree most (fail code : DecM α) (fail code) := by
  intro st hst _
  exact ⟨.error code, st, rfl, rfl, Moves.refl hst⟩

theorem agree_take (k : Nat) : Agree most (take k) (take k) := by
  intro st hst _
  by_cases h : st.offset + k > st.data.length
  · exact ⟨.error badDecodingError, st, if_pos h, if_pos h, Moves.refl hst⟩
  · refine ⟨.ok _, st.advance k, if_neg h, if_neg h, ⟨?_, ?_⟩, Cleared.refl _, Nat.le_add_right _ _⟩
    · change st.offset + k ≤ st.data.length
      omega
    · intro r hr
      rcases List.mem_cons.mp hr with rfl | hr
      · change st.offset + k ≤ st.data.length
        omega
      · exact hst.reads_le r hr

theorem agree_allocate : Agree most allocate allocate := by
  intro st hst _
  have hvalid : ∀ heap, Moves st { st with heap := heap } := fun heap =>
    ⟨⟨hst.offset_le, hst.reads_le⟩, Cleared.refl _, le_refl _⟩
  by_cases h : ∃ heap, st.heap = false :: heap
  · obtain ⟨heap, h⟩ := h
    exact ⟨.error badOutOfMemory, { st with heap := heap }, by rw [allocate, h], by rw [allocate, h],
      hvalid heap⟩
  · have hrun : allocate st = some (.ok (), { st with heap := st.heap.tail }) := by
      rw [allocate]
      split
      · rename_i heap heq
        exact absurd ⟨heap, heq⟩ h
      · rfl
    exact ⟨.ok (), _, hrun, hrun, hvalid _⟩

theorem agree_withError (code : StatusCode) (h : Agree most d d') :
    Agree most (withError code d) (withError code d') := by
  intro st hst hleft
  obtain ⟨r, st', hd, hd', hmoves⟩ := h st hst hleft
  cases r with
  | error c => exact ⟨.error code, st', by rw [withError, hd], by rw [withError, hd'], hmoves⟩
  | ok a => exact ⟨.ok a, st', by rw [withError, hd], by rw [withError, hd'], hmoves⟩

theorem agree_andThen {f f' : α → DecM β} (hd : Agree most d d')
    (hf : ∀ a st st', Valid st → d st = some (.ok a, st') → Moves st st' →
      st.data.length - st.offset ≤ most →
      ∃ r st'', f a st' = some (r, st'') ∧ f' a st' = some (r, st'') ∧ Moves st' st'') :
    Agree most (andThen d f) (andThen d' f') := by
  intro st hst hleft
  obtain ⟨r, st', hrun, hrun', hmoves⟩ := hd st hst hleft
  cases r with
  | error code => exact ⟨.error code, st', by rw [andThen, hrun], by rw [andThen, hrun'], hmoves⟩
  | ok a =>
      obtain ⟨s, st'', hf1, hf2, hmoves'⟩ := hf a st st' hst hrun hmoves hleft
      exact ⟨s, st'', by simp only [andThen, hrun, hf1], by simp only [andThen, hrun', hf2],
        hmoves.trans hmoves'⟩

theorem agree_bind {f f' : α → DecM β} (hd : Agree most d d') (hf : ∀ a, Agree most (f a) (f' a)) :
    Agree most (andThen d f) (andThen d' f') :=
  agree_andThen hd (fun a _ st' _ _ hmoves hleft => hf a st' hmoves.valid (hmoves.left_le hleft))

theorem agree_consume {f f' : α → DecM β} (hd : Agree most d d') (hconsumes : Consumes d)
    (hf : ∀ a fewer, fewer < most → Agree fewer (f a) (f' a)) :
    Agree most (andThen d f) (andThen d' f') := by
  refine agree_andThen hd (fun a st st' hst hrun hmoves hleft => ?_)
  have hlt := hconsumes st a st' hst hrun
  have hle := hmoves.valid.offset_le
  have hlen := hmoves.length_eq
  exact hf a (most - 1) (by omega) st' hmoves.valid (by omega)

theorem agree_map (f : α → β) (h : Agree most d d') : Agree most (map f d) (map f d') :=
  agree_bind h (fun a => agree_succeed (f a))

theorem agree_both (hd : Agree most d d') (he : Agree most e e') :
    Agree most (both d e) (both d' e') := by
  intro st hst hleft
  obtain ⟨r, st', hrun, hrun', hmoves⟩ := hd st hst hleft
  obtain ⟨s, st'', hrun2, hrun2', hmoves'⟩ := he st' hmoves.valid (hmoves.left_le hleft)
  exact ⟨joined r s, st'', by simp only [both, hrun, hrun2], by simp only [both, hrun', hrun2'],
    hmoves.trans hmoves'⟩

theorem agree_whenFlagged (b : Bool) (zero : α) (h : Agree most d d') :
    Agree most (whenFlagged b zero d) (whenFlagged b zero d') := by
  cases b
  · exact agree_succeed zero
  · exact h

theorem agree_if (c : Dec → Prop) [DecidablePred c] {f f' : DecM α} (hd : Agree most d d')
    (hf : Agree most f f') :
    Agree most (fun st => if c st then d st else f st) (fun st => if c st then d' st else f' st) := by
  intro st hst hleft
  by_cases h : c st
  · simpa only [if_pos h] using hd st hst hleft
  · simpa only [if_neg h] using hf st hst hleft

theorem agree_allocated (h : Agree most d d') :
    Agree most (andThen allocate (fun _ => d)) (andThen allocate (fun _ => d')) :=
  agree_bind agree_allocate (fun _ => h)

theorem consumes_take {k : Nat} (h : 0 < k) : Consumes (take k) := by
  intro st a st' _ hrun
  rw [take] at hrun
  split at hrun
  · simp at hrun
  · simp only [Option.some.injEq, Prod.mk.injEq] at hrun
    rw [← hrun.2]
    change st.offset < st.offset + k
    omega

theorem consumes_map {f : α → β} (h : Consumes d) : Consumes (map f d) := by
  intro st b st' hst hrun
  rw [map, andThen] at hrun
  split at hrun
  · simp at hrun
  · simp at hrun
  · rename_i a st1 hd
    simp only [succeed, Option.some.injEq, Prod.mk.injEq] at hrun
    rw [← hrun.2]
    exact h st a st1 hst hd

theorem Agree.moves {st st' : Dec} {r : Except StatusCode α} (h : ∀ most, Agree most d d)
    (hst : Valid st) (hrun : d st = some (r, st')) : Moves st st' := by
  obtain ⟨r', st1, hrun', _, hmoves⟩ := h _ st hst (le_refl _)
  rw [hrun] at hrun'
  obtain ⟨rfl, rfl⟩ : r = r' ∧ st' = st1 := by simpa using hrun'
  exact hmoves

theorem consumes_both (hd : ∀ most, Agree most d d) (he : Consumes e) : Consumes (both d e) := by
  intro st p st'' hst hrun
  rw [both] at hrun
  split at hrun
  · simp at hrun
  · rename_i r st' hd'
    have hmoves := Agree.moves hd hst hd'
    split at hrun
    · simp at hrun
    · rename_i s st1 he'
      simp only [Option.some.injEq, Prod.mk.injEq] at hrun
      obtain ⟨hjoined, rfl⟩ := hrun
      cases s with
      | error code => cases r <;> simp [joined] at hjoined
      | ok b => exact hmoves.offset_le.trans_lt (he st' b _ hmoves.valid he')

end OpcUa.BoundedReading
