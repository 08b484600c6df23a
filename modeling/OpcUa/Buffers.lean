import Mathlib.Data.UInt

namespace OpcUa.Buffers

variable {α : Type}

/-- Replace elements from index `i` on. What would lie behind the end of the
buffer is dropped. -/
def overwrite : List α → Nat → List α → List α
  | [], _, _ => []
  | d :: ds, i + 1, bs => d :: overwrite ds i bs
  | _ :: ds, 0, b :: bs => b :: overwrite ds 0 bs
  | ds, 0, [] => ds

@[simp] theorem length_overwrite (ds bs : List α) (i : Nat) :
    (overwrite ds i bs).length = ds.length := by
  induction ds generalizing i bs with
  | nil => cases i <;> cases bs <;> rfl
  | cons d ds ih =>
      cases i with
      | succ i => simp [overwrite, ih]
      | zero => cases bs <;> simp [overwrite, ih]

theorem overwrite_zero (mid bs post : List α) (h : mid.length = bs.length) :
    overwrite (mid ++ post) 0 bs = bs ++ post := by
  induction mid generalizing bs with
  | nil =>
      have hnil : bs = [] := List.eq_nil_of_length_eq_zero h.symm
      subst hnil
      cases post <;> rfl
  | cons m mid ih =>
      cases bs with
      | nil => simp at h
      | cons b bs =>
          rw [List.cons_append, overwrite, ih bs (by simpa using h), List.cons_append]

theorem overwrite_middle (pre mid bs post : List α) (h : mid.length = bs.length) :
    overwrite (pre ++ mid ++ post) pre.length bs = pre ++ bs ++ post := by
  induction pre with
  | nil => exact overwrite_zero mid bs post h
  | cons p pre ih =>
      rw [List.cons_append, List.cons_append, List.length_cons, overwrite, ih]
      rfl

theorem overwrite_behind (as bs new : List α) {i : Nat} (h : as.length ≤ i) :
    ∃ bs', overwrite (as ++ bs) i new = as ++ bs' := by
  induction as generalizing i with
  | nil => exact ⟨overwrite bs i new, rfl⟩
  | cons a as ih =>
      cases i with
      | zero => simp at h
      | succ i =>
          obtain ⟨bs', hbs⟩ := ih (i := i) (by simpa using h)
          exact ⟨bs', by rw [List.cons_append, overwrite, hbs, List.cons_append]⟩

theorem overwrite_before (as bs : List α) (a : α) {i : Nat} (h : i < as.length) :
    overwrite (as ++ bs) i [a] = overwrite as i [a] ++ bs := by
  induction as generalizing i with
  | nil => simp at h
  | cons b as ih =>
      cases i with
      | zero =>
          have hnone : ∀ ds : List α, overwrite ds 0 [] = ds := fun ds => by cases ds <;> rfl
          rw [List.cons_append, overwrite, overwrite, hnone, hnone, List.cons_append]
      | succ i => rw [List.cons_append, overwrite, overwrite, ih (by simpa using h), List.cons_append]

end OpcUa.Buffers
