import Mathlib.Data.List.Basic

namespace OpcUa.Paging

variable {α β : Type} (f : α → Option β) (skip limit : Nat)

/-- The elements that `f` selects are counted until `skip` of them are passed
and then collected until there are `limit` of them. The first component is the
index at which the loop stops. -/
def collect : List α → Nat → Nat → List β → Nat × List β
  | [], index, _, found => (index, found)
  | a :: rest, index, skipped, found =>
      if found.length < limit then
        match f a with
        | none => collect rest (index + 1) skipped found
        | some b =>
            if skipped < skip then collect rest (index + 1) (skipped + 1) found
            else collect rest (index + 1) skipped (found ++ [b])
      else (index, found)

variable {f skip limit} {l : List α} {found : List β}

theorem collect_full (h : limit ≤ found.length) (l : List α) (index skipped : Nat) :
    collect f skip limit l index skipped found = (index, found) := by
  cases l with
  | nil => rfl
  | cons a rest => rw [collect, if_neg (Nat.not_lt.mpr h)]

theorem collect_found (index skipped : Nat) :
    (collect f skip limit l index skipped found).2 =
      found ++ ((l.filterMap f).drop (skip - skipped)).take (limit - found.length) := by
  induction l generalizing index skipped found with
  | nil => simp [collect]
  | cons a rest ih =>
      by_cases hroom : found.length < limit
      · rw [collect, if_pos hroom]
        cases ha : f a with
        | none =>
            rw [List.filterMap_cons_none ha]
            exact ih (index + 1) skipped
        | some b =>
            rw [List.filterMap_cons_some ha]
            dsimp only
            split
            · rename_i hskip
              rw [ih, show skip - skipped = (skip - (skipped + 1)) + 1 by omega, List.drop_succ_cons]
            · rename_i hskip
              rw [ih, show skip - skipped = 0 by omega, List.drop_zero, List.drop_zero, List.length_append,
                show limit - found.length = (limit - (found.length + [b].length)) + 1 by
                  rw [List.length_singleton]; omega,
                List.take_succ_cons, List.append_assoc, List.singleton_append]
      · rw [collect_full (Nat.not_lt.mp hroom), show limit - found.length = 0 by omega, List.take_zero,
          List.append_nil]

/-- The loop stops at the end of the list, with nothing left to collect, or
before it, with as much as is asked for. -/
theorem collect_index (index skipped : Nat) :
    ((collect f skip limit l index skipped found).1 = index + l.length ∧
        (collect f skip limit l index skipped found).2 = found ++ (l.filterMap f).drop (skip - skipped)) ∨
      ((collect f skip limit l index skipped found).1 < index + l.length ∧
        limit ≤ (collect f skip limit l index skipped found).2.length) := by
  induction l generalizing index skipped found with
  | nil => exact .inl (by simp [collect])
  | cons a rest ih =>
      have hlength : index + (a :: rest).length = (index + 1) + rest.length := by
        rw [List.length_cons]
        omega
      by_cases hroom : found.length < limit
      · rw [collect, if_pos hroom, hlength]
        cases ha : f a with
        | none =>
            rw [List.filterMap_cons_none ha]
            exact ih (index + 1) skipped
        | some b =>
            rw [List.filterMap_cons_some ha]
            dsimp only
            split
            · rename_i hskip
              rw [show skip - skipped = (skip - (skipped + 1)) + 1 by omega, List.drop_succ_cons]
              exact ih (index + 1) (skipped + 1)
            · rename_i hskip
              have hrest := @ih (found ++ [b]) (index + 1) skipped
              rw [show skip - skipped = 0 by omega] at hrest ⊢
              rwa [List.drop_zero, List.append_assoc, List.singleton_append] at hrest
      · refine .inr ?_
        rw [collect_full (Nat.not_lt.mp hroom)]
        exact ⟨by rw [hlength]; omega, Nat.not_lt.mp hroom⟩

section Start

theorem collect_start : (collect f skip limit l 0 0 []).2 = ((l.filterMap f).drop skip).take limit := by
  rw [collect_found, Nat.sub_zero, List.length_nil, Nat.sub_zero, List.nil_append]

theorem collect_end (h : (collect f skip limit l 0 0 []).1 = l.length) :
    (collect f skip limit l 0 0 []).2 = (l.filterMap f).drop skip := by
  rcases collect_index 0 0 with ⟨_, hall⟩ | ⟨hbefore, _⟩
  · rw [hall, List.nil_append, Nat.sub_zero]
  · rw [h] at hbefore
    omega

theorem collect_stopped (h : (collect f skip limit l 0 0 []).1 ≠ l.length) :
    (collect f skip limit l 0 0 []).2.length = limit := by
  rcases collect_index (f := f) (l := l) 0 0 with ⟨hend, _⟩ | ⟨_, hfull⟩
  · exact absurd (by rw [hend, Nat.zero_add]) h
  · refine Nat.le_antisymm ?_ hfull
    rw [collect_start]
    exact List.length_take_le _ _

end Start

end OpcUa.Paging
