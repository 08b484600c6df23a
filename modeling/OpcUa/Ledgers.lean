import Mathlib.Data.List.Perm.Basic
import Mathlib.Data.List.Range

namespace OpcUa.Ledgers

/-- What is handed to `free`: a block by its number, or the content of a
variable that has not been set. -/
inductive Release
  | block (id : Nat)
  | unset
deriving DecidableEq, Repr

def blocksOf (log : List Release) : List Nat :=
  log.filterMap fun
    | .block id => some id
    | .unset => none

@[simp] theorem blocksOf_append (log log' : List Release) : blocksOf (log ++ log') = blocksOf log ++ blocksOf log' :=
  List.filterMap_append

theorem blocksOf_map (ids : List Nat) : blocksOf (ids.map Release.block) = ids := by
  induction ids with
  | nil => rfl
  | cons id ids ih => exact congrArg (List.cons id) ih

theorem count_unset_map (ids : List Nat) : (ids.map Release.block).count .unset = 0 := by
  induction ids with
  | nil => rfl
  | cons id ids ih => rw [List.map_cons, List.count_cons_of_ne (by simp), ih]

/-- The blocks from `n` to `n'` have been given out. Each is held or has been
released, and `strays` other releases took place. -/
def Balanced (n : Nat) (log : List Release) (n' : Nat) (log' : List Release) (held : List Nat) (strays : Nat) : Prop :=
  n ≤ n' ∧ ∃ new, log' = new ++ log ∧ (blocksOf new ++ held).Perm (List.range' n (n' - n)) ∧ new.count .unset = strays

variable {n n' n'' : Nat} {log log' log'' : List Release} {held held' kept gone : List Nat} {strays strays' : Nat}

theorem Balanced.refl (n : Nat) (log : List Release) : Balanced n log n log [] 0 :=
  ⟨Nat.le_refl n, [], rfl, by rw [Nat.sub_self]; exact .refl [], rfl⟩

theorem Balanced.perm (h : Balanced n log n' log' held strays) (hperm : held.Perm held') :
    Balanced n log n' log' held' strays := by
  obtain ⟨hle, new, hlog, hblocks, hcount⟩ := h
  exact ⟨hle, new, hlog, (hperm.symm.append_left _).trans hblocks, hcount⟩

theorem Balanced.trans (h : Balanced n log n' log' held strays) (h' : Balanced n' log' n'' log'' held' strays') :
    Balanced n log n'' log'' (held ++ held') (strays' + strays) := by
  obtain ⟨hle, new, rfl, hblocks, rfl⟩ := h
  obtain ⟨hle', new', rfl, hblocks', rfl⟩ := h'
  refine ⟨hle.trans hle', new' ++ new, (List.append_assoc _ _ _).symm, ?_, List.count_append⟩
  have hrange : List.range' n (n'' - n) = List.range' n (n' - n) ++ List.range' n' (n'' - n') := by
    have happend := List.range'_append_1 (s := n) (m := n' - n) (n := n'' - n')
    rw [Nat.add_sub_cancel' hle] at happend
    rw [happend]
    congr 1
    omega
  have hswap : (blocksOf new' ++ blocksOf new).Perm (blocksOf new ++ blocksOf new') := List.perm_append_comm
  have hmiddle : (blocksOf new' ++ (held ++ held')).Perm (held ++ (blocksOf new' ++ held')) := by
    rw [← List.append_assoc, ← List.append_assoc]
    exact List.perm_append_comm.append_right held'
  rw [hrange, blocksOf_append]
  refine (hswap.append_right _).trans ?_
  rw [List.append_assoc]
  refine (hmiddle.append_left _).trans ?_
  rw [← List.append_assoc]
  exact hblocks.append hblocks'

theorem Balanced.allocate (n : Nat) (log : List Release) : Balanced n log (n + 1) log [n] 0 :=
  ⟨Nat.le_succ n, [], rfl, by rw [Nat.add_sub_cancel_left]; exact .refl [n], rfl⟩

theorem Balanced.release (h : Balanced n log n' log' held strays) (hperm : held.Perm (gone ++ kept)) :
    Balanced n log n' (gone.map .block ++ log') kept strays := by
  obtain ⟨hle, new, rfl, hblocks, hcount⟩ := h
  refine ⟨hle, gone.map .block ++ new, (List.append_assoc _ _ _).symm, ?_, ?_⟩
  · rw [blocksOf_append, blocksOf_map]
    refine List.Perm.trans ?_ ((hperm.append_left (blocksOf new)).symm.trans hblocks)
    rw [← List.append_assoc]
    exact List.perm_append_comm.append_right kept
  · rw [List.count_append, count_unset_map, Nat.zero_add, hcount]

theorem Balanced.stray (h : Balanced n log n' log' held strays) :
    Balanced n log n' (.unset :: log') held (strays + 1) := by
  obtain ⟨hle, new, rfl, hblocks, rfl⟩ := h
  exact ⟨hle, .unset :: new, rfl, hblocks, List.count_cons_self⟩

end OpcUa.Ledgers
