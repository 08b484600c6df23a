import Mathlib.Data.Option.Basic

namespace OpcUa.Heaps

variable {α : Type}

abbrev Heap (α : Type) := Nat → Option α

namespace Heap

def empty : Heap α := fun _ => none

def store (h : Heap α) (a : Nat) (x : α) : Heap α := fun b => if b = a then some x else h b

def modify (h : Heap α) (a : Nat) (f : α → α) : Heap α := fun b => if b = a then (h b).map f else h b

def free (h : Heap α) (a : Nat) : Heap α := fun b => if b = a then none else h b

/-- The allocator proposes an address, or none. It never proposes one that is
in use. -/
def allocate (h : Heap α) (proposal : Option Nat) : Option Nat :=
  proposal.filter (fun a => (h a).isNone)

end Heap

variable {h : Heap α} {a b : Nat} {x y : α} {f : α → α}

theorem store_eq_some : h.store a x b = some y ↔ b = a ∧ x = y ∨ b ≠ a ∧ h b = some y := by
  by_cases hb : b = a <;> simp [Heap.store, hb]

theorem modify_eq_some :
    h.modify a f b = some y ↔ b = a ∧ (∃ x, h a = some x ∧ f x = y) ∨ b ≠ a ∧ h b = some y := by
  by_cases hb : b = a <;> simp [Heap.modify, hb]

theorem free_eq_some : h.free a b = some y ↔ b ≠ a ∧ h b = some y := by
  by_cases hb : b = a <;> simp [Heap.free, hb]

theorem modify_of_ne (hb : b ≠ a) : h.modify a f b = h b := if_neg hb

theorem modify_self : h.modify a f a = (h a).map f := if_pos rfl

theorem modify_part {β : Type} (part : α → β) (hpart : ∀ x, part (f x) = part x) (b : Nat) :
    (h.modify a f b).map part = (h b).map part := by
  by_cases hb : b = a
  · subst hb
    rw [modify_self, Option.map_map]
    exact congrArg (fun g => Option.map g (h b)) (funext hpart)
  · rw [modify_of_ne hb]

theorem allocate_eq_some {proposal : Option Nat} : h.allocate proposal = some a ↔
    proposal = some a ∧ h a = none := by
  simp [Heap.allocate, Option.filter_eq_some_iff]

end OpcUa.Heaps
