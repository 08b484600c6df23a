import Mathlib.Algebra.Ring.Nat
import Mathlib.Data.Fintype.Card
import Mathlib.Data.List.Forall2
import Mathlib.Data.Set.Finite.Basic
import Mathlib.Logic.Relation

namespace OpcUa.Worklists

open Relation

variable {α : Type} (children : α → List α)

/-- An array is scanned from its front while it grows at its end. `none` if
the fuel runs out. -/
def scan : Nat → List α → Nat → Option (List α)
  | 0, _, _ => none
  | fuel + 1, found, index =>
      match found[index]? with
      | none => some found
      | some x => scan fuel (found ++ children x) (index + 1)

def Child (x y : α) : Prop := y ∈ children x

variable {children} {found found' : List α} {index fuel : Nat} {x y : α}

theorem drop_append_of_getElem? (hx : found[index]? = some x) (more : List α) :
    found.drop index = x :: found.drop (index + 1) ∧
      (found ++ more).drop (index + 1) = found.drop (index + 1) ++ more := by
  obtain ⟨hlt, rfl⟩ := List.getElem?_eq_some_iff.mp hx
  exact ⟨List.drop_eq_getElem_cons hlt, List.drop_append_of_le_length hlt⟩

theorem drop_of_getElem?_none (hnone : found[index]? = none) : found.drop index = [] :=
  List.drop_eq_nil_of_le (List.getElem?_eq_none_iff.mp hnone)

theorem scan_mono (h : scan children fuel found index = some found') (more : Nat) :
    scan children (fuel + more) found index = some found' := by
  induction fuel generalizing found index with
  | zero => cases h
  | succ fuel ih =>
      rw [Nat.add_right_comm, scan]
      rw [scan] at h
      split
      · rename_i hnone
        rw [hnone] at h
        exact h
      · rename_i x hx
        rw [hx] at h
        exact ih h

theorem mem_scan (h : scan children fuel found index = some found') :
    y ∈ found' ↔ y ∈ found ∨ ∃ x ∈ found.drop index, TransGen (Child children) x y := by
  induction fuel generalizing found index with
  | zero => cases h
  | succ fuel ih =>
      rw [scan] at h
      split at h
      · rename_i hnone
        obtain rfl := Option.some.inj h
        simp [drop_of_getElem?_none hnone]
      · rename_i x hx
        obtain ⟨hdrop, hdrop'⟩ := drop_append_of_getElem? hx (children x)
        rw [ih h, hdrop, hdrop']
        constructor
        · rintro (hy | ⟨z, hz, hzy⟩)
          · rcases List.mem_append.mp hy with hy | hy
            · exact .inl hy
            · exact .inr ⟨x, List.mem_cons_self, .single hy⟩
          · rcases List.mem_append.mp hz with hz | hz
            · exact .inr ⟨z, List.mem_cons_of_mem _ hz, hzy⟩
            · exact .inr ⟨x, List.mem_cons_self, .head hz hzy⟩
        · rintro (hy | ⟨z, hz, hzy⟩)
          · exact .inl (List.mem_append_left _ hy)
          · rcases List.mem_cons.mp hz with rfl | hz
            · rcases TransGen.head'_iff.mp hzy with ⟨w, hw, hwy⟩
              rcases hwy.cases_head with rfl | ⟨v, hv, hvy⟩
              · exact .inl (List.mem_append_right _ hw)
              · exact .inr ⟨w, List.mem_append_right _ hw, TransGen.head' hv hvy⟩
            · exact .inr ⟨z, List.mem_append_left _ hz, hzy⟩

theorem mem_scan_root (h : scan children fuel [x] 0 = some found') :
    y ∈ found' ↔ ReflTransGen (Child children) x y := by
  rw [mem_scan h, reflTransGen_iff_eq_or_transGen]
  simp

section Termination

/-- The number of elements that an element contributes to the array. -/
inductive Weight (children : α → List α) : α → Nat → Prop
  | mk {x : α} {ns : List Nat} (h : List.Forall₂ (Weight children) (children x) ns) :
      Weight children x (ns.sum + 1)

theorem exists_weights {l : List α} (h : ∀ x ∈ l, ∃ n, Weight children x n) :
    ∃ ns, List.Forall₂ (Weight children) l ns := by
  induction l with
  | nil => exact ⟨[], .nil⟩
  | cons x l ih =>
      obtain ⟨n, hn⟩ := h x List.mem_cons_self
      obtain ⟨ns, hns⟩ := ih (fun y hy => h y (List.mem_cons_of_mem _ hy))
      exact ⟨n :: ns, .cons hn hns⟩

theorem weight_of_acc (h : Acc (fun y x => Child children x y) x) : ∃ n, Weight children x n := by
  induction h with
  | intro x _ ih =>
      obtain ⟨ns, hns⟩ := exists_weights ih
      exact ⟨ns.sum + 1, .mk hns⟩

theorem scan_of_weights {ns : List Nat} (h : List.Forall₂ (Weight children) (found.drop index) ns) :
    ∃ found', scan children (ns.sum + 1) found index = some found' := by
  induction hsum : ns.sum generalizing found index ns with
  | zero =>
      cases hx : found[index]? with
      | none => exact ⟨found, by rw [scan, hx]⟩
      | some x =>
          rw [(drop_append_of_getElem? hx []).1] at h
          cases h with
          | cons hweight _ =>
              cases hweight
              simp at hsum
  | succ n ih =>
      cases hx : found[index]? with
      | none => exact ⟨found, by rw [scan, hx]⟩
      | some x =>
          obtain ⟨hdrop, hdrop'⟩ := drop_append_of_getElem? hx (children x)
          rw [hdrop] at h
          cases h with
          | @cons _ _ _ ns' hweight hrest =>
              cases hweight with
              | @mk _ ms hms =>
                  have hpending : List.Forall₂ (Weight children)
                    ((found ++ children x).drop (index + 1)) (ns' ++ ms) := by
                    rw [hdrop']
                    exact List.rel_append hrest hms
                  obtain ⟨found', hfound'⟩ := ih hpending (by simp at hsum ⊢; omega)
                  refine ⟨found', ?_⟩
                  rw [scan, hx]
                  exact hfound'

theorem scan_of_acc (h : Acc (fun y x => Child children x y) x) :
    ∃ fuel found', scan children fuel [x] 0 = some found' := by
  obtain ⟨n, hn⟩ := weight_of_acc h
  have hpending : List.Forall₂ (Weight children) ([x].drop 0) [n] := .cons hn .nil
  obtain ⟨found', hfound'⟩ := scan_of_weights hpending
  exact ⟨_, found', hfound'⟩

theorem acc_of_scan (h : scan children fuel found index = some found') :
    ∀ x ∈ found.drop index, Acc (fun y x => Child children x y) x := by
  induction fuel generalizing found index with
  | zero => cases h
  | succ fuel ih =>
      rw [scan] at h
      split at h
      · rename_i hnone
        rw [drop_of_getElem?_none hnone]
        intro x hx
        cases hx
      · rename_i x hx
        obtain ⟨hdrop, hdrop'⟩ := drop_append_of_getElem? hx (children x)
        have hrest := ih h
        rw [hdrop'] at hrest
        rw [hdrop]
        intro y hy
        rcases List.mem_cons.mp hy with rfl | hy
        · exact .intro y (fun z hz => hrest z (List.mem_append_right _ hz))
        · exact hrest y (List.mem_append_left _ hy)

theorem scan_ends_iff_acc : (∃ fuel found', scan children fuel [x] 0 = some found') ↔
    Acc (fun y x => Child children x y) x := by
  constructor
  · rintro ⟨fuel, found', h⟩
    exact acc_of_scan h x List.mem_cons_self
  · exact scan_of_acc

end Termination

section Cycles

theorem not_self_of_acc {r : α → α → Prop} (h : Acc r x) : ¬ r x x := by
  induction h with
  | intro x _ ih => exact fun hself => ih x hself hself

theorem acc_of_leaves {r r' : α → α → Prop} (h : ∀ x y, r' y x → r y x ∨ ∀ z, ¬ r' z y) (hacc : Acc r x) :
    Acc r' x := by
  induction hacc with
  | intro x _ ih =>
      refine .intro x ?_
      intro y hyx
      rcases h x y hyx with hold | hleaf
      · exact ih y hold
      · exact .intro y (fun z hz => absurd hz (hleaf z))

theorem acc_iff_acyclic {r : α → α → Prop} (hfinite : {y | ReflTransGen r x y}.Finite) :
    Acc (fun y x => r x y) x ↔ ∀ y, ReflTransGen r x y → ¬ TransGen r y y := by
  constructor
  · intro hacc y hxy hyy
    have hy : Acc (fun y x => TransGen r x y) y := by
      have hx : Acc (TransGen (fun y x => r x y)) x := hacc.transGen
      have hswap : TransGen (fun y x => r x y) = fun y x => TransGen r x y := by
        funext a b
        exact propext transGen_swap
      rw [hswap] at hx
      rcases reflTransGen_iff_eq_or_transGen.mp hxy with rfl | hxy
      · exact hx
      · exact hx.inv hxy
    exact not_self_of_acc hy hyy
  · intro hacyclic
    let S := {y // ReflTransGen r x y}
    have : Finite S := hfinite
    let below : S → S → Prop := fun z w => TransGen r w.1 z.1
    have : IsTrans S below := ⟨fun _ _ _ hab hbc => hbc.trans hab⟩
    have : Std.Irrefl below := ⟨fun z hz => hacyclic z.1 z.2 hz⟩
    have hwf : WellFounded below := Finite.wellFounded_of_trans_of_irrefl below
    have hall : ∀ z : S, Acc (fun y x => r x y) z.1 := by
      intro z
      induction z using hwf.induction with
      | _ z ih => exact .intro z.1 (fun y hy => ih ⟨y, z.2.tail hy⟩ (.single hy))
    exact hall ⟨x, .refl⟩

end Cycles

end OpcUa.Worklists
