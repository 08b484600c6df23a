import Mathlib.Data.Option.Basic
import Mathlib.Logic.Basic
import Mathlib.Order.Basic

namespace OpcUa.Loops

section Iterations

variable {σ : Type}

/-- The state before the `k`-th pass of a loop, if there is such a pass. The
loop is left when `next` gives none. -/
def reach (next : Nat → σ → Option σ) (s : σ) : Nat → Option σ
  | 0 => some s
  | k + 1 => (reach next s k).bind (next k)

def Ends (next : Nat → σ → Option σ) (s : σ) : Prop := ∃ k, reach next s k = none

variable {next : Nat → σ → Option σ} {s : σ}

theorem reach_succ_eq_some {k : Nat} {s' : σ} : reach next s (k + 1) = some s' ↔
    ∃ s₁, reach next s k = some s₁ ∧ next k s₁ = some s' := Option.bind_eq_some_iff

theorem reach_of_next {k : Nat} {s₁ : σ} (h : reach next s k = some s₁) :
    reach next s (k + 1) = next k s₁ := by
  rw [reach, h]
  rfl

theorem reach_invariant {P : σ → Prop} (hstart : P s)
    (hnext : ∀ k s₁ s₂, P s₁ → next k s₁ = some s₂ → P s₂) :
    ∀ {k s'}, reach next s k = some s' → P s' := by
  intro k
  induction k with
  | zero =>
      intro s' h
      obtain rfl : s = s' := Option.some.inj h
      exact hstart
  | succ k ih =>
      intro s' h
      obtain ⟨s₁, hreach, hlast⟩ := reach_succ_eq_some.mp h
      exact hnext k s₁ s' (ih hreach) hlast

theorem reach_isSome_of_le {j k : Nat} (hle : j ≤ k) {s' : σ} (h : reach next s k = some s') :
    ∃ s₁, reach next s j = some s₁ := by
  induction k generalizing s' with
  | zero =>
      obtain rfl : j = 0 := Nat.le_zero.mp hle
      exact ⟨s', h⟩
  | succ k ih =>
      rcases Nat.lt_or_ge j (k + 1) with hlt | hge
      · obtain ⟨s₁, hreach, _⟩ := reach_succ_eq_some.mp h
        exact ih (by omega) hreach
      · obtain rfl : j = k + 1 := by omega
        exact ⟨s', h⟩

theorem last_of_ends (h : Ends next s) : ∃ k s', reach next s k = some s' ∧ next k s' = none := by
  obtain ⟨k, hk⟩ := h
  induction k with
  | zero => cases hk
  | succ k ih =>
      cases hreach : reach next s k with
      | none => exact ih hreach
      | some s' =>
          rw [reach_of_next hreach] at hk
          exact ⟨k, s', hreach, hk⟩

theorem ends_of_last {k : Nat} {s' : σ} (h : reach next s k = some s') (hlast : next k s' = none) :
    Ends next s := ⟨k + 1, (reach_of_next h).trans hlast⟩

/-- A loop that goes on for ever, at positions below a limit that never
decrease, makes a pass without progress. -/
theorem stall_of_not_ends (position : σ → Nat) (limit : Nat)
    (hlimit : ∀ k s', reach next s k = some s' → position s' ≤ limit)
    (hmono : ∀ k s₁ s₂, reach next s k = some s₁ → next k s₁ = some s₂ → position s₁ ≤ position s₂)
    (h : ¬ Ends next s) :
    ∃ k s₁ s₂, reach next s k = some s₁ ∧ next k s₁ = some s₂ ∧ position s₂ = position s₁ := by
  by_contra hprogress
  -- without such a pass the position is at least the number of passes
  have hbound : ∀ k, ∃ s', reach next s k = some s' ∧ k ≤ position s' := by
    intro k
    induction k with
    | zero => exact ⟨s, rfl, Nat.zero_le _⟩
    | succ k ih =>
        obtain ⟨s₁, hreach, hle⟩ := ih
        cases hnext : next k s₁ with
        | none => exact absurd (ends_of_last hreach hnext) h
        | some s₂ =>
            refine ⟨s₂, (reach_of_next hreach).trans hnext, ?_⟩
            have hpos := hmono k s₁ s₂ hreach hnext
            have hne : position s₂ ≠ position s₁ := fun heq =>
              hprogress ⟨k, s₁, s₂, hreach, hnext, heq⟩
            omega
  obtain ⟨s', hreach, hle⟩ := hbound (limit + 1)
  have hlim := hlimit _ s' hreach
  omega

end Iterations

section Runs

variable {σ ι : Type} {step : σ → ι → σ} {P Q : σ → ι → Prop} {s : σ} {i : ι} {inputs : List ι}

def run (step : σ → ι → σ) (s : σ) (inputs : List ι) : σ := inputs.foldl step s

/-- The property holds of every state of the run and the input that it gets. -/
def Throughout (step : σ → ι → σ) (P : σ → ι → Prop) : σ → List ι → Prop
  | _, [] => True
  | s, i :: inputs => P s i ∧ Throughout step P (step s i) inputs

instance decidableThroughout [∀ s i, Decidable (P s i)] : ∀ s inputs, Decidable (Throughout step P s inputs)
  | _, [] => .isTrue trivial
  | s, i :: inputs =>
      have := decidableThroughout (step s i) inputs
      inferInstanceAs (Decidable (P s i ∧ Throughout step P (step s i) inputs))

/-- An invariant may say something of the inputs to come. -/
def Kept (step : σ → ι → σ) (I : σ → List ι → Prop) : Prop :=
  ∀ s i inputs, I s (i :: inputs) → I (step s i) inputs

variable {I : σ → List ι → Prop}

theorem throughout_congr (hkept : Kept step I) (h : ∀ s i inputs, I s (i :: inputs) → (P s i ↔ Q s i))
    (hI : I s inputs) : Throughout step P s inputs ↔ Throughout step Q s inputs := by
  induction inputs generalizing s with
  | nil => exact Iff.rfl
  | cons i inputs ih => exact and_congr (h s i inputs hI) (ih (hkept s i inputs hI))

/-- What a step keeps up on a condition, with inputs of the right kind, is
true in the end of a run that met the condition in all steps. -/
theorem run_of_throughout {R : σ → Prop} {Admits : ι → Prop}
    (h : ∀ s i, Admits i → P s i → R s → R (step s i)) (hadmits : ∀ i ∈ inputs, Admits i)
    (hinputs : Throughout step P s inputs) (hs : R s) : R (run step s inputs) := by
  induction inputs generalizing s with
  | nil => exact hs
  | cons i inputs ih =>
      have hi := h s i (hadmits i List.mem_cons_self) hinputs.1 hs
      exact ih (fun x hx => hadmits x (List.mem_cons_of_mem i hx)) hinputs.2 hi

/-- What a step keeps up exactly on a condition is true all along if the
condition was met in all steps. -/
theorem always_iff_throughout {R : σ → Prop} (h : ∀ s i, R s → (R (step s i) ↔ P s i)) (s : σ) (inputs : List ι) :
    (∀ k, R (run step s (inputs.take k))) ↔ R s ∧ Throughout step P s inputs := by
  induction inputs generalizing s with
  | nil =>
      constructor
      · intro hall
        exact ⟨hall 0, trivial⟩
      · rintro ⟨hs, _⟩ k
        rw [List.take_nil]
        exact hs
  | cons i inputs ih =>
      constructor
      · intro hall
        have hs : R s := hall 0
        obtain ⟨hnext, hrest⟩ := (ih (step s i)).mp (fun k => hall (k + 1))
        exact ⟨hs, (h s i hs).mp hnext, hrest⟩
      · rintro ⟨hs, hi, hrest⟩ k
        cases k with
        | zero => exact hs
        | succ k => exact (ih (step s i)).mpr ⟨(h s i hs).mpr hi, hrest⟩ k

end Runs

section Fuels

variable {σ α : Type} {f g : σ → α → Option σ} {run : Nat → σ → α → Option σ} {P : σ → Prop} {l : List α} {s s' : σ}

theorem foldlM_mono (h : ∀ s a s', f s a = some s' → g s a = some s') (hl : l.foldlM f s = some s') :
    l.foldlM g s = some s' := by
  induction l generalizing s with
  | nil => exact hl
  | cons a l ih =>
      rw [List.foldlM_cons] at hl ⊢
      obtain ⟨mid, hmid, hrest⟩ := Option.bind_eq_some_iff.mp hl
      exact Option.bind_eq_some_iff.mpr ⟨mid, h s a mid hmid, ih hrest⟩

theorem foldlM_ends (hrun : ∀ fuel more s a s', run fuel s a = some s' → run (fuel + more) s a = some s')
    (h : ∀ a ∈ l, ∀ s, P s → ∃ fuel s', run fuel s a = some s' ∧ P s') (hs : P s) :
    ∃ fuel s', l.foldlM (run fuel) s = some s' ∧ P s' := by
  induction l generalizing s with
  | nil => exact ⟨0, s, rfl, hs⟩
  | cons a l ih =>
      obtain ⟨first, mid, hfirst, hmid⟩ := h a List.mem_cons_self s hs
      obtain ⟨rest, last, hrest, hlast⟩ := ih (fun b hb => h b (List.mem_cons_of_mem _ hb)) hmid
      refine ⟨first + rest, last, ?_, hlast⟩
      rw [List.foldlM_cons]
      refine Option.bind_eq_some_iff.mpr ⟨mid, hrun first rest s a mid hfirst, ?_⟩
      rw [Nat.add_comm]
      exact foldlM_mono (hrun rest first) hrest

theorem foldlM_visits (h : ∀ a ∈ l, ∀ s s', P s → f s a = some s' → P s') (hl : l.foldlM f s = some s') (hs : P s) :
    ∀ a ∈ l, ∃ t t', P t ∧ f t a = some t' := by
  induction l generalizing s with
  | nil => exact nofun
  | cons a l ih =>
      rw [List.foldlM_cons] at hl
      obtain ⟨mid, hmid, hrest⟩ := Option.bind_eq_some_iff.mp hl
      have hkept := h a List.mem_cons_self s mid hs hmid
      intro b hb
      rcases List.mem_cons.mp hb with rfl | hb
      · exact ⟨s, mid, hs, hmid⟩
      · exact ih (fun c hc => h c (List.mem_cons_of_mem _ hc)) hrest hkept b hb

end Fuels

end OpcUa.Loops
