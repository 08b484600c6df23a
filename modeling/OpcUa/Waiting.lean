import Mathlib.Control.Basic

namespace OpcUa.Waiting

/-- A call that reads and changes a state. It returns, or it waits for
something that does not come and leaves the state as it is by then. -/
abbrev CallM (σ : Type) := OptionT (StateM σ)

variable {σ α β : Type} {s s' : σ} {a : α} {m : CallM σ α} {f : α → CallM σ β}

def exec (m : CallM σ α) (s : σ) : Option α × σ := m.run.run s

/-- The call returns with `Q`, or it waits in a state with `W`. -/
def Ends (m : CallM σ α) (s : σ) (W : σ → Prop) (Q : α → σ → Prop) : Prop :=
  match exec m s with
  | (some a, s') => Q a s'
  | (none, s') => W s'

def onlyIf (c : Prop) [Decidable c] (m : CallM σ PUnit) : CallM σ PUnit := if c then m else pure ⟨⟩

variable {W : σ → Prop} {Q Q' R : α → σ → Prop} {T : β → σ → Prop}

@[simp] theorem ends_pure_iff : Ends (pure a) s W Q ↔ Q a s := Iff.rfl

theorem exec_bind (m : CallM σ α) (f : α → CallM σ β) (s : σ) : exec (m >>= f) s =
    match exec m s with
    | (some a, s') => exec (f a) s'
    | (none, s') => (none, s') := by
  simp only [exec, OptionT.run_bind, Option.elimM, StateT.run_bind]
  cases h : m.run.run s with
  | mk result s' =>
      cases result with
      | none => rfl
      | some a => rfl

theorem Ends.imp (h : Ends m s W Q) (hreturn : ∀ a s', Q a s' → Q' a s') : Ends m s W Q' := by
  rw [Ends] at h ⊢
  split at h
  · exact hreturn _ _ h
  · exact h

theorem Ends.bind (h : Ends m s W R) (hf : ∀ a s', R a s' → Ends (f a) s' W T) : Ends (m >>= f) s W T := by
  rw [Ends, exec_bind]
  rw [Ends] at h
  split at h
  · exact hf _ _ h
  · exact h

@[simp] theorem ends_get_bind_iff {f : σ → CallM σ β} : Ends (get >>= f) s W T ↔ Ends (f s) s W T := Iff.rfl

@[simp] theorem ends_modify_bind_iff {g : σ → σ} {f : PUnit → CallM σ β} :
    Ends (modify g >>= f) s W T ↔ Ends (f ⟨⟩) (g s) W T := Iff.rfl

theorem ends_onlyIf_iff {c : Prop} [Decidable c] {m : CallM σ PUnit} {Q : PUnit → σ → Prop} :
    Ends (onlyIf c m) s W Q ↔ (c → Ends m s W Q) ∧ (¬ c → Q ⟨⟩ s) := by
  rw [onlyIf]
  by_cases hc : c
  · rw [if_pos hc]
    exact ⟨fun h => ⟨fun _ => h, fun hnot => absurd hc hnot⟩, fun h => h.1 hc⟩
  · rw [if_neg hc, ends_pure_iff]
    exact ⟨fun h => ⟨fun hyes => absurd hyes hc, fun _ => h⟩, fun h => h.2 hc⟩

end OpcUa.Waiting
