import Mathlib.Data.List.Basic

namespace OpcUa.Batches

variable {σ α β : Type}

/-- An operation that need not return is applied to the items in order, each
time to the state that the previous ones left. -/
def batch (f : σ → α → Option (β × σ)) : σ → List α → Option (List β × σ)
  | s, [] => some ([], s)
  | s, a :: rest =>
      match f s a with
      | none => none
      | some (b, s') => (batch f s' rest).map (fun r => (b :: r.1, r.2))

/-- The same loop, with an array in which each pass stores its result at its
index. -/
def fill (f : σ → α → Option (β × σ)) : Nat → σ → List α → List β → Option (List β × σ)
  | _, s, [], results => some (results, s)
  | i, s, a :: rest, results =>
      match f s a with
      | none => none
      | some (b, s') => fill f (i + 1) s' rest (results.set i b)

def sweep (f : σ → α → Option (β × σ)) : σ → List α → Option σ
  | s, [] => some s
  | s, a :: rest =>
      match f s a with
      | none => none
      | some (_, s') => sweep f s' rest

/-- Every item has one result, and there are states such that the operation
takes each of them with its item to the result and to the next one. -/
def Run (f : σ → α → Option (β × σ)) (s s' : σ) (items : List α) (results : List β) : Prop :=
  results.length = items.length ∧ ∃ states : Nat → σ, states 0 = s ∧ states items.length = s' ∧
    ∀ i a b, items[i]? = some a → results[i]? = some b → f (states i) a = some (b, states (i + 1))

variable {f : σ → α → Option (β × σ)} {s s' : σ} {a : α} {b : β}

theorem batch_singleton (h : f s a = some (b, s')) : batch f s [a] = some ([b], s') := by
  rw [batch, h]
  rfl

theorem batch_concat {items : List α} {results : List β} (h : batch f s items = some (results, s')) (a : α) :
    batch f s (items ++ [a]) = (f s' a).map (fun r => (results ++ [r.1], r.2)) := by
  induction items generalizing s results with
  | nil =>
      cases h
      rw [List.nil_append, batch]
      cases f s' a <;> rfl
  | cons a' rest ih =>
      rw [batch] at h
      rw [List.cons_append, batch]
      cases ha : f s a' with
      | none =>
          rw [ha] at h
          cases h
      | some r =>
          rw [ha] at h
          obtain ⟨⟨results', s''⟩, hrest, heq⟩ := Option.map_eq_some_iff.mp h
          cases heq
          dsimp only
          rw [ih hrest, Option.map_map]
          rfl

/-- A property of the states is kept by a batch whose results are all as the
steps ask for. -/
theorem batch_keeps {P : σ → Prop} {Q : β → Prop} (hstep : ∀ s a b s', f s a = some (b, s') → Q b → P s → P s')
    {items : List α} {results : List β} (h : batch f s items = some (results, s')) (hresults : ∀ b ∈ results, Q b)
    (hs : P s) : P s' := by
  induction items generalizing s results with
  | nil =>
      cases h
      exact hs
  | cons a rest ih =>
      rw [batch] at h
      cases ha : f s a with
      | none =>
          rw [ha] at h
          cases h
      | some r =>
          rw [ha] at h
          obtain ⟨⟨results', s''⟩, hrest, heq⟩ := Option.map_eq_some_iff.mp h
          cases heq
          exact ih hrest (fun b hb => hresults b (List.mem_cons_of_mem _ hb))
            (hstep s a r.1 r.2 ha (hresults r.1 List.mem_cons_self) hs)

theorem batch_relates {R : σ → σ → Prop} (hrefl : ∀ s, R s s) (htrans : ∀ {s₁ s₂ s₃}, R s₁ s₂ → R s₂ s₃ → R s₁ s₃)
    {items : List α} (hstep : ∀ a ∈ items, ∀ s b s', f s a = some (b, s') → R s s') {results : List β}
    (h : batch f s items = some (results, s')) : R s s' := by
  induction items generalizing s results with
  | nil =>
      cases h
      exact hrefl _
  | cons a rest ih =>
      rw [batch] at h
      cases ha : f s a with
      | none =>
          rw [ha] at h
          cases h
      | some r =>
          rw [ha] at h
          obtain ⟨⟨results', s''⟩, hrest, heq⟩ := Option.map_eq_some_iff.mp h
          cases heq
          exact htrans (hstep a List.mem_cons_self s r.1 r.2 ha)
            (ih (fun b hb => hstep b (List.mem_cons_of_mem _ hb)) hrest)

section Runs

variable {items : List α} {results : List β}

theorem run_nil : Run f s s' [] results ↔ results = [] ∧ s = s' := by
  constructor
  · rintro ⟨hlength, states, rfl, rfl, _⟩
    exact ⟨List.length_eq_zero_iff.mp hlength, rfl⟩
  · rintro ⟨rfl, rfl⟩
    exact ⟨rfl, fun _ => s, rfl, rfl, fun i a b ha => by cases ha⟩

theorem run_cons :
    Run f s s' (a :: items) results ↔
      ∃ b mid rest, results = b :: rest ∧ f s a = some (b, mid) ∧ Run f mid s' items rest := by
  constructor
  · rintro ⟨hlength, states, rfl, rfl, hstep⟩
    cases results with
    | nil => cases hlength
    | cons b rest =>
        refine ⟨b, states 1, rest, rfl, hstep 0 a b rfl rfl, Nat.succ.inj hlength, fun i =>
          states (i + 1), rfl, rfl, ?_⟩
        intro i a' b' ha hb
        exact hstep (i + 1) a' b' ha hb
  · rintro ⟨b, mid, rest, rfl, hstep, hlength, states, rfl, rfl, hrest⟩
    refine ⟨congrArg (· + 1) hlength, fun i => i.casesOn s states, rfl, rfl, ?_⟩
    intro i a' b' ha hb
    cases i with
    | zero =>
        cases ha
        cases hb
        exact hstep
    | succ i => exact hrest i a' b' ha hb

theorem batch_iff_run : batch f s items = some (results, s') ↔ Run f s s' items results := by
  induction items generalizing s results with
  | nil =>
      rw [run_nil, batch]
      constructor
      · intro h
        cases h
        exact ⟨rfl, rfl⟩
      · rintro ⟨rfl, rfl⟩
        rfl
  | cons a items ih =>
      rw [run_cons, batch]
      cases ha : f s a with
      | none =>
          constructor
          · intro h
            cases h
          · rintro ⟨b, mid, rest, _, h, _⟩
            cases h
      | some r =>
          constructor
          · intro h
            obtain ⟨⟨rest, last⟩, hrest, heq⟩ := Option.map_eq_some_iff.mp h
            cases heq
            exact ⟨r.1, r.2, rest, rfl, rfl, ih.mp hrest⟩
          · rintro ⟨b, mid, rest, rfl, h, hrest⟩
            cases h
            exact Option.map_eq_some_iff.mpr ⟨(rest, s'), ih.mpr hrest, rfl⟩

theorem fill_from {i : Nat} (h : results.length = i + items.length) :
    fill f i s items results = (batch f s items).map (fun r => (results.take i ++ r.1, r.2)) := by
  induction items generalizing i s results with
  | nil =>
      have htake : results.take i = results := List.take_of_length_le (Nat.le_of_eq h)
      rw [fill, batch, Option.map_some, List.append_nil, htake]
  | cons a items ih =>
      rw [fill, batch]
      cases ha : f s a with
      | none => rfl
      | some r =>
          rw [List.length_cons] at h
          have hlength : (results.set i r.1).length = i + 1 + items.length := by
            rw [List.length_set]
            omega
          have htake : (results.set i r.1).take (i + 1) = results.take i ++ [r.1] := by
            rw [List.take_add_one, List.take_set_of_le (Nat.le_refl i), List.getElem?_set_self (by omega)]
            rfl
          dsimp only
          rw [ih hlength, Option.map_map, htake]
          congr 1
          funext r'
          exact Prod.ext (List.append_assoc _ _ _) rfl

theorem fill_eq_batch (h : results.length = items.length) : fill f 0 s items results = batch f s items := by
  rw [fill_from (by rw [h, Nat.zero_add])]
  simp

theorem sweep_eq_batch : sweep f s items = (batch f s items).map (·.2) := by
  induction items generalizing s with
  | nil => rfl
  | cons a items ih =>
      rw [sweep, batch]
      cases ha : f s a with
      | none => rfl
      | some r =>
          dsimp only
          rw [ih, Option.map_map]
          rfl

end Runs

end OpcUa.Batches
