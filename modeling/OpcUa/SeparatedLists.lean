import Mathlib.Data.List.Basic

namespace OpcUa.SeparatedLists

variable {α β : Type}

/-- A text that lists items with a separator between them. -/
inductive Separated (sep : α) (Item : List α → β → Prop) : List α → List β → Prop
  | last {text : List α} {b : β} (h : Item text b) : Separated sep Item text [b]
  | cons {text rest : List α} {b : β} {bs : List β} (h : Item text b) (hrest : Separated sep Item rest bs) :
      Separated sep Item (text ++ sep :: rest) (b :: bs)

/-- What is left of a text after some items with a separator behind each. -/
inductive Begun (sep : α) (Item : List α → β → Prop) : List α → List α → Prop
  | refl {s : List α} : Begun sep Item s s
  | item {text rest s : List α} {b : β} (h : Item text b) (hrest : Begun sep Item rest s) :
      Begun sep Item (text ++ sep :: rest) s

variable {sep : α} {Item : List α → β → Prop} {text text' rest rest' s : List α} {bs cs : List β}

theorem append_sep_inj (h : sep ∉ text) (h' : sep ∉ text') (heq : text ++ sep :: rest = text' ++ sep :: rest') :
    text = text' ∧ rest = rest' := by
  induction text generalizing text' with
  | nil =>
      cases text' with
      | nil => exact ⟨rfl, (List.cons.inj heq).2⟩
      | cons a text' =>
          have hhead : sep = a := (List.cons.inj heq).1
          exact absurd List.mem_cons_self (hhead ▸ h')
  | cons a text ih =>
      cases text' with
      | nil =>
          have hhead : a = sep := (List.cons.inj heq).1
          exact absurd List.mem_cons_self (hhead ▸ h)
      | cons a' text' =>
          obtain ⟨hhead, htail⟩ := List.cons.inj heq
          have hfree : sep ∉ text := fun hmem => h (List.mem_cons_of_mem a hmem)
          have hfree' : sep ∉ text' := fun hmem => h' (List.mem_cons_of_mem a' hmem)
          obtain ⟨htext, hrest⟩ := ih hfree hfree' htail
          exact ⟨by rw [hhead, htext], hrest⟩

theorem separated_single_iff (h : sep ∉ text) : Separated sep Item text bs ↔ ∃ b, bs = [b] ∧ Item text b := by
  constructor
  · intro hs
    cases hs with
    | last hitem => exact ⟨_, rfl, hitem⟩
    | cons hitem hrest => exact absurd (List.mem_append_right _ List.mem_cons_self) h
  · rintro ⟨b, rfl, hitem⟩
    exact .last hitem

theorem Separated.head_cases (h : Separated sep Item s bs) : (∃ b, Item s b ∧ bs = [b]) ∨
    ∃ text rest b cs, Item text b ∧ s = text ++ sep :: rest ∧ bs = b :: cs ∧ Separated sep Item rest cs := by
  cases h with
  | last hitem => exact .inl ⟨_, hitem, rfl⟩
  | cons hitem hrest => exact .inr ⟨_, _, _, _, hitem, rfl, rfl, hrest⟩

section Free

variable (hfree : ∀ {text b}, Item text b → sep ∉ text)
include hfree

theorem separated_append_iff (h : sep ∉ text) : Separated sep Item (text ++ sep :: rest) bs ↔
    ∃ b cs, bs = b :: cs ∧ Item text b ∧ Separated sep Item rest cs := by
  constructor
  · intro hs
    generalize heq : text ++ sep :: rest = whole at hs
    cases hs with
    | last hitem =>
        have hmem : sep ∈ whole := heq ▸ List.mem_append_right text List.mem_cons_self
        exact absurd hmem (hfree hitem)
    | cons hitem hrest =>
        obtain ⟨rfl, rfl⟩ := append_sep_inj h (hfree hitem) heq
        exact ⟨_, _, rfl, hitem, hrest⟩
  · rintro ⟨b, cs, rfl, hitem, hrest⟩
    exact .cons hitem hrest

theorem begun_append (h : sep ∉ text) (hs : Begun sep Item (text ++ sep :: rest) s) :
    s = text ++ sep :: rest ∨ (∃ b, Item text b) ∧ Begun sep Item rest s := by
  generalize heq : text ++ sep :: rest = whole at hs
  cases hs with
  | refl => exact .inl rfl
  | item hitem hrest =>
      obtain ⟨rfl, rfl⟩ := append_sep_inj h (hfree hitem) heq
      exact .inr ⟨⟨_, hitem⟩, hrest⟩

theorem Separated.unique (hunique : ∀ {text b c}, Item text b → Item text c → b = c) (h : Separated sep Item s bs)
    (h' : Separated sep Item s cs) : bs = cs := by
  induction h generalizing cs with
  | last hitem =>
      obtain ⟨c, rfl, hitem'⟩ := (separated_single_iff (hfree hitem)).mp h'
      rw [hunique hitem hitem']
  | cons hitem _ ih =>
      obtain ⟨c, cs, rfl, hitem', hrest⟩ := (separated_append_iff hfree (hfree hitem)).mp h'
      rw [hunique hitem hitem', ih hrest]

end Free

end OpcUa.SeparatedLists
