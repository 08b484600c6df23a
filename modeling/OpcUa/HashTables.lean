import Mathlib.Data.Bool.Basic

namespace OpcUa.HashTables

/-- A table of entries under hashes, in which an entry is what its address
points to. A lookup gets a hash and a predicate that compares an entry with the
key. -/
structure HashTable (H E : Type) where
  Table : Type
  empty : Table
  holds : Table → H → E → Prop
  lookup : Table → H → (E → Bool) → Option E
  addUnique : Table → H → (E → Bool) → E → E × Table
  replace : Table → E → H → E → Bool × Table
  del : Table → E → Bool × Table
  count : Table → Nat

variable {H E A : Type}

def SameEntries (T : HashTable H E) (t t' : T.Table) : Prop := ∀ h e, T.holds t' h e ↔ T.holds t h e

def Added (T : HashTable H E) (t t' : T.Table) (h : H) (e : E) : Prop :=
  ∀ k x, T.holds t' k x ↔ T.holds t k x ∨ k = h ∧ x = e

section Laws

variable (address : E → A)

def Deleted (T : HashTable H E) (t t' : T.Table) (e : E) : Prop :=
  ∀ k x, T.holds t' k x ↔ T.holds t k x ∧ address x ≠ address e

def Replaced (T : HashTable H E) (t t' : T.Table) (old : E) (h : H) (new : E) : Prop :=
  ∀ k x, T.holds t' k x ↔ T.holds t k x ∧ address x ≠ address old ∨ k = h ∧ x = new

/-- What the operations of the table promise. An entry is added if none
matches, and it is replaced or deleted as long as it is there. -/
structure Lawful (T : HashTable H E) : Prop where
  empty : ∀ h e, ¬ T.holds T.empty h e
  lookup_some : ∀ t h p e, T.lookup t h p = some e → T.holds t h e ∧ p e = true
  lookup_none : ∀ t h p, T.lookup t h p = none → ∀ e, T.holds t h e → p e = false
  addUnique_found : ∀ t h p e x, T.holds t h x → p x = true →
    T.holds t h (T.addUnique t h p e).1 ∧ p (T.addUnique t h p e).1 = true ∧ SameEntries T t (T.addUnique t h p e).2
  addUnique_new : ∀ t h p e, (∀ x, T.holds t h x → p x = false) →
    (T.addUnique t h p e).1 = e ∧ Added T t (T.addUnique t h p e).2 h e
  replace_held : ∀ t h old new, T.holds t h old →
    (T.replace t old h new).1 = true ∧ Replaced address T t (T.replace t old h new).2 old h new
  replace_gone : ∀ t h old new, (∀ k x, T.holds t k x → address x ≠ address old) →
    (T.replace t old h new).1 = false ∧ SameEntries T t (T.replace t old h new).2
  del_held : ∀ t h e, T.holds t h e → (T.del t e).1 = true ∧ Deleted address T t (T.del t e).2 e
  del_gone : ∀ t e, (∀ k x, T.holds t k x → address x ≠ address e) →
    (T.del t e).1 = false ∧ SameEntries T t (T.del t e).2

end Laws

section Lists

variable {t : List (H × E)} {h : H} {e : E}

theorem mem_front {k : H} {x : E} : (k, x) ∈ (h, e) :: t ↔ (k, x) ∈ t ∨ k = h ∧ x = e := by
  rw [List.mem_cons, Prod.mk.injEq, or_comm]

variable [DecidableEq A] (address : E → A)

def without (t : List (H × E)) (e : E) : List (H × E) := t.filter (fun x => address x.2 ≠ address e)

def held (t : List (H × E)) (e : E) : Bool := t.any (fun x => address x.2 = address e)

variable {address}

theorem mem_without {k : H} {x : E} : (k, x) ∈ without address t e ↔ (k, x) ∈ t ∧ address x ≠ address e := by
  rw [without, List.mem_filter, decide_eq_true_eq]

theorem held_of_mem (he : (h, e) ∈ t) : held address t e = true :=
  List.any_eq_true.mpr ⟨(h, e), he, decide_eq_true rfl⟩

theorem not_held (hgone : ∀ k x, (k, x) ∈ t → address x ≠ address e) : held address t e = false := by
  rw [held, List.any_eq_false]
  rintro ⟨k, x⟩ hx
  simpa using hgone k x hx

variable [DecidableEq H] {p : E → Bool}

def matching (t : List (H × E)) (h : H) (p : E → Bool) : Option E :=
  (t.find? (fun x => x.1 = h && p x.2)).map (·.2)

theorem matching_some (hm : matching t h p = some e) : (h, e) ∈ t ∧ p e = true := by
  obtain ⟨⟨k, x⟩, hfind, rfl⟩ := Option.map_eq_some_iff.mp hm
  have hp := List.find?_some hfind
  simp only [Bool.and_eq_true, decide_eq_true_eq] at hp
  obtain ⟨rfl, hp⟩ := hp
  exact ⟨List.mem_of_find?_eq_some hfind, hp⟩

theorem matching_none (hm : matching t h p = none) (he : (h, e) ∈ t) : p e = false := by
  have hfind := Option.map_eq_none_iff.mp hm
  have hnot := List.find?_eq_none.mp hfind (h, e) he
  simpa using hnot

variable (address)

def listTable : HashTable H E where
  Table := List (H × E)
  empty := []
  holds t h e := (h, e) ∈ t
  lookup := matching
  addUnique t h p e :=
    match matching t h p with
    | some x => (x, t)
    | none => (e, (h, e) :: t)
  replace t old h new := if held address t old then (true, (h, new) :: without address t old) else (false, t)
  del t e := if held address t e then (true, without address t e) else (false, t)
  count := List.length

variable {address}

theorem lawful_listTable : Lawful address (listTable (H := H) address) where
  empty h e := List.not_mem_nil
  lookup_some t h p e := matching_some
  lookup_none t h p hm e := matching_none hm
  addUnique_found t h p e x hx hp := by
    cases hm : matching t h p with
    | none =>
        rw [matching_none hm hx] at hp
        cases hp
    | some y =>
        have hadd : (listTable address).addUnique t h p e = (y, t) := by
          change (match matching t h p with | some x => (x, t) | none => (e, (h, e) :: t)) = _
          rw [hm]
        rw [hadd]
        exact ⟨(matching_some hm).1, (matching_some hm).2, fun _ _ => Iff.rfl⟩
  addUnique_new t h p e hnew := by
    cases hm : matching t h p with
    | none =>
        have hadd : (listTable address).addUnique t h p e = (e, (h, e) :: t) := by
          change (match matching t h p with | some x => (x, t) | none => (e, (h, e) :: t)) = _
          rw [hm]
          rfl
        rw [hadd]
        exact ⟨rfl, fun k x => mem_front⟩
    | some y =>
        have hp := hnew y (matching_some hm).1
        rw [(matching_some hm).2] at hp
        cases hp
  replace_held t h old new hold := by
    have hreplace : (listTable address).replace t old h new = (true, (h, new) :: without address t old) :=
      if_pos (held_of_mem hold)
    rw [hreplace]
    exact ⟨rfl, fun k x => mem_front.trans (or_congr_left mem_without)⟩
  replace_gone t h old new hgone := by
    have hreplace : (listTable address).replace t old h new = (false, t) := by
      refine if_neg ?_
      rw [not_held hgone]
      exact Bool.false_ne_true
    rw [hreplace]
    exact ⟨rfl, fun _ _ => Iff.rfl⟩
  del_held t h e he := by
    have hdel : (listTable address).del t e = (true, without address t e) := if_pos (held_of_mem he)
    rw [hdel]
    exact ⟨rfl, fun k x => mem_without⟩
  del_gone t e hgone := by
    have hdel : (listTable address).del t e = (false, t) := by
      refine if_neg ?_
      rw [not_held hgone]
      exact Bool.false_ne_true
    rw [hdel]
    exact ⟨rfl, fun _ _ => Iff.rfl⟩

end Lists

end OpcUa.HashTables
