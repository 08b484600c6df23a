import OpcUa.Ledgers
import OpcUa.Readers

namespace OpcUa.MemoryReaders

open StatusCodes Readers Ledgers

/-- Blocks are numbered in the order they are allocated. `log` is what has been
freed, `typeIds` where a node id was read into a variable that had not been
set. -/
structure Store where
  dec : Dec
  next : Nat
  log : List Release
  typeIds : List Dec
deriving DecidableEq, Repr

namespace Store

def free (s : Store) (gone : List Release) : Store := { s with log := gone ++ s.log }

def seek (s : Store) (offset : Nat) : Store := { s with dec := { s.dec with offset := offset } }

end Store

/-- A decoder that also tells what it leaves in the destination, which was
zeroed before. -/
abbrev MemM (α μ : Type) := Store → Option (Except StatusCode α × μ × Store)

variable {α β μ ν : Type}

def succeed (a : α) (x : μ) : MemM α μ := fun s => some (.ok a, x, s)

def fail (code : StatusCode) (x : μ) : MemM α μ := fun s => some (.error code, x, s)

def plain (d : DecM α) : MemM α Unit := fun s =>
  match d s.dec with
  | none => none
  | some (r, dec) => some (r, (), { s with dec := dec })

def place (f : α → β) (g : μ → ν) (m : MemM α μ) : MemM β ν := fun s =>
  match m s with
  | none => none
  | some (r, x, s) => some (r.map f, g x, s)

/-- Go on with the result. After an error the rest of the destination stays `zero`. -/
def followed (m : MemM α μ) (zero : ν) (f : α → MemM β ν) : MemM β (μ × ν) := fun s =>
  match m s with
  | none => none
  | some (.error code, x, s) => some (.error code, (x, zero), s)
  | some (.ok a, x, s) => place id (Prod.mk x) (f a) s

def after (m : MemM α Unit) (zero : ν) (f : α → MemM β ν) : MemM β ν :=
  place id Prod.snd (followed m zero f)

def both (m : MemM α μ) (n : MemM β ν) : MemM (α × β) (μ × ν) := fun s =>
  match m s with
  | none => none
  | some (r, x, s) => match n s with
      | none => none
      | some (r', y, s) => some (joined r r', (x, y), s)

def whenFlagged (b : Bool) (a : α) (zero : μ) (m : MemM α μ) : MemM α μ := if b then m else succeed a zero

/-- `f` gets the number of the new block. -/
def withBlock (zero : μ) (f : Nat → MemM α μ) : MemM α μ := fun s =>
  match allocate s.dec with
  | none => none
  | some (.error code, dec) => some (.error code, zero, { s with dec := dec })
  | some (.ok (), dec) => f s.next { s with dec := dec, next := s.next + 1 }

def onError (release : μ → List Release) (deleted : μ → μ) (m : MemM α μ) : MemM α μ := fun s =>
  match m s with
  | some (.error code, x, s) => some (.error code, deleted x, s.free (release x))
  | r => r

/-- The memory of a local variable is freed when the variable goes. -/
def discarded (release : μ → List Release) (m : MemM α μ) : MemM α Unit := fun s =>
  match m s with
  | none => none
  | some (r, x, s) => some (r, (), s.free (release x))

/-- Run `m` at another offset. -/
def atOffset (offset : Nat) (m : MemM α μ) : MemM α μ := fun s => m (s.seek offset)

theorem after_plain (d : DecM α) (zero : ν) (f : α → MemM β ν) (s : Store) : after (plain d) zero f s =
    match d s.dec with
    | none => none
    | some (.error code, dec) => some (.error code, zero, { s with dec := dec })
    | some (.ok a, dec) => f a { s with dec := dec } := by
  simp only [after, followed, place, plain]
  rcases d s.dec with _ | ⟨r, dec⟩
  · rfl
  · cases r with
    | error code => rfl
    | ok a =>
        simp only []
        rcases f a { s with dec := dec } with _ | ⟨r', x, s'⟩
        · rfl
        · cases r' <;> rfl

theorem place_ok {f : α → β} {g : μ → ν} {m : MemM α μ} {s s' : Store} {b : β} {y : ν}
    (hrun : place f g m s = some (.ok b, y, s')) : ∃ a x, m s = some (.ok a, x, s') ∧ b = f a ∧ y = g x := by
  simp only [place] at hrun
  split at hrun
  · cases hrun
  · case _ r x s₀ hm =>
      cases r with
      | error code => cases hrun
      | ok a =>
          cases hrun
          exact ⟨a, x, hm, rfl, rfl⟩

theorem place_error {f : α → β} {g : μ → ν} {m : MemM α μ} {s s' : Store} {code : StatusCode} {y : ν}
    (hrun : place f g m s = some (.error code, y, s')) : ∃ x, m s = some (.error code, x, s') ∧ y = g x := by
  simp only [place] at hrun
  split at hrun
  · cases hrun
  · case _ r x s₀ hm =>
      cases r with
      | ok a => cases hrun
      | error code₀ =>
          cases hrun
          exact ⟨x, hm, rfl⟩

theorem both_ok {m : MemM α μ} {n : MemM β ν} {s s' : Store} {p : α × β} {x : μ × ν}
    (hrun : both m n s = some (.ok p, x, s')) :
    ∃ s₀, m s = some (.ok p.1, x.1, s₀) ∧ n s₀ = some (.ok p.2, x.2, s') := by
  simp only [both] at hrun
  split at hrun
  · cases hrun
  · case _ r y s₀ hm =>
      split at hrun
      · cases hrun
      · case _ r' z s₁ hn =>
          cases r <;> cases r' <;> cases hrun
          exact ⟨s₀, hm, hn⟩

section Results

/-- Without the memory, `m` is `d`. -/
def Follows (m : MemM α μ) (d : DecM α) : Prop := ∀ s, (m s).map (fun x => (x.1, x.2.2.dec)) = d s.dec

variable {m : MemM α μ} {n : MemM β ν} {d : DecM α} {e : DecM β}

theorem Follows.none (h : Follows m d) {s : Store} (hrun : m s = none) : d s.dec = none := by
  rw [← h s, hrun]
  rfl

theorem Follows.some (h : Follows m d) {s s' : Store} {r : Except StatusCode α} {x : μ}
    (hrun : m s = some (r, x, s')) : d s.dec = some (r, s'.dec) := by
  rw [← h s, hrun]
  rfl

theorem follows_succeed (a : α) (x : μ) : Follows (succeed a x) (Readers.succeed a) := fun _ => rfl

theorem follows_fail (code : StatusCode) (x : μ) :
    Follows (fail code x : MemM α μ) (Readers.fail code) := fun _ => rfl

theorem follows_plain (d : DecM α) : Follows (plain d) d := by
  intro s
  simp only [plain]
  cases d s.dec with
  | none => rfl
  | some res => rfl

theorem follows_place (f : α → β) (g : μ → ν) (h : Follows m d) : Follows (place f g m) (map f d) := by
  intro s
  simp only [place, map, andThen]
  cases hm : m s with
  | none => rw [h.none hm]; rfl
  | some res =>
      obtain ⟨r, x, s'⟩ := res
      rw [h.some hm]
      cases r <;> rfl

theorem map_id (d : DecM α) : map id d = d := by
  funext st
  simp only [map, andThen]
  rcases d st with _ | ⟨r, st'⟩
  · rfl
  · cases r <;> rfl

theorem follows_moved (g : μ → ν) (h : Follows m d) : Follows (place id g m) d := by
  have hplaced := follows_place id g h
  rwa [map_id] at hplaced

theorem follows_followed {f : α → MemM β ν} {f' : α → DecM β} (zero : ν) (h : Follows m d)
    (hf : ∀ a, Follows (f a) (f' a)) : Follows (followed m zero f) (andThen d f') := by
  intro s
  simp only [followed, andThen]
  cases hm : m s with
  | none => rw [h.none hm]; rfl
  | some res =>
      obtain ⟨r, x, s'⟩ := res
      rw [h.some hm]
      cases r with
      | error code => rfl
      | ok a => exact follows_moved (Prod.mk x) (hf a) s'

theorem follows_after {m : MemM α Unit} {f : α → MemM β ν} {f' : α → DecM β} (zero : ν) (h : Follows m d)
    (hf : ∀ a, Follows (f a) (f' a)) : Follows (after m zero f) (andThen d f') :=
  follows_moved Prod.snd (follows_followed zero h hf)

theorem follows_both (hm : Follows m d) (hn : Follows n e) : Follows (both m n) (Readers.both d e) := by
  intro s
  simp only [both, Readers.both]
  cases hrun : m s with
  | none => rw [hm.none hrun]; rfl
  | some res =>
      obtain ⟨r, x, s'⟩ := res
      simp only [hm.some hrun]
      cases hrun' : n s' with
      | none => rw [hn.none hrun']; rfl
      | some res' =>
          obtain ⟨r', y, s''⟩ := res'
          rw [hn.some hrun']
          rfl

theorem follows_whenFlagged (b : Bool) (a : α) (zero : μ) (h : Follows m d) :
    Follows (whenFlagged b a zero m) (Readers.whenFlagged b a d) := by
  cases b with
  | true => exact h
  | false => exact follows_succeed a zero

theorem follows_withBlock {f : Nat → MemM α μ} (zero : μ) (h : ∀ id, Follows (f id) d) :
    Follows (withBlock zero f) (andThen allocate fun _ => d) := by
  intro s
  simp only [withBlock, andThen]
  rcases allocate s.dec with _ | ⟨r, dec⟩
  · rfl
  · cases r with
    | error code => rfl
    | ok u => exact h s.next _

theorem follows_onError (release : μ → List Release) (deleted : μ → μ) (h : Follows m d) :
    Follows (onError release deleted m) d := by
  intro s
  rw [← h s, onError]
  rcases m s with _ | ⟨r, x, s'⟩
  · rfl
  · cases r <;> rfl

theorem follows_discarded (release : μ → List Release) (h : Follows m d) : Follows (discarded release m) d := by
  intro s
  rw [← h s, discarded]
  rcases m s with _ | res <;> rfl

end Results

section Tracking

-- `stray`: the node ids that make a local variable be freed before it was set
variable (stray : Dec → Bool) (held : μ → List Nat) (held' : ν → List Nat)

/-- Every block that `m` has allocated is held by the destination afterwards or
has been freed, and other blocks have not. -/
def Tracks (m : MemM α μ) : Prop := ∀ s r x s', m s = some (r, x, s') →
  ∃ ids, s'.typeIds = ids ++ s.typeIds ∧ Balanced s.next s.log s'.next s'.log (held x) (ids.countP stray)

/-- The same with the blocks `own` that have been allocated before. -/
def Keeps (own : List Nat) (m : MemM α μ) : Prop := ∀ n log strays s r x s',
  Balanced n log s.next s.log own strays → m s = some (r, x, s') →
  ∃ ids, s'.typeIds = ids ++ s.typeIds ∧ Balanced n log s'.next s'.log (held x) (ids.countP stray + strays)

def Cleans (m : MemM α μ) : Prop :=
  Tracks stray held m ∧ ∀ s code x s', m s = some (.error code, x, s') → held x = []

variable {stray held held'} {m : MemM α μ} {n : MemM β ν}

theorem Keeps.tracks (h : Keeps stray held [] m) : Tracks stray held m :=
  fun s r x s' hrun => h s.next s.log 0 s r x s' (.refl _ _) hrun

theorem Tracks.keeps {own : List Nat} (h : Tracks stray held m) : Keeps stray (fun x => own ++ held x) own m := by
  intro n log strays s r x s' hown hrun
  obtain ⟨ids, hids, hbalanced⟩ := h s r x s' hrun
  exact ⟨ids, hids, hown.trans hbalanced⟩

theorem Tracks.of_perm {held₀ : μ → List Nat} (h : Tracks stray held m) (hheld : ∀ x, (held x).Perm (held₀ x)) :
    Tracks stray held₀ m := by
  intro s r x s' hrun
  obtain ⟨ids, hids, hbalanced⟩ := h s r x s' hrun
  exact ⟨ids, hids, hbalanced.perm (hheld x)⟩

theorem cleans_succeed (a : α) {x : μ} (hx : held x = []) : Cleans stray held (succeed a x) := by
  refine ⟨?_, fun s code y s' hrun => by cases hrun⟩
  rintro s _ _ _ ⟨⟩
  exact ⟨[], rfl, by rw [hx]; exact .refl _ _⟩

theorem cleans_fail (code : StatusCode) {x : μ} (hx : held x = []) :
    Cleans stray held (fail code x : MemM α μ) := by
  refine ⟨?_, ?_⟩
  · rintro s _ _ _ ⟨⟩
    exact ⟨[], rfl, by rw [hx]; exact .refl _ _⟩
  · rintro s _ _ _ ⟨⟩
    exact hx

theorem cleans_plain (d : DecM α) : Cleans stray (fun _ => []) (plain d) := by
  refine ⟨?_, fun _ _ _ _ _ => rfl⟩
  intro s r x s' hrun
  simp only [plain] at hrun
  split at hrun
  · cases hrun
  · cases hrun
    exact ⟨[], rfl, .refl _ _⟩

theorem keeps_place {own : List Nat} (f : α → β) {g : μ → ν} (h : Keeps stray held own m)
    (hg : ∀ x, (held x).Perm (held' (g x))) : Keeps stray held' own (place f g m) := by
  intro n log strays s r y s' hown hrun
  simp only [place] at hrun
  cases hm : m s with
  | none => rw [hm] at hrun; cases hrun
  | some res =>
      obtain ⟨r₀, x, s₀⟩ := res
      obtain ⟨ids, hids, hbalanced⟩ := h n log strays s r₀ x s₀ hown hm
      rw [hm] at hrun
      cases hrun
      exact ⟨ids, hids, hbalanced.perm (hg x)⟩

theorem tracks_place (f : α → β) {g : μ → ν} (h : Tracks stray held m) (hg : ∀ x, (held x).Perm (held' (g x))) :
    Tracks stray held' (place f g m) := (keeps_place f h.keeps hg).tracks

theorem cleans_place (f : α → β) {g : μ → ν} (h : Cleans stray held m) (hg : ∀ x, (held x).Perm (held' (g x))) :
    Cleans stray held' (place f g m) := by
  refine ⟨tracks_place f h.1 hg, fun s code y s' hrun => ?_⟩
  obtain ⟨x, hm, rfl⟩ := place_error hrun
  have hperm := hg x
  rw [h.2 s code x s' hm] at hperm
  exact hperm.symm.eq_nil

theorem tracks_followed {f : α → MemM β ν} {zero : ν} (hm : Tracks stray held m) (hzero : held' zero = [])
    (hf : ∀ a, Tracks stray held' (f a)) :
    Tracks stray (fun x => held x.1 ++ held' x.2) (followed m zero f) := by
  intro s r y s' hrun
  simp only [followed] at hrun
  cases hfirst : m s with
  | none => rw [hfirst] at hrun; cases hrun
  | some res =>
      obtain ⟨r₀, x, s₀⟩ := res
      obtain ⟨ids, hids, hbalanced⟩ := hm s r₀ x s₀ hfirst
      rw [hfirst] at hrun
      cases r₀ with
      | error code =>
          cases hrun
          refine ⟨ids, hids, ?_⟩
          simp only [hzero, List.append_nil]
          exact hbalanced
      | ok a =>
          simp only [place] at hrun
          cases hsecond : f a s₀ with
          | none => rw [hsecond] at hrun; cases hrun
          | some res' =>
              obtain ⟨r', z, s₁⟩ := res'
              obtain ⟨ids', hids', hbalanced'⟩ := hf a s₀ r' z s₁ hsecond
              rw [hsecond] at hrun
              cases hrun
              refine ⟨ids' ++ ids, ?_, ?_⟩
              · rw [hids', hids, List.append_assoc]
              · rw [List.countP_append]
                exact hbalanced.trans hbalanced'

theorem tracks_after {m : MemM α Unit} {f : α → MemM β ν} {zero : ν} (hm : Tracks stray (fun _ => []) m)
    (hzero : held' zero = []) (hf : ∀ a, Tracks stray held' (f a)) : Tracks stray held' (after m zero f) :=
  tracks_place id (tracks_followed hm hzero hf) fun _ => .refl _

theorem cleans_after {m : MemM α Unit} {f : α → MemM β ν} {zero : ν} (hm : Tracks stray (fun _ => []) m)
    (hzero : held' zero = []) (hf : ∀ a, Cleans stray held' (f a)) : Cleans stray held' (after m zero f) := by
  refine ⟨tracks_after hm hzero fun a => (hf a).1, ?_⟩
  intro s code y s' hrun
  simp only [after, followed, place] at hrun
  cases hfirst : m s with
  | none => rw [hfirst] at hrun; cases hrun
  | some res =>
      obtain ⟨r₀, u, s₀⟩ := res
      simp only [hfirst] at hrun
      cases r₀ with
      | error code₀ =>
          cases hrun
          exact hzero
      | ok a =>
          cases hsecond : f a s₀ with
          | none => simp only [hsecond] at hrun; cases hrun
          | some res' =>
              obtain ⟨r', z, s₁⟩ := res'
              simp only [hsecond] at hrun
              cases r' with
              | ok b => cases hrun
              | error code' =>
                  cases hrun
                  exact (hf a).2 s₀ code y s' hsecond

theorem tracks_both (hm : Tracks stray held m) (hn : Tracks stray held' n) :
    Tracks stray (fun x => held x.1 ++ held' x.2) (both m n) := by
  intro s r y s' hrun
  simp only [both] at hrun
  cases hfirst : m s with
  | none => rw [hfirst] at hrun; cases hrun
  | some res =>
      obtain ⟨r₀, x, s₀⟩ := res
      obtain ⟨ids, hids, hbalanced⟩ := hm s r₀ x s₀ hfirst
      rw [hfirst] at hrun
      cases hsecond : n s₀ with
      | none => simp only [hsecond] at hrun; cases hrun
      | some res' =>
          obtain ⟨r', z, s₁⟩ := res'
          obtain ⟨ids', hids', hbalanced'⟩ := hn s₀ r' z s₁ hsecond
          simp only [hsecond] at hrun
          cases hrun
          refine ⟨ids' ++ ids, ?_, ?_⟩
          · rw [hids', hids, List.append_assoc]
          · rw [List.countP_append]
            exact hbalanced.trans hbalanced'

theorem tracks_whenFlagged (b : Bool) (a : α) {zero : μ} (h : Tracks stray held m) (hzero : held zero = []) :
    Tracks stray held (whenFlagged b a zero m) := by
  cases b with
  | true => exact h
  | false => exact (cleans_succeed a hzero).1

theorem tracks_withBlock {f : Nat → MemM α μ} {zero : μ} (hzero : held zero = [])
    (hf : ∀ id, Keeps stray held [id] (f id)) : Tracks stray held (withBlock zero f) := by
  intro s r x s' hrun
  simp only [withBlock] at hrun
  split at hrun
  · cases hrun
  · cases hrun
    exact ⟨[], rfl, by rw [hzero]; exact .refl _ _⟩
  · case _ dec _ =>
      exact hf s.next s.next s.log 0 { s with dec := dec, next := s.next + 1 } r x s' (.allocate s.next s.log) hrun

theorem onError_error {release : μ → List Release} {deleted : μ → μ} {s s' : Store} {code : StatusCode} {x : μ}
    (hrun : onError release deleted m s = some (.error code, x, s')) :
    ∃ x₀ s₀, m s = some (.error code, x₀, s₀) ∧ x = deleted x₀ ∧ s' = s₀.free (release x₀) := by
  simp only [onError] at hrun
  split at hrun
  · case _ code₀ x₀ s₀ hm =>
      cases hrun
      exact ⟨x₀, s₀, hm, rfl, rfl⟩
  · case _ hother => exact absurd hrun (hother code x s')

theorem onError_ok {release : μ → List Release} {deleted : μ → μ} {s s' : Store} {a : α} {x : μ}
    (hrun : onError release deleted m s = some (.ok a, x, s')) : m s = some (.ok a, x, s') := by
  simp only [onError] at hrun
  split at hrun
  · cases hrun
  · exact hrun

theorem keeps_onError {own : List Nat} {release : μ → List Release} {deleted : μ → μ} (h : Keeps stray held own m)
    (hrelease : ∀ s code x s', m s = some (.error code, x, s') → release x = (held x).map .block)
    (hdeleted : ∀ x, held (deleted x) = []) : Keeps stray held own (onError release deleted m) := by
  intro n log strays s r x s' hown hrun
  cases r with
  | ok a => exact h n log strays s _ x s' hown (onError_ok hrun)
  | error code =>
      obtain ⟨x₀, s₀, hm, rfl, rfl⟩ := onError_error hrun
      obtain ⟨ids, hids, hbalanced⟩ := h n log strays s _ x₀ s₀ hown hm
      refine ⟨ids, hids, ?_⟩
      rw [hdeleted, Store.free, hrelease s code x₀ s₀ hm]
      exact hbalanced.release (by rw [List.append_nil])

theorem cleans_onError {release : μ → List Release} {deleted : μ → μ} (h : Tracks stray held m)
    (hrelease : ∀ x, release x = (held x).map .block) (hdeleted : ∀ x, held (deleted x) = []) :
    Cleans stray held (onError release deleted m) := by
  refine ⟨(keeps_onError h.keeps (fun _ _ x _ _ => hrelease x) hdeleted).tracks, ?_⟩
  intro s code x s' hrun
  obtain ⟨x₀, s₀, _, rfl, rfl⟩ := onError_error hrun
  exact hdeleted x₀

theorem keeps_discarded {own : List Nat} {release : μ → List Release} (h : Keeps stray held own m)
    (hrelease : ∀ x, release x = (held x).map .block) : Keeps stray (fun _ => []) own (discarded release m) := by
  intro n log strays s r u s' hown hrun
  simp only [discarded] at hrun
  cases hm : m s with
  | none => rw [hm] at hrun; cases hrun
  | some res =>
      obtain ⟨r₀, x, s₀⟩ := res
      obtain ⟨ids, hids, hbalanced⟩ := h n log strays s r₀ x s₀ hown hm
      rw [hm] at hrun
      cases hrun
      refine ⟨ids, hids, ?_⟩
      rw [Store.free, hrelease]
      exact hbalanced.release (by rw [List.append_nil])

theorem tracks_of_eq (h : ∀ s, ∃ m', Tracks stray held m' ∧ m s = m' s) : Tracks stray held m := by
  intro s r x s' hrun
  obtain ⟨m', htracks, heq⟩ := h s
  exact htracks s r x s' (heq ▸ hrun)

theorem cleans_of_eq (h : ∀ s, ∃ m', Cleans stray held m' ∧ m s = m' s) : Cleans stray held m := by
  refine ⟨tracks_of_eq fun s => ?_, ?_⟩
  · obtain ⟨m', hcleans, heq⟩ := h s
    exact ⟨m', hcleans.1, heq⟩
  · intro s code x s' hrun
    obtain ⟨m', hcleans, heq⟩ := h s
    exact hcleans.2 s code x s' (heq ▸ hrun)

theorem cleans_reading (f : Store → Dec) (h : Cleans stray held m) :
    Cleans stray held (fun s => m { s with dec := f s }) :=
  ⟨fun s r x s' hrun => h.1 { s with dec := f s } r x s' hrun,
    fun s code x s' hrun => h.2 { s with dec := f s } code x s' hrun⟩

end Tracking

end OpcUa.MemoryReaders
