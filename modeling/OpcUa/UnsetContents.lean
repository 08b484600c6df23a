import OpcUa.ExtensionObjects
import OpcUa.FailedDecodes
import OpcUa.UnsetTypeIds

namespace OpcUa.UnsetContents

open StatusCodes NodeIds DataTypes Values Decoding ValueDecoding Ledgers DecodedMemory MemoryReaders MemoryDecoding
open MemoryTracking FailedDecodes UnsetTypeIds
open Readers (Dec DecM)

variable {gone : List Release → Prop} {log log' : List Release}

section Logs

/-- The second log has something for each entry of the first one that is not
known. -/
inductive Fills (gone : List Release → Prop) : List Release → List Release → Prop
  | nil : Fills gone [] []
  | block (id : Nat) {log log' : List Release} (h : Fills gone log log') :
      Fills gone (.block id :: log) (.block id :: log')
  | unset (extra : List Release) (hgone : gone extra) {log log' : List Release} (h : Fills gone log log') :
      Fills gone (.unset :: log) (extra ++ log')

theorem fills_blocks (ids : List Nat) : Fills gone (ids.map .block) (ids.map .block) := by
  induction ids with
  | nil => exact .nil
  | cons id ids ih => exact .block id ih

theorem Fills.append {new new' : List Release} (hnew : Fills gone new new') (h : Fills gone log log') :
    Fills gone (new ++ log) (new' ++ log') := by
  induction hnew with
  | nil => exact h
  | block id _ ih => exact .block id ih
  | unset extra hgone _ ih =>
      rw [List.append_assoc]
      exact .unset extra hgone ih

theorem Fills.eq_of_set (h : Fills gone log log') (hset : log.count .unset = 0) : log' = log := by
  induction h with
  | nil => rfl
  | block id _ ih =>
      rw [List.count_cons_of_ne (by simp)] at hset
      rw [ih hset]
  | unset extra _ _ _ => simp at hset

theorem Fills.exists_gone (h : Fills gone log log') (hset : log.count .unset ≠ 0) :
    ∃ extra, gone extra ∧ ∀ r ∈ extra, r ∈ log' := by
  induction h with
  | nil => exact absurd rfl hset
  | block id _ ih =>
      rw [List.count_cons_of_ne (by simp)] at hset
      obtain ⟨extra, hgone, hmem⟩ := ih hset
      exact ⟨extra, hgone, fun r hr => List.mem_cons_of_mem _ (hmem r hr)⟩
  | unset extra hgone _ _ => exact ⟨extra, hgone, fun r hr => List.mem_append_left _ hr⟩

end Logs

section Imitation

variable {α β μ ν : Type}

/-- Two calls that have come to the same point. Only in the second one is it
known what is found in a variable that has not been set. -/
structure Matches (gone : List Release → Prop) (s s' : Store) : Prop where
  dec : s'.dec = s.dec
  next : s'.next = s.next
  typeIds : s'.typeIds = s.typeIds
  log : Fills gone s.log s'.log

/-- `m'` does what `m` does, and with the same result. -/
def Mirrors (gone : List Release → Prop) (m m' : MemM α μ) : Prop := ∀ s s' r x t, Matches gone s s' →
  m s = some (r, x, t) → ∃ t', m' s' = some (r, x, t') ∧ Matches gone t t'

variable {m m' : MemM α μ} {n n' : MemM β ν} {s s' : Store}

theorem Matches.move (h : Matches gone s s') (dec : Dec) : Matches gone { s with dec := dec } { s' with dec := dec } :=
  ⟨rfl, h.next, h.typeIds, h.log⟩

theorem Matches.seek (h : Matches gone s s') (offset : Nat) : Matches gone (s.seek offset) (s'.seek offset) := by
  refine ⟨?_, h.next, h.typeIds, h.log⟩
  rw [Store.seek, Store.seek, h.dec]

theorem Matches.free (h : Matches gone s s') {new new' : List Release} (hnew : Fills gone new new') :
    Matches gone (s.free new) (s'.free new') :=
  ⟨h.dec, h.next, h.typeIds, hnew.append h.log⟩

theorem mirrors_succeed (a : α) (x : μ) : Mirrors gone (succeed a x) (succeed a x) := by
  rintro s s' _ _ _ hs ⟨⟩
  exact ⟨s', rfl, hs⟩

theorem mirrors_fail (code : StatusCode) (x : μ) : Mirrors gone (fail code x : MemM α μ) (fail code x) := by
  rintro s s' _ _ _ hs ⟨⟩
  exact ⟨s', rfl, hs⟩

theorem mirrors_plain (d : DecM α) : Mirrors gone (plain d) (plain d) := by
  intro s s' r x t hs hrun
  simp only [plain, hs.dec] at hrun ⊢
  cases hd : d s.dec with
  | none => simp only [hd] at hrun; cases hrun
  | some res =>
      simp only [hd] at hrun
      cases hrun
      exact ⟨_, rfl, hs.move res.2⟩

theorem mirrors_place (f : α → β) (g : μ → ν) (h : Mirrors gone m m') :
    Mirrors gone (place f g m) (place f g m') := by
  intro s s' r x t hs hrun
  simp only [place] at hrun ⊢
  cases hm : m s with
  | none => simp only [hm] at hrun; cases hrun
  | some res =>
      obtain ⟨t', hm', ht⟩ := h s s' _ _ _ hs hm
      simp only [hm] at hrun
      cases hrun
      rw [hm']
      exact ⟨t', rfl, ht⟩

theorem mirrors_followed {f f' : α → MemM β ν} (zero : ν) (h : Mirrors gone m m')
    (hf : ∀ a, Mirrors gone (f a) (f' a)) : Mirrors gone (followed m zero f) (followed m' zero f') := by
  intro s s' r x t hs hrun
  simp only [followed] at hrun ⊢
  cases hm : m s with
  | none => simp only [hm] at hrun; cases hrun
  | some res =>
      obtain ⟨r₀, y, s₀⟩ := res
      obtain ⟨t', hm', ht⟩ := h s s' _ _ _ hs hm
      simp only [hm] at hrun
      rw [hm']
      cases r₀ with
      | error code =>
          cases hrun
          exact ⟨t', rfl, ht⟩
      | ok a => exact mirrors_place id (Prod.mk y) (hf a) s₀ t' r x t ht hrun

theorem mirrors_after {m m' : MemM α Unit} {f f' : α → MemM β ν} (zero : ν) (h : Mirrors gone m m')
    (hf : ∀ a, Mirrors gone (f a) (f' a)) : Mirrors gone (after m zero f) (after m' zero f') :=
  mirrors_place id Prod.snd (mirrors_followed zero h hf)

theorem mirrors_both (hm : Mirrors gone m m') (hn : Mirrors gone n n') : Mirrors gone (both m n) (both m' n') := by
  intro s s' r x t hs hrun
  simp only [both] at hrun ⊢
  cases hfirst : m s with
  | none => simp only [hfirst] at hrun; cases hrun
  | some res =>
      obtain ⟨t', hm', ht⟩ := hm s s' _ _ _ hs hfirst
      simp only [hfirst] at hrun
      rw [hm']
      cases hsecond : n res.2.2 with
      | none => simp only [hsecond] at hrun; cases hrun
      | some res' =>
          obtain ⟨t'', hn', ht'⟩ := hn _ t' _ _ _ ht hsecond
          simp only [hsecond] at hrun
          cases hrun
          simp only [hn']
          exact ⟨t'', rfl, ht'⟩

theorem mirrors_whenFlagged (b : Bool) (a : α) (zero : μ) (h : Mirrors gone m m') :
    Mirrors gone (whenFlagged b a zero m) (whenFlagged b a zero m') := by
  cases b with
  | true => exact h
  | false => exact mirrors_succeed a zero

theorem mirrors_withBlock {f f' : Nat → MemM α μ} (zero : μ) (h : ∀ id, Mirrors gone (f id) (f' id)) :
    Mirrors gone (withBlock zero f) (withBlock zero f') := by
  intro s s' r x t hs hrun
  simp only [withBlock, hs.dec] at hrun ⊢
  split at hrun
  · cases hrun
  · cases hrun
    exact ⟨_, rfl, hs.move _⟩
  · case _ dec _ =>
      rw [hs.next]
      have hmoved : Matches gone { s with dec := dec, next := s.next + 1 } { s' with dec := dec, next := s.next + 1 } :=
        ⟨rfl, rfl, hs.typeIds, hs.log⟩
      exact h s.next _ _ r x t hmoved hrun

theorem mirrors_onError {held : μ → List Nat} {release : μ → List Release} (deleted : μ → μ)
    (hrelease : ∀ x, release x = (held x).map .block) (h : Mirrors gone m m') :
    Mirrors gone (onError release deleted m) (onError release deleted m') := by
  intro s s' r x t hs hrun
  simp only [onError] at hrun ⊢
  cases hm : m s with
  | none => simp only [hm] at hrun; cases hrun
  | some res =>
      obtain ⟨r₀, y, s₀⟩ := res
      obtain ⟨t', hm', ht⟩ := h s s' _ _ _ hs hm
      simp only [hm] at hrun
      rw [hm']
      cases r₀ with
      | error code =>
          cases hrun
          exact ⟨_, rfl, ht.free (hrelease y ▸ fills_blocks (held y))⟩
      | ok a =>
          cases hrun
          exact ⟨t', rfl, ht⟩

theorem mirrors_choice {c : Prop} [Decidable c] {m₁ m₁' : MemM α μ} (h : c → Mirrors gone m m')
    (h' : ¬c → Mirrors gone m₁ m₁') : Mirrors gone (if c then m else m₁) (if c then m' else m₁') := by
  by_cases hc : c
  · rw [if_pos hc, if_pos hc]
    exact h hc
  · rw [if_neg hc, if_neg hc]
    exact h' hc

end Imitation

section TypeIds

variable {β γ : Type} {dst : IdVariable} {contents : Nat → IdVariable} {s s' t : Store}

/-- What `NodeId_decodeBinary` has made of a variable that held `dst`. -/
def Stands (dst : IdVariable) : IdWrite → IdVariable → Prop
  | .nothing, y => y.release = dst.release
  | .plain, y => y.release = []
  | .text none, y => y.release = dst.text.data.release
  | .text (some text), y => y.release = text.data.release

/-- The variable holds the id, of which only a numeric one is compared. -/
def Reads (n : NodeId) (y : IdVariable) : Prop :=
  y.namespaceIndex = n.namespaceIndex ∧
    ∀ i, (y.identifierType = numericType ∧ y.numeric = i) ↔ n.identifier = .numeric i

/-- The same outcome, once in a variable that has not been set and once in one
of which the content is known. -/
def Told (dst : IdVariable) (r : Except StatusCode NodeId) (x : IdWrite) (r' : Except StatusCode Unit)
    (y : IdVariable) : Prop :=
  r' = r.map (fun _ => ()) ∧ Stands dst x y ∧ ∀ n, r = .ok n → Reads n y

theorem nothing_read {α : Type} {code : StatusCode} {p : α → Prop} :
    ∀ a, (.error code : Except StatusCode α) = .ok a → p a := by
  rintro _ ⟨⟩

theorem release_text {y : IdVariable} (h : y.identifierType = stringType ∨ y.identifierType = byteStringType) :
    y.release = y.text.data.release := if_pos h

theorem release_number {y : IdVariable} (h : y.identifierType = numericType ∨ y.identifierType = guidType) :
    y.release = [] := by
  refine if_neg ?_
  rcases h with h | h <;> rw [h] <;> decide

theorem Stands.fills {x : IdWrite} {y : IdVariable} (h : Stands dst x y) (hkind : gone dst.release)
    (htext : gone dst.text.data.release) : Fills gone x.release y.release := by
  have hextra : ∀ extra, gone extra → Fills gone [.unset] extra := by
    intro extra hgone
    have hfills := Fills.unset extra hgone .nil
    rwa [List.append_nil] at hfills
  match x, h with
  | .nothing, h => exact h ▸ hextra _ hkind
  | .plain, h => exact h ▸ .nil
  | .text none, h => exact h ▸ hextra _ htext
  | .text (some text), h =>
      rw [show y.release = text.data.release from h, IdWrite.release, Ptr.release_eq]
      exact fills_blocks _

theorem equal_of_reads {n n2 : NodeId} {y : IdVariable} (h : Reads n y)
    (hnumeric : n2.identifier.isNumeric = true) : y.equal n2 = nodeIdEqual n n2 := by
  obtain ⟨ns, identifier⟩ := n
  obtain ⟨ns2, identifier2⟩ := n2
  cases identifier2 with
  | numeric j =>
      have hidentifier := h.2 j
      rw [IdVariable.equal, nodeIdEqual, h.1, Bool.eq_iff_iff]
      by_cases hns : ns = ns2
      · cases identifier with
        | numeric i =>
            simp only [Identifier.numeric.injEq] at hidentifier
            simp [hns, hidentifier]
        | _ =>
            simp only [reduceCtorEq, iff_false] at hidentifier
            simpa [hns] using hidentifier
      · simp [hns]
  | _ => cases hnumeric

theorem findDataType_of_reads {n : NodeId} {y : IdVariable} (h : Reads n y) :
    y.findDataType = TypeTable.findDataType n := by
  have hequal : ∀ t ∈ TypeTable.uaTypes, y.equal t.typeId = nodeIdEqual n t.typeId := fun t ht =>
    equal_of_reads h (ExtensionObjects.typeId_isNumeric ht)
  unfold IdVariable.findDataType TypeTable.findDataType
  revert hequal
  generalize TypeTable.uaTypes = types
  induction types with
  | nil => exact fun _ => rfl
  | cons t types ih =>
      intro hequal
      rw [List.find?_cons, List.find?_cons, hequal t (List.mem_cons_self ..),
        ih fun t' ht' => hequal t' (List.mem_cons_of_mem _ ht')]

theorem told_numbers {d : DecM β} {e : DecM γ} {f : β × γ → NodeId} {g : β × γ → IdVariable} (old : β) (old' : γ)
    (hkind : ∀ x, (g x).release = []) (hreads : ∀ x, Reads (f x) (g x)) {r : Except StatusCode NodeId} {x : IdWrite}
    (hs : Matches gone s s')
    (hrun : place id (fun _ => IdWrite.plain) (plain (Readers.map f (Readers.both d e))) s = some (r, x, t)) :
    ∃ r' y t', place (fun _ => ()) g (both (assign d old) (assign e old')) s' = some (r', y, t') ∧
      Matches gone t t' ∧ Told dst r x r' y := by
  simp only [place, plain, Readers.map, Readers.andThen, Readers.both] at hrun
  simp only [place, both, assign, hs.dec]
  rcases hd : d s.dec with _ | ⟨_ | a, dec⟩
  · simp only [hd] at hrun
    cases hrun
  all_goals
    rcases he : e dec with _ | ⟨_ | b, dec'⟩
    · simp only [hd, he] at hrun
      cases hrun
    all_goals
      simp only [hd, he, Readers.joined, Readers.succeed] at hrun
      cases hrun
      simp only [he]
      refine ⟨_, _, _, rfl, hs.move dec', rfl, hkind _, ?_⟩
      rintro n ⟨⟩ <;> exact hreads _

theorem told_string (old : Buffer) {r : Except StatusCode UaString} {x : Option Buffer} (hs : Matches gone s s')
    (hrun : stringMem s = some (r, x, t)) :
    ∃ y t', stringInto old s' = some (r.map (fun _ => ()), y, t') ∧ Matches gone t t' ∧
      y.data = (x.getD old).data := by
  simp only [stringMem, after_plain] at hrun
  simp only [stringInto, after_plain, hs.dec]
  rcases hd : Readers.withError badInternalError int32DecodeBinary s.dec with _ | ⟨_ | signedLength, dec⟩
  · simp only [hd] at hrun
    cases hrun
  · simp only [hd] at hrun
    cases hrun
    exact ⟨_, _, rfl, hs.move dec, rfl⟩
  simp only [hd] at hrun
  have hmoved := hs.move dec
  by_cases hnone : signedLength ≤ 0
  · simp only [if_pos hnone] at hrun ⊢
    cases hrun
    refine ⟨_, _, rfl, hmoved, ?_⟩
    split <;> rfl
  simp only [if_neg hnone] at hrun ⊢
  by_cases hlong : dec.offset + signedLength.toNat > dec.data.length
  · simp only [if_pos hlong] at hrun ⊢
    cases hrun
    exact ⟨_, _, rfl, hmoved, rfl⟩
  simp only [if_neg hlong, withBlock] at hrun ⊢
  rcases hblock : Readers.allocate dec with _ | ⟨_ | u, dec'⟩
  · simp only [hblock] at hrun
    cases hrun
  · simp only [hblock] at hrun
    cases hrun
    exact ⟨_, _, rfl, hs.move dec', rfl⟩
  simp only [hblock, place, plain] at hrun ⊢
  rcases htake : Readers.take signedLength.toNat dec' with _ | ⟨r', dec''⟩
  · simp only [htake] at hrun
    cases hrun
  simp only [htake] at hrun ⊢
  cases hrun
  have hplaced : Matches gone { s with dec := dec'', next := s.next + 1 }
      { s' with dec := dec'', next := s'.next + 1 } :=
    ⟨rfl, congrArg (· + 1) hs.next, hs.typeIds, hs.log⟩
  refine ⟨⟨.block s'.next, signedLength.toNat⟩, _, ?_, hplaced, ?_⟩
  · cases r' <;> rfl
  · rw [hs.next]
    rfl

theorem told_text {identifierType : UInt32} (hkind : identifierType = stringType ∨ identifierType = byteStringType)
    {f : UInt16 × UaString → NodeId} (hf : ∀ p, (f p).namespaceIndex = p.1 ∧ (f p).identifier.isNumeric = false)
    {r : Except StatusCode NodeId} {x : IdWrite} (hs : Matches gone s s')
    (hrun : place f (fun x => IdWrite.text x.2) (both (plain uint16DecodeBinary) stringMem) s = some (r, x, t)) :
    ∃ r' y t', textInto identifierType dst s' = some (r', y, t') ∧ Matches gone t t' ∧ Told dst r x r' y := by
  simp only [place, both, plain] at hrun
  simp only [textInto, place, both, assign, hs.dec]
  rcases hns : uint16DecodeBinary s.dec with _ | ⟨r₀, dec⟩
  · simp only [hns] at hrun
    cases hrun
  simp only [hns] at hrun
  cases htext : stringMem { s with dec := dec } with
  | none => simp only [htext] at hrun; cases hrun
  | some res =>
      obtain ⟨r₁, text, t₁⟩ := res
      obtain ⟨y, t', hinto, ht, hdata⟩ := told_string dst.text (hs.move dec) htext
      simp only [htext] at hrun
      cases hrun
      have hrelease : ∀ ns : UInt16, Stands dst (.text text)
          { dst with identifierType := identifierType, namespaceIndex := ns, text := y } := by
        intro ns
        cases text <;> exact (release_text hkind).trans (congrArg Ptr.release hdata)
      have hreads : ∀ ns bytes, Reads (f (ns, bytes))
          { dst with identifierType := identifierType, namespaceIndex := ns, text := y } := by
        intro ns bytes
        obtain ⟨hnamespace, hnumeric⟩ := hf (ns, bytes)
        refine ⟨hnamespace.symm, fun i => iff_of_false ?_ ?_⟩
        · rintro ⟨hzero, _⟩
          rcases hkind with rfl | rfl
          · exact absurd hzero (show stringType ≠ numericType by decide)
          · exact absurd hzero (show byteStringType ≠ numericType by decide)
        · intro heq
          rw [heq] at hnumeric
          cases hnumeric
      cases r₀ with
      | error code =>
          simp only [hinto]
          refine ⟨_, _, _, rfl, ht, ?_, hrelease _, ?_⟩
          · cases r₁ <;> rfl
          · cases r₁ <;> exact nothing_read
      | ok ns =>
          simp only [hinto]
          refine ⟨_, _, _, rfl, ht, ?_, hrelease _, ?_⟩
          · cases r₁ <;> rfl
          · cases r₁ with
            | error code => exact nothing_read
            | ok bytes =>
                rintro n ⟨⟩
                exact hreads ns bytes

theorem reads_number {y : IdVariable} {ns : UInt16} {i : UInt32} (hns : y.namespaceIndex = ns)
    (hkind : y.identifierType = numericType) (hnumeric : y.numeric = i) : Reads (numericId ns i) y := by
  refine ⟨hns, fun j => ?_⟩
  simp [hkind, hnumeric, numericId]

theorem told_body (dst : IdVariable) (encodingByte : UInt8) {r : Except StatusCode NodeId} {x : IdWrite}
    (hs : Matches gone s s')
    (hrun : nodeIdBodyMem encodingByte s = some (r, x, t)) :
    ∃ r' y t', nodeIdBodyInto encodingByte dst s' = some (r', y, t') ∧ Matches gone t t' ∧ Told dst r x r' y := by
  rw [nodeIdBodyMem] at hrun
  by_cases hstring : encodingByte = 3
  · subst hstring
    exact told_text (.inl rfl) (fun _ => ⟨rfl, rfl⟩) hs hrun
  by_cases hbytes : encodingByte = 5
  · subst hbytes
    exact told_text (.inr rfl) (fun _ => ⟨rfl, rfl⟩) hs hrun
  rw [if_neg hstring, if_neg hbytes] at hrun
  by_cases hunknown : encodingByte > 5
  · have hkinds : encodingByte ≠ 0 ∧ encodingByte ≠ 1 ∧ encodingByte ≠ 2 ∧ encodingByte ≠ 4 := by
      refine ⟨?_, ?_, ?_, ?_⟩ <;> rintro rfl <;> exact absurd hunknown (by decide)
    rw [if_pos hunknown] at hrun
    cases hrun
    rw [nodeIdBodyInto, if_neg hkinds.1, if_neg hkinds.2.1, if_neg hkinds.2.2.1, if_neg hstring,
      if_neg hkinds.2.2.2, if_neg hbytes]
    exact ⟨_, _, s', rfl, hs, rfl, rfl, nothing_read⟩
  rw [if_neg hunknown, nodeIdBodyDecodeBinary] at hrun
  rw [nodeIdBodyInto]
  by_cases htwo : encodingByte = 0
  · simp only [if_pos htwo] at hrun ⊢
    simp only [place, plain, Readers.map, Readers.andThen] at hrun
    simp only [place, assign, hs.dec]
    rcases hd : byteDecodeBinary s.dec with _ | ⟨_ | b, dec⟩
    · simp only [hd] at hrun
      cases hrun
    all_goals
      simp only [hd, Readers.succeed] at hrun
      cases hrun
      refine ⟨_, _, _, rfl, hs.move dec, rfl, release_number (.inl rfl), ?_⟩
      rintro n ⟨⟩ <;> exact reads_number rfl rfl rfl
  by_cases hfour : encodingByte = 1
  · simp only [if_neg htwo, if_pos hfour] at hrun ⊢
    exact told_numbers 0 0 (fun _ => release_number (.inl rfl)) (fun _ => reads_number rfl rfl rfl) hs hrun
  by_cases hcomplete : encodingByte = 2
  · simp only [if_neg htwo, if_neg hfour, if_pos hcomplete] at hrun ⊢
    exact told_numbers _ _ (fun _ => release_number (.inl rfl)) (fun _ => reads_number rfl rfl rfl) hs hrun
  have hguid : encodingByte = 4 := by
    have hle := UInt8.not_lt.mp hunknown
    have htoNat : encodingByte.toNat ≤ 5 := hle
    have hne : ∀ b : UInt8, encodingByte ≠ b → encodingByte.toNat ≠ b.toNat := fun b h heq => h (UInt8.toNat_inj.mp heq)
    have h0 := hne 0 htwo
    have h1 := hne 1 hfour
    have h2 := hne 2 hcomplete
    have h3 := hne 3 hstring
    have h5 := hne 5 hbytes
    refine UInt8.toNat_inj.mp ?_
    simp at h0 h1 h2 h3 h5 ⊢
    omega
  simp only [if_neg htwo, if_neg hfour, if_neg hcomplete, if_neg hstring, if_pos hguid] at hrun ⊢
  refine told_numbers _ _ (fun _ => release_number (.inr rfl)) (fun p => ⟨rfl, fun i => ?_⟩) hs hrun
  exact iff_of_false (fun h => absurd h.1 (show guidType ≠ numericType by decide)) (fun h => by cases h)

/-- What the variables have freed may be any of what was found in them. -/
structure Covers (gone : List Release → Prop) (contents : Nat → IdVariable) : Prop where
  kind : ∀ k, gone (contents k).release
  text : ∀ k, gone (contents k).text.data.release

theorem told_nodeId (hgone : Covers gone contents) (k : Nat) {r : Except StatusCode NodeId} {x : IdWrite}
    (hs : Matches gone s s') (hrun : unsetNodeIdMem s = some (r, x, t)) :
    ∃ r' y t', nodeIdInto (contents k) { s' with typeIds := s'.dec :: s'.typeIds } = some (r', y, t') ∧
      Matches gone t t' ∧ r' = r.map (fun _ => ()) ∧
      ∀ n, r = .ok n → Reads n y ∧ Fills gone x.release y.release := by
  simp only [unsetNodeIdMem, after_plain] at hrun
  simp only [nodeIdInto, after_plain, hs.dec]
  have hmet : ∀ dec, Matches gone { s with dec := dec, typeIds := s.dec :: s.typeIds }
      { s' with dec := dec, typeIds := s.dec :: s'.typeIds } :=
    fun dec => ⟨rfl, hs.next, congrArg (s.dec :: ·) hs.typeIds, hs.log⟩
  rcases hd : byteDecodeBinary s.dec with _ | ⟨_ | encodingByte, dec⟩
  · simp only [hd] at hrun
    cases hrun
  · simp only [hd] at hrun
    cases hrun
    exact ⟨_, _, _, rfl, hmet dec, rfl, nothing_read⟩
  simp only [hd, onError] at hrun ⊢
  cases hbody : nodeIdBodyMem encodingByte { s with dec := dec, typeIds := s.dec :: s.typeIds } with
  | none => simp only [hbody] at hrun; cases hrun
  | some res =>
      obtain ⟨r₀, x₀, t₀⟩ := res
      obtain ⟨r', y, t', hinto, ht, rfl, hstands, hreads⟩ := told_body (contents k) encodingByte (hmet dec) hbody
      have hfills := hstands.fills (hgone.kind k) (hgone.text k)
      simp only [hbody] at hrun
      rw [hinto]
      cases r₀ with
      | error code =>
          cases hrun
          exact ⟨_, _, _, rfl, ht.free hfills, rfl, nothing_read⟩
      | ok n =>
          cases hrun
          refine ⟨_, _, _, rfl, ht, rfl, ?_⟩
          rintro n ⟨⟩
          exact ⟨hreads _ rfl, hfills⟩

theorem told_typeId (hgone : Covers gone contents) {r : Except StatusCode (NodeId × UInt8)} (hs : Matches gone s s')
    (hrun : typeIdMem s = some (r, (), t)) :
    ∃ r' t', typeIdFrom contents s' = some (r', (), t') ∧ Matches gone t t' ∧
      (∀ code, r = .error code → r' = .error code) ∧
      ∀ n encoding, r = .ok (n, encoding) → ∃ y, r' = .ok (y, encoding) ∧ Reads n y := by
  simp only [typeIdMem] at hrun
  simp only [typeIdFrom]
  cases hid : unsetNodeIdMem s with
  | none => simp only [hid] at hrun; cases hrun
  | some res =>
      obtain ⟨r₀, x, t₀⟩ := res
      obtain ⟨r', y, t', hinto, ht, rfl, hok⟩ := told_nodeId hgone s'.typeIds.length hs hid
      simp only [hid] at hrun
      rw [hinto]
      cases r₀ with
      | error code =>
          cases hrun
          refine ⟨_, _, rfl, ht, ?_, ?_⟩
          · rintro _ ⟨⟩
            rfl
          · rintro _ _ ⟨⟩
      | ok n =>
          obtain ⟨hreads, hfills⟩ := hok n rfl
          simp only [discarded, place, plain, Except.map, ht.dec] at hrun ⊢
          rcases hbyte : byteDecodeBinary t₀.dec with _ | ⟨_ | encoding, dec⟩
          · simp only [hbyte] at hrun
            cases hrun
          all_goals
            simp only [hbyte] at hrun ⊢
            cases hrun
          · refine ⟨_, _, rfl, (ht.move dec).free hfills, ?_, ?_⟩
            · rintro _ ⟨⟩
              rfl
            · rintro _ _ ⟨⟩
          · refine ⟨_, _, rfl, (ht.move dec).free hfills, ?_, ?_⟩
            · rintro _ ⟨⟩
            · rintro _ _ ⟨⟩
              exact ⟨y, rfl, hreads⟩

end TypeIds

section Simple

theorem mirrors_string : Mirrors gone stringMem stringMem := by
  refine mirrors_after none (mirrors_plain _) fun signedLength s s' r x t hs hrun => ?_
  rw [hs.dec]
  by_cases hnone : signedLength ≤ 0
  · rw [if_pos hnone] at hrun ⊢
    cases hrun
    exact ⟨s', rfl, hs⟩
  rw [if_neg hnone] at hrun ⊢
  by_cases hlong : s.dec.offset + signedLength.toNat > s.dec.data.length
  · rw [if_pos hlong] at hrun ⊢
    cases hrun
    exact ⟨s', rfl, hs⟩
  rw [if_neg hlong] at hrun ⊢
  exact mirrors_withBlock _ (fun id => mirrors_place some _ (mirrors_plain _)) s s' r x t hs hrun

theorem mirrors_buffer : Mirrors gone bufferMem bufferMem := mirrors_place id _ mirrors_string

theorem mirrors_nodeIdBody (encodingByte : UInt8) :
    Mirrors gone (nodeIdBodyMem encodingByte) (nodeIdBodyMem encodingByte) := by
  rw [nodeIdBodyMem]
  refine mirrors_choice (fun _ => mirrors_place _ _ (mirrors_both (mirrors_plain _) mirrors_string)) fun _ => ?_
  refine mirrors_choice (fun _ => mirrors_place _ _ (mirrors_both (mirrors_plain _) mirrors_string)) fun _ => ?_
  exact mirrors_choice (fun _ => mirrors_fail _ _) fun _ => mirrors_place _ _ (mirrors_plain _)

theorem mirrors_nodeId : Mirrors gone nodeIdMem nodeIdMem :=
  mirrors_after _ (mirrors_plain _) fun encodingByte =>
    mirrors_onError IdMem.deleted IdMem.release_eq (mirrors_place _ _ (mirrors_nodeIdBody encodingByte))

theorem mirrors_expandedNodeId : Mirrors gone expandedNodeIdMem expandedNodeIdMem := by
  intro s s' r x t hs hrun
  rw [expandedNodeIdMem] at hrun ⊢
  rw [hs.dec]
  by_cases hend : s.dec.offset ≥ s.dec.data.length
  · rw [if_pos hend] at hrun ⊢
    cases hrun
    exact ⟨s', rfl, hs⟩
  rw [if_neg hend] at hrun ⊢
  have hfields : ∀ encodingByte, Mirrors gone (expandedNodeIdFieldsMem encodingByte)
      (expandedNodeIdFieldsMem encodingByte) := fun _ =>
    mirrors_place _ _ (mirrors_both mirrors_nodeId (mirrors_both (mirrors_whenFlagged _ _ _ mirrors_buffer)
      (mirrors_whenFlagged _ _ _ (mirrors_plain _))))
  exact mirrors_onError deletedExpandedNodeId (SimpleMem.release_eq .expandedNodeId) (hfields _) _ _ r x t
    (hs.move _) hrun

theorem mirrors_localizedText : Mirrors gone localizedTextMem localizedTextMem :=
  mirrors_after _ (mirrors_plain _) fun _ => mirrors_onError _ (SimpleMem.release_eq .localizedText) <|
    mirrors_place _ _ <| mirrors_both (mirrors_whenFlagged _ _ _ mirrors_buffer)
      (mirrors_whenFlagged _ _ _ mirrors_buffer)

theorem mirrors_diagnosticFields (mask : UInt8) :
    Mirrors gone (diagnosticFieldsMem mask) (diagnosticFieldsMem mask) := by
  have hnumber : ∀ bit, Mirrors gone (whenFlagged (flagged mask bit) 0 () (plain uint32DecodeBinary))
      (whenFlagged (flagged mask bit) 0 () (plain uint32DecodeBinary)) :=
    fun _ => mirrors_whenFlagged _ _ _ (mirrors_plain _)
  exact mirrors_place _ _ (mirrors_both (hnumber 0x01) (mirrors_both (hnumber 0x02) (mirrors_both (hnumber 0x04)
    (mirrors_both (hnumber 0x08) (mirrors_both (mirrors_whenFlagged _ _ _ mirrors_buffer) (hnumber 0x20))))))

theorem mirrors_diagnosticInfo (fuel : Nat) : Mirrors gone (diagnosticInfoMem fuel) (diagnosticInfoMem fuel) := by
  induction fuel with
  | zero =>
      intro s s' r x t _ hrun
      cases hrun
  | succ fuel ih =>
      refine mirrors_after _ (mirrors_plain _) fun mask => mirrors_onError deletedInfo InfoMem.release_eq ?_
      by_cases hinner : hasInner mask = true
      · rw [dif_pos hinner]
        exact mirrors_place _ _ (mirrors_both (mirrors_diagnosticFields mask)
          (mirrors_withBlock _ fun _ => mirrors_place _ _ ih))
      · rw [dif_neg hinner]
        exact mirrors_place _ _ (mirrors_diagnosticFields mask)

theorem mirrors_simple (fuel : Nat) (b : Builtin) : Mirrors gone (simpleMem fuel b) (simpleMem fuel b) := by
  cases b with
  | string | byteString | xmlElement => exact mirrors_buffer
  | nodeId => exact mirrors_nodeId
  | expandedNodeId => exact mirrors_expandedNodeId
  | localizedText => exact mirrors_localizedText
  | diagnosticInfo => exact mirrors_diagnosticInfo fuel
  | _ => exact mirrors_plain _

end Simple

section Values

variable {t : DataType} {item item' : MemM (Val t) (Mem t)}

theorem mirrors_items (h : Mirrors gone item item') (n : Nat) :
    Mirrors gone (itemsMem item n) (itemsMem item' n) := by
  induction n with
  | zero => exact mirrors_succeed _ _
  | succ n ih =>
      intro s s' r x t hs hrun
      simp only [itemsMem] at hrun ⊢
      cases hitem : item s with
      | none => simp only [hitem] at hrun; cases hrun
      | some res =>
          obtain ⟨r₀, m, s₀⟩ := res
          obtain ⟨t', hitem', ht⟩ := h s s' _ _ _ hs hitem
          simp only [hitem] at hrun
          rw [hitem']
          cases r₀ with
          | error code =>
              cases hrun
              exact ⟨t', rfl, ht⟩
          | ok v => exact mirrors_place _ _ ih s₀ t' r x t ht hrun

theorem mirrors_array (h : Mirrors gone item item') (signedLength : Int) :
    Mirrors gone (arrayMem t item signedLength) (arrayMem t item' signedLength) := by
  intro s s' r x t hs hrun
  simp only [arrayMem] at hrun ⊢
  rw [hs.dec]
  by_cases hnone : signedLength ≤ 0
  · rw [if_pos hnone] at hrun ⊢
    cases hrun
    exact ⟨s', rfl, hs⟩
  rw [if_neg hnone] at hrun ⊢
  split at hrun
  · cases hrun
    rw [if_pos ‹_›]
    exact ⟨s', rfl, hs⟩
  rw [if_neg ‹_›]
  split at hrun
  · cases hrun
    rw [if_pos ‹_›]
    exact ⟨s', rfl, hs⟩
  rw [if_neg ‹_›]
  refine mirrors_withBlock _ (fun id => mirrors_choice (fun _ => ?_) fun _ => ?_) s s' r x t hs hrun
  · exact mirrors_place _ _ (mirrors_after _ (mirrors_plain _) fun bytes => mirrors_succeed _ _)
  · exact mirrors_onError _ releaseArr_eq (mirrors_place _ _ (mirrors_items h _))

theorem mirrors_header : Mirrors gone headerMem headerMem := by
  intro s s' r x t hs hrun
  have hboth : Mirrors gone (both nodeIdMem (plain byteDecodeBinary)) (both nodeIdMem (plain byteDecodeBinary)) :=
    mirrors_both mirrors_nodeId (mirrors_plain byteDecodeBinary)
  simp only [headerMem] at hrun ⊢
  cases hfirst : both nodeIdMem (plain byteDecodeBinary) s with
  | none => simp only [hfirst] at hrun; cases hrun
  | some res =>
      obtain ⟨r₀, y, s₀⟩ := res
      obtain ⟨t', hfirst', ht⟩ := hboth s s' _ _ _ hs hfirst
      have hfree : Matches gone (s₀.free y.1.release) (t'.free y.1.release) :=
        ht.free (IdMem.release_eq y.1 ▸ fills_blocks _)
      simp only [hfirst] at hrun
      rw [hfirst', hs.dec]
      cases r₀ with
      | error code =>
          cases hrun
          exact ⟨_, rfl, hfree⟩
      | ok p =>
          dsimp only at hrun ⊢
          split at hrun
          · cases hrun
            rw [if_pos ‹_›]
            exact ⟨_, rfl, hfree⟩
          · cases hrun
            rw [if_neg ‹_›]
            exact ⟨_, rfl, ht⟩

theorem mirrors_withLength {α μ : Type} {m m' : MemM α μ} (stop : Int) (h : Mirrors gone m m') :
    Mirrors gone (withLength stop m) (withLength stop m') := by
  intro s s' r x t hs hrun
  simp only [withLength] at hrun ⊢
  cases hm : m s with
  | none => simp only [hm] at hrun; cases hrun
  | some res =>
      obtain ⟨t', hm', ht⟩ := h s s' _ _ _ hs hm
      simp only [hm] at hrun
      rw [hm']
      dsimp only
      rw [ht.dec]
      split at hrun
      · cases hrun
        rw [if_pos ‹_›]
        exact ⟨t', rfl, ht⟩
      · cases hrun
        rw [if_neg ‹_›]
        exact ⟨t', rfl, ht⟩

theorem mirrors_atOffset {α μ : Type} {m m' : MemM α μ} (offset : Nat) (h : Mirrors gone m m') :
    Mirrors gone (atOffset offset m) (atOffset offset m') :=
  fun s s' r x t hs hrun => h (s.seek offset) (s'.seek offset) r x t (hs.seek offset) hrun

variable {jump jump' : (t : DataType) → MemM (Val t) (Mem t)}

theorem mirrors_content (h : ∀ t, Mirrors gone (jump t) (jump' t)) (typeId : NodeId) :
    Mirrors gone (contentMem jump typeId) (contentMem jump' typeId) := by
  intro s s' r x t hs hrun
  simp only [contentMem] at hrun ⊢
  rw [hs.dec]
  refine mirrors_after _ (mirrors_plain _) (fun length => mirrors_onError _ release_eq ?_) s s' r x t hs hrun
  cases TypeTable.findDataType (contentId typeId) with
  | some type => exact mirrors_withLength _ (mirrors_withBlock _ fun id => mirrors_place _ _ (h type))
  | none => exact mirrors_atOffset _ (mirrors_place _ _ mirrors_buffer)

theorem mirrors_extensionObject (h : ∀ t, Mirrors gone (jump t) (jump' t)) :
    Mirrors gone (extensionObjectMem jump) (extensionObjectMem jump') :=
  mirrors_after _ mirrors_header fun _ => mirrors_choice (fun _ => mirrors_succeed _ _) fun _ =>
    mirrors_choice (fun _ => mirrors_onError _ release_eq (mirrors_place _ _ mirrors_buffer)) fun _ =>
      mirrors_content h _

theorem mirrors_arrayVariant (h : ∀ t, Mirrors gone (jump t) (jump' t)) (type : DataType) (hasDimensions : Bool) :
    Mirrors gone (arrayVariantMem jump type hasDimensions) (arrayVariantMem jump' type hasDimensions) := by
  refine mirrors_after _ (mirrors_plain _) fun signedLength => mirrors_onError _ release_eq ?_
  refine mirrors_choice (fun _ => mirrors_place _ _ (mirrors_followed _ ?_ fun p => ?_)) fun _ => ?_
  · exact mirrors_both (mirrors_array (h type) signedLength) (mirrors_plain _)
  · exact mirrors_place _ _ (mirrors_place _ _ (mirrors_array (h _) p.2))
  · exact mirrors_place _ _ (mirrors_array (h type) signedLength)

theorem mirrors_pointee (h : ∀ t, Mirrors gone (jump t) (jump' t)) (type : DataType) :
    Mirrors gone (pointeeMem jump type) (pointeeMem jump' type) := by
  refine mirrors_onError _ release_eq (mirrors_withBlock _ fun block => mirrors_place _ _ ?_)
  have hblock : ∀ _ : ArrMem type, [Release.block block] = [block].map .block := fun _ => rfl
  exact mirrors_onError _ hblock (mirrors_place _ _ (h type))

variable {contents : Nat → IdVariable}

theorem mirrors_objectVariant (hgone : Covers gone contents) (h : ∀ t, Mirrors gone (jump t) (jump' t)) :
    Mirrors gone (objectVariantMem jump) (objectVariantFrom contents jump') := by
  intro s s' r x t hs hrun
  simp only [objectVariantMem] at hrun
  simp only [objectVariantFrom]
  cases hid : typeIdMem s with
  | none => simp only [hid] at hrun; cases hrun
  | some res =>
      obtain ⟨r₀, u, s₀⟩ := res
      obtain ⟨r', t', hid', ht, herror, hok⟩ := told_typeId hgone hs hid
      simp only [hid] at hrun
      rw [hid']
      cases r₀ with
      | error code =>
          rw [herror code rfl]
          cases hrun
          rw [hs.dec]
          exact ⟨_, rfl, ht.seek _⟩
      | ok p =>
          obtain ⟨typeId, encoding⟩ := p
          obtain ⟨y, rfl, hreads⟩ := hok typeId encoding rfl
          dsimp only at hrun ⊢
          rw [hreads.1, findDataType_of_reads hreads, hs.dec]
          cases hfound : if typeId.namespaceIndex = 0 ∧ encoding = 1 then TypeTable.findDataType typeId else none with
          | some type =>
              simp only [hfound] at hrun
              exact mirrors_pointee h type s₀ t' r x t ht hrun
          | none =>
              simp only [hfound] at hrun
              exact mirrors_pointee h _ _ _ r x t (ht.seek _) hrun

theorem mirrors_variant (hgone : Covers gone contents) (h : ∀ t, Mirrors gone (jump t) (jump' t)) :
    Mirrors gone (variantMem jump) (variantFrom contents jump') :=
  mirrors_after _ (mirrors_plain _) fun _ => mirrors_choice (fun _ => mirrors_fail _ _) fun _ =>
    mirrors_choice (fun _ => mirrors_arrayVariant h _ _) fun _ =>
      mirrors_choice (fun _ => mirrors_onError _ release_eq (mirrors_place _ _ (mirrors_array (h _) 1)))
        fun _ => mirrors_objectVariant hgone h

theorem mirrors_dataValue {variant variant' : MemM (Val .variant) (Mem .variant)}
    (h : Mirrors gone variant variant') : Mirrors gone (dataValueMem variant) (dataValueMem variant') := by
  refine mirrors_after _ (mirrors_plain _) fun mask => mirrors_onError _ release_eq (mirrors_place _ _ ?_)
  refine mirrors_both (mirrors_whenFlagged _ _ _ h) ?_
  refine mirrors_both (mirrors_whenFlagged _ _ _ (mirrors_plain _)) ?_
  refine mirrors_both (mirrors_whenFlagged _ _ _ (mirrors_plain _)) ?_
  refine mirrors_both (mirrors_whenFlagged _ _ _ (mirrors_plain _)) ?_
  exact mirrors_both (mirrors_whenFlagged _ _ _ (mirrors_plain _)) (mirrors_whenFlagged _ _ _ (mirrors_plain _))

mutual

theorem mirrors_type (fuel : Nat) (hgone : Covers gone contents) (h : ∀ t, Mirrors gone (jump t) (jump' t)) :
    (t : DataType) → Mirrors gone (typeMem fuel jump t) (typeFrom contents jump' fuel t)
  | .simple _ b => by
      rw [typeMem, typeFrom]
      exact mirrors_place _ _ (mirrors_simple fuel b)
  | .extensionObject => by
      rw [typeMem, typeFrom]
      exact mirrors_extensionObject h
  | .dataValue => by
      rw [typeMem, typeFrom]
      exact mirrors_dataValue (mirrors_variant hgone h)
  | .variant => by
      rw [typeMem, typeFrom]
      exact mirrors_variant hgone h
  | .structure _ members => by
      rw [typeMem, typeFrom]
      exact mirrors_onError _ release_eq (mirrors_place _ _ (mirrors_members fuel hgone h members))

theorem mirrors_members (fuel : Nat) (hgone : Covers gone contents) (h : ∀ t, Mirrors gone (jump t) (jump' t)) :
    (members : Members) → Mirrors gone (membersMem fuel jump members) (membersFrom contents jump' fuel members)
  | .nil => by
      rw [membersMem, membersFrom]
      exact mirrors_succeed _ _
  | .scalar t rest => by
      rw [membersMem, membersFrom]
      exact mirrors_place _ _ (mirrors_both (mirrors_type fuel hgone h t) (mirrors_members fuel hgone h rest))
  | .array t rest => by
      rw [membersMem, membersFrom]
      have harray := mirrors_array (mirrors_type fuel hgone h t)
      exact mirrors_place _ _ (mirrors_both (mirrors_after _ (mirrors_plain _) harray)
        (mirrors_members fuel hgone h rest))

end

theorem mirrors_decode (hgone : Covers gone contents) (fuel : Nat) :
    ∀ t, Mirrors gone (decodeMem fuel t) (decodeFrom contents fuel t) := by
  induction fuel with
  | zero =>
      intro t s s' r x t' _ hrun
      cases hrun
  | succ fuel ih => exact mirrors_type (fuel + 1) hgone ih

end Values

section Outcome

/-- A call of `Variant_decodeBinary`. -/
def decodeVariant (contents : Nat → IdVariable) (data : List UInt8) (offset : Nat) (heap : List Bool) :
    Option (Except StatusCode (Val .variant) × Mem .variant × Store) :=
  decodeFrom contents (data.length + 1) .variant (start data offset heap)

/-- Where type ids are read into variables that have not been set. -/
def unsetTypeIds (data : List UInt8) (offset : Nat) (heap : List Bool) : List Dec :=
  ((decodeMem (data.length + 1) .variant (start data offset heap)).map (·.2.2.typeIds)).getD []

structure SameOutcome (a b : Except StatusCode (Val .variant) × Mem .variant × Store) : Prop where
  result : a.1 = b.1
  destination : a.2.1 = b.2.1
  offset : a.2.2.dec.offset = b.2.2.dec.offset
  released : ∀ r, r ∈ a.2.2.log ↔ r ∈ b.2.2.log

/-- The call does not depend on what it finds in the variables, and frees
nothing but blocks that it has allocated itself. -/
structure Independent (data : List UInt8) (offset : Nat) (heap : List Bool) : Prop where
  same : ∀ contents contents' a b, decodeVariant contents data offset heap = some a →
    decodeVariant contents' data offset heap = some b → SameOutcome a b
  own : ∀ contents a, decodeVariant contents data offset heap = some a →
    ∀ r ∈ a.2.2.log, ∃ id < a.2.2.next, r = .block id

theorem decodeVariant_of_mem {contents : Nat → IdVariable} (hgone : Covers gone contents) {data : List UInt8}
    {offset : Nat} {heap : List Bool} {r : Except StatusCode (Val .variant)} {x : Mem .variant} {s : Store}
    (hrun : decodeMem (data.length + 1) .variant (start data offset heap) = some (r, x, s)) :
    ∃ s', decodeVariant contents data offset heap = some (r, x, s') ∧ Matches gone s s' :=
  mirrors_decode hgone _ _ _ _ r x s ⟨rfl, rfl, rfl, .nil⟩ hrun

theorem mem_returns (data : List UInt8) (offset : Nat) (heap : List Bool) :
    ∃ r x s, decodeMem (data.length + 1) .variant (start data offset heap) = some (r, x, s) := by
  obtain ⟨r, st, hvalue⟩ := PureDecoding.uaDecodeBinary_returns .variant data offset heap
  have hfollows := MemoryAgreement.follows_decode (data.length + 1) .variant (start data offset heap)
  have hsame : decodeBinary (data.length + 1) .variant (start data offset heap).dec = some (r, st) := hvalue
  rw [hsame, Option.map_eq_some_iff] at hfollows
  obtain ⟨⟨r', x, s⟩, hrun, _⟩ := hfollows
  exact ⟨r', x, s, hrun⟩

def stringAt (id : Nat) : IdVariable :=
    ⟨0, stringType, 0, ⟨.block id, 1⟩, ⟨0, 0, 0, [0, 0, 0, 0, 0, 0, 0, 0], length_zeros⟩⟩

/-- Decoding does not depend on the variables if and only if every type id that
is read into one of them can be read, or nothing can be read at all. -/
theorem decodeVariant_independent_iff (data : List UInt8) (offset : Nat) (heap : List Bool) :
    (∀ contents, ∃ a, decodeVariant contents data offset heap = some a) ∧
      (Independent data offset heap ↔ ∀ id ∈ unsetTypeIds data offset heap, unreadableId id = false) := by
  obtain ⟨r, x, s, hrun⟩ := mem_returns data offset heap
  have hanything : ∀ contents, Covers (fun _ => True) contents := fun _ => ⟨fun _ => trivial, fun _ => trivial⟩
  have hids : unsetTypeIds data offset heap = s.typeIds := by
    rw [unsetTypeIds, hrun]
    rfl
  obtain ⟨ids, htypeIds, _, new, hlog, hblocks, hcount⟩ := (cleans_decode _ .variant).1 _ r x s hrun
  have hnew : s.log = new := hlog.trans (List.append_nil new)
  have htypeIds' : s.typeIds = ids := htypeIds.trans (List.append_nil ids)
  refine ⟨fun contents => ?_, ?_⟩
  · obtain ⟨s', hrun', _⟩ := decodeVariant_of_mem (hanything contents) hrun
    exact ⟨_, hrun'⟩
  rw [hids, htypeIds']
  constructor
  · intro hindependent id hid
    by_contra hunreadable
    have hstray : s.log.count .unset ≠ 0 := by
      rw [hnew, hcount]
      exact (List.countP_pos_iff.mpr ⟨id, hid, by simpa using hunreadable⟩).ne'
    have hcovers : Covers (fun extra => extra = [.block s.next]) fun _ => stringAt s.next :=
      ⟨fun _ => rfl, fun _ => rfl⟩
    obtain ⟨s', hrun', hmatches⟩ := decodeVariant_of_mem hcovers hrun
    obtain ⟨_, rfl, hmem⟩ := hmatches.log.exists_gone hstray
    obtain ⟨id', hlt, heq⟩ := hindependent.own _ _ hrun' _ (hmem _ (List.mem_singleton_self _))
    obtain rfl := Release.block.inj heq
    rw [hmatches.next] at hlt
    exact absurd hlt (Nat.lt_irrefl _)
  · intro hreadable
    have hset : s.log.count .unset = 0 := by
      rw [hnew, hcount, List.countP_eq_zero]
      exact fun id hid => Bool.eq_false_iff.mp (hreadable id hid)
    have hevery : ∀ contents a, decodeVariant contents data offset heap = some a →
        a.1 = r ∧ a.2.1 = x ∧ a.2.2.dec = s.dec ∧ a.2.2.next = s.next ∧ a.2.2.log = s.log := by
      intro contents a ha
      obtain ⟨s', hrun', hmatches⟩ := decodeVariant_of_mem (hanything contents) hrun
      rw [hrun'] at ha
      obtain rfl := Option.some.inj ha
      exact ⟨rfl, rfl, hmatches.dec, hmatches.next, hmatches.log.eq_of_set hset⟩
    refine ⟨fun contents contents' a b ha hb => ?_, fun contents a ha y hy => ?_⟩
    · obtain ⟨hresult, hdestination, hdec, _, hreleased⟩ := hevery contents a ha
      obtain ⟨hresult', hdestination', hdec', _, hreleased'⟩ := hevery contents' b hb
      refine ⟨hresult.trans hresult'.symm, hdestination.trans hdestination'.symm, ?_, fun y => ?_⟩
      · rw [hdec, hdec']
      · rw [hreleased, hreleased']
    · obtain ⟨_, _, _, hnext, hreleased⟩ := hevery contents a ha
      rw [hnext]
      rw [hreleased] at hy
      cases y with
      | unset => exact absurd hset (List.count_pos_iff.mpr hy).ne'
      | block id =>
          have hmem : id ∈ blocksOf new := List.mem_filterMap.mpr ⟨_, hnew ▸ hy, rfl⟩
          have hrange := hblocks.subset (List.mem_append_left _ hmem)
          have hlt := (List.mem_range'_1.mp hrange).2
          exact ⟨id, by simpa [start] using hlt, rfl⟩

/-- A type id that announces a string and ends there. What is freed is what
was found in the variable. -/
theorem decodeVariant_frees_contents : ¬∀ data offset heap, Independent data offset heap := by
  intro h
  have hreleased := ((h [0x16, 0x03] 0 []).same (fun _ => stringAt 7) (fun _ => stringAt 8) _ _ rfl rfl).released
  have hmem := (hreleased (.block 7)).mp (List.mem_singleton_self _)
  exact absurd hmem (by decide)

end Outcome

end OpcUa.UnsetContents
