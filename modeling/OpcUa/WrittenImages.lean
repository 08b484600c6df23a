import OpcUa.ElementPaths
import OpcUa.SimpleRoundTrips
import OpcUa.WrittenBytes

namespace OpcUa.WrittenImages

open StatusCodes LittleEndian Buffers NodeIds DataTypes Values Writers WritePrograms WriteBounds WrittenBytes
open EncoderPrograms NodeIdRoundTrips SimpleRoundTrips
open EntryPoints (overwrite_nil)
open ElementPaths (overwrite_overwrite)

section Overwriting

end Overwriting

section Programs

variable {e : Enc} {size o : Nat}

def Headed : Prog → Prop
  | .skip | .fail _ | .write _ => True
  | .seq p q | .stop p q | .wrap p q => Headed p ∧ Headed q
  | .tagged head _ => Headed head ∧ wire head ≠ []

theorem overwrite_behind {p q : Prog} (h : (walk e.data.length p e.offset).1 = true)
    (hfirst : (p.run e).2.data = overwrite e.data e.offset (wire p))
    (hsecond : (q.run (p.run e).2).2.data = overwrite (p.run e).2.data (p.run e).2.offset (wire q)) :
    (q.run (p.run e).2).2.data = overwrite e.data e.offset (wire p ++ wire q) := by
  have heffect := effect_run (e := e) p
  rw [hsecond, hfirst, heffect.offset, walk_end h, overwrite_overwrite]

end Programs

section Values

theorem headed_of_encodable {p : Prog} (h : Encodable p) : Headed p := by
  induction p with
  | skip | fail code | write w => trivial
  | seq p q ihp ihq => exact ⟨ihp h.1, ihq h.2⟩
  | stop p q ihp ihq => exact ⟨ihp h.1, ihq h.2⟩
  | wrap header content ihh ihc => exact ⟨ihh h.1, ihc h.2⟩
  | tagged head options ih => exact ⟨ih h.1, h.2⟩

theorem headed_all {ps : List Prog} (h : ∀ p ∈ ps, Headed p) : Headed (Prog.seqAll ps) ∧ Headed (Prog.stopAll ps) := by
  induction ps with
  | nil => exact ⟨trivial, trivial⟩
  | cons p ps ih =>
      have hp := h p List.mem_cons_self
      obtain ⟨hseq, hstop⟩ := ih (fun q hq => h q (List.mem_cons_of_mem _ hq))
      exact ⟨⟨hp, hseq⟩, ⟨hp, hstop⟩⟩

theorem headed_option (b : Bool) {p : Prog} (h : Headed p) : Headed (Prog.optionally b p) := by
  cases b with
  | false => exact trivial
  | true => exact h

theorem headed_nodeId (n : NodeId) : Headed (nodeIdProg n) := by
  apply headed_of_encodable
  exact (encodable_nodeIdProg n).1

theorem headed_array (t : DataType) (length bytes : List UInt8) {items : List Prog} (h : ∀ p ∈ items, Headed p) :
    Headed (arrayProg t length bytes items) := by
  rw [arrayProg]
  refine ⟨trivial, ?_⟩
  split
  · trivial
  · exact (headed_all h).2

theorem headed_wrap (typeId : NodeId) {content : Prog} (h : Headed content) : Headed (wrapProg typeId content) :=
  ⟨⟨headed_nodeId _, trivial⟩, h⟩

theorem headed_variant (t : DataType) (length : Option (List UInt8)) {items : List Prog} (ds : List UInt32)
    (h : ∀ p ∈ items, Headed p) : Headed (variantProg t length items ds) := by
  unfold variantProg
  split
  · trivial
  · refine ⟨trivial, ?_, (headed_all ?_).1, headed_option _ (headed_array _ _ _ ?_)⟩
    · cases length <;> trivial
    · split
      · exact h
      · intro p hp
        obtain ⟨q, hq, rfl⟩ := List.mem_map.mp hp
        exact headed_wrap _ (h q hq)
    · intro p hp
      obtain ⟨d, _, rfl⟩ := List.mem_map.mp hp
      trivial

mutual

theorem headed_val : {t : DataType} → (v : Val t) → Headed (valProg v)
  | _, .simple (b := b) x => by
      rw [valProg]
      exact headed_of_encodable (encodable_simpleProg b x).1
  | _, .struct slots => by
      rw [valProg]
      exact headed_slots slots
  | _, .encoded typeId encoding body => by
      rw [valProg]
      exact ⟨headed_nodeId typeId, trivial, headed_option _ (headed_of_encodable (encodable_stringProg body).1)⟩
  | _, .decoded _ type data => by
      rw [valProg, decodedProg]
      split
      · trivial
      · exact headed_wrap _ (headed_val data)
  | _, .emptyVariant => by
      rw [valProg]
      trivial
  | _, .scalarVariant type data => by
      rw [valProg]
      refine headed_variant type none [] (fun p hp => ?_)
      rw [List.mem_singleton.mp hp]
      exact headed_val data
  | _, .arrayVariant type data ds => by
      rw [valProg]
      exact headed_variant type _ ds (headed_arr data)
  | _, .dataValue fields value => by
      rw [valProg]
      exact ⟨trivial, headed_option _ (headed_val value), headed_option _ trivial, headed_option _ trivial,
        headed_option _ trivial, headed_option _ trivial, headed_option _ trivial⟩

theorem headed_arr : {t : DataType} → (a : Arr t) → ∀ p ∈ arrProgs a, Headed p
  | _, .null => by
      rw [arrProgs]
      simp
  | _, .items vs => by
      rw [arrProgs]
      exact headed_vals vs

theorem headed_vals : {t : DataType} → (vs : Vals t) → ∀ p ∈ valsProgs vs, Headed p
  | _, .nil => by
      rw [valsProgs]
      simp
  | _, .cons v vs => by
      rw [valsProgs]
      exact List.forall_mem_cons.mpr ⟨headed_val v, headed_vals vs⟩

theorem headed_slots : {members : Members} → (slots : Slots members) → Headed (slotsProg slots)
  | _, .nil => by
      rw [slotsProg]
      trivial
  | _, .scalar v slots => by
      rw [slotsProg]
      exact ⟨headed_val v, headed_slots slots⟩
  | _, .array (.null) slots => by
      rw [slotsProg]
      exact ⟨headed_array _ _ _ (by simp), headed_slots slots⟩
  | _, .array (.items vs) slots => by
      rw [slotsProg]
      exact ⟨headed_array _ _ _ (headed_vals vs), headed_slots slots⟩

end

end Values

end OpcUa.WrittenImages
