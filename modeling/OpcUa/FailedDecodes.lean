import OpcUa.MemoryAgreement
import OpcUa.MemoryTracking
import OpcUa.PureDecoding

namespace OpcUa.FailedDecodes

open StatusCodes NodeIds DataTypes Values Decoding ValueDecoding Ledgers DecodedMemory MemoryReaders MemoryDecoding
open MemoryAgreement MemoryTracking
open Readers (Dec DecM)

section Objects

theorem tracks_header : Tracks unreadableId (fun _ => []) headerMem := by
  have hboth : Tracks unreadableId (fun x => x.1.held) (both nodeIdMem (plain byteDecodeBinary)) :=
    (tracks_both cleans_nodeId.1 (cleans_plain byteDecodeBinary).1).of_perm fun x => by rw [List.append_nil]
  intro s r u s' hrun
  simp only [headerMem] at hrun
  split at hrun
  · cases hrun
  · case _ code x s₀ hfirst =>
      obtain ⟨ids, hids, hbalanced⟩ := hboth s _ x s₀ hfirst
      cases hrun
      refine ⟨ids, hids, ?_⟩
      rw [Store.free, IdMem.release_eq]
      exact hbalanced.release (by rw [List.append_nil])
  · case _ typeId encoding x s₀ hfirst =>
      obtain ⟨ids, hids, hbalanced⟩ := hboth s _ x s₀ hfirst
      split at hrun
      · cases hrun
        refine ⟨ids, hids, ?_⟩
        rw [Store.free, IdMem.release_eq]
        exact hbalanced.release (by rw [List.append_nil])
      · case _ hknown =>
          cases hrun
          obtain ⟨s₁, hid, _⟩ := both_ok hfirst
          have hnumeric : typeId.identifier.isNumeric = true := by
            cases hkind : typeId.identifier.isNumeric with
            | true => rfl
            | false => exact absurd (.inr hkind) hknown
          simp only [numeric_held hid hnumeric] at hbalanced
          exact ⟨ids, hids, hbalanced⟩

theorem tracks_withLength {α μ : Type} {held : μ → List Nat} {m : MemM α μ} (stop : Int)
    (h : Tracks unreadableId held m) : Tracks unreadableId held (withLength stop m) := by
  intro s r x s' hrun
  simp only [withLength] at hrun
  split at hrun
  · cases hrun
  · case _ r₀ x₀ s₀ hm =>
      obtain ⟨ids, hids, hbalanced⟩ := h s r₀ x₀ s₀ hm
      split at hrun <;> cases hrun <;> exact ⟨ids, hids, hbalanced⟩

variable {jump : (t : DataType) → MemM (Val t) (Mem t)}

theorem held_encoded : held (.encoded nullBuffer) = [] := by
  rw [held]
  rfl

theorem tracks_encoded (f : UaString → Val .extensionObject) :
    Tracks unreadableId held (place f Mem.encoded bufferMem) :=
  tracks_place f cleans_buffer.1 fun body => by rw [held]

theorem cleans_content (h : ∀ t, Cleans unreadableId held (jump t)) (typeId : NodeId) :
    Cleans unreadableId held (contentMem jump typeId) := by
  refine cleans_of_eq fun s => ?_
  simp only [contentMem]
  refine ⟨after _ _ _, ?_, rfl⟩
  refine cleans_after (cleans_plain _).1 held_encoded fun length => cleans_onError ?_ release_eq held_deleted
  cases TypeTable.findDataType (contentId typeId) with
  | some type =>
      refine tracks_withLength _ (tracks_withBlock held_encoded fun id => ?_)
      refine keeps_place _ (h type).1.keeps fun x => ?_
      rw [held]
      exact List.perm_append_comm
  | none =>
      exact fun s₁ r x s' hrun => tracks_encoded _ (s₁.seek s.dec.offset) r x s' hrun

theorem cleans_extensionObject (h : ∀ t, Cleans unreadableId held (jump t)) :
    Cleans unreadableId held (extensionObjectMem jump) := by
  refine cleans_after tracks_header held_encoded fun p => ?_
  simp only []
  split
  · exact cleans_succeed _ held_encoded
  · split
    · exact cleans_onError (tracks_encoded _) release_eq held_deleted
    · exact cleans_content h p.1

end Objects

section Variants

variable {jump : (t : DataType) → MemM (Val t) (Mem t)}

theorem held_bufferOf {t : DataType} (hfixed : fixedSize t = true) (x : ArrMem t) :
    (bufferOf x).data.held = heldArr x := by
  cases x with
  | null | empty | raw id length =>
      rw [heldArr]
      rfl
  | cells id items =>
      rw [heldArr, heldCells_of_fixedSize hfixed]
      rfl

theorem heldArr_null {t : DataType} : heldArr (.null : ArrMem t) = [] := by rw [heldArr]

theorem held_variant {type : DataType} (x : ArrMem type) (s : Buffer) :
    held (.variant type x s) = heldArr x ++ s.data.held := by rw [held]

theorem held_nullVariant (type : DataType) : held (.variant type .null nullBuffer) = [] := by
  rw [held_variant, heldArr_null]
  rfl

theorem tracks_dimensions (h : ∀ t, Cleans unreadableId held (jump t)) (signedLength : Int) :
    Tracks unreadableId (fun s => s.data.held) (dimensionsMem jump signedLength) :=
  tracks_place _ (tracks_array (h _) signedLength) fun x => by rw [held_bufferOf (by decide)]

theorem cleans_arrayVariant (h : ∀ t, Cleans unreadableId held (jump t)) (type : DataType) (hasDimensions : Bool) :
    Cleans unreadableId held (arrayVariantMem jump type hasDimensions) := by
  refine cleans_after (cleans_plain _).1 (held_nullVariant type) fun signedLength => ?_
  refine cleans_onError ?_ release_eq held_deleted
  have harray := tracks_array (h type) signedLength
  cases hasDimensions with
  | true =>
      have hdimensions : ∀ p : Arr type × Int, Tracks unreadableId (fun s : Buffer => s.data.held)
          (place (fun ds => Val.arrayVariant type p.1 ds) id (dimensionsMem jump p.2)) :=
        fun p => tracks_place _ (tracks_dimensions h p.2) fun x => .refl _
      refine tracks_place id (tracks_followed (tracks_both harray (cleans_plain _).1) rfl hdimensions) fun x => ?_
      rw [held_variant, List.append_nil]
  | false =>
      refine tracks_place _ harray fun x => ?_
      rw [held_variant]
      exact (List.append_nil _).symm ▸ .refl _

/-- After an error the value holds nothing, so that its block is all there is
to free. -/
theorem cleans_pointee (h : ∀ t, Cleans unreadableId held (jump t)) (type : DataType) :
    Cleans unreadableId held (pointeeMem jump type) := by
  refine cleans_onError (tracks_withBlock (held_nullVariant type) fun id => ?_) release_eq held_deleted
  have hcell : ∀ x : Mem type, heldArr (.cells id (.cons x .nil)) = held x ++ [id] := by
    intro x
    rw [heldArr, heldCells, heldCells, List.append_nil]
  have hvalue : Keeps unreadableId heldArr [id]
      (place (Val.scalarVariant type) (fun x => ArrMem.cells id (.cons x .nil)) (jump type)) :=
    keeps_place _ (h type).1.keeps fun x => by
      rw [hcell]
      exact List.perm_append_comm
  refine keeps_place _ (keeps_onError hvalue ?_ fun _ => heldArr_null) fun x => ?_
  · intro s code y s' hrun
    obtain ⟨x, hjump, rfl⟩ := place_error hrun
    rw [hcell, (h type).2 s code x s' hjump]
    rfl
  · rw [held_variant]
    exact (List.append_nil _).symm ▸ .refl _

theorem tracks_typeId : Tracks unreadableId (fun _ => []) typeIdMem := by
  intro s r u s' hrun
  simp only [typeIdMem] at hrun
  split at hrun
  · cases hrun
  · case _ code x s₀ hid =>
      obtain ⟨⟨ids, hids, hbalanced⟩, herror, _⟩ := unsetNodeId_spec hid
      rw [herror code rfl] at hbalanced
      cases hrun
      exact ⟨ids, hids, hbalanced⟩
  · case _ typeId x s₀ hid =>
      obtain ⟨⟨ids, hids, hbalanced⟩, _, hok⟩ := unsetNodeId_spec hid
      have hbyte : Keeps unreadableId (fun _ => heldId x) (heldId x)
          (place (Prod.mk typeId) id (plain byteDecodeBinary)) :=
        keeps_place _ (cleans_plain _).1.keeps fun _ => by rw [List.append_nil]
      obtain ⟨ids', hids', hbalanced'⟩ := keeps_discarded hbyte (fun _ => hok typeId rfl) _ _ _ s₀ r u s' hbalanced hrun
      refine ⟨ids' ++ ids, by rw [hids', hids, List.append_assoc], ?_⟩
      rw [List.countP_append]
      exact hbalanced'

theorem cleans_objectVariant (h : ∀ t, Cleans unreadableId held (jump t)) :
    Cleans unreadableId held (objectVariantMem jump) := by
  have hpointee : ∀ {ids : List Dec} {s s₀ s' : Store} {r : Except StatusCode (Val .variant)} {x : Mem .variant}
      (type : DataType) (offset : Nat), s₀.typeIds = ids ++ s.typeIds →
      Balanced s.next s.log s₀.next s₀.log [] (ids.countP unreadableId) →
      pointeeMem jump type (s₀.seek offset) = some (r, x, s') →
      ∃ ids', s'.typeIds = ids' ++ s.typeIds ∧
        Balanced s.next s.log s'.next s'.log (held x) (ids'.countP unreadableId) := by
    intro ids s s₀ s' r x type offset hids hbalanced hrun
    obtain ⟨ids', hids', hbalanced'⟩ := (cleans_pointee h type).1.keeps _ _ _ (s₀.seek offset) r x s' hbalanced hrun
    refine ⟨ids' ++ ids, hids'.trans ?_, ?_⟩
    · rw [List.append_assoc, ← hids]
      rfl
    · rw [List.countP_append]
      exact hbalanced'
  refine ⟨fun s r x s' hrun => ?_, fun s code x s' hrun => ?_⟩
  · simp only [objectVariantMem] at hrun
    split at hrun
    · cases hrun
    · case _ code u s₀ hid =>
        obtain ⟨ids, hids, hbalanced⟩ := tracks_typeId s _ u s₀ hid
        cases hrun
        exact ⟨ids, hids, by rw [held]; exact hbalanced⟩
    · case _ typeId encoding u s₀ hid =>
        obtain ⟨ids, hids, hbalanced⟩ := tracks_typeId s _ u s₀ hid
        split at hrun
        · exact hpointee _ s₀.dec.offset hids hbalanced hrun
        · exact hpointee _ s.dec.offset hids hbalanced hrun
  · simp only [objectVariantMem] at hrun
    split at hrun
    · cases hrun
    · cases hrun
      rw [held]
    · split at hrun
      · exact (cleans_pointee h _).2 _ code x s' hrun
      · exact (cleans_pointee h _).2 _ code x s' hrun

theorem cleans_variant (h : ∀ t, Cleans unreadableId held (jump t)) :
    Cleans unreadableId held (variantMem jump) := by
  refine cleans_after (cleans_plain _).1 (by rw [held]) fun encodingByte => ?_
  simp only []
  split
  · exact cleans_fail _ (by rw [held])
  · split
    · exact cleans_arrayVariant h _ _
    · split
      · refine cleans_onError (tracks_place _ (tracks_array (h _) 1) fun x => ?_) release_eq held_deleted
        rw [held_variant]
        exact (List.append_nil _).symm ▸ .refl _
      · exact cleans_objectVariant h

theorem cleans_dataValue {variant : MemM (Val .variant) (Mem .variant)} (h : Cleans unreadableId held variant) :
    Cleans unreadableId held (dataValueMem variant) := by
  refine cleans_after (cleans_plain _).1 (by rw [held, held]) fun mask => ?_
  refine cleans_onError ?_ release_eq held_deleted
  refine tracks_place _ (tracks_both (tracks_whenFlagged _ _ h.1 (by rw [held])) (tracks_both (tracks_number _ _ _)
    (tracks_both (tracks_number _ _ _) (tracks_both (tracks_number _ _ _) (tracks_both (tracks_number _ _ _)
      (tracks_number _ _ _)))))) fun x => ?_
  simp only [held, List.append_nil]
  exact .refl _

end Variants

section Types

variable {jump : (t : DataType) → MemM (Val t) (Mem t)}

mutual

theorem cleans_type (fuel : Nat) (h : ∀ t, Cleans unreadableId held (jump t)) :
    (t : DataType) → Cleans unreadableId held (typeMem fuel jump t)
  | .simple _ b => by
      rw [typeMem]
      exact cleans_place _ (cleans_simple fuel b) fun x => by rw [held]
  | .extensionObject => by
      rw [typeMem]
      exact cleans_extensionObject h
  | .dataValue => by
      rw [typeMem]
      exact cleans_dataValue (cleans_variant h)
  | .variant => by
      rw [typeMem]
      exact cleans_variant h
  | .structure _ members => by
      rw [typeMem]
      refine cleans_onError (tracks_place _ (tracks_members fuel h members) fun x => ?_) release_eq held_deleted
      rw [held]

/-- The remaining members are decoded also after an error, and all are deleted
at the end. -/
theorem tracks_members (fuel : Nat) (h : ∀ t, Cleans unreadableId held (jump t)) :
    (members : Members) → Tracks unreadableId heldSlots (membersMem fuel jump members)
  | .nil => by
      rw [membersMem]
      exact (cleans_succeed _ (by rw [heldSlots])).1
  | .scalar t rest => by
      rw [membersMem]
      refine tracks_place _ (tracks_both (cleans_type fuel h t).1 (tracks_members fuel h rest)) fun x => ?_
      rw [heldSlots]
  | .array t rest => by
      rw [membersMem]
      have harray := fun n => tracks_array (cleans_type fuel h t) n
      refine tracks_place _ (tracks_both (tracks_after (cleans_plain _).1 heldArr_null harray)
        (tracks_members fuel h rest)) fun x => ?_
      rw [heldSlots]

end

theorem cleans_decode (fuel : Nat) : ∀ t, Cleans unreadableId held (decodeMem fuel t) := by
  induction fuel with
  | zero => exact fun t => ⟨(fun _ _ _ _ h => by cases h), fun _ _ _ _ h => by cases h⟩
  | succ fuel ih => exact cleans_type (fuel + 1) ih

theorem cleans_byte {typeId : NodeId} : Cleans unreadableId held
    (place (Val.simple (b := .byte)) (Mem.simple (b := .byte)) (plain byteDecodeBinary) :
      MemM (Val (.simple typeId .byte)) (Mem (.simple typeId .byte))) :=
  cleans_place _ (cleans_plain _) fun x => by
    rw [held]
    exact .refl _

theorem tracks_byteArray : Tracks unreadableId (fun s => s.data.held) byteArrayMem := by
  refine tracks_place _ (tracks_after (cleans_plain _).1 heldArr_null fun n => tracks_array cleans_byte n) fun x => ?_
  rw [held_bufferOf (by decide)]

theorem cleans_ua (fuel : Nat) (t : DataType) : Cleans unreadableId held (uaMem fuel t) := by
  match t with
  | .simple _ b =>
      cases b with
      | string | byteString | xmlElement =>
          exact cleans_onError (tracks_place _ tracks_byteArray fun x => by rw [held]; exact .refl _) release_eq
            held_deleted
      | expandedNodeId =>
          refine cleans_onError (tracks_place _ (tracks_both cleans_nodeId.1 (tracks_both cleans_buffer.1
            (cleans_plain _).1)) fun x => ?_) release_eq held_deleted
          rw [held, List.append_nil]
          exact .refl _
      | localizedText =>
          refine cleans_onError (tracks_place _ (tracks_both cleans_buffer.1 cleans_buffer.1) fun x => ?_) release_eq
            held_deleted
          rw [held]
          exact .refl _
      | _ => exact cleans_onError (cleans_decode fuel _).1 release_eq held_deleted
  | .extensionObject | .dataValue | .variant => exact cleans_onError (cleans_decode fuel _).1 release_eq held_deleted
  | .structure _ _ => exact cleans_decode fuel _

end Types

section Outcome

/-- A call of `UA_decodeBinary`. -/
def start (data : List UInt8) (offset : Nat) (heap : List Bool) : Store := ⟨⟨data, offset, [], heap⟩, 0, [], []⟩

/-- The blocks that are freed if `content` is what is found in a variable that
has not been set. -/
def freed (content : List Nat) (log : List Release) : List Nat :=
  log.flatMap fun
    | .block id => [id]
    | .unset => content

/-- The destination is empty, each block of the call has been freed once and
nothing else has been, and `UA_deleteMembers` has nothing to free. -/
def LeavesNothing {t : DataType} (x : Mem t) (s : Store) : Prop :=
  Emptied x ∧ (∀ content, (freed content s.log).Perm (List.range s.next)) ∧ release x = []

theorem freed_eq_blocks {content : List Nat} {log : List Release} (h : log.count .unset = 0) :
    freed content log = blocksOf log := by
  induction log with
  | nil => rfl
  | cons r log ih =>
      cases r with
      | block id =>
          rw [List.count_cons_of_ne (by simp)] at h
          exact congrArg (List.cons id) (ih h)
      | unset => simp at h

theorem freed_of_unset {log : List Release} (h : log.count .unset ≠ 0) (id : Nat) : id ∈ freed [id] log :=
  List.mem_flatMap.mpr ⟨.unset, List.count_pos_iff.mp (Nat.pos_of_ne_zero h), List.mem_singleton_self id⟩

theorem freed_perm_iff {log : List Release} {n : Nat} (h : (blocksOf log).Perm (List.range n)) :
    (∀ content, (freed content log).Perm (List.range n)) ↔ log.count .unset = 0 := by
  constructor
  · intro hfreed
    by_contra hne
    have hmem := (hfreed [n]).mem_iff.mp (freed_of_unset hne n)
    exact absurd (List.mem_range.mp hmem) (Nat.lt_irrefl n)
  · intro hzero content
    rw [freed_eq_blocks hzero]
    exact h

/-- `UA_deleteMembers` comes last where the decoder itself has not cleaned up. -/
theorem emptied_of_error (fuel : Nat) (t : DataType) {s s' : Store} {code : StatusCode} {x : Mem t}
    (hrun : uaMem fuel t s = some (.error code, x, s')) : Emptied x := by
  have hdeleted : ∀ {m : MemM (Val t) (Mem t)}, onError release deleted m s = some (.error code, x, s') →
      Emptied x := by
    intro m h
    obtain ⟨x₀, _, _, rfl, _⟩ := onError_error h
    exact emptied_deleted x₀
  match t with
  | .simple _ b => cases b <;> exact hdeleted hrun
  | .extensionObject | .dataValue | .variant => exact hdeleted hrun
  | .structure _ _ =>
      cases fuel with
      | zero => cases hrun
      | succ fuel =>
          rw [uaMem, decodeMem, typeMem] at hrun
          exact hdeleted hrun

/-- A failed `UA_decodeBinary` leaves nothing behind, if and only if no Variant
on the way had a type id that cannot be read: that one is decoded into a
variable that has not been set, and deleted all the same. -/
theorem failedDecode_leavesNothing_iff (t : DataType) (data : List UInt8) (offset : Nat) (heap : List Bool)
    (hfails : ∃ code st, uaDecodeBinary (data.length + 1) t ⟨data, offset, [], heap⟩ = some (.error code, st)) :
    ∃ code x s', uaMem (data.length + 1) t (start data offset heap) = some (.error code, x, s') ∧
      (LeavesNothing x s' ↔ ∀ id ∈ s'.typeIds, unreadableId id = false) := by
  obtain ⟨code, st, hvalue⟩ := hfails
  have hfollows := follows_ua (data.length + 1) t (start data offset heap)
  rw [show (start data offset heap).dec = ⟨data, offset, [], heap⟩ from rfl, hvalue, Option.map_eq_some_iff] at hfollows
  obtain ⟨⟨r, x, s'⟩, hrun, hresult⟩ := hfollows
  cases hresult
  refine ⟨code, x, s', hrun, ?_⟩
  obtain ⟨ids, hids, hbalanced⟩ := (cleans_ua _ t).1 _ _ x s' hrun
  have hheld : held x = [] := (cleans_ua _ t).2 _ code x s' hrun
  obtain ⟨_, new, hlog, hblocks, hcount⟩ := hbalanced
  have hlog' : s'.log = new := hlog.trans (List.append_nil new)
  have hids' : s'.typeIds = ids := hids.trans (List.append_nil ids)
  have hperm : (blocksOf s'.log).Perm (List.range s'.next) := by
    rw [hheld, List.append_nil] at hblocks
    rw [hlog', List.range_eq_range']
    exact hblocks
  have hrelease : release x = [] := by rw [release_eq, hheld]; rfl
  rw [LeavesNothing, freed_perm_iff hperm, hlog', hcount, hids', List.countP_eq_zero]
  constructor
  · rintro ⟨_, hnone, _⟩ id hid
    exact Bool.eq_false_iff.mpr (hnone id hid)
  · intro hnone
    exact ⟨emptied_of_error _ t hrun, fun id hid => Bool.eq_false_iff.mp (hnone id hid), hrelease⟩

/-- The block for the ExtensionObject is freed again when its body turns out
to be too long. -/
theorem longBody_leavesNothing :
    ∃ code x s', uaMem 9 .variant (start [0x16, 0x00, 0xff, 0x01, 0x09, 0x00, 0x00, 0x00] 0 []) =
        some (.error code, x, s') ∧ s'.log ≠ [] ∧ LeavesNothing x s' := by
  obtain ⟨code, x, s', hrun, hiff⟩ :=
    failedDecode_leavesNothing_iff .variant [0x16, 0x00, 0xff, 0x01, 0x09, 0x00, 0x00, 0x00] 0 [] ⟨_, _, rfl⟩
  have hseen : (uaMem 9 .variant (start [0x16, 0x00, 0xff, 0x01, 0x09, 0x00, 0x00, 0x00] 0 [])).map
      (fun r => (r.2.2.log.isEmpty, r.2.2.typeIds.all (unreadableId · == false))) = some (false, true) := by
    decide +kernel
  rw [show uaMem 9 .variant _ = _ from hrun] at hseen
  obtain ⟨hlog, hids⟩ := Prod.mk.inj (Option.some.inj hseen)
  refine ⟨code, x, s', hrun, ?_, hiff.mpr fun id hid => eq_of_beq (List.all_eq_true.mp hids id hid)⟩
  rintro hnil
  rw [hnil] at hlog
  cases hlog

/-- The type id says that it is a string, and ends there. -/
theorem cutTypeId_leaves_stray :
    ∃ code x s', uaMem 3 .variant (start [0x16, 0x03] 0 []) = some (.error code, x, s') ∧ ¬LeavesNothing x s' := by
  refine ⟨_, _, _, rfl, fun h => ?_⟩
  have hlength := (h.2.1 [0]).length_eq
  exact absurd hlength (by decide)

end Outcome

end OpcUa.FailedDecodes
