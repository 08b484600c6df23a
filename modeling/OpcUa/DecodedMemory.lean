import OpcUa.Ledgers
import OpcUa.TypeTable

namespace OpcUa.DecodedMemory

open NodeIds DataTypes Ledgers

/-- A pointer of the destination. `empty` is `UA_EMPTY_ARRAY_SENTINEL`. -/
inductive Ptr
  | null | empty
  | block (id : Nat)
deriving DecidableEq, Repr

namespace Ptr

def held : Ptr → List Nat
  | .block id => [id]
  | _ => []

/-- `UA_free((void*)((uintptr_t)p & ~(uintptr_t)UA_EMPTY_ARRAY_SENTINEL))` -/
def release : Ptr → List Release
  | .block id => [.block id]
  | _ => []

theorem release_eq (p : Ptr) : p.release = p.held.map .block := by
  cases p <;> rfl

end Ptr

/-- `UA_String`, or the array dimensions of a variant. -/
structure Buffer where
  data : Ptr
  length : Nat
deriving DecidableEq, Repr

def nullBuffer : Buffer := ⟨.null, 0⟩

/-- `UA_NodeId` apart from its numbers. Strings and byte strings have a
pointer, the other kinds have none. -/
inductive IdMem
  | plain
  | text (s : Buffer)
deriving DecidableEq, Repr

namespace IdMem

def held : IdMem → List Nat
  | .plain => []
  | .text s => s.data.held

/-- `NodeId_deleteMembers`: what is freed. -/
def release : IdMem → List Release
  | .plain => []
  | .text s => s.data.release

/-- `NodeId_deleteMembers`: what is left. -/
def deleted : IdMem → IdMem
  | .plain => .plain
  | .text _ => .text nullBuffer

theorem release_eq (n : IdMem) : n.release = n.held.map .block := by
  cases n with
  | plain => rfl
  | text s => exact s.data.release_eq

theorem held_deleted (n : IdMem) : n.deleted.held = [] := by
  cases n <;> rfl

end IdMem

/-- What `NodeId_decodeBinary` has assigned when it gives up or is done:
nothing at all, the kind of an id without pointer, or the kind of a string and
the string itself if its decoder came to that. -/
inductive IdWrite
  | nothing
  | plain
  | text (s : Option Buffer)
deriving DecidableEq, Repr

namespace IdWrite

def zeroed : IdWrite → IdMem
  | .nothing | .plain => .plain
  | .text s => .text (s.getD nullBuffer)

/-- `NodeId_deleteMembers` of a variable that held nothing before. -/
def release : IdWrite → List Release
  | .nothing | .text none => [.unset]
  | .plain => []
  | .text (some s) => s.data.release

end IdWrite

/-- `UA_DiagnosticInfo`: `innerDiagnosticInfo` is NULL or a block. -/
inductive InfoMem
  | plain (additionalInfo : Buffer)
  | nested (additionalInfo : Buffer) (id : Nat) (inner : InfoMem)
deriving DecidableEq, Repr

namespace InfoMem

def held : InfoMem → List Nat
  | .plain additionalInfo => additionalInfo.data.held
  | .nested additionalInfo id inner => additionalInfo.data.held ++ (inner.held ++ [id])

/-- `DiagnosticInfo_deleteMembers` -/
def release : InfoMem → List Release
  | .plain additionalInfo => additionalInfo.data.release
  | .nested additionalInfo id inner => additionalInfo.data.release ++ (inner.release ++ [.block id])

theorem release_eq (x : InfoMem) : x.release = x.held.map .block := by
  induction x with
  | plain additionalInfo => exact additionalInfo.data.release_eq
  | nested additionalInfo id inner ih =>
      rw [release, held, ih, additionalInfo.data.release_eq, List.map_append, List.map_append]
      rfl

end InfoMem

@[reducible] def SimpleMem : Builtin → Type
  | .string | .byteString | .xmlElement => Buffer
  | .nodeId => IdMem
  | .expandedNodeId => IdMem × Buffer
  | .localizedText => Buffer × Buffer
  | .diagnosticInfo => InfoMem
  | _ => Unit

namespace SimpleMem

def held : (b : Builtin) → SimpleMem b → List Nat
  | .string, s | .byteString, s | .xmlElement, s => s.data.held
  | .nodeId, n => IdMem.held n
  | .expandedNodeId, x => IdMem.held x.1 ++ x.2.data.held
  | .localizedText, x => x.1.data.held ++ x.2.data.held
  | .diagnosticInfo, x => InfoMem.held x
  | .boolean, _ | .sbyte, _ | .byte, _ | .int16, _ | .uint16, _ | .int32, _ | .uint32, _ | .int64, _ | .uint64, _
  | .float, _ | .double, _ | .dateTime, _ | .guid, _ | .statusCode, _ => []

def release : (b : Builtin) → SimpleMem b → List Release
  | .string, s | .byteString, s | .xmlElement, s => s.data.release
  | .nodeId, n => IdMem.release n
  | .expandedNodeId, x => IdMem.release x.1 ++ x.2.data.release
  | .localizedText, x => x.1.data.release ++ x.2.data.release
  | .diagnosticInfo, x => InfoMem.release x
  | .boolean, _ | .sbyte, _ | .byte, _ | .int16, _ | .uint16, _ | .int32, _ | .uint32, _ | .int64, _ | .uint64, _
  | .float, _ | .double, _ | .dateTime, _ | .guid, _ | .statusCode, _ => []

def deleted : (b : Builtin) → SimpleMem b → SimpleMem b
  | .string, _ | .byteString, _ | .xmlElement, _ => nullBuffer
  | .nodeId, n => IdMem.deleted n
  | .expandedNodeId, x => (IdMem.deleted x.1, nullBuffer)
  | .localizedText, _ => (nullBuffer, nullBuffer)
  | .diagnosticInfo, _ => .plain nullBuffer
  | .boolean, x | .sbyte, x | .byte, x | .int16, x | .uint16, x | .int32, x | .uint32, x | .int64, x | .uint64, x
  | .float, x | .double, x | .dateTime, x | .guid, x | .statusCode, x => x

theorem release_eq (b : Builtin) (x : SimpleMem b) : release b x = (held b x).map .block := by
  cases b with
  | string | byteString | xmlElement => exact x.data.release_eq
  | nodeId => exact IdMem.release_eq x
  | expandedNodeId =>
      rw [release, held, IdMem.release_eq, x.2.data.release_eq, List.map_append]
  | localizedText =>
      rw [release, held, x.1.data.release_eq, x.2.data.release_eq, List.map_append]
  | diagnosticInfo => exact InfoMem.release_eq x
  | _ => rfl

theorem held_deleted (b : Builtin) (x : SimpleMem b) : held b (deleted b x) = [] := by
  cases b with
  | nodeId => exact IdMem.held_deleted x
  | expandedNodeId =>
      rw [deleted, held, IdMem.held_deleted]
      rfl
  | _ => rfl

theorem held_of_fixedSize (b : Builtin) (x : SimpleMem b) (h : (b.zeroCopyable || b == .guid) = true) :
    held b x = [] := by
  cases b <;> first | rfl | cases h

end SimpleMem

mutual

/-- The destination of a decoder: what it holds besides numbers. A length that
does not match the elements cannot be expressed. -/
inductive Mem : DataType → Type
  | simple {typeId : NodeId} {b : Builtin} (x : SimpleMem b) : Mem (.simple typeId b)
  | struct {info : StructInfo} {members : Members} (slots : SlotsMem members) : Mem (.structure info members)
  | encoded (body : Buffer) : Mem .extensionObject
  | decoded (type : DataType) (id : Nat) (data : Mem type) : Mem .extensionObject
  | deletedContent : Mem .extensionObject
  | noVariant : Mem .variant
  | variant (type : DataType) (data : ArrMem type) (dimensions : Buffer) : Mem .variant
  | dataValue (value : Mem .variant) : Mem .dataValue

/-- `raw` are elements that have been copied, `length` of them by the length
field. The elements of `cells` have been decoded one by one. -/
inductive ArrMem : DataType → Type
  | null {t : DataType} : ArrMem t
  | empty {t : DataType} : ArrMem t
  | raw {t : DataType} (id length : Nat) : ArrMem t
  | cells {t : DataType} (id : Nat) (items : Cells t) : ArrMem t

inductive Cells : DataType → Type
  | nil {t : DataType} : Cells t
  | cons {t : DataType} (m : Mem t) (items : Cells t) : Cells t

inductive SlotsMem : Members → Type
  | nil : SlotsMem .nil
  | scalar {t : DataType} {rest : Members} (m : Mem t) (slots : SlotsMem rest) : SlotsMem (.scalar t rest)
  | array {t : DataType} {rest : Members} (a : ArrMem t) (slots : SlotsMem rest) : SlotsMem (.array t rest)

end

section Held

mutual

def held : {t : DataType} → Mem t → List Nat
  | _, .simple (b := b) x => SimpleMem.held b x
  | _, .struct slots => heldSlots slots
  | _, .encoded body => body.data.held
  | _, .decoded _ id data => held data ++ [id]
  | _, .deletedContent => []
  | _, .noVariant => []
  | _, .variant _ data dimensions => heldArr data ++ dimensions.data.held
  | _, .dataValue value => held value

def heldArr : {t : DataType} → ArrMem t → List Nat
  | _, .null => []
  | _, .empty => []
  | _, .raw id _ => [id]
  | _, .cells id items => heldCells items ++ [id]

def heldCells : {t : DataType} → Cells t → List Nat
  | _, .nil => []
  | _, .cons m items => held m ++ heldCells items

def heldSlots : {members : Members} → SlotsMem members → List Nat
  | _, .nil => []
  | _, .scalar m slots => held m ++ heldSlots slots
  | _, .array a slots => heldArr a ++ heldSlots slots

end

end Held

section Deletion

mutual

/-- The flag of the generator: values of the type hold no pointers. -/
def fixedSize : DataType → Bool
  | .simple _ b => b.zeroCopyable || b == .guid
  | .structure _ members => fixedMembers members
  | _ => false

def fixedMembers : Members → Bool
  | .nil => true
  | .scalar t rest => fixedSize t && fixedMembers rest
  | .array _ _ => false

end

mutual

/-- `UA_deleteMembers`: what is freed, in this order. A variant counts its
`arrayLength` of 0 as 1 if it has data, which is how a scalar is stored. -/
def release : {t : DataType} → Mem t → List Release
  | _, .simple (b := b) x => SimpleMem.release b x
  | _, .struct slots => releaseSlots slots
  | _, .encoded body => body.data.release
  | _, .decoded _ id data => release data ++ [.block id]
  | _, .deletedContent => []
  | _, .noVariant => []
  | _, .variant _ data dimensions => releaseArr data ++ dimensions.data.release
  | _, .dataValue value => release value

/-- `UA_Array_delete` -/
def releaseArr : {t : DataType} → ArrMem t → List Release
  | _, .null => []
  | _, .empty => []
  | _, .raw id _ => [.block id]
  | t, .cells id items => (if fixedSize t then [] else releaseCells items) ++ [.block id]

def releaseCells : {t : DataType} → Cells t → List Release
  | _, .nil => []
  | _, .cons m items => release m ++ releaseCells items

def releaseSlots : {members : Members} → SlotsMem members → List Release
  | _, .nil => []
  | _, .scalar m slots => release m ++ releaseSlots slots
  | _, .array a slots => releaseArr a ++ releaseSlots slots

end

mutual

/-- `UA_deleteMembers`: what is left. -/
def deleted : {t : DataType} → Mem t → Mem t
  | _, .simple (b := b) x => .simple (SimpleMem.deleted b x)
  | _, .struct slots => .struct (deletedSlots slots)
  | _, .encoded _ => .encoded nullBuffer
  | _, .decoded _ _ _ => .deletedContent
  | _, .deletedContent => .deletedContent
  | _, .noVariant => .noVariant
  -- only data behind the sentinel is deleted, so an empty array stays one
  | _, .variant type (.empty) _ => .variant type .empty nullBuffer
  | _, .variant type _ _ => .variant type .null nullBuffer
  | _, .dataValue value => .dataValue (deleted value)

def deletedSlots : {members : Members} → SlotsMem members → SlotsMem members
  | _, .nil => .nil
  | _, .scalar m slots => .scalar (deleted m) (deletedSlots slots)
  | _, .array _ slots => .array .null (deletedSlots slots)

end

mutual

theorem held_of_fixedSize : {t : DataType} → (m : Mem t) → fixedSize t = true → held m = []
  | _, .simple (b := b) x, h => by
      rw [held]
      exact SimpleMem.held_of_fixedSize b x h
  | _, .struct slots, h => by
      rw [held]
      exact heldSlots_of_fixedSize slots h

theorem heldSlots_of_fixedSize : {members : Members} → (slots : SlotsMem members) → fixedMembers members = true →
    heldSlots slots = []
  | _, .nil, _ => by rw [heldSlots]
  | _, .scalar m slots, h => by
      simp only [fixedMembers, Bool.and_eq_true] at h
      rw [heldSlots, held_of_fixedSize m h.1, heldSlots_of_fixedSize slots h.2]
      rfl

end

theorem heldCells_of_fixedSize {t : DataType} (h : fixedSize t = true) : (items : Cells t) → heldCells items = []
  | .nil => by rw [heldCells]
  | .cons m items => by
      rw [heldCells, held_of_fixedSize m h, heldCells_of_fixedSize h items]
      rfl

mutual

theorem release_eq : {t : DataType} → (m : Mem t) → release m = (held m).map .block
  | _, .simple (b := b) x => by rw [release, held, SimpleMem.release_eq]
  | _, .struct slots => by rw [release, held, releaseSlots_eq slots]
  | _, .encoded body => by rw [release, held, Ptr.release_eq]
  | _, .decoded _ id data => by
      rw [release, held, release_eq data, List.map_append]
      rfl
  | _, .deletedContent => by
      rw [release, held]
      rfl
  | _, .noVariant => by
      rw [release, held]
      rfl
  | _, .variant _ data dimensions => by rw [release, held, releaseArr_eq data, Ptr.release_eq, List.map_append]
  | _, .dataValue value => by rw [release, held, release_eq value]

theorem releaseArr_eq : {t : DataType} → (a : ArrMem t) → releaseArr a = (heldArr a).map .block
  | _, .null => by
      rw [releaseArr, heldArr]
      rfl
  | _, .empty => by
      rw [releaseArr, heldArr]
      rfl
  | _, .raw id _ => by
      rw [releaseArr, heldArr]
      rfl
  | t, .cells id items => by
      rw [releaseArr, heldArr, List.map_append]
      cases hfixed : fixedSize t with
      | true =>
          rw [heldCells_of_fixedSize hfixed items]
          rfl
      | false =>
          rw [releaseCells_eq items]
          rfl

theorem releaseCells_eq : {t : DataType} → (items : Cells t) → releaseCells items = (heldCells items).map .block
  | _, .nil => by
      rw [releaseCells, heldCells]
      rfl
  | _, .cons m items => by rw [releaseCells, heldCells, release_eq m, releaseCells_eq items, List.map_append]

theorem releaseSlots_eq : {members : Members} → (slots : SlotsMem members) →
    releaseSlots slots = (heldSlots slots).map .block
  | _, .nil => by
      rw [releaseSlots, heldSlots]
      rfl
  | _, .scalar m slots => by rw [releaseSlots, heldSlots, release_eq m, releaseSlots_eq slots, List.map_append]
  | _, .array a slots => by rw [releaseSlots, heldSlots, releaseArr_eq a, releaseSlots_eq slots, List.map_append]

end

mutual

theorem held_deleted : {t : DataType} → (m : Mem t) → held (deleted m) = []
  | _, .simple (b := b) x => by rw [deleted, held, SimpleMem.held_deleted]
  | _, .struct slots => by rw [deleted, held, heldSlots_deleted slots]
  | _, .encoded _ => by
      rw [deleted, held]
      rfl
  | _, .decoded _ _ _ => by rw [deleted, held]
  | _, .deletedContent => by rw [deleted, held]
  | _, .noVariant => by rw [deleted, held]
  | _, .variant _ data _ => by
      cases data <;> rw [deleted, held, heldArr] <;> first | rfl | simp
  | _, .dataValue value => by rw [deleted, held, held_deleted value]

theorem heldSlots_deleted : {members : Members} → (slots : SlotsMem members) → heldSlots (deletedSlots slots) = []
  | _, .nil => by rw [deletedSlots, heldSlots]
  | _, .scalar m slots => by
      rw [deletedSlots, heldSlots, held_deleted m, heldSlots_deleted slots]
      rfl
  | _, .array _ slots => by
      rw [deletedSlots, heldSlots, heldArr, heldSlots_deleted slots]
      rfl

end

end Deletion

section Emptied

def IdMem.Emptied : IdMem → Prop
  | .plain => True
  | .text s => s = nullBuffer

def InfoMem.Emptied : InfoMem → Prop
  | .plain additionalInfo => additionalInfo = nullBuffer
  | .nested _ _ _ => False

def SimpleMem.Emptied : (b : Builtin) → SimpleMem b → Prop
  | .string, s | .byteString, s | .xmlElement, s => s = nullBuffer
  | .nodeId, n => IdMem.Emptied n
  | .expandedNodeId, x => IdMem.Emptied x.1 ∧ x.2 = nullBuffer
  | .localizedText, x => x.1 = nullBuffer ∧ x.2 = nullBuffer
  | .diagnosticInfo, x => InfoMem.Emptied x
  | .boolean, _ | .sbyte, _ | .byte, _ | .int16, _ | .uint16, _ | .int32, _ | .uint32, _ | .int64, _ | .uint64, _
  | .float, _ | .double, _ | .dateTime, _ | .guid, _ | .statusCode, _ => True

/-- A variant without data: a null pointer or the sentinel of an empty array. -/
def ArrMem.NoData {t : DataType} : ArrMem t → Prop
  | .null | .empty => True
  | .raw _ _ | .cells _ _ => False

mutual

def Emptied : {t : DataType} → Mem t → Prop
  | _, .simple (b := b) x => SimpleMem.Emptied b x
  | _, .struct slots => EmptiedSlots slots
  | _, .encoded body => body = nullBuffer
  | _, .decoded _ _ _ => False
  | _, .deletedContent => True
  | _, .noVariant => True
  | _, .variant _ data dimensions => data.NoData ∧ dimensions = nullBuffer
  | _, .dataValue value => Emptied value

def EmptiedSlots : {members : Members} → SlotsMem members → Prop
  | _, .nil => True
  | _, .scalar m slots => Emptied m ∧ EmptiedSlots slots
  | _, .array a slots => a = .null ∧ EmptiedSlots slots

end

theorem SimpleMem.emptied_deleted (b : Builtin) (x : SimpleMem b) : Emptied b (deleted b x) := by
  have hid : ∀ n : IdMem, n.deleted.Emptied := by
    intro n
    cases n with
    | plain => trivial
    | text s => exact rfl
  cases b with
  | string | byteString | xmlElement => exact rfl
  | nodeId => exact hid x
  | expandedNodeId => exact ⟨hid x.1, rfl⟩
  | localizedText => exact ⟨rfl, rfl⟩
  | diagnosticInfo => exact rfl
  | _ => trivial

mutual

theorem emptied_deleted : {t : DataType} → (m : Mem t) → Emptied (deleted m)
  | _, .simple (b := b) x => by
      rw [deleted, Emptied]
      exact SimpleMem.emptied_deleted b x
  | _, .struct slots => by
      rw [deleted, Emptied]
      exact emptiedSlots_deleted slots
  | _, .encoded _ => by rw [deleted, Emptied]
  | _, .decoded _ _ _ => by
      rw [deleted, Emptied]
      trivial
  | _, .deletedContent => by
      rw [deleted, Emptied]
      trivial
  | _, .noVariant => by
      rw [deleted, Emptied]
      trivial
  | _, .variant _ data _ => by
      cases data <;> rw [deleted, Emptied] <;> first | exact ⟨trivial, rfl⟩ | simp
  | _, .dataValue value => by
      rw [deleted, Emptied]
      exact emptied_deleted value

theorem emptiedSlots_deleted : {members : Members} → (slots : SlotsMem members) → EmptiedSlots (deletedSlots slots)
  | _, .nil => by
      rw [deletedSlots, EmptiedSlots]
      trivial
  | _, .scalar m slots => by
      rw [deletedSlots, EmptiedSlots]
      exact ⟨emptied_deleted m, emptiedSlots_deleted slots⟩
  | _, .array _ slots => by
      rw [deletedSlots, EmptiedSlots]
      exact ⟨rfl, emptiedSlots_deleted slots⟩

end

end Emptied

end OpcUa.DecodedMemory
