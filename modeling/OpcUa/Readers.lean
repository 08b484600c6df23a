import OpcUa.Buffers
import OpcUa.LittleEndian
import OpcUa.StatusCodes

namespace OpcUa.Readers

open StatusCodes LittleEndian Buffers

/-- The source buffer, the offset, the places read so far and the outcomes of
the allocations to come (all succeed at the end of the list). The buffer is
part of the state because decoding an ExpandedNodeId clears bits in it. -/
structure Dec where
  data : List UInt8
  offset : Nat
  reads : List (Nat × Nat)
  heap : List Bool
deriving DecidableEq, Repr

abbrev Outcome (α : Type) := Option (Except StatusCode α × Dec)

/-- A decoder. The outer `none` means that the fuel ran out. -/
abbrev DecM (α : Type) := Dec → Outcome α

variable {α β : Type}

def succeed (a : α) : DecM α := fun st => some (.ok a, st)

def fail (code : StatusCode) : DecM α := fun st => some (.error code, st)

def andThen (d : DecM α) (f : α → DecM β) : DecM β := fun st =>
  match d st with
  | none => none
  | some (.error code, st) => some (.error code, st)
  | some (.ok a, st) => f a st

def map (f : α → β) (d : DecM α) : DecM β := andThen d (fun a => succeed (f a))

def joined : Except StatusCode α → Except StatusCode β → Except StatusCode (α × β)
  | .ok a, .ok b => .ok (a, b)
  | .ok _, .error code => .error code
  | .error code, .ok _ => .error code
  | .error code, .error code' => .error (code ||| code')

/-- `retval |= d(..); retval |= e(..)` -/
def both (d : DecM α) (e : DecM β) : DecM (α × β) := fun st =>
  match d st with
  | none => none
  | some (r, st) => match e st with
      | none => none
      | some (s, st) => some (joined r s, st)

def whenFlagged (b : Bool) (zero : α) (d : DecM α) : DecM α := if b then d else succeed zero

def Dec.advance (st : Dec) (k : Nat) : Dec :=
  { st with offset := st.offset + k, reads := (st.offset, k) :: st.reads }

def take (k : Nat) : DecM (List UInt8) := fun st =>
  if st.offset + k > st.data.length then some (.error badDecodingError, st)
  else some (.ok ((st.data.drop st.offset).take k), st.advance k)

def allocate : DecM Unit := fun st =>
  match st.heap with
  | false :: heap => some (.error badOutOfMemory, { st with heap := heap })
  | _ => some (.ok (), { st with heap := st.heap.tail })

def withError (code : StatusCode) (d : DecM α) : DecM α := fun st =>
  match d st with
  | some (.error _, st) => some (.error code, st)
  | r => r

end OpcUa.Readers
