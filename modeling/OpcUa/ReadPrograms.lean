import OpcUa.BoundedReading

namespace OpcUa.ReadPrograms

open StatusCodes LittleEndian Buffers Readers BoundedReading

/-- The shape of a decoder. `fits` asks whether so many bytes are left, and
`flags` takes the two flags out of the byte at the offset, in the buffer
itself. The offset can be asked for and set. -/
inductive Prog (α : Type) : Type
  | done (r : Except StatusCode α)
  | stuck
  | take (k : Nat) (next : Option (List UInt8) → Prog α)
  | fits (k : Nat) (next : Bool → Prog α)
  | allocate (next : Bool → Prog α)
  | flags (next : UInt8 → Prog α)
  | offset (next : Nat → Prog α)
  | seek (position : Nat) (next : Prog α)
  | peek (position : Nat) (next : UInt8 → Prog α)

variable {α β γ : Type}

def unflag (st : Dec) : Dec :=
  { st with
    data := overwrite st.data st.offset [st.data.getD st.offset 0 &&& 0x3f]
    reads := (st.offset, 1) :: st.reads }

def allocated (st : Dec) : Bool × Dec :=
  match st.heap with
  | false :: heap => (false, { st with heap := heap })
  | _ => (true, { st with heap := st.heap.tail })

namespace Prog

def run : Prog α → DecM α
  | done r, st => some (r, st)
  | stuck, _ => none
  | take k next, st =>
      if st.offset + k > st.data.length then (next none).run st
      else (next (some ((st.data.drop st.offset).take k))).run (st.advance k)
  | fits k next, st => (next (decide (st.offset + k ≤ st.data.length))).run st
  | allocate next, st => (next (allocated st).1).run (allocated st).2
  | flags next, st => (next (st.data.getD st.offset 0)).run (unflag st)
  | offset next, st => (next st.offset).run st
  | seek position next, st => next.run { st with offset := position }
  | peek position next, st => (next (st.data.getD position 0)).run st

def bind (f : Except StatusCode α → Prog β) : Prog α → Prog β
  | done r => f r
  | stuck => stuck
  | take k next => take k (fun x => (next x).bind f)
  | fits k next => fits k (fun x => (next x).bind f)
  | allocate next => allocate (fun x => (next x).bind f)
  | flags next => flags (fun x => (next x).bind f)
  | offset next => offset (fun x => (next x).bind f)
  | seek position next => seek position (next.bind f)
  | peek position next => peek position (fun x => (next x).bind f)

def succeed (a : α) : Prog α := done (.ok a)

def fail (code : StatusCode) : Prog α := done (.error code)

def andThen (p : Prog α) (f : α → Prog β) : Prog β :=
  p.bind fun
    | .error code => fail code
    | .ok a => f a

def map (f : α → β) (p : Prog α) : Prog β := p.andThen (fun a => succeed (f a))

def both (p : Prog α) (q : Prog β) : Prog (α × β) :=
  p.bind (fun r => q.bind (fun s => done (joined r s)))

def whenFlagged (b : Bool) (zero : α) (p : Prog α) : Prog α := if b then p else succeed zero

def withError (code : StatusCode) (p : Prog α) : Prog α :=
  p.bind fun
    | .error _ => fail code
    | r => done r

def bytes (k : Nat) : Prog (List UInt8) :=
  take k fun
    | none => fail badDecodingError
    | some bs => succeed bs

def memory : Prog Unit := allocate (fun given => if given then succeed () else fail badOutOfMemory)

def within (k : Nat) (p : Prog α) : Prog α := fits k (fun inside => if inside then p else fail badDecodingError)

end Prog

theorem run_bind (p : Prog α) (f : Except StatusCode α → Prog β) (st : Dec) :
    (p.bind f).run st = (p.run st).bind (fun x => (f x.1).run x.2) := by
  induction p generalizing st with
  | done r => rfl
  | stuck => rfl
  | take k next ih =>
      rw [Prog.bind, Prog.run, Prog.run]
      split
      · exact ih none st
      · exact ih _ _
  | fits k next ih => exact ih _ st
  | allocate next ih => exact ih _ _
  | flags next ih => exact ih _ _
  | offset next ih => exact ih _ st
  | seek position next ih => exact ih _
  | peek position next ih => exact ih _ st

@[simp] theorem run_succeed (a : α) : (Prog.succeed a).run = Readers.succeed a := rfl

@[simp] theorem run_fail (code : StatusCode) : (Prog.fail code : Prog α).run = Readers.fail code := rfl

@[simp] theorem run_andThen (p : Prog α) (f : α → Prog β) :
    (p.andThen f).run = Readers.andThen p.run (fun a => (f a).run) := by
  funext st
  rw [Prog.andThen, run_bind, Readers.andThen]
  cases p.run st with
  | none => rfl
  | some x =>
      obtain ⟨r, st'⟩ := x
      cases r <;> rfl

@[simp] theorem run_map (f : α → β) (p : Prog α) : (p.map f).run = Readers.map f p.run := by
  rw [Prog.map, run_andThen]
  rfl

@[simp] theorem run_both (p : Prog α) (q : Prog β) : (p.both q).run = Readers.both p.run q.run := by
  funext st
  rw [Prog.both, run_bind, Readers.both]
  cases p.run st with
  | none => rfl
  | some x =>
      dsimp only [Option.bind_some]
      rw [run_bind]
      cases q.run x.2 with
      | none => rfl
      | some y => rfl

@[simp] theorem run_whenFlagged (b : Bool) (zero : α) (p : Prog α) :
    (Prog.whenFlagged b zero p).run = Readers.whenFlagged b zero p.run := by
  cases b <;> rfl

@[simp] theorem run_withError (code : StatusCode) (p : Prog α) :
    (Prog.withError code p).run = Readers.withError code p.run := by
  funext st
  rw [Prog.withError, run_bind, Readers.withError]
  cases p.run st with
  | none => rfl
  | some x =>
      obtain ⟨r, st'⟩ := x
      cases r <;> rfl

@[simp] theorem run_bytes (k : Nat) : (Prog.bytes k).run = Readers.take k := rfl

@[simp] theorem run_memory : Prog.memory.run = Readers.allocate := by
  funext st
  obtain ⟨data, offset, reads, heap⟩ := st
  match heap with
  | [] | true :: _ | false :: _ => rfl

end OpcUa.ReadPrograms
