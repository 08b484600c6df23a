import OpcUa.Buffers
import OpcUa.LittleEndian
import OpcUa.StatusCodes

namespace OpcUa.Writers

open StatusCodes LittleEndian Buffers

/-- The destination buffer, the offset into it and the places written so far
as pairs of index and length. A write may lie behind the end of the buffer. -/
structure Enc where
  data : List UInt8
  offset : Nat
  writes : List (Nat × Nat)
deriving DecidableEq, Repr

abbrev EncM := Enc → StatusCode × Enc

namespace Enc

def poke (st : Enc) (index : Nat) (bytes : List UInt8) : Enc :=
  { st with data := overwrite st.data index bytes, writes := (index, bytes.length) :: st.writes }

def write (st : Enc) (bytes : List UInt8) : Enc :=
  { st.poke st.offset bytes with offset := st.offset + bytes.length }

/-- `dst->data[index] |= flag` -/
def setFlag (st : Enc) (index : Nat) (flag : UInt8) : Enc :=
  st.poke index [st.data.getD index 0 ||| flag]

end Enc

def skip : EncM := fun st => (good, st)

/-- `retval |= f(..); retval |= g(..)` -/
def orThen (f g : EncM) : EncM := fun st =>
  let r := f st
  let s := g r.2
  (r.1 ||| s.1, s.2)

def optionally (b : Bool) (f : EncM) : EncM := if b then f else skip

def all : List EncM → EncM
  | [] => skip
  | f :: fs => orThen f (all fs)

/-- The loop `for(i = 0; i < length && retval == GOOD; i++)`. -/
def untilFailure : List EncM → EncM
  | [] => skip
  | f :: fs => fun st =>
      let r := f st
      if r.1 = good then untilFailure fs r.2 else r

def emit (bytes : List UInt8) : EncM := fun st =>
  if st.offset + bytes.length > st.data.length then (badEncodingError, st)
  else (good, st.write bytes)

def emitAt (index : Nat) (bytes : List UInt8) : EncM := fun st =>
  if index + bytes.length > st.data.length then (badEncodingError, st)
  else (good, st.poke index bytes)

/-- The flag is set in the byte at `index`, whatever the status so far. -/
def flagAt (index : Nat) (flag : UInt8) : EncM := fun st => (good, st.setFlag index flag)

end OpcUa.Writers
