import Mathlib.Data.List.GetD
import OpcUa.EncoderRuns
import OpcUa.IntervalChecks
import OpcUa.WrittenImages

namespace OpcUa.ChangeDetection

open StatusCodes Values Buffers Writers ValueEncoding AttributeReads MonitoredItems QueuedSamples WritePrograms
open EncoderPrograms EncoderRuns WriteBounds WrittenBytes WrittenImages
open IntervalChecks (ItemOp)
open Loops (run Throughout throughout_congr)

section Images

variable {v w : DataValue} {buffer buffer' : Fin 512 → UInt8}

def encoding (v : DataValue) : Option (List UInt8) :=
  if accepted (valProg (toVal v)) then some (wireOf (toVal v)) else none

/-- The value has an encoding that passes for one of at most 512 bytes. -/
structure Fits (v : DataValue) : Prop where
  accepted : accepted (valProg (toVal v)) = true
  passes : Passes 512 (slack (valProg (toVal v))) 0 (wireOf (toVal v)).length

end Images

section Judgements

/-- A value with the bytes that were in the buffer for its encoding. -/
structure Encoded where
  value : DataValue
  buffer : Fin 512 → UInt8

variable {x y : Encoded}

end Judgements

section Runs

/-- An item with the value that was queued last. -/
structure Compared where
  item : MonitoredItem
  last : Option Encoded

namespace Compared

def apply (t : Compared) : ItemOp → Compared
  | .sample s => ⟨queuePushDataValue s t.item, ((queuedValue s t.item).map (⟨·, s.buffer⟩)).or t.last⟩
  | .clear => { t with item := clearQueue t.item }

def KeepsImage (t : Compared) : Prop :=
    t.item.lastSampledValue = t.last.bind (fun last => encodeSample last.buffer last.value)

variable {t : Compared} {op : ItemOp} {s : Sampling} {v : DataValue}

theorem KeepsImage.apply (h : KeepsImage t) : KeepsImage (t.apply op) := by
  cases op with
  | clear => exact h
  | sample s =>
      rw [Compared.apply, KeepsImage]
      cases hvalue : queuedValue s t.item with
      | none =>
          rcases queuePush_of_unqueued hvalue with heq | heq
          · rw [heq]
            exact h
          · rw [heq, lastSampledValue_dropOldest]
            exact h
      | some v =>
          rw [queuePush_of_queued hvalue]
          rfl

end Compared

open Compared

end Runs

section Example

open Publishing Subscriptions Compared

end Example

end OpcUa.ChangeDetection
