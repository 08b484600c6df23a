import Mathlib.Data.UInt

namespace OpcUa.StatusCodes

/-- `UA_StatusCode`. The source accumulates codes with `retval |= f(..)` and
only ever compares the result with `UA_STATUSCODE_GOOD`. -/
abbrev StatusCode := UInt32

def good : StatusCode := 0x00
def badInternalError : StatusCode := 0x80020000
def badOutOfMemory : StatusCode := 0x80030000
def badEncodingError : StatusCode := 0x80060000
def badDecodingError : StatusCode := 0x80070000
def badServiceUnsupported : StatusCode := 0x800b0000
def badNothingToDo : StatusCode := 0x800f0000
def badUserAccessDenied : StatusCode := 0x801f0000
def badIdentityTokenInvalid : StatusCode := 0x80200000
def badSecureChannelIdInvalid : StatusCode := 0x80220000
def badSessionIdInvalid : StatusCode := 0x80250000
def badSessionNotActivated : StatusCode := 0x80270000
def badSubscriptionIdInvalid : StatusCode := 0x80280000
def badNodeIdInvalid : StatusCode := 0x80330000
def badNodeIdUnknown : StatusCode := 0x80340000
def badAttributeIdInvalid : StatusCode := 0x80350000
def badIndexRangeInvalid : StatusCode := 0x80360000
def badIndexRangeNoData : StatusCode := 0x80370000
def badDataEncodingInvalid : StatusCode := 0x80380000
def badNotWritable : StatusCode := 0x803b0000
def badNotImplemented : StatusCode := 0x80400000
def badMonitoredItemIdInvalid : StatusCode := 0x80420000
def badContinuationPointInvalid : StatusCode := 0x804a0000
def badNoContinuationPoints : StatusCode := 0x804b0000
def badReferenceTypeIdInvalid : StatusCode := 0x804c0000
def badBrowseDirectionInvalid : StatusCode := 0x804d0000
def badSecurityModeRejected : StatusCode := 0x80540000
def badTooManySessions : StatusCode := 0x80560000
def badParentNodeIdInvalid : StatusCode := 0x805b0000
def badReferenceNotAllowed : StatusCode := 0x805c0000
def badNodeIdExists : StatusCode := 0x805e0000
def badNodeClassInvalid : StatusCode := 0x805f0000
def badNodeAttributesInvalid : StatusCode := 0x80620000
def badViewIdUnknown : StatusCode := 0x806b0000
def badNoMatch : StatusCode := 0x806f0000
def badWriteNotSupported : StatusCode := 0x80730000
def badTypeMismatch : StatusCode := 0x80740000
def badMethodInvalid : StatusCode := 0x80750000
def badArgumentsMissing : StatusCode := 0x80760000
def badSequenceNumberInvalid : StatusCode := 0x80880000
def badNoData : StatusCode := 0x809b0000
def badInvalidArgument : StatusCode := 0x80ab0000
def badConnectionClosed : StatusCode := 0x80ae0000
def uncertainReferenceNotDeleted : StatusCode := 0x40bc0000

theorem or_eq_good (a b : StatusCode) : a ||| b = good ↔ a = good ∧ b = good := by
  simp only [good, ← UInt32.toNat_inj, UInt32.toNat_or, UInt32.toNat_ofNat]
  exact Nat.or_eq_zero_iff

@[simp] theorem good_or (a : StatusCode) : good ||| a = a := by simp [good]

@[simp] theorem or_good (a : StatusCode) : a ||| good = a := by simp [good]

end OpcUa.StatusCodes
