import DemandPaging.Hex

/-!
# Failures

An operation can stop in two ways. It *fails* with a `PagingError`, which its caller may handle,
or it *aborts* because a rule that the program relies on is broken; nothing handles an abort.
-/

namespace DemandPaging

inductive PagingError where
  | invalidAddress
  | notMapped
  | alreadyMapped
  | permissionDenied
  | unsupportedType
  | invalidArgument
  | shortRead
  | shortWrite
  | ioError
  | mappingFailed
  | swapExhausted
  | tornDown
  deriving DecidableEq, Repr

namespace PagingError

def message : PagingError → String
  | invalidAddress => "invalid address"
  | notMapped => "address not mapped"
  | alreadyMapped => "address already mapped"
  | permissionDenied => "permission denied"
  | unsupportedType => "unsupported page type"
  | invalidArgument => "invalid argument"
  | shortRead => "short read from backing file"
  | shortWrite => "short write to backing file"
  | ioError => "I/O error"
  | mappingFailed => "MMU refused mapping"
  | swapExhausted => "swap space exhausted"
  | tornDown => "page table torn down"

/-- The negative number with which a system call reports the error. -/
def errno : PagingError → Int
  | invalidAddress | notMapped => -14
  | alreadyMapped => -17
  | permissionDenied => -13
  | unsupportedType => -19
  | invalidArgument => -22
  | shortRead | shortWrite | ioError => -5
  | mappingFailed | swapExhausted => -12
  | tornDown => -3

end PagingError

/-- The locks of the program. A page is named by its process and its address. -/
inductive Lock where
  | page (process : Nat) (va : Vaddr)
  | ring
  | swap
  deriving DecidableEq, Repr

/-- The broken rules on which the program gives up. -/
inductive Abort where
  | addOverflow
  | subtractOverflow
  | divideByZero
  | notPowerOfTwo
  | disagreement
  | unalignedMapping (va : Vaddr)
  /-- A page that holds a frame was given another. -/
  | secondFrame (va : Vaddr)
  /-- The pool is empty and no frame can be taken from a page. -/
  | framesExhausted
  | slotFreedTwice (slot : Nat)
  | slotOutOfRange (slot : Nat)
  | frameFreedTwice (frame : Nat)
  | sliceTooLong (stop length : Nat)
  /-- A lock was asked for by its holder, who would wait for ever. -/
  | selfDeadlock (lock : Lock)
  deriving DecidableEq, Repr

namespace Abort

def message : Abort → String
  | addOverflow => "attempt to add with overflow"
  | subtractOverflow => "attempt to subtract with overflow"
  | divideByZero => "attempt to divide by zero"
  | notPowerOfTwo => "assertion failed: align.is_power_of_two()"
  | disagreement => "assertion `left == right` failed"
  | unalignedMapping va =>
      "assertion `left == right` failed: unaligned mapping " ++ Hex.tagged va
  | secondFrame va => "page " ++ Hex.tagged va ++ " already has a frame"
  | framesExhausted => "vm: frame pool exhausted and no frame can be evicted"
  | slotFreedTwice slot => s!"swap: double free of slot {slot}"
  | slotOutOfRange slot => s!"swap: slot {slot} out of range"
  | frameFreedTwice frame => s!"double free of page #{frame}"
  | sliceTooLong stop length =>
      s!"range end index {stop} out of range for slice of length {length}"
  | selfDeadlock _ => "the lock is held by its requester"

end Abort

inductive Stop where
  | failed (e : PagingError)
  | aborted (a : Abort)
  deriving DecidableEq, Repr

namespace Stop

def message : Stop → String
  | failed e => e.message
  | aborted a => a.message

end Stop

namespace Word

def addOrAbort (a b : UInt64) : Except Abort UInt64 :=
  match checkedAdd a b with
  | some c => .ok c
  | none => .error .addOverflow

def subOrAbort (a b : UInt64) : Except Abort UInt64 :=
  match checkedSub a b with
  | some c => .ok c
  | none => .error .subtractOverflow

/-- Rounding down for any alignment: only powers of two are accepted. -/
def alignDownOrAbort (v a : UInt64) : Except Abort UInt64 :=
  if isPowerOfTwo a then .ok (alignDown v a) else .error .notPowerOfTwo

def alignUpOrAbort (v a : UInt64) : Except Abort (Option UInt64) :=
  if isPowerOfTwo a then .ok (alignUp? v a) else .error .notPowerOfTwo

/-- The masked offset for any alignment but zero, which has no mask. -/
def offsetInOrAbort (v a : UInt64) : Except Abort UInt64 :=
  (subOrAbort a 1).map fun mask => v &&& mask

def isAlignedOrAbort (v a : UInt64) : Except Abort Bool :=
  (offsetInOrAbort v a).map (· == 0)

end Word
end DemandPaging
