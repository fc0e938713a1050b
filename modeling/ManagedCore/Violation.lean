import ManagedCore.Fault
import ManagedCore.Numeric.ShortestDecimal

/-!
# Violations

A violation is a broken contract: a frame that is not there, an address with its low bits set, a
slot outside its frame. Unlike a fault it is a mistake of the caller. The operation that meets one
stops at once and keeps every change it made before.

An operation halts with a fault or with a violation, never with both.
-/

namespace ManagedCore

/-- A broken contract, with what the message about it says. -/
inductive Violation where
  /-- A position outside a table. -/
  | indexOutOfBounds (length index : Nat)
  | additionOverflow
  | multiplicationOverflow
  | misalignedAddress (lowBits : Nat)
  | nothingToCommit
  | alreadyCommitted (frame : Nat)
  | notAcceptingArguments (frame : Nat)
  | argumentsOverflow (frame stop size : Nat)
  /-- An argument producer returned while the reserved frame was not the innermost one. -/
  | framesLeftBehind (innermost : Option Nat) (reserved : Nat)
  | poppingEmptyStack
  | noCurrentFrame
  | variableOutOfRange (index frame size : Nat)
  /-- A liveness record names a slot that its frame does not have. -/
  | livenessOutsideFrame (record : Nat) (function : String) (slot size : Nat)
  | initialNotPowerOfTwo (initial : Nat)
  | maximumUnusable (maximum initial : Nat)
  | loadNotPositive (load : Binary32)
  | loadLeavesNoRoom (load : Binary32) (buckets : Nat)
  | capacityOverflow
  | threadNotRegistered
  | linkedSlotVacant
  | registryCorrupt (listed live : Nat)
  /-- What a thread's own code raised. -/
  | raised (text : String)
  deriving DecidableEq

namespace Violation

/-- The text of a failed comparison of two values. -/
def mismatch (claim left right : String) : String :=
  s!"assertion `left == right` failed: {claim}\n  left: {left}\n right: {right}"

/-- A frame index inside the name of its kind. -/
def frameText (frame : Nat) : String :=
  s!"FrameId({frame})"

/-- The text shown to a user. -/
def message : Violation → String
  | indexOutOfBounds length index =>
    s!"index out of bounds: the len is {length} but the index is {index}"
  | additionOverflow => "attempt to add with overflow"
  | multiplicationOverflow => "attempt to multiply with overflow"
  | misalignedAddress lowBits =>
    mismatch "address must be aligned so low 2 bits are free" (toString lowBits) "0"
  | nothingToCommit => "no reserved frame to commit"
  | alreadyCommitted frame => s!"frame {frame} is already committed"
  | notAcceptingArguments frame => s!"frame {frame} is not accepting arguments"
  | argumentsOverflow frame stop size => s!"arguments overflow frame {frame} ({stop} > {size})"
  | framesLeftBehind innermost reserved =>
    mismatch "argument producer left frames behind" (Text.optional (innermost.map frameText))
      (Text.optional (some (frameText reserved)))
  | poppingEmptyStack => "popping empty stack"
  | noCurrentFrame => "no frame on the stack"
  | variableOutOfRange index frame size =>
    s!"variable {index} out of range for frame {frame} of size {size}"
  | livenessOutsideFrame record function slot size =>
    s!"liveness record {record} of {function} names slot {slot} of {size}"
  | initialNotPowerOfTwo initial => s!"initial capacity {initial} is not a power of two"
  | maximumUnusable maximum initial =>
    s!"maximum capacity {maximum} must be a power of two >= {initial}"
  | loadNotPositive load => s!"load factor {load.text} must be positive"
  | loadLeavesNoRoom load buckets =>
    s!"load factor {load.text} leaves no room in {buckets} buckets"
  | capacityOverflow => "capacity overflow"
  | threadNotRegistered => "thread is registered"
  | linkedSlotVacant => "linked slot is occupied"
  | registryCorrupt listed live =>
    mismatch "registry list is corrupt" (toString listed) (toString live)
  | raised text => text

end Violation

/-- Why an operation stopped before its end. -/
inductive Halt where
  | fault (fault : Fault)
  | violation (violation : Violation)
  deriving DecidableEq

end ManagedCore
