import ManagedCore.Text.Quoted

/-!
# Faults

A fault ends the work of one thread: its stack has no room left, its stack cannot be allocated, or
the operating system refuses to start it. A fault is an ordinary result. The caller may release
what it holds and go on, and the operation that reports it says what it left behind.
-/

namespace ManagedCore

/-- Why a thread cannot continue or cannot be started. Sizes are in bytes. -/
inductive Fault where
  | stackOverflow (requested available : Nat)
  | arenaAllocation (size : Nat)
  | nativeThread (reason : String)
  deriving DecidableEq

namespace Fault

/-- The text shown to a user. -/
def message : Fault → String
  | stackOverflow requested available =>
    s!"stack overflow: frame needs {requested} bytes, {available} bytes left"
  | arenaAllocation size => s!"could not allocate a stack of {size} bytes"
  | nativeThread reason => s!"could not start native thread: {reason}"

/-- Whether a resource of this runtime ran out, as opposed to one of the operating system. -/
def isResourceExhausted : Fault → Bool
  | stackOverflow .. => true
  | arenaAllocation .. => true
  | nativeThread .. => false

/-- The fault with its parts named. -/
def inspect : Fault → String
  | stackOverflow requested available =>
    Text.labelled "StackOverflow"
      [("requested", toString requested), ("available", toString available)]
  | arenaAllocation size => Text.labelled "ArenaAllocation" [("size", toString size)]
  | nativeThread reason => "NativeThread(" ++ Text.quoted reason ++ ")"

end Fault

end ManagedCore
