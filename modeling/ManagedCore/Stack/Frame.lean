import ManagedCore.Code.Function
import ManagedCore.Value

/-!
# Frames

A frame is one activation of a function. Its header is kept in the stack's frame table; its
variables are cells of the stack's arena. In the arena a frame takes `headerBytes` and then one cell
for each variable, so its variables begin that far above its address.

A frame is reserved first, and while it is, only the arguments written so far count as filled. Once
it is committed all of its variables do.
-/

namespace ManagedCore

/-- Bytes of one cell. -/
def cellBytes : Nat := 8

/-- Bytes that a frame takes beside its variables. -/
def headerBytes : Nat := 128

/-- The fill counter of a committed frame: every variable is filled. -/
def allFilled : Nat := maxWord

/-- Bytes that a frame with `size` variables takes. -/
def footprint (size : Nat) : Nat := headerBytes + size * cellBytes

/-- The footprint, if it fits a word. -/
def footprint? (size : Nat) : Option Nat :=
  if footprint size < wordLimit then some (footprint size) else none

/-- The footprint in word arithmetic, for sizes that are known to fit. -/
def wordFootprint (size : Nat) : Except Violation Nat := do
  addWord headerBytes (← mulWord size cellBytes)

/-- The position of a frame in the frame table, counted from the oldest one. -/
abbrev FrameId := Nat

/-- Where the result of a call goes. -/
inductive Destination where
  | discard
  | slot (frame : FrameId) (index : Nat)
  deriving DecidableEq, Inhabited

/-- Whether the arguments of a frame are complete. -/
inductive FrameState where
  /-- Arguments are still being produced, and `filled` cells are written. -/
  | reserved (filled : Nat)
  | committed
  deriving DecidableEq

/-- One activation of a function. -/
structure Frame where
  context : Value
  /-- The caller's frame, or none at the bottom. -/
  returnLink : Option FrameId
  /-- The innermost reserved frame when this one was reserved. -/
  returnFuture : Option FrameId
  /-- The instruction offset, or none in native code. -/
  resume : Option Nat
  destination : Destination
  function : Function
  state : FrameState
  /-- The byte offset of the frame in the arena. -/
  address : Nat
  /-- The number of variables. -/
  size : Nat
  deriving DecidableEq

namespace Frame

/-- The number of cells written so far, or `allFilled` after the commit. -/
def filled (frame : Frame) : Nat :=
  match frame.state with
  | .reserved filled => filled
  | .committed => allFilled

/-- Whether the frame's arguments are complete. -/
def isCommitted (frame : Frame) : Bool :=
  frame.state == .committed

/-- The arena cell of the first variable. -/
def firstCell (frame : Frame) : Nat :=
  (frame.address + headerBytes) / cellBytes

/-- Bytes that the frame takes in the arena. -/
def bytes (frame : Frame) : Nat := footprint frame.size

end Frame

end ManagedCore
