import ManagedCore.Stack.Arena
import ManagedCore.Stack.Frame

/-!
# Call stacks

Frames are carved off an arena of fixed size from its top towards offset 0. Their headers form a
table, oldest frame first, and a frame's position in it is its name. `current` is the innermost
committed frame and `future` the innermost frame of all, which is the last of the table.

Two chains run through the table: every frame knows the frame that was current, and the frame that
was innermost, when it was reserved. Both lead from younger to older frames.
-/

namespace ManagedCore

/-- The arena, the frame table and the two cursors of one thread. -/
structure Stack where
  cells : Arena
  frames : Array Frame
  current : Option FrameId
  future : Option FrameId
  deriving DecidableEq, Inhabited

/-- Room for ten thousand frames of ten variables. -/
def defaultStackBytes : Nat := footprint 10 * 10000

/-- What every frame of a call holds, whatever its size. -/
structure Call where
  context : Value
  function : Function
  destination : Destination
  resume : Option Nat
  deriving DecidableEq

/--
An operation that changes a stack. When it halts, the stack keeps the changes made up to there.
-/
abbrev StackM := EStateM Halt Stack

namespace Stack

/-- A stack without room, used as a placeholder. -/
def empty : Stack where
  cells := #[]
  frames := #[]
  current := none
  future := none

/--
A stack with an arena of `size` bytes, rounded down to whole cells. Half of the address space or
more is never granted.
-/
def create (size : Option Nat) : Except Fault Stack :=
  let size := size.getD defaultStackBytes
  if allocationLimit ≤ size then .error (.arenaAllocation size)
  else .ok { empty with cells := Array.replicate (size / cellBytes) .zero }

/-- Bytes of the arena. -/
def capacity (s : Stack) : Nat := s.cells.size * cellBytes

/-- Whether there is no frame, reserved ones included. -/
def isEmpty (s : Stack) : Bool := s.future.isNone

/-- Bytes between the arena's floor and the innermost frame. -/
def available (s : Stack) : Nat :=
  match s.future.bind (s.frames[·]?) with
  | some frame => frame.address
  | none => s.capacity

/-- Bytes taken by frames. -/
def usedBytes (s : Stack) : Nat := s.capacity - s.available

/-- The violation of naming a frame that is not in the table. -/
def noSuchFrame (s : Stack) (id : FrameId) : Violation :=
  .indexOutOfBounds s.frames.size id

/-- The header of a frame. -/
def frame (s : Stack) (id : FrameId) : Except Violation Frame :=
  match s.frames[id]? with
  | some frame => .ok frame
  | none => .error (s.noSuchFrame id)

/-- The header of the current frame, or none at the bottom. -/
def currentFrame (s : Stack) : Except Violation (Option Frame) :=
  match s.current with
  | none => .ok none
  | some id => some <$> s.frame id

/-- The context of the current frame. -/
def currentContext (s : Stack) : Except Violation Value :=
  match s.current with
  | none => .error .noCurrentFrame
  | some id => Frame.context <$> s.frame id

/-- The frames met from `start` on along `link`, at most `fuel` of them. -/
def follow (s : Stack) (link : Frame → Option FrameId) :
    Nat → Option FrameId → List (FrameId × Frame)
  | 0, _ => []
  | _ + 1, none => []
  | fuel + 1, some id =>
    match s.frames[id]? with
    | none => []
    | some frame => (id, frame) :: s.follow link fuel (link frame)

/--
All frames in the order of a collector, innermost first. A link leads to an older frame, so the
size of the table bounds the chain.
-/
def walk (s : Stack) : List (FrameId × Frame) :=
  s.follow Frame.returnFuture s.frames.size s.future

/-- The committed frames from the current one down to the bottom. -/
def callChain (s : Stack) : List (FrameId × Frame) :=
  s.follow Frame.returnLink s.frames.size s.current

/-- The number of committed frames. -/
def depth (s : Stack) : Nat := s.callChain.length

/-- The stack with another header for a frame. -/
def setFrame (s : Stack) (id : FrameId) (frame : Frame) : Stack :=
  { s with frames := s.frames.setIfInBounds id frame }

/-- The stack with another value in a cell. -/
def setCell (s : Stack) (cell : Nat) (value : Value) : Stack :=
  { s with cells := s.cells.setIfInBounds cell value }

/-- Headers do not depend on the cells. -/
@[simp] theorem frames_setCell (s : Stack) (cell : Nat) (value : Value) :
    (s.setCell cell value).frames = s.frames := rfl

/-- Cells do not depend on the headers. -/
@[simp] theorem cells_setFrame (s : Stack) (id : FrameId) (frame : Frame) :
    (s.setFrame id frame).cells = s.cells := rfl

/-- Writing a cell does not resize the arena. -/
@[simp] theorem capacity_setCell (s : Stack) (cell : Nat) (value : Value) :
    (s.setCell cell value).capacity = s.capacity := by
  simp [capacity, setCell]

/-- Writing a header does not resize the arena. -/
@[simp] theorem capacity_setFrame (s : Stack) (id : FrameId) (frame : Frame) :
    (s.setFrame id frame).capacity = s.capacity := rfl

/-- The operation that halts with a violation and changes nothing. -/
def violate {α : Type} (violation : Violation) : StackM α :=
  fun s => .error (.violation violation) s

end Stack

end ManagedCore
