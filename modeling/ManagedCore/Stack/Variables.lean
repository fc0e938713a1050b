import ManagedCore.Stack.Basic

/-!
# Variables

Reading and writing the variables of a frame, whether it is reserved or committed. A frame that is
not in the table is reported before a variable that its frame does not have.
-/

namespace ManagedCore.Stack

/-- The variables of a frame. -/
def locals (s : Stack) (id : FrameId) : Except Violation (List Value) := do
  let frame ← s.frame id
  return s.cells.window frame.firstCell frame.size

/-- The arena cell of a variable. -/
def cellOf (s : Stack) (id : FrameId) (index : Nat) : Except Violation Nat := do
  let frame ← s.frame id
  if index < frame.size then return frame.firstCell + index
  else throw (.variableOutOfRange index id frame.size)

/-- The value of a variable. -/
def load (s : Stack) (id : FrameId) (index : Nat) : Except Violation Value := do
  let cell ← s.cellOf id index
  return s.cells.getD cell .zero

/-- The value of a variable of the current frame. -/
def loadCurrent (s : Stack) (index : Nat) : Except Violation Value :=
  match s.current with
  | none => .error .noCurrentFrame
  | some id => s.load id index

/-- Changes the value of a variable. -/
def store (id : FrameId) (index : Nat) (value : Value) : StackM Unit := fun s =>
  match s.cellOf id index with
  | .ok cell => .ok () (s.setCell cell value)
  | .error violation => .error (.violation violation) s

/-- Changes the value of a variable of the current frame. -/
def storeCurrent (index : Nat) (value : Value) : StackM Unit := fun s =>
  match s.current with
  | none => violate .noCurrentFrame s
  | some id => store id index value s

/-- Replaces the values of a frame's first variables, and of no other cell. -/
def storeAll (id : FrameId) (values : List Value) : StackM Unit := fun s =>
  match s.frame id with
  | .ok frame =>
    .ok () { s with cells := s.cells.write frame.firstCell (values.take frame.size) }
  | .error violation => .error (.violation violation) s

/-- Changes the instruction offset of the current frame. -/
def setResume (resume : Option Nat) : StackM Unit := fun s =>
  match s.current with
  | none => violate .noCurrentFrame s
  | some id =>
    match s.frames[id]? with
    | none => violate (s.noSuchFrame id) s
    | some frame => .ok () (s.setFrame id { frame with resume := resume })

end ManagedCore.Stack
