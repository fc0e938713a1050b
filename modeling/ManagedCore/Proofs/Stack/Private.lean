import ManagedCore.Proofs.Collector.Roots
import ManagedCore.Proofs.Stack.Table
import ManagedCore.Proofs.Stack.Windows

/-!
# Call stacks with private frames

The meaning of a call stack without its arena. Frames form a list, oldest first, and every frame
owns the list of its variables. There are no cursors and no links to follow: the innermost frame is
the last of the list, the current one is the last that is committed, and the room that is left is
what the listed frames do not take.

An operation names at most one frame and changes the variables of no other. Dropping frames cuts the
end of the list off.
-/

namespace ManagedCore

/-- One frame with variables of its own. -/
structure Activation where
  header : Frame
  locals : List Value

/-- The frames of a call stack and the bytes that they may take together. -/
structure PrivateStack where
  capacity : Nat
  frames : List Activation

/-- An operation on private frames. What it changed before it halts stays. -/
abbrev PrivateM := EStateM Halt PrivateStack

namespace PrivateStack

/-- No frame yet. -/
def fresh (capacity : Nat) : PrivateStack := ⟨capacity, []⟩

/-- The headers of all frames, oldest frame first. -/
def headers (p : PrivateStack) : List Frame := p.frames.map Activation.header

/-- The innermost frame. -/
def future (p : PrivateStack) : Option Nat := lastPosition p.frames.length

/-- The current frame. -/
def current (p : PrivateStack) : Option Nat := lastCommitted p.headers

/-- Bytes that the frames take. -/
def usedBytes (p : PrivateStack) : Nat := tableBytes p.headers

/-- Bytes that the frames leave. -/
def available (p : PrivateStack) : Nat := p.capacity - p.usedBytes

/-- A frame of the list. -/
def activation (p : PrivateStack) (id : Nat) : Except Violation Activation :=
  match p.frames[id]? with
  | some activation => .ok activation
  | none => .error (.indexOutOfBounds p.frames.length id)

/-- The header of a frame. -/
def frame (p : PrivateStack) (id : Nat) : Except Violation Frame :=
  Activation.header <$> p.activation id

/-- The variables of a frame. -/
def locals (p : PrivateStack) (id : Nat) : Except Violation (List Value) :=
  Activation.locals <$> p.activation id

/-- The value of a variable. -/
def load (p : PrivateStack) (id index : Nat) : Except Violation Value := do
  let activation ← p.activation id
  match activation.locals[index]? with
  | some value => return value
  | none => throw (.variableOutOfRange index id activation.locals.length)

/-- The header of the current frame, or none at the bottom. -/
def currentFrame (p : PrivateStack) : Except Violation (Option Frame) :=
  match p.current with
  | none => .ok none
  | some id => some <$> p.frame id

/-- What a question about the current frame gives. -/
def ofCurrent {α : Type} (p : PrivateStack) (question : Nat → Except Violation α) :
    Except Violation α :=
  match p.current with
  | none => .error .noCurrentFrame
  | some id => question id

/-- All frames, innermost first. -/
def walk (p : PrivateStack) : List (Nat × Frame) := tableChain p.headers

/-- The committed frames, innermost first. -/
def callChain (p : PrivateStack) : List (Nat × Frame) := p.walk.filter (·.2.isCommitted)

/-- The list with another frame at a position. -/
def setFrame (p : PrivateStack) (id : Nat) (activation : Activation) : PrivateStack :=
  { p with frames := p.frames.set id activation }

/-- The operation that halts with a violation and changes nothing. -/
def violate {α : Type} (violation : Violation) : PrivateM α :=
  fun p => .error (.violation violation) p

/-- An operation on one frame of the list. -/
def onFrame (id : Nat) (change : Activation → Except Violation Activation) : PrivateM Unit :=
  fun p =>
    match p.activation id >>= change with
    | .ok activation => .ok () (p.setFrame id activation)
    | .error violation => .error (.violation violation) p

/-- An operation on the current frame. -/
def onCurrent (operation : Nat → PrivateM Unit) : PrivateM Unit := fun p =>
  match p.current with
  | none => violate .noCurrentFrame p
  | some id => operation id p

/-- Adds a frame of `size` zero variables to the end of the list, if there is room for it. -/
def reserve (call : Call) (size : Nat) : PrivateM FrameId := fun p =>
  if footprint size ≤ p.available then
    let header : Frame := {
      context := call.context
      returnLink := p.current
      returnFuture := p.future
      resume := call.resume
      destination := call.destination
      function := call.function
      state := .reserved 0
      address := p.available - footprint size
      size := size }
    .ok p.frames.length
      { p with frames := p.frames ++ [{ header := header, locals := List.replicate size .zero }] }
  else .error (.fault (.stackOverflow (min (footprint size) maxWord) p.available)) p

/-- Commits the last frame of the list. -/
def commit : PrivateM Unit := fun p =>
  match p.future with
  | none => violate .nothingToCommit p
  | some id =>
    onFrame id (fun activation =>
      if activation.header.isCommitted then .error (.alreadyCommitted id)
      else .ok { activation with header := { activation.header with state := .committed } }) p

/-- Appends values to the arguments of a reserved frame. -/
def writeArguments (id : Nat) (values : List Value) : PrivateM Unit :=
  onFrame id fun activation =>
    match activation.header.state with
    | .committed => .error (.notAcceptingArguments id)
    | .reserved filled =>
      let stop := filled + values.length
      if stop ≤ activation.locals.length then
        .ok { header := { activation.header with state := .reserved stop }
              locals := splice activation.locals filled values }
      else .error (.argumentsOverflow id stop activation.locals.length)

/-- Adds a frame with its arguments and commits it. -/
def push (call : Call) (arguments : List Value) : PrivateM FrameId := do
  let id ← reserve call call.function.frameSize
  writeArguments id arguments
  commit
  return id

/-- Cuts the list off at a frame, and tells its header. -/
def cut (id : Nat) : PrivateM Frame := fun p =>
  match p.frame id with
  | .ok header => .ok header { p with frames := p.frames.take id }
  | .error violation => .error (.violation violation) p

/-- Drops a frame and everything after it. -/
def release (id : Nat) : PrivateM Unit := fun p =>
  match cut id p with
  | .ok _ p => .ok () p
  | .error halt p => .error halt p

/-- Drops the current frame and everything after it. -/
def pop : PrivateM Frame := fun p =>
  match p.current with
  | none => violate .poppingEmptyStack p
  | some id => cut id p

/-- Changes the value of a variable. -/
def store (id index : Nat) (value : Value) : PrivateM Unit :=
  onFrame id fun activation =>
    if index < activation.locals.length then
      .ok { activation with locals := activation.locals.set index value }
    else .error (.variableOutOfRange index id activation.locals.length)

/-- Changes the value of a variable of the current frame. -/
def storeCurrent (index : Nat) (value : Value) : PrivateM Unit :=
  onCurrent fun id => store id index value

/-- Changes the values of a frame's first variables. -/
def storeAll (id : Nat) (values : List Value) : PrivateM Unit :=
  onFrame id fun activation =>
    .ok { activation with
      locals := splice activation.locals 0 (values.take activation.locals.length) }

/-- Changes the instruction offset of the current frame. -/
def setResume (resume : Option Nat) : PrivateM Unit :=
  onCurrent fun id => onFrame id fun activation =>
    .ok { activation with header := { activation.header with resume := resume } }

/-- Drops the current frame, and then stores its result where the call wanted it. -/
def returnValue (value : Value) : PrivateM Frame := do
  let header ← pop
  match header.destination with
  | .discard => return header
  | .slot target index =>
    store target index value
    return header

/-- Hands the variable of a root to the visitor. -/
def visitRoot {σ : Type} (visitor : Visitor σ) (root : Root) : Visit σ PrivateStack Unit :=
  fun (p, memory) =>
    match p.activation root.id with
    | .error violation => .error violation (p, memory)
    | .ok activation =>
      let put (value : Value) : PrivateStack :=
        p.setFrame root.id { activation with locals := activation.locals.set root.slot value }
      Visit.on (activation.locals.getD root.slot .zero) put (visitor.root root.index) memory

/-- Visits all roots, innermost frame first. -/
def scan {σ : Type} (visitor : Visitor σ) : Visit σ PrivateStack ScanStats :=
  scanRoots (visitRoot visitor) headers

/-- Evaluates the next argument on the private frames themselves. -/
abbrev Producer (τ : Type) := EStateM Halt (PrivateStack × τ) (List Value)

/-- An operation on private frames next to a producer's memory. -/
def beside {τ α : Type} (operation : PrivateM α) : EStateM Halt (PrivateStack × τ) α :=
  fun (p, memory) =>
    match operation p with
    | .ok result p => .ok result (p, memory)
    | .error halt p => .error halt (p, memory)

/-- Runs the producer, and drops the frame if it reports a fault. -/
def produceFor {τ : Type} (id : Nat) (produce : Producer τ) : Producer τ := fun state =>
  match produce state with
  | .error (.fault fault) state =>
    match beside (release id) state with
    | .ok _ state => .error (.fault fault) state
    | .error halt state => .error halt state
  | result => result

/-- Fills `count` arguments of a reserved frame. It must be the last again after each of them. -/
def fillArguments {τ : Type} (id : Nat) (produce : Producer τ) :
    Nat → EStateM Halt (PrivateStack × τ) Unit
  | 0 => fun state => .ok () state
  | count + 1 => fun state =>
    match produceFor id produce state with
    | .error halt state => .error halt state
    | .ok values (p, memory) =>
      if p.future = some id then
        match writeArguments id values p with
        | .ok _ p => fillArguments id produce count (p, memory)
        | .error halt p => .error halt (p, memory)
      else .error (.violation (.framesLeftBehind p.future id)) (p, memory)

/-- Adds a frame, evaluates its arguments and commits it. -/
def pushWithArguments {τ : Type} (call : Call) (size count : Nat) (produce : Producer τ) :
    EStateM Halt (PrivateStack × τ) FrameId := do
  let id ← beside (reserve call size)
  fillArguments id produce count
  beside commit
  return id

end PrivateStack

end ManagedCore
