import ManagedCore.Stack.Variables

/-!
# Calls and returns

A call has two phases. `reserve` makes room for the frame and links it into the table with nothing
filled in; `writeArguments` fills its variables in order; `commit` makes it the current frame. So a
collection that happens while an argument is evaluated sees the frame, but only the variables
written before.

Arguments may be evaluated on the very stack that will hold them: `pushWithArguments` runs a
producer once for each argument, and the producer may call, return and collect. A fault of the
producer drops the frame and everything above it; a violation leaves everything where it is.
-/

namespace ManagedCore.Stack

/--
Makes room for a frame of `size` variables below the innermost one, all of them zero. A footprint
that does not fit a word is larger than any room.
-/
def reserve (call : Call) (size : Nat) : StackM FrameId := fun s =>
  let top := s.available
  let requested := (footprint? size).getD maxWord
  if requested ≤ top then
    let id := s.frames.size
    let frame : Frame := {
      context := call.context
      returnLink := s.current
      returnFuture := s.future
      resume := call.resume
      destination := call.destination
      function := call.function
      state := .reserved 0
      address := top - requested
      size := size }
    .ok id { s with
      cells := s.cells.fill frame.firstCell .zero size
      frames := s.frames.push frame
      future := some id }
  else .error (.fault (.stackOverflow requested top)) s

/-- Makes the innermost frame, which must be a reserved one, the current frame. -/
def commit : StackM Unit := fun s =>
  match s.future with
  | none => violate .nothingToCommit s
  | some id =>
    match s.frames[id]? with
    | none => violate (s.noSuchFrame id) s
    | some frame =>
      if frame.isCommitted then violate (.alreadyCommitted id) s
      else .ok () { s.setFrame id { frame with state := .committed } with current := some id }

/-- Appends values to the arguments of a reserved frame. -/
def writeArguments (id : FrameId) (values : List Value) : StackM Unit := fun s =>
  match s.frames[id]? with
  | none => violate (s.noSuchFrame id) s
  | some frame =>
    match frame.state with
    | .committed => violate (.notAcceptingArguments id) s
    | .reserved filled =>
      let stop := filled + values.length
      if stop ≤ frame.size then
        .ok () { s.setFrame id { frame with state := .reserved stop } with
          cells := s.cells.write (frame.firstCell + filled) values }
      else violate (.argumentsOverflow id stop frame.size) s

/-- Calls a function whose arguments are evaluated, with a frame of the size it declares. -/
def push (call : Call) (arguments : List Value) : StackM FrameId := do
  let id ← reserve call call.function.frameSize
  writeArguments id arguments
  commit
  return id

/-- Takes a frame and everything above it off the table, and returns to the cursors it saved. -/
def truncate (s : Stack) (id : FrameId) (frame : Frame) : Stack :=
  { s with
    frames := s.frames.shrink id
    current := frame.returnLink
    future := frame.returnFuture }

/-- Drops a frame and everything above it. -/
def release (id : FrameId) : StackM Unit := fun s =>
  match s.frames[id]? with
  | none => violate (s.noSuchFrame id) s
  | some frame => .ok () (s.truncate id frame)

/-- Returns from the current frame. Reserved frames above it are dropped with it. -/
def pop : StackM Frame := fun s =>
  match s.current with
  | none => violate .poppingEmptyStack s
  | some id =>
    match s.frames[id]? with
    | none => violate (s.noSuchFrame id) s
    | some frame => .ok frame (s.truncate id frame)

/-- Returns from the current frame, and then stores its result where the call wanted it. -/
def returnValue (value : Value) : StackM Frame := do
  let frame ← pop
  match frame.destination with
  | .discard => return frame
  | .slot target index =>
    store target index value
    return frame

/--
Evaluates the next argument on the stack that will hold it, and gives its cells. `τ` is what the
producer itself remembers from one argument to the next.
-/
abbrev Producer (τ : Type) := EStateM Halt (Stack × τ) (List Value)

/-- A stack operation next to a producer's memory. -/
@[inline] def beside {τ α : Type} (operation : StackM α) : EStateM Halt (Stack × τ) α :=
  fun (s, memory) =>
    match operation s with
    | .ok result s => .ok result (s, memory)
    | .error halt s => .error halt (s, memory)

/--
Runs the producer, and drops the frame if it reports a fault. If the frame is gone by then, that is
a violation in its own right.
-/
def produceFor {τ : Type} (id : FrameId) (produce : Producer τ) : Producer τ := fun state =>
  match produce state with
  | .error (.fault fault) state =>
    match beside (release id) state with
    | .ok _ state => .error (.fault fault) state
    | .error halt state => .error halt state
  | result => result

/-- Fills `count` arguments of a reserved frame. It must be innermost again after each of them. -/
def fillArguments {τ : Type} (id : FrameId) (produce : Producer τ) :
    Nat → EStateM Halt (Stack × τ) Unit
  | 0 => fun state => .ok () state
  | count + 1 => fun state =>
    match produceFor id produce state with
    | .error halt state => .error halt state
    | .ok values (s, memory) =>
      if s.future = some id then
        match writeArguments id values s with
        | .ok _ s => fillArguments id produce count (s, memory)
        | .error halt s => .error halt (s, memory)
      else .error (.violation (.framesLeftBehind s.future id)) (s, memory)

/-- Calls a function whose `count` arguments are evaluated after its frame is reserved. -/
def pushWithArguments {τ : Type} (call : Call) (size count : Nat) (produce : Producer τ) :
    EStateM Halt (Stack × τ) FrameId := do
  let id ← beside (reserve call size)
  fillArguments id produce count
  beside commit
  return id

end ManagedCore.Stack
