import ManagedCore.Collector.Visitor
import ManagedCore.Stack.Basic

/-!
# Root scans

The roots on a stack are the variables that a liveness record of their frame's function declares
live. A scan starts at the innermost frame, reserved or not, and goes from frame to frame down to
the oldest. A frame is looked up at its resume offset; a variable that is not filled yet is skipped,
so the arguments of a reserved frame are roots as soon as they are written and not before.

A record that names a slot beyond the frame's size is a violation. It can only show in a committed
frame, where every slot counts as filled.
-/

namespace ManagedCore

/-- What scans have met so far. -/
structure ScanStats where
  threads : Nat
  frames : Nat
  roots : Nat
  deriving DecidableEq

namespace ScanStats

/-- Nothing met yet. -/
def zero : ScanStats where
  threads := 0
  frames := 0
  roots := 0

/-- Adds to the counters one after another; an overflow keeps the sums made before it. -/
def accumulate (other : ScanStats) : EStateM Violation ScanStats Unit := fun stats =>
  match addWord stats.threads other.threads with
  | .error violation => .error violation stats
  | .ok threads =>
    let stats := { stats with threads := threads }
    match addWord stats.frames other.frames with
    | .error violation => .error violation stats
    | .ok frames =>
      let stats := { stats with frames := frames }
      match addWord stats.roots other.roots with
      | .error violation => .error violation stats
      | .ok roots => .ok () { stats with roots := roots }

end ScanStats

namespace Stack

variable {σ : Type}

/-- Hands one cell of the arena to the visitor. -/
def visitCell (visitor : Visitor σ) (cell record : Nat) : Visit σ Stack Unit :=
  fun (s, memory) =>
    match visitor.root record (s.cells.getD cell .zero, memory) with
    | .ok _ (value, memory) => .ok () (s.setCell cell value, memory)
    | .error violation (value, memory) => .error violation (s.setCell cell value, memory)

/-- Visits the variables that the given records of a frame name, and adds their number to `roots`. -/
def visitRecords (visitor : Visitor σ) (frame : Frame) :
    List (Nat × LivenessRecord) → Nat → Visit σ Stack Nat
  | [], roots => fun state => .ok roots state
  | (index, record) :: rest, roots => fun state =>
    if frame.filled ≤ record.slot then visitRecords visitor frame rest roots state
    else if frame.size ≤ record.slot then
      .error (.livenessOutsideFrame index frame.function.name record.slot frame.size) state
    else
      match visitCell visitor (frame.firstCell + record.slot) index state with
      | .ok _ state => visitRecords visitor frame rest (roots + 1) state
      | .error violation state => .error violation state

/-- Visits the roots in the given frames, and adds what it meets to `stats`. -/
def visitFrames (visitor : Visitor σ) : List Frame → ScanStats → Visit σ Stack ScanStats
  | [], stats => fun state => .ok stats state
  | frame :: rest, stats => fun state =>
    match visitRecords visitor frame (frame.function.liveness.liveAt frame.resume) 0 state with
    | .ok roots state =>
      visitFrames visitor rest
        { stats with frames := stats.frames + 1, roots := stats.roots + roots } state
    | .error violation state => .error violation state

/-- Visits all roots on a stack, innermost frame first. -/
def scan (visitor : Visitor σ) : Visit σ Stack ScanStats := fun (s, memory) =>
  visitFrames visitor (s.walk.map Prod.snd) { ScanStats.zero with threads := 1 } (s, memory)

/-- The edges of a stack are its roots. -/
instance : Visitable Stack where
  visitEdges visitor := fun state =>
    match scan visitor state with
    | .ok _ state => .ok () state
    | .error violation state => .error violation state

end Stack

end ManagedCore
