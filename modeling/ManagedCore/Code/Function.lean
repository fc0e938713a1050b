import ManagedCore.Code.Liveness
import ManagedCore.Text.Quoted

/-!
# Functions

What the stack needs to know of a compiled function: how many variables a frame of it has, and
which of them the collector must see. Instructions are carried along unread. A native function has
none.
-/

namespace ManagedCore

/-- A compiled function. Arguments count among the `frameSize` variables. -/
structure Function where
  name : String
  frameSize : Nat
  instructions : List UInt32
  liveness : LivenessTable
  deriving DecidableEq

namespace Function

/-- A function without instructions, for frames of native code. -/
def native (name : String) (frameSize : Nat) (liveness : LivenessTable) : Function where
  name := name
  frameSize := frameSize
  instructions := []
  liveness := liveness

end Function

/-- The record with its parts named. -/
def LivenessRecord.inspect (record : LivenessRecord) : String :=
  Text.labelled "LivenessRecord"
    [("from", toString record.first), ("to", toString record.last),
      ("variable", toString record.slot)]

/-- The table with its parts named. -/
def LivenessTable.inspect (table : LivenessTable) : String :=
  Text.labelled "LivenessTable"
    [("records", Text.bracketed (table.records.map LivenessRecord.inspect))]

/-- The function with its parts named. -/
def Function.inspect (function : Function) : String :=
  Text.labelled "Function"
    [("name", Text.quoted function.name), ("frame_size", toString function.frameSize),
      ("instructions", Text.bracketed (function.instructions.map toString)),
      ("liveness", function.liveness.inspect)]

end ManagedCore
