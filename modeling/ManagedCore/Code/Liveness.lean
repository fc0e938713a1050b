/-!
# Liveness

A compiler tells the collector which variables of a function may hold a live reference, and for
which instruction offsets. The records stay in the order in which the compiler wrote them: the
collector receives a record's index together with the slot, and looks up type information by it.
-/

namespace ManagedCore

/-- The variable in `slot` may hold a live reference at every offset between `first` and `last` inclusive. -/
structure LivenessRecord where
  first : Nat
  last : Nat
  slot : Nat
  deriving DecidableEq

namespace LivenessRecord

/-- Whether the variable may be live at `offset`. -/
def covers (record : LivenessRecord) (offset : Nat) : Bool :=
  record.first ≤ offset && offset ≤ record.last

end LivenessRecord

/-- The records of one function, in compiler order. -/
structure LivenessTable where
  records : List LivenessRecord
  deriving DecidableEq

namespace LivenessTable

/-- The number of records. -/
def length (table : LivenessTable) : Nat := table.records.length

/-- Whether there is no record. -/
def isEmpty (table : LivenessTable) : Bool := table.records.isEmpty

/--
The records that cover an offset, each with its index. Native code has no offset and is looked up
at the entry of its function, offset 0.
-/
def liveAt (table : LivenessTable) (offset : Option Nat) : List (Nat × LivenessRecord) :=
  (table.records.zipIdx.filter fun (record, _) => record.covers (offset.getD 0)).map
    fun (record, index) => (index, record)

end LivenessTable

end ManagedCore
