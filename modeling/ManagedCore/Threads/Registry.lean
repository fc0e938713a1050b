import ManagedCore.Violation

/-!
# The thread registry

A registry is a doubly linked list of live threads, kept in a table of slots. A thread keeps its
slot while it is registered; a slot that is freed is taken again before the table grows, the one
freed last first. `head` is the slot of the thread registered last, and the links called `before`
lead from there to older threads.

The links are followed without trusting them: a link to a vacant slot is a violation, and so is a
list whose length is not the number of live threads.
-/

namespace ManagedCore

/-- The name of a thread, which stays usable after the thread is gone. -/
abbrev ThreadRef := Nat

/-- An occupied slot: its thread and the slots of the neighbours in the list. -/
structure RegistryEntry where
  thread : ThreadRef
  /-- The thread registered right before. -/
  before : Option Nat
  /-- The thread registered right after. -/
  next : Option Nat
  deriving DecidableEq

/-- The slots of the live threads and the list through them. -/
structure Registry where
  entries : Array (Option RegistryEntry)
  /-- Vacant slots, the one freed last first. -/
  free : List Nat
  head : Option Nat
  live : Nat
  deriving DecidableEq, Inhabited

namespace Registry

/-- A registry without threads. -/
def empty : Registry where
  entries := #[]
  free := []
  head := none
  live := 0

/-- The entry in a linked slot. -/
def entry (r : Registry) (slot : Nat) : Except Violation RegistryEntry :=
  match r.entries[slot]? with
  | none => .error (.indexOutOfBounds r.entries.size slot)
  | some none => .error .linkedSlotVacant
  | some (some entry) => .ok entry

/-- Changes the entry in a linked slot. -/
def adjust (r : Registry) (slot : Nat) (change : RegistryEntry → RegistryEntry) :
    Except Violation Registry := do
  let entry ← r.entry slot
  return { r with entries := r.entries.setIfInBounds slot (some (change entry)) }

/-- Changes the entry in a slot that a link may name. -/
def adjustLinked (r : Registry) (link : Option Nat) (change : RegistryEntry → RegistryEntry) :
    Except Violation Registry :=
  match link with
  | none => .ok r
  | some slot => r.adjust slot change

/-- Takes a vacant slot, or a new one at the end of the table. -/
def takeSlot (r : Registry) : Nat × Registry :=
  match r.free with
  | slot :: free => (slot, { r with free := free })
  | [] => (r.entries.size, { r with entries := r.entries.push none })

/-- Adds a thread as the newest, and gives its slot. -/
def register (r : Registry) (thread : ThreadRef) : Except Violation (Nat × Registry) := do
  let (slot, r) := r.takeSlot
  let r ← r.adjustLinked r.head fun older => { older with next := some slot }
  let entry : RegistryEntry := { thread := thread, before := r.head, next := none }
  return (slot, {
    entries := r.entries.setIfInBounds slot (some entry)
    free := r.free
    head := some slot
    live := r.live + 1 })

/-- Takes the thread in a slot off the list and frees the slot. -/
def unregister (r : Registry) (slot : Nat) : Except Violation Registry := do
  match r.entries[slot]? with
  | none => throw (.indexOutOfBounds r.entries.size slot)
  | some none => throw .threadNotRegistered
  | some (some entry) =>
    let r := { r with entries := r.entries.setIfInBounds slot none }
    let r ← r.adjustLinked entry.before fun older => { older with next := entry.next }
    let r ← r.adjustLinked entry.next fun newer => { newer with before := entry.before }
    return { r with
      head := if entry.next.isNone then entry.before else r.head
      free := slot :: r.free
      live := r.live - 1 }

/-- The thread in a slot that a link may name. -/
def linkedThread (r : Registry) (link : Option Nat) : Except Violation (Option ThreadRef) :=
  match link with
  | none => .ok none
  | some slot => (fun entry => some entry.thread) <$> r.entry slot

/-- The entry of a thread with this slot, unless it was unregistered or is registered elsewhere. -/
def lookup (r : Registry) (slot : Nat) (thread : ThreadRef) : Option RegistryEntry :=
  (r.entries[slot]?.join).filter (·.thread == thread)

/-- The thread registered last. -/
def newest (r : Registry) : Except Violation (Option ThreadRef) :=
  r.linkedThread r.head

/-- The thread registered right before a live one. -/
def before (r : Registry) (slot : Nat) (thread : ThreadRef) : Except Violation (Option ThreadRef) :=
  r.linkedThread ((r.lookup slot thread).bind RegistryEntry.before)

/-- The thread registered right after a live one. -/
def next (r : Registry) (slot : Nat) (thread : ThreadRef) : Except Violation (Option ThreadRef) :=
  r.linkedThread ((r.lookup slot thread).bind RegistryEntry.next)

/-- The threads met from a slot on towards older ones, as long as there is fuel. -/
def follow (r : Registry) : Nat → Option Nat → Except Violation (List ThreadRef)
  | _, none => .ok []
  | 0, some _ => .ok []
  | fuel + 1, some slot => do
    let entry ← r.entry slot
    return entry.thread :: (← r.follow fuel entry.before)

/--
All live threads, newest first. A list that visits no slot twice ends within the size of the table;
one that is longer or shorter than the number of live threads is corrupt.
-/
def threads (r : Registry) : Except Violation (List ThreadRef) := do
  let threads ← r.follow r.entries.size r.head
  if threads.length = r.live then return threads
  else throw (.registryCorrupt threads.length r.live)

end Registry

end ManagedCore
