import ManagedCore.Value

/-!
# Visitors

A collector looks at every place that may hold a reference, an edge, and may change it in place.
It is a `Visitor`: two actions on the value of an edge and on what the collector itself remembers.
A data structure is `Visitable` when it can hand its edges to any visitor, in a fixed order.

An action may halt with a violation. What it did to its edge and to its memory before stays, and so
do the edges visited earlier.
-/

namespace ManagedCore

/-- An action on a part `α` of the store and on a collector's memory `σ`. -/
abbrev Visit (σ α β : Type) := EStateM Violation (α × σ) β

/-- The record index of an edge that no liveness record led to. -/
def noRecord : Nat := maxWord

/-- A collector with memory `σ`. -/
structure Visitor (σ : Type) where
  /-- Meets the value of an edge. -/
  edge : Visit σ Value Unit
  /-- Meets the value of a variable on a stack, found through the liveness record of this index. -/
  root : Nat → Visit σ Value Unit := fun _ => edge

/-- A collector that treats all edges alike and is told the record index, or `noRecord`. -/
def Visitor.ofMark {σ : Type} (mark : Nat → Visit σ Value Unit) : Visitor σ where
  edge := mark noRecord
  root := mark

namespace Visit

/--
Runs on a part of a whole. `put` gives the whole with another part; the part is put back also when
the action halts.
-/
@[inline] def on {σ α ω β : Type} (part : α) (put : α → ω) (action : Visit σ α β) (memory : σ) :
    EStateM.Result Violation (ω × σ) β :=
  match action (part, memory) with
  | .ok result (part, memory) => .ok result (put part, memory)
  | .error violation (part, memory) => .error violation (put part, memory)

/-- Visits the items of a list from left to right. -/
def each {σ α : Type} (action : Visit σ α Unit) :
    List α → σ → EStateM.Result Violation (List α × σ) Unit
  | [], memory => .ok () ([], memory)
  | item :: rest, memory =>
    match action (item, memory) with
    | .error violation (item, memory) => .error violation (item :: rest, memory)
    | .ok _ (item, memory) =>
      match each action rest memory with
      | .ok _ (rest, memory) => .ok () (item :: rest, memory)
      | .error violation (rest, memory) => .error violation (item :: rest, memory)

/-- A visit keeps the number of items, also when it halts. -/
theorem length_each {σ α : Type} (action : Visit σ α Unit) (items : List α) (memory : σ) :
    match each action items memory with
    | .ok _ (visited, _) => visited.length = items.length
    | .error _ (visited, _) => visited.length = items.length := by
  induction items generalizing memory with
  | nil => rfl
  | cons item rest ih =>
    rw [each]
    cases action (item, memory) with
    | error violation state => rfl
    | ok result state =>
      have h := ih state.2
      cases hr : each action rest state.2 <;> simp_all

end Visit

/-- Data whose edges a collector can visit. -/
class Visitable (α : Type) where
  /-- Hands every edge to the visitor, each exactly once. -/
  visitEdges {σ : Type} (visitor : Visitor σ) : Visit σ α Unit

export Visitable (visitEdges)

/-- A value is one edge. -/
instance : Visitable Value where
  visitEdges visitor := visitor.edge

/-- A plain number holds no edge. -/
instance : Visitable Int64 where
  visitEdges _ := fun state => .ok () state

instance {α : Type} [Visitable α] : Visitable (Option α) where
  visitEdges visitor
    | (none, memory) => .ok () (none, memory)
    | (some item, memory) => Visit.on item some (visitEdges visitor) memory

instance {α : Type} [Visitable α] : Visitable (List α) where
  visitEdges visitor := fun (items, memory) => Visit.each (visitEdges visitor) items memory

end ManagedCore
