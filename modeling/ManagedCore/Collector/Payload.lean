import ManagedCore.Collector.Visitor

/-!
# Nested payloads

Runtime structures nest values in optional fields and in sequences. A payload is any such nesting,
and its edges are the values in it from left to right. Its shape never changes.
-/

namespace ManagedCore

/-- Values and plain numbers, nested in optional fields and sequences. -/
inductive Payload where
  | value (v : Value)
  | number (n : Int64)
  | absent
  | present (inner : Payload)
  | sequence (items : List Payload)

namespace Payload

mutual

/-- Visits the values of a payload from left to right. -/
def visit {σ : Type} (visitor : Visitor σ) (payload : Payload) (memory : σ) :
    EStateM.Result Violation (Payload × σ) Unit :=
  match payload with
  | .value v => Visit.on v .value visitor.edge memory
  | .number n => .ok () (.number n, memory)
  | .absent => .ok () (.absent, memory)
  | .present inner =>
    match visit visitor inner memory with
    | .ok _ (inner, memory) => .ok () (.present inner, memory)
    | .error violation (inner, memory) => .error violation (.present inner, memory)
  | .sequence items =>
    match visitItems visitor items memory with
    | .ok _ (items, memory) => .ok () (.sequence items, memory)
    | .error violation (items, memory) => .error violation (.sequence items, memory)

/-- Visits the items of a sequence one after another. -/
def visitItems {σ : Type} (visitor : Visitor σ) (items : List Payload) (memory : σ) :
    EStateM.Result Violation (List Payload × σ) Unit :=
  match items with
  | [] => .ok () ([], memory)
  | item :: rest =>
    match visit visitor item memory with
    | .error violation (item, memory) => .error violation (item :: rest, memory)
    | .ok _ (item, memory) =>
      match visitItems visitor rest memory with
      | .ok _ (rest, memory) => .ok () (item :: rest, memory)
      | .error violation (rest, memory) => .error violation (item :: rest, memory)

end

end Payload

instance : Visitable Payload where
  visitEdges visitor := fun (payload, memory) => payload.visit visitor memory

end ManagedCore
