import ManagedCore.Proofs.Collector.Visits
import Mathlib.Data.List.Forall2

/-!
# Sweeps

A sweep takes a collector over a list of values, from left to right: a left fold of what the
collector does with one value. When it halts, the values met before are as the collector made them,
the one it halts at is as its own action left it, and those behind are as they were.

Main statement: a visit of values that are nested in optional fields and sequences, however deep, is
a sweep over the values in them, and changes no shape.
-/

namespace ManagedCore

variable {σ α β : Type}

/-- How far a sweep has come: whether it halted, the values so far, and the collector's memory. -/
structure Sweep (σ : Type) where
  result : Except Violation Unit
  values : List Value
  memory : σ

namespace Sweep

/-- The sweep with one more value: the collector meets it, unless it halted before. -/
def meet (edge : Visit σ Value Unit) (sweep : Sweep σ) (value : Value) : Sweep σ :=
  match sweep.result with
  | .error _ => { sweep with values := sweep.values ++ [value] }
  | .ok _ =>
    let (result, value, memory) := outcome (edge (value, sweep.memory))
    ⟨result, sweep.values ++ [value], memory⟩

/-- A sweep that has not met a value. -/
def start (memory : σ) : Sweep σ := ⟨.ok (), [], memory⟩

/-- The sweep of a collector over values. -/
def run (edge : Visit σ Value Unit) (values : List Value) (memory : σ) : Sweep σ :=
  values.foldl (meet edge) (start memory)

/-- A sweep that halted leaves the values behind as they are. -/
theorem foldl_meet_of_error (edge : Visit σ Value Unit) (rest values : List Value)
    (violation : Violation) (memory : σ) :
    rest.foldl (meet edge) ⟨.error violation, values, memory⟩ =
      ⟨.error violation, values ++ rest, memory⟩ := by
  induction rest generalizing values with
  | nil => rw [List.foldl_nil, List.append_nil]
  | cons value rest ih => rw [List.foldl_cons, meet, ih, List.append_assoc, List.singleton_append]

/-- A sweep goes on as a visit of the list of the values to come. -/
theorem foldl_meet (edge : Visit σ Value Unit) (rest values : List Value) (memory : σ) :
    rest.foldl (meet edge) ⟨.ok (), values, memory⟩ =
      match outcome (Visit.items edge (rest, memory)) with
      | (result, visited, memory) => ⟨result, values ++ visited, memory⟩ := by
  induction rest generalizing values memory with
  | nil => simp [Visit.items, Visit.each, outcome]
  | cons value rest ih =>
    simp only [List.foldl_cons, meet, Visit.items, Visit.each]
    cases edge (value, memory) with
    | error violation state =>
      simp only [outcome, foldl_meet_of_error, List.append_assoc, List.singleton_append]
    | ok _ state =>
      simp only [outcome, ih, Visit.items]
      cases Visit.each edge rest state.2 <;> simp

/-- A sweep over values is a visit of the list of them. -/
theorem run_eq (edge : Visit σ Value Unit) (values : List Value) (memory : σ) :
    run edge values memory =
      match outcome (Visit.items edge (values, memory)) with
      | (result, visited, memory) => ⟨result, visited, memory⟩ :=
  foldl_meet edge values [] memory

/--
Where a sweep halts: the values before were met, the one it halts at is as its own action left it,
and those behind are as they were.
-/
theorem run_of_error {edge : Visit σ Value Unit} {values : List Value} {memory : σ}
    {violation : Violation} (h : (run edge values memory).result = .error violation) :
    ∃ before value after visited between stopped, values = before ++ value :: after ∧
      run edge before memory = ⟨.ok (), visited, between⟩ ∧
      edge (value, between) = .error violation (stopped, (run edge values memory).memory) ∧
      (run edge values memory).values = visited ++ stopped :: after := by
  rw [run_eq] at h ⊢
  cases hvisit : Visit.items edge (values, memory) with
  | ok _ state =>
    rw [hvisit] at h
    cases h
  | error halt state =>
    rw [hvisit] at h
    cases h
    obtain ⟨before, value, after, visited, between, stopped, rfl, hbefore, hstopped, hvalues⟩ :=
      Visit.items_eq_error edge hvisit
    exact ⟨before, value, after, visited, between, stopped, rfl, by rw [run_eq, hbefore]; rfl,
      hstopped, hvalues⟩

end Sweep

/--
A visit that meets the values in an item from left to right, and keeps the item's shape, also when
it halts.
-/
structure Visit.Sweeps (edge : Visit σ Value Unit) (edges : α → List Value) (same : α → α → Prop)
    (visit : Visit σ α Unit) : Prop where
  meets : ∀ item memory, Visit.on item edges visit memory = Visit.items edge (edges item, memory)
  keeps : ∀ item memory, same item (outcome (visit (item, memory))).2.1

namespace Visit.Sweeps

variable {edge : Visit σ Value Unit} {edges : α → List Value} {same : α → α → Prop}
  {visit : Visit σ α Unit}

/-- A value is met by its own visit. -/
theorem value (edge : Visit σ Value Unit) : Sweeps edge (fun value => [value]) (fun _ _ => True) edge where
  meets item memory := by
    simp only [on, items, each]
    cases edge (item, memory) <;> rfl
  keeps _ _ := trivial

/-- Items that hold no value are not changed. -/
theorem nothing (edge : Visit σ Value Unit) :
    Sweeps edge (fun _ : α => []) (· = ·) fun state => .ok () state where
  meets _ _ := rfl
  keeps _ _ := rfl

/-- The values of an optional item are those of the item. -/
theorem optional [Visitable α] {visitor : Visitor σ}
    (h : Sweeps visitor.edge edges same (visitEdges visitor)) :
    Sweeps visitor.edge (fun item => (Option.map edges item).getD []) (Option.Rel same)
      (visitEdges visitor) where
  meets item memory := by
    cases item with
    | none => rfl
    | some item =>
      have hitem := h.meets item memory
      simp only [on, Option.map_some, Option.getD_some, visitEdges] at hitem ⊢
      rw [← hitem]
      cases Visitable.visitEdges visitor (item, memory) <;> rfl
  keeps item memory := by
    cases item with
    | none => exact .none
    | some item =>
      have hitem := h.keeps item memory
      simp only [visitEdges, outcome_on]
      exact .some hitem

/-- The values of a sequence are those of its items, one after another. -/
theorem items (h : Sweeps edge edges same visit) (hsame : ∀ item, same item item) :
    Sweeps edge (List.flatMap edges) (List.Forall₂ same) (Visit.items visit) where
  meets list memory := by
    induction list generalizing memory with
    | nil => rfl
    | cons item rest ih =>
      have hitem := h.meets item memory
      rw [List.flatMap_cons, items_append, ← hitem]
      simp only [on, Visit.items, each] at ih ⊢
      cases visit (item, memory) with
      | error violation state => rfl
      | ok _ state =>
        simp only [← ih]
        cases each visit rest state.2 <;> rfl
  keeps list memory := by
    induction list generalizing memory with
    | nil => exact .nil
    | cons item rest ih =>
      have hitem := h.keeps item memory
      simp only [Visit.items, each] at ih ⊢
      cases hvisit : visit (item, memory) with
      | error violation state =>
        rw [hvisit] at hitem
        exact .cons hitem (List.forall₂_same.mpr fun other _ => hsame other)
      | ok _ state =>
        rw [hvisit] at hitem
        have hrest := ih state.2
        cases hvisits : each visit rest state.2 with
        | error violation state' =>
          rw [hvisits] at hrest
          simp only [hvisits]
          exact .cons hitem hrest
        | ok _ state' =>
          rw [hvisits] at hrest
          simp only [hvisits]
          exact .cons hitem hrest

end Visit.Sweeps

/-- The types of data that a collector can visit: values and numbers, nested in any way. -/
inductive Nesting where
  | value
  | number
  | optional (inner : Nesting)
  | sequence (inner : Nesting)

namespace Nesting

/-- The data of a type. -/
def Carrier : Nesting → Type
  | value => Value
  | number => Int64
  | optional inner => Option inner.Carrier
  | sequence inner => List inner.Carrier

/-- Data is visited as its type is made. -/
instance visitable : (nesting : Nesting) → Visitable nesting.Carrier
  | value => inferInstanceAs (Visitable Value)
  | number => inferInstanceAs (Visitable Int64)
  | optional inner =>
    have := visitable inner
    inferInstanceAs (Visitable (Option inner.Carrier))
  | sequence inner =>
    have := visitable inner
    inferInstanceAs (Visitable (List inner.Carrier))

/-- The values in an item, from left to right. -/
def edges : (nesting : Nesting) → nesting.Carrier → List Value
  | value => fun item => [item]
  | number => fun _ => []
  | optional inner => fun item => (Option.map inner.edges item).getD []
  | sequence inner => List.flatMap inner.edges

/-- Two items differ at most in the values in them. -/
def SameShape : (nesting : Nesting) → nesting.Carrier → nesting.Carrier → Prop
  | value => fun _ _ => True
  | number => fun item item' => item = item'
  | optional inner => Option.Rel inner.SameShape
  | sequence inner => List.Forall₂ inner.SameShape

/-- An item has its own shape. -/
theorem sameShape_refl (nesting : Nesting) (item : nesting.Carrier) :
    nesting.SameShape item item := by
  induction nesting with
  | value => trivial
  | number => rfl
  | optional inner ih =>
    cases item with
    | none => exact .none
    | some item => exact .some (ih item)
  | sequence inner ih => exact List.forall₂_same.mpr fun item _ => ih item

/-- A visit of nested data is a sweep over the values in it, and keeps its shape. -/
theorem sweeps (nesting : Nesting) (visitor : Visitor σ) :
    Visit.Sweeps visitor.edge nesting.edges nesting.SameShape
      (visitEdges visitor : Visit σ nesting.Carrier Unit) := by
  induction nesting with
  | value => exact .value visitor.edge
  | number => exact .nothing visitor.edge
  | optional inner ih => exact ih.optional
  | sequence inner ih => exact ih.items inner.sameShape_refl

end Nesting

end ManagedCore
