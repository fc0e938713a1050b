import ManagedCore.Collector.Visitor

/-!
# Visits of lists

A list is visited from left to right, and a visit that halts leaves the items behind it as they are.
So a list of two parts is visited part by part, and items that are visited through a part of them
are visited as the list of these parts.
-/

namespace ManagedCore

/-- The outcome of a computation and the state that it leaves. -/
def outcome {ε σ α : Type} : EStateM.Result ε σ α → Except ε α × σ
  | .ok result state => (.ok result, state)
  | .error halt state => (.error halt, state)

/-- A computation with a result has it in the state that it leaves. -/
theorem eq_ok_of_outcome {ε σ α : Type} {made : EStateM.Result ε σ α} {result : α}
    (h : (outcome made).1 = .ok result) : made = .ok result (outcome made).2 := by
  cases made with
  | ok other state =>
    cases h
    rfl
  | error halt state => cases h

namespace Visit

variable {σ α β ω : Type}

/-- A visit through a part changes the part and the memory. -/
theorem outcome_on (part : α) (put : α → ω) (action : Visit σ α β) (memory : σ) :
    outcome (on part put action memory) =
      ((outcome (action (part, memory))).1, put (outcome (action (part, memory))).2.1,
        (outcome (action (part, memory))).2.2) := by
  rw [on]
  cases action (part, memory) with
  | ok result state => rfl
  | error violation state => rfl

variable (action : Visit σ α Unit)

/-- The items of a list, visited from left to right. -/
def items : Visit σ (List α) Unit := fun (items, memory) => each action items memory

/-- As many items are left as there were. -/
theorem length_items (list : List α) (memory : σ) :
    (outcome (items action (list, memory))).2.1.length = list.length := by
  have hlength := length_each action list memory
  rw [items]
  cases hresult : each action list memory with
  | ok result state => simpa [hresult, outcome] using hlength
  | error violation state => simpa [hresult, outcome] using hlength

/-- A list of two parts is visited part by part. -/
theorem items_append (first second : List α) (memory : σ) :
    items action (first ++ second, memory) =
      match items action (first, memory) with
      | .error violation (first, memory) => .error violation (first ++ second, memory)
      | .ok _ (first, memory) => on second (first ++ ·) (items action) memory := by
  induction first generalizing memory with
  | nil =>
    simp only [items, List.nil_append, each, on]
    cases each action second memory <;> rfl
  | cons item rest ih =>
    simp only [items, List.cons_append, each] at ih ⊢
    cases action (item, memory) with
    | error violation state => rfl
    | ok _ state =>
      simp only [ih]
      cases each action rest state.2 with
      | error violation state => rfl
      | ok _ state =>
        simp only [on, items]
        cases each action second state.2 <;> rfl

/-- Items that are visited through a part of them are visited as the list of the parts. -/
theorem items_on (part : ω → α) (put : ω → α → ω) (visit : Visit σ ω Unit)
    (hput : ∀ item, put item (part item) = item)
    (hvisit : ∀ item memory, visit (item, memory) = on (part item) (put item) action memory)
    (list : List ω) (memory : σ) :
    items visit (list, memory) =
      on (list.map part) (List.zipWith put list) (items action) memory := by
  induction list generalizing memory with
  | nil => rfl
  | cons item rest ih =>
    have hrest : List.zipWith put rest (rest.map part) = rest := by
      rw [List.zipWith_map_right, List.zipWith_self]
      simp [hput]
    simp only [items, List.map_cons, each, hvisit, on] at ih ⊢
    cases action (part item, memory) with
    | error violation state => simp [hrest]
    | ok _ state =>
      simp only [ih]
      cases each action (rest.map part) state.2 <;> rfl

/--
Where the visit of a list halts: the items before were visited, the one it halts at is as its own
visit leaves it, and those behind are as they were.
-/
theorem items_eq_error {violation : Violation} {list visited : List α} {memory last : σ}
    (h : items action (list, memory) = .error violation (visited, last)) :
    ∃ before item after done between stopped, list = before ++ item :: after ∧
      items action (before, memory) = .ok () (done, between) ∧
      action (item, between) = .error violation (stopped, last) ∧
      visited = done ++ stopped :: after := by
  induction list generalizing memory visited with
  | nil => cases h
  | cons item rest ih =>
    simp only [items, each] at h ih
    cases hitem : action (item, memory) with
    | error halt state =>
      rw [hitem] at h
      cases h
      exact ⟨[], item, rest, [], memory, state.1, rfl, rfl, hitem, rfl⟩
    | ok _ state =>
      rw [hitem] at h
      simp only at h
      cases hrest : each action rest state.2 with
      | ok _ state' =>
        rw [hrest] at h
        cases h
      | error halt state' =>
        rw [hrest] at h
        cases h
        obtain ⟨before, other, after, done, between, stopped, rfl, hbefore, hother, hvisited⟩ :=
          ih hrest
        refine ⟨item :: before, other, after, state.1 :: done, between, stopped, rfl, ?_, hother,
          by rw [hvisited, List.cons_append]⟩
        simp only [items, each, hitem, hbefore]

end Visit

end ManagedCore
