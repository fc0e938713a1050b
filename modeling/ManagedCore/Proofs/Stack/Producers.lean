import ManagedCore.Proofs.Stack.Refinement

/-!
# Arguments evaluated on private frames

A producer that agrees with one on private frames may evaluate the arguments of a call: whatever it
does to the stack in between, and whether it ends with a value, a fault or a violation, the call
goes on in the same way on both sides.
-/

namespace ManagedCore.Stack

variable {τ τ' : Type} {related : τ → τ' → Prop}

/-- Next to related memories, the stack shows the private frames. -/
structure ShowsBeside (related : τ → τ' → Prop) (state : Stack × τ) (state' : PrivateStack × τ') :
    Prop where
  shows : Shows state.1 state'.1
  memory : related state.2 state'.2

/-- The computation does to the arena what the other one does to private frames. -/
def RefinesBeside {α : Type} (related : τ → τ' → Prop) (operation : EStateM Halt (Stack × τ) α)
    (operation' : EStateM Halt (PrivateStack × τ') α) : Prop :=
  ∀ (s : Stack) (memory : τ) (memory' : τ'), s.Sound → related memory memory' →
    Agree (ShowsBeside related) (operation (s, memory)) (operation' (s.view, memory'))

/-- An operation that refines another one does so next to a memory. -/
theorem Refines.beside {α : Type} {operation : StackM α} {operation' : PrivateM α}
    (h : Refines operation operation') :
    RefinesBeside related (Stack.beside operation) (PrivateStack.beside operation') := by
  intro s memory memory' hs hmemory
  have hagree := h s hs
  rw [Stack.beside, PrivateStack.beside]
  generalize operation s = result, operation' s.view = result' at hagree
  cases hagree with
  | ok result hshows => exact .ok result ⟨hshows, hmemory⟩
  | error halt hshows => exact .error halt ⟨hshows, hmemory⟩

/-- Computations that refine others may be continued by such computations. -/
theorem RefinesBeside.bind {α β : Type} {first : EStateM Halt (Stack × τ) α}
    {first' : EStateM Halt (PrivateStack × τ') α} {next : α → EStateM Halt (Stack × τ) β}
    {next' : α → EStateM Halt (PrivateStack × τ') β} (hfirst : RefinesBeside related first first')
    (hnext : ∀ result, RefinesBeside related (next result) (next' result)) :
    RefinesBeside related (first >>= next) (first' >>= next') := by
  intro s memory memory' h hmemory
  refine (hfirst s memory memory' h hmemory).bind fun result state state' hstate => ?_
  obtain ⟨s, memory⟩ := state
  obtain ⟨p, memory'⟩ := state'
  obtain ⟨⟨hsound, rfl⟩, hmemory⟩ := hstate
  exact hnext result s memory memory' hsound hmemory

/-- Giving a result is the same for private frames. -/
theorem RefinesBeside.pure {α : Type} (result : α) :
    RefinesBeside related (Pure.pure result) (Pure.pure result) :=
  fun _ _ _ h hmemory => .ok result ⟨⟨h, rfl⟩, hmemory⟩

/-- A fault of the producer drops the same frames on both sides. -/
theorem produceFor_refines (id : Nat) {produce : Producer τ}
    {produce' : PrivateStack.Producer τ'} (h : RefinesBeside related produce produce') :
    RefinesBeside related (produceFor id produce) (PrivateStack.produceFor id produce') := by
  intro s memory memory' hs hmemory
  have hagree := h s memory memory' hs hmemory
  rw [produceFor, PrivateStack.produceFor]
  generalize produce (s, memory) = result, produce' (s.view, memory') = result' at hagree
  cases hagree with
  | ok values hshows => exact .ok values hshows
  | @error halt state state' hshows =>
    cases halt with
    | violation violation => exact .error _ hshows
    | fault fault =>
      obtain ⟨s, memory⟩ := state
      obtain ⟨p, memory'⟩ := state'
      obtain ⟨⟨hsound, rfl⟩, hmemory⟩ := hshows
      have hrelease := (release_refines id).beside s memory memory' hsound hmemory
      simp only
      generalize beside (release id) (s, memory) = result,
        PrivateStack.beside (PrivateStack.release id) (s.view, memory') = result' at hrelease
      cases hrelease with
      | ok _ hshows => exact .error _ hshows
      | error halt hshows => exact .error halt hshows

/-- The arguments are written to the arena as to the private frame, call after call. -/
theorem fillArguments_refines (id : Nat) {produce : Producer τ}
    {produce' : PrivateStack.Producer τ'} (h : RefinesBeside related produce produce')
    (count : Nat) :
    RefinesBeside related (fillArguments id produce count)
      (PrivateStack.fillArguments id produce' count) := by
  induction count with
  | zero => exact fun s _ _ hs hmemory => .ok () ⟨⟨hs, rfl⟩, hmemory⟩
  | succ count ih =>
    intro s memory memory' hs hmemory
    have hproduced := produceFor_refines id h s memory memory' hs hmemory
    simp only [fillArguments, PrivateStack.fillArguments]
    generalize produceFor id produce (s, memory) = result,
      PrivateStack.produceFor id produce' (s.view, memory') = result' at hproduced
    cases hproduced with
    | error halt hshows => exact .error halt hshows
    | @ok values state state' hshows =>
      obtain ⟨s, memory⟩ := state
      obtain ⟨p, memory'⟩ := state'
      obtain ⟨⟨hsound, rfl⟩, hmemory⟩ := hshows
      simp only [hsound.view_future]
      by_cases hfuture : s.future = some id
      · simp only [if_pos hfuture]
        have hwritten := writeArguments_refines id values s hsound
        generalize writeArguments id values s = result,
          PrivateStack.writeArguments id values s.view = result' at hwritten
        cases hwritten with
        | error halt hshows => exact .error halt ⟨hshows, hmemory⟩
        | @ok _ s' p' hshows =>
          obtain ⟨hsound', rfl⟩ := hshows
          exact ih s' memory memory' hsound' hmemory
      · simp only [if_neg hfuture]
        exact .error _ ⟨⟨hsound, rfl⟩, hmemory⟩

/-- A call that evaluates its arguments on the way is the same on private frames. -/
theorem pushWithArguments_refines (call : Call) (size count : Nat) {produce : Producer τ}
    {produce' : PrivateStack.Producer τ'} (h : RefinesBeside related produce produce') :
    RefinesBeside related (pushWithArguments call size count produce)
      (PrivateStack.pushWithArguments call size count produce') :=
  (reserve_refines call size).beside.bind fun id =>
    (fillArguments_refines id h count).bind fun _ =>
      commit_refines.beside.bind fun _ => .pure id

end ManagedCore.Stack
