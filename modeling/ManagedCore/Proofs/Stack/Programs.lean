import ManagedCore.Proofs.Collector.ScanRoots
import ManagedCore.Proofs.Stack.Queries
import Mathlib.Data.List.Forall2

/-!
# Programs on a stack

A program is what a client may do with a stack: ask it, change it, and call functions whose
arguments are produced by programs on the same stack. It sees every answer, faults and violations
included, and goes on as it likes.

Main statement: on a fresh stack, every program gets the answers that it gets from private frames,
and leaves a stack that shows those frames. Since a program may ask at any time, also while an
argument is produced, this holds of every state that it passes through.
-/

namespace ManagedCore

/-- One operation on a stack, with the type of its result. -/
inductive Operation : Type → Type 1 where
  | ask {α : Type} (query : Query α) : Operation α
  | reserve (call : Call) (size : Nat) : Operation FrameId
  | commit : Operation Unit
  | writeArguments (id : Nat) (values : List Value) : Operation Unit
  | push (call : Call) (arguments : List Value) : Operation FrameId
  | pop : Operation Frame
  | returnValue (value : Value) : Operation Frame
  | store (id index : Nat) (value : Value) : Operation Unit
  | storeCurrent (index : Nat) (value : Value) : Operation Unit
  | storeAll (id : Nat) (values : List Value) : Operation Unit
  | setResume (resume : Option Nat) : Operation Unit
  /-- What the collector remembers is part of the result, also when the scan stops early. -/
  | scan {σ : Type} (visitor : Visitor σ) (memory : σ) : Operation (Except Violation ScanStats × σ)

/-- What a scan gives to the client that started it. -/
def collected {ω σ : Type} : EStateM.Result Violation (ω × σ) ScanStats →
    EStateM.Result Halt ω (Except Violation ScanStats × σ)
  | .ok stats (state, memory) => .ok (.ok stats, memory) state
  | .error violation (state, memory) => .ok (.error violation, memory) state

namespace Operation

variable {α : Type}

/-- The operation on a stack. -/
def run : Operation α → StackM α
  | ask query => fun s =>
    match query.answer s with
    | .ok answer => .ok answer s
    | .error violation => Stack.violate violation s
  | reserve call size => Stack.reserve call size
  | commit => Stack.commit
  | writeArguments id values => Stack.writeArguments id values
  | push call arguments => Stack.push call arguments
  | pop => Stack.pop
  | returnValue value => Stack.returnValue value
  | store id index value => Stack.store id index value
  | storeCurrent index value => Stack.storeCurrent index value
  | storeAll id values => Stack.storeAll id values
  | setResume resume => Stack.setResume resume
  | scan visitor memory => fun s => collected (Stack.scan visitor (s, memory))

/-- The operation on private frames. -/
def runPrivate : Operation α → PrivateM α
  | ask query => fun p =>
    match query.privateAnswer p with
    | .ok answer => .ok answer p
    | .error violation => PrivateStack.violate violation p
  | reserve call size => PrivateStack.reserve call size
  | commit => PrivateStack.commit
  | writeArguments id values => PrivateStack.writeArguments id values
  | push call arguments => PrivateStack.push call arguments
  | pop => PrivateStack.pop
  | returnValue value => PrivateStack.returnValue value
  | store id index value => PrivateStack.store id index value
  | storeCurrent index value => PrivateStack.storeCurrent index value
  | storeAll id values => PrivateStack.storeAll id values
  | setResume resume => PrivateStack.setResume resume
  | scan visitor memory => fun p => collected (PrivateStack.scan visitor (p, memory))

end Operation

/-- What a client does with a stack, up to its own result. -/
inductive Program : Type → Type 1 where
  | done {α : Type} (result : α) : Program α
  | perform {α β : Type} (operation : Operation β) (next : Except Halt β → Program α) : Program α
  /-- A call whose arguments programs produce, with a memory that they share. -/
  | pushWithArguments {α τ : Type} (call : Call) (size count : Nat) (memory : τ)
    (produce : τ → Program (Except Halt (List Value) × τ))
    (next : Except Halt FrameId → τ → Program α) : Program α

/-- How a program went: its result, the state that it left, and those that it passed through. -/
structure Run (ω α : Type) where
  result : α
  final : ω
  passed : List ω

/--
The producer that runs a program for each argument. Next to the memory it keeps the states that the
programs pass through, the one that each starts from included.
-/
def producing {ω τ : Type} (run : τ → ω → Run ω (Except Halt (List Value) × τ)) :
    EStateM Halt (ω × τ × List ω) (List Value) := fun (state, memory, passed) =>
  let made := run memory state
  let passed := passed ++ state :: made.passed
  match made.result with
  | (.ok values, memory) => .ok values (made.final, memory, passed)
  | (.error halt, memory) => .error halt (made.final, memory, passed)

namespace Program

/-- The run of a program on a stack. -/
def run {α : Type} : Program α → Stack → Run Stack α
  | done result, s => ⟨result, s, []⟩
  | perform operation next, s =>
    let (answer, s) := outcome (operation.run s)
    let rest := (next answer).run s
    ⟨rest.result, rest.final, s :: rest.passed⟩
  | pushWithArguments call size count memory produce next, s =>
    let (answer, s, memory, passed) := outcome (Stack.pushWithArguments call size count
      (producing fun memory => (produce memory).run) (s, memory, []))
    let rest := (next answer memory).run s
    ⟨rest.result, rest.final, passed ++ s :: rest.passed⟩

/-- The run of a program on private frames. -/
def runPrivate {α : Type} : Program α → PrivateStack → Run PrivateStack α
  | done result, p => ⟨result, p, []⟩
  | perform operation next, p =>
    let (answer, p) := outcome (operation.runPrivate p)
    let rest := (next answer).runPrivate p
    ⟨rest.result, rest.final, p :: rest.passed⟩
  | pushWithArguments call size count memory produce next, p =>
    let (answer, p, memory, passed) := outcome (PrivateStack.pushWithArguments call size count
      (producing fun memory => (produce memory).runPrivate) (p, memory, []))
    let rest := (next answer memory).runPrivate p
    ⟨rest.result, rest.final, passed ++ p :: rest.passed⟩

end Program

/-- Every operation on the arena is the operation on private frames. -/
theorem Operation.run_refines {α : Type} (operation : Operation α) :
    Stack.Refines operation.run operation.runPrivate := by
  cases operation with
  | ask query =>
    intro s h
    simp only [run, runPrivate, h.answer_view]
    cases query.answer s with
    | ok answer => exact .ok answer ⟨h, rfl⟩
    | error violation => exact Stack.agree_violate h violation
  | reserve call size => exact Stack.reserve_refines call size
  | commit => exact Stack.commit_refines
  | writeArguments id values => exact Stack.writeArguments_refines id values
  | push call arguments => exact Stack.push_refines call arguments
  | pop => exact Stack.pop_refines
  | returnValue value => exact Stack.returnValue_refines value
  | store id index value => exact Stack.store_refines id index value
  | storeCurrent index value => exact Stack.storeCurrent_refines index value
  | storeAll id values => exact Stack.storeAll_refines id values
  | setResume resume => exact Stack.setResume_refines resume
  | scan visitor memory =>
    intro s h
    have hscan := Stack.scan_refines h visitor memory
    simp only [run, runPrivate]
    generalize Stack.scan visitor (s, memory) = result,
      PrivateStack.scan visitor (s.view, memory) = result' at hscan
    cases hscan with
    | @ok stats state state' hshows =>
      obtain ⟨s, memory⟩ := state
      obtain ⟨p, memory'⟩ := state'
      obtain ⟨hshows, rfl⟩ := hshows
      exact .ok _ hshows
    | @error violation state state' hshows =>
      obtain ⟨s, memory⟩ := state
      obtain ⟨p, memory'⟩ := state'
      obtain ⟨hshows, rfl⟩ := hshows
      exact .ok _ hshows

/-- Runs with one result, on a stack and on the private frames that it shows all the way. -/
structure Run.Shows {α : Type} (made : Run Stack α) (made' : Run PrivateStack α) : Prop where
  result : made.result = made'.result
  final : made.final.Shows made'.final
  passed : List.Forall₂ Stack.Shows made.passed made'.passed

/-- A producer keeps the states that its programs show. -/
theorem producing_refines {τ : Type} {run : τ → Stack → Run Stack (Except Halt (List Value) × τ)}
    {run' : τ → PrivateStack → Run PrivateStack (Except Halt (List Value) × τ)}
    (h : ∀ memory (s : Stack), s.Sound → (run memory s).Shows (run' memory s.view)) :
    Stack.RefinesBeside (fun kept kept' => kept.1 = kept'.1 ∧
      List.Forall₂ Stack.Shows kept.2 kept'.2) (producing run) (producing run') := by
  rintro s ⟨memory, passed⟩ ⟨memory', passed'⟩ hs ⟨rfl, hpassed⟩
  have hmade := h memory s hs
  simp only [producing]
  generalize run memory s = made, run' memory s.view = made' at hmade
  obtain ⟨⟨values, memory⟩, final, passes⟩ := made
  obtain ⟨⟨values', memory'⟩, final', passes'⟩ := made'
  obtain ⟨hresult, hfinal, hpasses⟩ := hmade
  cases hresult
  have hkept := List.rel_append hpassed (List.Forall₂.cons ⟨hs, rfl⟩ hpasses)
  cases values with
  | ok values => exact .ok values ⟨hfinal, rfl, hkept⟩
  | error halt => exact .error halt ⟨hfinal, rfl, hkept⟩

/-- A program runs on an arena as on the private frames that it shows. -/
theorem Program.run_shows {α : Type} (program : Program α) {s : Stack} (h : s.Sound) :
    (program.run s).Shows (program.runPrivate s.view) := by
  induction program generalizing s with
  | done result => exact ⟨rfl, ⟨h, rfl⟩, .nil⟩
  | perform operation next ih =>
    have hoperation := operation.run_refines s h
    simp only [run, runPrivate]
    generalize operation.run s = result, operation.runPrivate s.view = result' at hoperation
    cases hoperation with
    | ok answer hshows =>
      obtain ⟨hsound, rfl⟩ := hshows
      have hrest := ih (.ok answer) hsound
      exact ⟨hrest.result, hrest.final, .cons ⟨hsound, rfl⟩ hrest.passed⟩
    | error halt hshows =>
      obtain ⟨hsound, rfl⟩ := hshows
      have hrest := ih (.error halt) hsound
      exact ⟨hrest.result, hrest.final, .cons ⟨hsound, rfl⟩ hrest.passed⟩
  | pushWithArguments call size count memory produce next ihProduce ihNext =>
    have hpush := Stack.pushWithArguments_refines call size count
      (producing_refines fun memory s hs => ihProduce memory hs) s (memory, []) (memory, []) h
      ⟨rfl, .nil⟩
    simp only [run, runPrivate]
    generalize Stack.pushWithArguments call size count
      (producing fun memory => (produce memory).run) (s, memory, []) = result,
      PrivateStack.pushWithArguments call size count
      (producing fun memory => (produce memory).runPrivate) (s.view, memory, []) = result' at hpush
    cases hpush with
    | @ok id state state' hshows =>
      obtain ⟨s', memory', passed⟩ := state
      obtain ⟨p', memory'', passed'⟩ := state'
      obtain ⟨⟨hsound, rfl⟩, rfl, hpassed⟩ := hshows
      have hrest := ihNext (.ok id) memory' hsound
      exact ⟨hrest.result, hrest.final,
        List.rel_append hpassed (.cons ⟨hsound, rfl⟩ hrest.passed)⟩
    | @error halt state state' hshows =>
      obtain ⟨s', memory', passed⟩ := state
      obtain ⟨p', memory'', passed'⟩ := state'
      obtain ⟨⟨hsound, rfl⟩, rfl, hpassed⟩ := hshows
      have hrest := ihNext (.error halt) memory' hsound
      exact ⟨hrest.result, hrest.final,
        List.rel_append hpassed (.cons ⟨hsound, rfl⟩ hrest.passed)⟩

/-- States that show private frames are sound, and these are their views. -/
theorem Stack.view_of_shows {states : List Stack} {states' : List PrivateStack}
    (h : List.Forall₂ Stack.Shows states states') :
    states.map Stack.view = states' ∧ ∀ s ∈ states, s.Sound := by
  induction h with
  | nil => exact ⟨rfl, fun _ hmem => nomatch hmem⟩
  | cons hshows _ ih =>
    refine ⟨by rw [List.map_cons, hshows.view, ih.1], fun s hmem => ?_⟩
    rcases List.mem_cons.mp hmem with rfl | hmem
    · exact hshows.sound
    · exact ih.2 s hmem

namespace Program

/-- All states of a run, the first one and the last one included. -/
def states {α : Type} (program : Program α) (s : Stack) : List Stack :=
  s :: (program.run s).passed ++ [(program.run s).final]

/-- Every state of a run that starts sound is sound. -/
theorem sound_of_mem_states {α : Type} {program : Program α} {s state : Stack} (h : s.Sound)
    (hmem : state ∈ program.states s) : state.Sound := by
  have hshows := program.run_shows h
  simp only [states, List.cons_append, List.mem_cons, List.mem_append, List.not_mem_nil,
    or_false] at hmem
  rcases hmem with rfl | hpassed | rfl
  · exact h
  · exact (Stack.view_of_shows hshows.passed).2 state hpassed
  · exact hshows.final.sound

/--
On a fresh stack, a program gets the result that it gets from private frames, and passes through
the same frames; in every state, each question has the answer that the private frames give.
-/
theorem run_on_private_frames {α : Type} (program : Program α) {size : Option Nat} {s : Stack}
    (h : Stack.create size = .ok s) :
    (program.run s).result = (program.runPrivate (.fresh s.capacity)).result ∧
      (program.run s).final.view = (program.runPrivate (.fresh s.capacity)).final ∧
      (program.run s).passed.map Stack.view = (program.runPrivate (.fresh s.capacity)).passed ∧
      ∀ state ∈ program.states s, ∀ (β : Type) (query : Query β),
        query.answer state = query.privateAnswer state.view := by
  have hsound := Stack.sound_create h
  have hshows := program.run_shows hsound
  rw [Stack.view_create h] at hshows
  refine ⟨hshows.result, hshows.final.view, (Stack.view_of_shows hshows.passed).1, ?_⟩
  intro state hmem β query
  exact ((sound_of_mem_states hsound hmem).answer_view query).symm

/-- A function of one variable, which is always live. -/
def identity : Function := .native "identity" 1 ⟨[⟨0, 0, 0⟩]⟩

/-- A visitor that counts the values that it meets, and puts the count in their place. -/
def counting : Visitor Nat where
  edge := fun (_, count) => .ok () (.ofNat (count + 1), count + 1)

/--
A call whose argument is the variable of another call on the same stack, collected in between. It
gives the variables that the outer frame has in the end.
-/
def nestedCall : Program (Except Halt (List Value)) :=
  let call : Call := ⟨.zero, identity, .discard, none⟩
  .pushWithArguments call 2 1 6
    (fun count =>
      .perform (.push call [.ofNat 3]) fun _ =>
      .perform (.scan counting count) fun _ =>
      .perform (.ask (.load 1 0)) fun value =>
      .perform .pop fun _ => .done (value.map fun value => [value], count))
    (fun _ _ => .perform (.ask (.locals 0)) .done)

/-- The outer frame of the nested call gets the value that the collection put into the inner one. -/
theorem run_on_private_frames_nestedCall :
    ∃ s, Stack.create (some 512) = .ok s ∧
      (nestedCall.runPrivate (.fresh s.capacity)).result = .ok [.ofNat 7, .zero] ∧
      (nestedCall.run s).result = .ok [.ofNat 7, .zero] ∧
      (nestedCall.run s).passed.length = 7 := by
  have hprivate : (nestedCall.runPrivate (.fresh 512)).result = .ok [.ofNat 7, .zero] := by
    decide +kernel
  have hrun := run_on_private_frames nestedCall (show Stack.create (some 512) = .ok _ from rfl)
  refine ⟨_, rfl, hprivate, hrun.1.trans hprivate, by decide +kernel⟩

end Program

namespace Stack

/-- A state of a run that starts on a fresh stack. -/
def Reachable (s : Stack) : Prop :=
  ∃ (size : Option Nat) (first : Stack) (α : Type) (program : Program α),
    create size = .ok first ∧ s ∈ program.states first

/-- Reachable stacks are sound. -/
theorem Reachable.sound {s : Stack} (h : s.Reachable) : s.Sound := by
  obtain ⟨size, first, α, program, hfirst, hmem⟩ := h
  exact Program.sound_of_mem_states (sound_create hfirst) hmem

/-- The last state of a run on a fresh stack is reachable. -/
theorem reachable_final {α : Type} (program : Program α) {size : Option Nat} {first : Stack}
    (h : create size = .ok first) : (program.run first).final.Reachable :=
  ⟨size, first, α, program, h, by simp [Program.states]⟩

end Stack

end ManagedCore
