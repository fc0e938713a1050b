import ManagedCore.Stack.Calls
import ManagedCore.Threads.World

/-!
# Mutators

A mutator is a thread that builds a chain of calls and is then parked for a collection. Each
argument of its calls is the result of a nested call, so every frame spends some time reserved
before it is committed. A mutator stops at the first fault, and keeps what it has built by then.
-/

namespace ManagedCore.Demonstration

/-- Native code with two arguments, both references, live for its whole body. -/
def mutatorFunction : Function :=
  .native "demo" 3 { records := [⟨0, 0, 0⟩, ⟨0, 0, 1⟩] }

/-- The call of the demonstration's function in a context. -/
def mutatorCall (context : Value) : Call where
  context := context
  function := mutatorFunction
  destination := .discard
  resume := none

/-- The reference that stands for an argument's object. -/
def objectOf (level argument : Nat) : Except Violation Value :=
  Value.ofAddress (UInt64.ofNat (0x100000 + (level * 2 + argument) * 16))

/-- A call with one argument that returns at once. -/
def nestedCall (argument : Nat) : StackM Unit := do
  let _ ← Stack.push (mutatorCall .zero) [Value.ofNat argument]
  let _ ← Stack.pop
  return ()

/-- Produces the arguments of a level by nested calls, and counts them. -/
def produceObject (level : Nat) : Stack.Producer Nat := fun (s, argument) =>
  match nestedCall argument s with
  | .error halt s => .error halt (s, argument)
  | .ok _ s =>
    match objectOf level argument with
    | .error violation => .error (.violation violation) (s, argument)
    | .ok object => .ok [object] (s, argument + 1)

/-- Calls the function at one level. -/
def callLevel (level : Nat) : StackM Unit := fun s =>
  match Stack.pushWithArguments (mutatorCall (Value.ofNat level)) mutatorFunction.frameSize 2
      (produceObject level) (s, 0) with
  | .ok _ (s, _) => .ok () s
  | .error halt (s, _) => .error halt s

/-- Calls the function at `count` levels from `level` on, as long as there is room. -/
def buildChain : Nat → Nat → StackM Unit
  | 0, _ => fun s => .ok () s
  | count + 1, level => fun s =>
    match callLevel level s with
    | .ok _ s => buildChain count (level + 1) s
    | .error halt s => .error halt s

/-- What a mutator did until it was parked. -/
abbrev MutatorOutcome := Except Halt Unit

/-- Starts a mutator, unless the operating system refuses, and lets it run until it is parked. -/
def startMutator (index depth : Nat) (stackSize : Option Nat) (refusal : Option String) :
    WorldM MutatorOutcome := do
  let t ← World.start 0 (some s!"mutator-{index}") stackSize refusal
  fun w =>
    match World.onStack t (buildChain depth 0) w with
    | .ok _ w => .ok (.ok ()) w
    | .error halt w => .ok (.error halt) w

/-- Starts `count` mutators with numbers from `index` on. The first one refused ends this. -/
def startMutators (depth : Nat) (stackSize : Option Nat) (refusals : Nat → Option String) :
    Nat → Nat → WorldM (List MutatorOutcome)
  | 0, _ => return []
  | count + 1, index => do
    let outcome ← startMutator index depth stackSize (refusals index)
    let outcomes ← startMutators depth stackSize refusals count (index + 1)
    return outcome :: outcomes

/-- A collector that counts the references it meets. -/
def referenceCounter : Visitor Nat :=
  .ofMark fun _ (value, count) =>
    .ok () (value, if value.isReference then count + 1 else count)

/-- Reports what a scan met. -/
def scanLine (stats : ScanStats) (references : Nat) : String :=
  s!"scanned {stats.threads} threads, {stats.frames} frames, {stats.roots} roots " ++
    s!"({references} references)\n"

end ManagedCore.Demonstration
