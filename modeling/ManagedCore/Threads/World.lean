import ManagedCore.Collector.Scan
import ManagedCore.Threads.Registry

/-!
# Threads

A thread owns one stack and is listed in one registry until it is dropped. Handles to it outlive
it: a dropped thread keeps its stack, but no registry lists it. The world holds the registries and
every thread ever created, so that handles are positions in it.

Threads take turns here. A thread that is not running is parked, and the stacks of parked threads
may be scanned.
-/

namespace ManagedCore

/-- A thread: its number, its name, its place in its registry, and its stack. -/
structure Thread where
  /-- Numbers are given out once, in order of creation over all registries. -/
  id : Nat
  name : Option String
  registry : Nat
  slot : Nat
  /-- Whether the thread has not been dropped. -/
  alive : Bool
  stack : Stack

/-- All registries and all threads. -/
structure World where
  registries : Array Registry
  threads : Array Thread
  nextId : Nat

/-- An operation on the world. What it changed before it halts stays. -/
abbrev WorldM := EStateM Halt World

namespace World

/-- A world with `count` registries and no thread. -/
def empty (count : Nat) : World where
  registries := Array.replicate count .empty
  threads := #[]
  nextId := 1

/-- A registry of the world. -/
def registry (w : World) (index : Nat) : Except Violation Registry :=
  match w.registries[index]? with
  | some registry => .ok registry
  | none => .error (.indexOutOfBounds w.registries.size index)

/-- A thread of the world. -/
def thread (w : World) (t : ThreadRef) : Except Violation Thread :=
  match w.threads[t]? with
  | some thread => .ok thread
  | none => .error (.indexOutOfBounds w.threads.size t)

/-- Replaces the stack of a thread. -/
def setStack (w : World) (t : ThreadRef) (stack : Stack) : World :=
  { w with threads := w.threads.modify t fun thread => { thread with stack := stack } }

/-- The live threads of a registry, newest first. -/
def liveThreads (w : World) (registry : Nat) : Except Violation (List ThreadRef) := do
  (← w.registry registry).threads

/-- The number of live threads of a registry. -/
def liveCount (w : World) (registry : Nat) : Except Violation Nat :=
  Registry.live <$> w.registry registry

/-- The thread registered last in a registry. -/
def newest (w : World) (registry : Nat) : Except Violation (Option ThreadRef) := do
  (← w.registry registry).newest

/-- The thread registered in a registry right before a live one. -/
def before (w : World) (registry : Nat) (t : ThreadRef) : Except Violation (Option ThreadRef) := do
  (← w.registry registry).before (← w.thread t).slot t

/-- The thread registered in a registry right after a live one. -/
def next (w : World) (registry : Nat) (t : ThreadRef) : Except Violation (Option ThreadRef) := do
  (← w.registry registry).next (← w.thread t).slot t

/--
Creates a thread with an empty stack of `size` bytes. A stack that cannot be allocated leaves the
world as it was.
-/
def create (registry : Nat) (name : Option String) (size : Option Nat) : WorldM ThreadRef :=
  fun w =>
    match Stack.create size with
    | .error fault => .error (.fault fault) w
    | .ok stack =>
      let t := w.threads.size
      let id := w.nextId
      let w := { w with nextId := id + 1 }
      match w.registry registry >>= (·.register t) with
      | .error violation => .error (.violation violation) w
      | .ok (slot, registered) =>
        let thread : Thread := {
          id := id
          name := name
          registry := registry
          slot := slot
          alive := true
          stack := stack }
        .ok t { w with
          registries := w.registries.setIfInBounds registry registered
          threads := w.threads.push thread }

/-- Drops a thread, and says whether it was still alive. -/
def drop (t : ThreadRef) : EStateM Violation World Bool := fun w =>
  match w.threads[t]? with
  | none => .ok false w
  | some thread =>
    if thread.alive then
      match w.registry thread.registry >>= (·.unregister thread.slot) with
      | .error violation => .error violation w
      | .ok registered =>
        .ok true { w with
          registries := w.registries.setIfInBounds thread.registry registered
          threads := w.threads.setIfInBounds t { thread with alive := false } }
    else .ok false w

/--
Runs an operation on the stack of a thread. The stack is taken out of the world meanwhile, so that
the operation owns it.
-/
@[inline] def onStack {ε α : Type} (t : ThreadRef) (operation : EStateM ε Stack α) :
    EStateM ε World α := fun w =>
  let stack := (w.threads[t]?.map Thread.stack).getD .empty
  let w := w.setStack t .empty
  match operation stack with
  | .ok result stack => .ok result (w.setStack t stack)
  | .error halt stack => .error halt (w.setStack t stack)

/--
Creates a thread and has it started. The operating system may refuse to start it, and says why: then
the thread is dropped again. Its number is not given out a second time.
-/
def start (registry : Nat) (name : Option String) (size : Option Nat) (refusal : Option String) :
    WorldM ThreadRef := fun w =>
  match create registry name size w with
  | .error halt w => .error halt w
  | .ok t w =>
    match refusal with
    | none => .ok t w
    | some reason =>
      match drop t w with
      | .ok _ w => .error (.fault (.nativeThread reason)) w
      | .error violation w => .error (.violation violation) w

/--
Runs a thread from its creation to its end: it is started, `body` runs, and it is dropped, also when
the body raises a violation. That violation is what joining the thread gives. `τ` is what the
body shares with the thread that started it.
-/
def spawn {τ β : Type} (registry : Nat) (name : Option String) (size : Option Nat)
    (refusal : Option String) (body : ThreadRef → EStateM Violation (World × τ) β) :
    EStateM Halt (World × τ) (ThreadRef × Except Violation β) := fun (w, shared) =>
  match start registry name size refusal w with
  | .error halt w => .error halt (w, shared)
  | .ok t w =>
    let (outcome, w, shared) : Except Violation β × World × τ :=
      match body t (w, shared) with
      | .ok result (w, shared) => (.ok result, w, shared)
      | .error violation (w, shared) => (.error violation, w, shared)
    match drop t w with
    | .ok _ w => .ok (t, outcome) (w, shared)
    | .error violation w => .error (.violation violation) (w, shared)

variable {σ : Type}

/-- Scans the stack of one thread. -/
def scanThread (visitor : Visitor σ) (t : ThreadRef) : Visit σ World ScanStats :=
  fun (w, memory) =>
    let stack := (w.threads[t]?.map Thread.stack).getD .empty
    let w := w.setStack t .empty
    match Stack.scan visitor (stack, memory) with
    | .ok stats (stack, memory) => .ok stats (w.setStack t stack, memory)
    | .error violation (stack, memory) => .error violation (w.setStack t stack, memory)

/-- Scans the stacks of the given threads one after another, and adds what it meets to `stats`. -/
def scanThreads (visitor : Visitor σ) : List ThreadRef → ScanStats → Visit σ World ScanStats
  | [], stats => fun state => .ok stats state
  | t :: rest, stats => fun state =>
    match scanThread visitor t state with
    | .error violation state => .error violation state
    | .ok found state =>
      match ScanStats.accumulate found stats with
      | .error violation _ => .error violation state
      | .ok _ stats => scanThreads visitor rest stats state

/-- Scans the stacks of all live threads of a registry, newest thread first. -/
def scanAll (registry : Nat) (visitor : Visitor σ) : Visit σ World ScanStats :=
  fun (w, memory) =>
    match w.liveThreads registry with
    | .error violation => .error violation (w, memory)
    | .ok threads => scanThreads visitor threads .zero (w, memory)

end World

end ManagedCore
