import ManagedCore.CommandLine.Options
import ManagedCore.Demonstration.Keys
import ManagedCore.Demonstration.Mutators
import ManagedCore.Dictionary.Hashing

/-!
# Runs of the program

Mutators build call chains and are parked while a collector scans all of their stacks; then a
dictionary is exercised. The report says what was found, or why the run ended before.

Three things come from around the program: the logger, which may have settings of its own, the
operating system, which may refuse to start a mutator, and the hash function of the dictionary,
which is drawn at random.
-/

namespace ManagedCore.CommandLine

open Demonstration

/-- The levels of messages that a command line can ask for, fewest messages first. -/
inductive LogLevel where
  | warn
  | info
  | debug
  | trace
  deriving DecidableEq

/-- The level that is asked for by asking so often for more messages. -/
def LogLevel.ofVerbosity : Nat → LogLevel
  | 0 => .warn
  | 1 => .info
  | 2 => .debug
  | _ => .trace

/-- What a run finds around it. -/
structure Surroundings where
  /--
  Whether the logger tells informational messages when a level is asked for. It need not follow the
  level: settings of its own come first.
  -/
  informs : LogLevel → Bool
  /-- Why the operating system refuses to start the mutator of a number, if it does. -/
  refusals : Nat → Option String
  /-- The hash function that the dictionary is given. -/
  hasher : String → UInt64

/-- A logger without settings of its own, threads for all mutators, and the base hash of texts. -/
def Surroundings.plain : Surroundings where
  informs level := level != .warn
  refusals _ := none
  hasher := baseHash

/-- What a run leaves behind: an exit code, the output, and the lines of error messages. -/
structure Report where
  exit : Nat
  output : String
  errors : List String
  deriving DecidableEq

/-- A run that ends with a violation, which is not reported on the lines of error messages. -/
def Report.violated (output : String) : Report where
  exit := 101
  output := output
  errors := []

/-- A run that halts. -/
def Report.halted (output : String) : Halt → Report
  | .fault fault => { exit := 1, output := output, errors := ["Error: " ++ fault.message] }
  | .violation _ => .violated output

/--
What joining the mutators in order comes to. A violation always ends the run; a fault only does if
the logger informs, because a mutator's result is looked at for its message alone.
-/
def joined (informs : Bool) : List MutatorOutcome → Option Halt
  | [] => none
  | .ok _ :: rest => joined informs rest
  | .error (.violation violation) :: _ => some (.violation violation)
  | .error (.fault fault) :: rest =>
    if informs then some (.fault fault) else joined informs rest

/-- Bytes of the handle that is kept for each mutator. -/
def handleBytes : Nat := 24

/-- Fills the dictionary and adds its line to the output. -/
def reportDictionary (hasher : String → UInt64) (keys : Nat) (output : String) : Report :=
  match Dictionary.create .standard hasher with
  | .error _ => .violated output
  | .ok d => { exit := 0, output := output ++ (exerciseDictionary keys d).line, errors := [] }

/-- Mutators that run unless another number is given. -/
def defaultThreads : Nat := 4

/-- Levels that each mutator calls unless another number is given. -/
def defaultDepth : Nat := 64

/-- Keys that fill the dictionary unless another number is given. -/
def defaultKeys : Nat := 1000

/-- Runs mutators, collector and dictionary. The barrier counts one party more than mutators. -/
def demonstrate (around : Surroundings) (options : Options) : Report :=
  let threads := options.threads.getD defaultThreads
  if wordLimit ≤ threads + 1 || allocationLimit ≤ threads * handleBytes then .violated ""
  else
    let depth := options.depth.getD defaultDepth
    match startMutators depth options.stackSize around.refusals threads 0 (World.empty 1) with
    | .error halt _ => .halted "" halt
    | .ok outcomes w =>
      match World.scanAll 0 referenceCounter (w, 0) with
      | .error _ _ => .violated ""
      | .ok stats (_, references) =>
        let output := scanLine stats references
        match joined (around.informs (.ofVerbosity options.verbosity)) outcomes with
        | some halt => .halted output halt
        | none => reportDictionary around.hasher (options.keys.getD defaultKeys) output

/-- The name and the version of the program. -/
def versionLine : String := "corevm 0.1.0\n"

/-- Runs the program on its arguments. A request for help ends it at once, without output. -/
def run (around : Surroundings) (arguments : List String) : Report :=
  match readArguments .unset arguments with
  | .ok options => demonstrate around options
  | .error .help => { exit := 0, output := "", errors := [] }
  | .error .version => { exit := 0, output := versionLine, errors := [] }
  | .error .invalid => { exit := 2, output := "", errors := [] }

end ManagedCore.CommandLine
