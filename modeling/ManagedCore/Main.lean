import ManagedCore.CommandLine.Run

/-!
# The program

Runs the demonstration and prints its report.
-/

/--
Prints the report of a run, and ends with its exit code. The logger has no settings of its own here.
-/
def main (arguments : List String) : IO UInt32 := do
  let report := ManagedCore.CommandLine.run .plain arguments
  let stdout ← IO.getStdout
  stdout.putStr report.output
  let stderr ← IO.getStderr
  for line in report.errors do
    stderr.putStrLn line
  return UInt32.ofNat report.exit
