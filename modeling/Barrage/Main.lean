/-
The program: reads its words, does what they ask for and leaves what can be seen.
-/
import Barrage.CommandLine.Invocation

namespace Barrage.CommandLine

/-- Prints a line for each of some texts. -/
def printLines (stream : IO.FS.Stream) (lines : List String) : IO Unit :=
  lines.forM fun line => stream.putStrLn line

/-- Why a file cannot be made, as the system says it. -/
def reason : IO.Error → String
  | .noFileOrDirectory _ code text | .permissionDenied (some _) code text
  | .inappropriateType (some _) code text => s!"{text} (os error {code})"
  | e => toString e

/-- The files of the system. -/
def systemFiles : Files IO where
  create path := do
    try
      IO.FS.writeFile path ""
      return none
    catch e => return some (reason e)
  fill path lines := IO.FS.writeFile path (String.join (lines.map fun line => line ++ "\n"))

end Barrage.CommandLine

open Barrage CommandLine in
/-- Runs the command that the words ask for and returns its exit code. -/
def main (words : List String) : IO UInt32 := do
  match ← invoke systemFiles words with
  | .ok outcome =>
    printLines (← IO.getStdout) outcome.stdout
    printLines (← IO.getStderr) outcome.stderr
    return outcome.code.toUInt32
  | .error _ => return 101
