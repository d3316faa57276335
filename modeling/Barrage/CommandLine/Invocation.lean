/-
An invocation and the files that it makes.

All that a command does to files is to make its trace file and to fill it.  The file is
made before the run, so that a run whose trace cannot be written does not take place, and
only after everything else that can be wrong with the words has been looked at.

The two operations are given to `invoke`, in whatever monad they are.  In `IO` they are
those of the system; as functions of what is on a disk they say what is there afterwards.

The words of an invocation are text.  A system may hand over words that are no Unicode
text; a process that is given one stops with the code 101 before any word is looked at, and
nothing here is about it.
-/
import Barrage.CommandLine.Command

namespace Barrage.CommandLine

/-- What a command needs of a file system. -/
structure Files (m : Type → Type) where
  /-- Makes an empty file, or says why it cannot be made. -/
  create : (path : String) → m (Option String)
  /-- Writes the lines of a file that was made. -/
  fill : (path : String) → (lines : List String) → m Unit

variable {m : Type → Type} [Monad m]

/-- Does a run: makes its trace file, if it has one, and fills it with what the run has traced. -/
def Job.execute (files : Files m) (j : Job) : m (Except Crash Outcome) := do
  match j.options.trace with
  | none => return j.run
  | some path =>
    match ← files.create path with
    | some why => return .ok (.cannotWrite path why)
    | none =>
      match j.run with
      | .ok outcome =>
        if let some (path, lines) := outcome.file then
          files.fill path lines
        return .ok outcome
      | .error e => return .error e

/-- Does what some words ask for. -/
def invoke (files : Files m) (words : List String) : m (Except Crash Outcome) := do
  match plan words with
  | .answer outcome => return .ok outcome
  | .run job => job.execute files

end Barrage.CommandLine
