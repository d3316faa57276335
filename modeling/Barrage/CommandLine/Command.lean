/-
The command line: list, check and run the built-in patterns.

A command comes to an `Outcome`, which is all that can be seen of it from outside.  The
one thing that it has to ask for on the way is its trace file: `perform` is given a
function that says why a file cannot be made, if it cannot.

Exit codes: 0 for success, 1 for words that make no sense and for files that cannot be
written, 2 for findings, 3 for an enemy pattern that does not exist.
-/
import Barrage.Catalog.Audit
import Barrage.Catalog.BuiltIn
import Barrage.Catalog.Sprites
import Barrage.CommandLine.Flags
import Barrage.Stage.Run

namespace Barrage.CommandLine

/-- What can be seen of a command. -/
structure Outcome where
  code : UInt8
  stdout : List String
  stderr : List String
  /-- The file that was written, with its lines. -/
  file : Option (String × List String)
  deriving DecidableEq

namespace Outcome

/-- A success that prints some lines. -/
def success (lines : List String) : Outcome :=
  { code := 0, stdout := lines, stderr := [], file := none }

/-- Some lines beside the output proper, and nothing else. -/
def notice (code : UInt8) (lines : List String) : Outcome :=
  { code, stdout := [], stderr := lines, file := none }

/-- A file cannot be written, and so nothing is run. -/
def cannotWrite (path why : String) : Outcome :=
  .notice 1 [s!"error: cannot write '{path}': {why}"]

end Outcome

def usage : List String := [
  "Usage: danmaku <command> [args]",
  "",
  "Commands:",
  "  list                                 List built-in patterns",
  "  check                                Statically check the catalog",
  "  run <enemy> [options]                Run one enemy on the headless stage",
  "",
  "Run options:",
  "  --ticks N        Stop after N ticks (default 600)",
  "  --seed S         Random seed (default 0)",
  "  --trace FILE     Write one line per tick to FILE",
  "  --no-player      Run without a player to aim at"]

/-! ### Listing and checking -/

/-- A word with blanks after it, up to a width. -/
def padRight (width : Nat) (word : String) : String :=
  word.pushn ' ' (width - word.length)

/-- A word with blanks before it, up to a width. -/
def padLeft (width : Nat) (word : String) : String :=
  "".pushn ' ' (width - word.length) ++ word

/-- The listing of some patterns. -/
def listing {κ : Type} [Vocabulary κ] (patterns : List (Pattern κ Float32)) : List String :=
  let heading := Vocabulary.name κ ++ ":"
  heading :: patterns.map fun p =>
    "  " ++ padRight 16 p.id ++ " " ++ padLeft 3 (toString p.program.size) ++ "  " ++ p.intent

/-- The listing of a catalog. -/
def list (c : Catalog Float32) : Outcome :=
  .success (listing c.bullets ++ listing c.shots ++ listing c.enemies)

/-- The verdict on a catalog. -/
def check (c : Catalog Float32) : Outcome :=
  match c.problems with
  | [] => .success [s!"OK: {c.size} programs"]
  | problems => .notice 2 (problems.map fun p => "error: " ++ p.message)

/-! ### Running

A run is made up before it is begun: the flags have been read and the enemy has been
found, so the only refusal left is that of its trace file.
-/

/-- A run that has been asked for and makes sense. -/
structure Job where
  enemy : String
  options : RunOptions
  stage : Stage

/-- What a run says about itself. -/
def report (enemy : String) (s : Stage.Summary) : List String :=
  let fate := s.fate.message
  [s!"pattern:      {enemy}",
   s!"ticks:        {s.ticks}",
   s!"bullets:      {s.fired} fired, {s.refired} split",
   s!"peak bullets: {s.peak}",
   s!"culled:       {s.culled}",
   s!"sounds:       {s.sounds}",
   s!"drops:        {s.drops}",
   s!"enemy:        {fate}"]

/-- Does a run whose trace file, if it has one, can be written. -/
def Job.run (j : Job) : Except Crash Outcome := do
  let (summary, seen) ← j.stage.run j.options.ticks
  let file := j.options.trace.map fun path => (path, seen.map Stage.Snapshot.line)
  return { Outcome.success (report j.enemy summary) with file }

/-- Does a run, if its trace file can be made. -/
def Job.perform (refusal : String → Option String) (j : Job) : Except Crash Outcome :=
  match j.options.trace.bind fun path => (refusal path).map fun why => (path, why) with
  | some (path, why) => .ok (.cannotWrite path why)
  | none => j.run

/-- What the scripts of a library see on the stage. -/
def setting (library : Library Float32) (player : Bool) : Setting Float32 where
  library
  sprite? := Catalog.sprite?
  path? := Catalog.path?
  player := if player then some Stage.playerPosition else none

/-- What some words ask for. -/
inductive Plan where
  /-- Nothing but an answer. -/
  | answer (outcome : Outcome)
  | run (job : Job)

/-- The run that some words ask for, or what is wrong with them. -/
def planRun (c : Catalog Float32) : List String → Plan
  | [] => .answer (.notice 1 [
      "error: run requires an enemy pattern",
      "Usage: danmaku run <enemy> [--ticks N] [--seed S] [--trace FILE] [--no-player]"])
  | enemy :: flags =>
    match parseFlags flags with
    | .error e => .answer (.notice 1 [e.message])
    | .ok options =>
      let library := c.install
      match Stage.ofEnemy? (setting library options.player) options.seed enemy with
      | some stage => .run { enemy, options, stage }
      | none =>
        let known := ", ".intercalate library.enemies.names
        .answer (.notice 3 [s!"error: unknown enemy pattern '{enemy}'", s!"known: {known}"])

/-! ### Commands -/

/-- A plan that needs the built-in catalog. -/
def withCatalog (plan : Catalog Float32 → Plan) : Plan :=
  match Catalog.builtIn with
  | .ok c => plan c
  | .error e =>
    let text := e.message
    .answer (.notice 1 [s!"error: {text}"])

/-- What some words ask for. -/
def plan : List String → Plan
  | [] => .answer (.notice 1 usage)
  | "list" :: _ => withCatalog fun c => .answer (list c)
  | "check" :: _ => withCatalog fun c => .answer (check c)
  | "run" :: words => withCatalog fun c => planRun c words
  | word :: _ =>
    if word = "--help" ∨ word = "-h" ∨ word = "help" then .answer (.notice 0 usage)
    else .answer (.notice 1 (s!"error: unknown command '{word}'" :: "" :: usage))

/-- Does what some words ask for. -/
def perform (refusal : String → Option String) (words : List String) : Except Crash Outcome :=
  match plan words with
  | .answer outcome => .ok outcome
  | .run job => job.perform refusal

end Barrage.CommandLine
