/-
Cursors: how far a script has come.

A cursor is all that a script keeps between two ticks.  Its position, the ticks spent
there, the two stacks and the scratch say exactly where the next update goes on; the
counts that guard against runaway scripts live within one update only and are no part
of it.
-/
import Std.Data.TreeMap.Basic
import Barrage.Script.Program

namespace Barrage

/-- An open loop. -/
structure LoopFrame where
  /-- Where the loop starts. -/
  start : Nat
  /-- The passes left, the present one included. -/
  remaining : Int32
  deriving DecidableEq

/-- One leg of a random walk. -/
structure Leg (α : Type) where
  /-- Where the whole walk began. -/
  anchor : Vec2 α
  departure : Vec2 α
  target : Vec2 α
  /-- Ticks already spent on this leg. -/
  timer : Int32
  /-- Ticks that this leg takes. -/
  span : Int32

/-- What an instruction remembers from one of its ticks to the next. -/
inductive Scratch (α : Type) where
  /-- The number that was found at the start. -/
  | start (value : α)
  /-- The position that was found at the start. -/
  | origin (position : Vec2 α)
  /-- The part of the heading that a wave has put there. -/
  | wave (applied : α)
  | leg (leg : Leg α)
  /-- The signal has been raised. -/
  | raised

/-- Why a script was stopped, and where. -/
inductive ScriptError where
  | unknownSubroutine (position : Nat) (label : String)
  | returnWithoutCall (position : Nat)
  /-- One instruction was visited too often within one tick. -/
  | runawayDispatch (position visits : Nat)
  | callStackOverflow (position depth : Nat)
  | loopStackOverflow (position depth : Nat)
  deriving DecidableEq

namespace ScriptError

def position : ScriptError → Nat
  | unknownSubroutine i _ | returnWithoutCall i | runawayDispatch i _ | callStackOverflow i _
  | loopStackOverflow i _ => i

def message : ScriptError → String
  | unknownSubroutine i label => s!"unknown subroutine '{label}' at instruction {i}"
  | returnWithoutCall i => s!"return without call at instruction {i}"
  | runawayDispatch i visits =>
    s!"runaway dispatch: instruction {i} visited {visits} times in one tick"
  | callStackOverflow i depth => s!"call stack overflow (depth {depth}) at instruction {i}"
  | loopStackOverflow i depth => s!"loop stack overflow (depth {depth}) at instruction {i}"

end ScriptError

/-- A script under way. -/
structure Cursor (κ α : Type) [Vocabulary κ] [Scalar α] where
  program : Program κ α
  /-- The position of the instruction that runs next. -/
  ip : Nat
  /-- Ticks already spent on that instruction. -/
  frame : Int32
  /-- The open loops, the innermost first. -/
  loops : List LoopFrame
  /-- Where the running subroutines return to, the innermost first. -/
  calls : List Nat
  /-- What instructions remember, by position. -/
  scratch : Std.TreeMap Nat (Scratch α)
  finished : Bool
  fault : Option ScriptError

namespace Cursor

variable {κ α : Type} [Vocabulary κ] [Scalar α]

/-- The start of a program. -/
def ofProgram (program : Program κ α) : Cursor κ α where
  program
  ip := 0
  frame := 0
  loops := []
  calls := []
  scratch := ∅
  finished := false
  fault := none

/-- The start of the same program, whatever state this cursor is in. -/
def fresh (c : Cursor κ α) : Cursor κ α :=
  ofProgram c.program

/-- Leaves the present instruction for the next one. -/
def advance (c : Cursor κ α) : Cursor κ α :=
  { c with scratch := c.scratch.erase c.ip, frame := 0, ip := c.ip + 1 }

def finish (c : Cursor κ α) : Cursor κ α :=
  { c with finished := true }

/-- Stops the script for good because of an error. -/
def abort (c : Cursor κ α) (e : ScriptError) : Cursor κ α :=
  { c with fault := some e, finished := true }

end Cursor

end Barrage
