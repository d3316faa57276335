/-
What can be found wrong with a program without running it.

A finding stops nothing: the dispatch loop recovers from stray brackets and stops a
script at a label it does not know.  The findings are listed pass by pass, brackets
first, then calls, then bullet counts, each in the order of the tape.
-/
import Barrage.Script.Program

namespace Barrage

/-- Something suspicious in a program, at a position of its tape. -/
inductive Finding where
  | strayLoopEnd (position : Nat)
  | unclosedLoop (position : Nat)
  | unknownLabel (position : Nat) (label : String)
  | missingLabel (position : Nat)
  | negativeCount (position : Nat) (count : Int32)
  deriving DecidableEq

namespace Finding

def position : Finding → Nat
  | strayLoopEnd i | unclosedLoop i | unknownLabel i _ | missingLabel i | negativeCount i _ => i

def message : Finding → String
  | strayLoopEnd i => s!"LOOP_END without LOOP_START at instruction {i}"
  | unclosedLoop i => s!"LOOP_START at instruction {i} is never closed"
  | unknownLabel i label => s!"CALL to unknown label '{label}' at instruction {i}"
  | missingLabel i => s!"CALL without a label at instruction {i}"
  | negativeCount i count => s!"negative bullet count {count} at instruction {i}"

end Finding

/-- The findings about loop brackets in the rest of a tape, where `opened` are the positions of
the loops started and not ended before it, the innermost first. -/
def bracketFindings : List (Flow × Nat) → (opened : List Nat) → List Finding
  | [], opened => opened.reverse.map .unclosedLoop
  | (.loopStart, i) :: rest, opened => bracketFindings rest (i :: opened)
  | (.loopEnd, i) :: rest, [] => .strayLoopEnd i :: bracketFindings rest []
  | (.loopEnd, _) :: rest, _ :: opened => bracketFindings rest opened
  | _ :: rest, opened => bracketFindings rest opened

namespace Program

variable {κ α : Type} [Vocabulary κ] [Scalar α]

/-- What is wrong with one instruction as a call. -/
def callFinding? (p : Program κ α) (i : Instruction κ α) (position : Nat) : Option Finding :=
  if i.flow ≠ .call then none
  else if i.label.isEmpty then some (.missingLabel position)
  else if (p.position? i.label).isNone then some (.unknownLabel position i.label)
  else none

/-- What is wrong with one instruction as a volley. -/
def countFinding? (i : Instruction κ α) (position : Nat) : Option Finding :=
  if Vocabulary.firesVolley i.kind ∧ i.count < 0 then some (.negativeCount position i.count)
  else none

/-- Everything found wrong with a program. -/
def check (p : Program κ α) : List Finding :=
  let tape := p.code.toList.zipIdx
  bracketFindings p.flows.zipIdx []
    ++ tape.filterMap (fun (i, position) => p.callFinding? i position)
    ++ tape.filterMap (fun (i, position) => countFinding? i position)

end Program

end Barrage
