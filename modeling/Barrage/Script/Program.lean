/-
Programs: tapes of instructions with labels, fixed once they are built.

A label marks a position of the tape, the end included, and so a jump to it stays on
the tape; the bound is a field of `Program`.  The loop brackets are paired once, by a
single scan from left to right, so that a loop that is not entered costs one jump.
`loopScan` is that scan: its open brackets after a part of the tape are the loops that
this part has started and not ended.
-/
import Barrage.Script.Instruction

namespace Barrage

/-! ### Pairing the loop brackets

An end belongs to the innermost start that is still open, and one without such a start
is passed over.  A start without an end has no exit.
-/

/-- How far a scan for loop brackets has come. -/
structure LoopScan where
  /-- Where the loops start that have not ended, the innermost first. -/
  opened : List Nat
  /-- For each position that starts a loop already ended, the position after its end. -/
  exits : Array (Option Nat)

/-- Reads the instruction at position `i`: an end closes the innermost open loop. -/
def LoopScan.read (s : LoopScan) (i : Nat) : Flow → LoopScan
  | .loopStart => { s with opened := i :: s.opened }
  | .loopEnd =>
    match s.opened with
    | [] => s
    | start :: rest => { opened := rest, exits := s.exits.setIfInBounds start (some (i + 1)) }
  | _ => s

/-- Scans a tape, given as the flows of its instructions. -/
def loopScan (flows : List Flow) : LoopScan :=
  flows.zipIdx.foldl (fun s (flow, i) => s.read i flow)
    { opened := [], exits := Array.replicate flows.length none }

/-! ### Programs -/

/-- A tape of instructions. -/
structure Program (κ α : Type) [Vocabulary κ] [Scalar α] where
  code : Array (Instruction κ α)
  /-- The labels in the order of their declaration, each with the position it marks. -/
  labels : List (String × Nat)
  /-- For each position that starts a loop with an end, the position after that end. -/
  loopExits : Array (Option Nat)
  labels_le : ∀ l ∈ labels, l.2 ≤ code.size
  loopExits_eq : loopExits = (loopScan (code.toList.map Instruction.flow)).exits

namespace Program

variable {κ α : Type} [Vocabulary κ] [Scalar α]

/-- The program with the given instructions and labels. -/
def assemble (code : Array (Instruction κ α)) (labels : List (String × Nat))
    (labels_le : ∀ l ∈ labels, l.2 ≤ code.size) : Program κ α :=
  ⟨code, labels, _, labels_le, rfl⟩

/-- A program without labels. -/
def ofInstructions (code : List (Instruction κ α)) : Program κ α :=
  assemble code.toArray [] (by simp)

def size (p : Program κ α) : Nat :=
  p.code.size

def isEmpty (p : Program κ α) : Bool :=
  p.code.isEmpty

def get? (p : Program κ α) (ip : Nat) : Option (Instruction κ α) :=
  p.code[ip]?

/-- The flow of each instruction, in order. -/
def flows (p : Program κ α) : List Flow :=
  p.code.toList.map Instruction.flow

/-- The position that a label marks. -/
def position? (p : Program κ α) (label : String) : Option Nat :=
  p.labels.lookup label

/-- The labels by position, and by name where several mark the same position. -/
def labelListing (p : Program κ α) : List (String × Nat) :=
  p.labels.mergeSort fun l m => decide (l.2 < m.2 ∨ l.2 = m.2 ∧ l.1 ≤ m.1)

/-- The position after the end of the loop that starts at `ip`, if one starts there and ends. -/
def loopExit? (p : Program κ α) (ip : Nat) : Option Nat :=
  p.loopExits[ip]?.join

end Program

/-! ### Building a program with labels

A builder keeps the first label that it refuses and goes on taking instructions, so the
positions that follow are those of the finished tape.  Nothing is reported before the
program is built.
-/

/-- Why the labels of a program are refused. -/
inductive LabelError where
  | duplicate (label : String) (first second : Nat)
  | empty (position : Nat)
  deriving DecidableEq

def LabelError.message : LabelError → String
  | duplicate label first second =>
    s!"duplicate label '{label}' at instruction {second} (first declared at {first})"
  | empty position => s!"empty label at instruction {position}"

/-- A program under construction. -/
structure Builder (κ α : Type) where
  code : Array (Instruction κ α)
  labels : List (String × Nat)
  /-- The first label refused. -/
  error : Option LabelError
  labels_le : ∀ l ∈ labels, l.2 ≤ code.size

namespace Builder

variable {κ α : Type}

def empty : Builder κ α :=
  ⟨#[], [], none, by simp⟩

/-- Appends some instructions. -/
def append (b : Builder κ α) (code : List (Instruction κ α)) : Builder κ α where
  code := b.code ++ code.toArray
  labels := b.labels
  error := b.error
  labels_le l h := by
    have := b.labels_le l h
    simp only [Array.size_append]
    omega

/-- Appends one instruction. -/
def push (b : Builder κ α) (i : Instruction κ α) : Builder κ α :=
  b.append [i]

/-- Marks the instruction that is appended next.  After the first refusal no label counts. -/
def label (b : Builder κ α) (name : String) : Builder κ α :=
  let position := b.code.size
  if b.error.isSome then b
  else if name.isEmpty then { b with error := some (.empty position) }
  else match b.labels.lookup name with
    | some first => { b with error := some (.duplicate name first position) }
    | none => {
        b with
        labels := b.labels ++ [(name, position)]
        labels_le := by
          intro l h
          rcases List.mem_append.mp h with h | h
          · exact b.labels_le l h
          · simp_all [position] }

/-- The program, unless a label was refused. -/
def build [Vocabulary κ] [Scalar α] (b : Builder κ α) : Except LabelError (Program κ α) :=
  match b.error with
  | some e => .error e
  | none => .ok (.assemble b.code b.labels b.labels_le)

end Builder

end Barrage
