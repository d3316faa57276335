/-
Instructions: a kind and its operands.

Every instruction carries the whole set of operands, whatever its kind, and an operand
that its kind does not use is kept and shown as it was written.  What an operand means
is said where its vocabulary is defined.
-/
import Barrage.Script.Flow
import Barrage.Vec2

namespace Barrage

/-- One instruction of a script over the vocabulary `κ`. -/
structure Instruction (κ α : Type) where
  kind : κ
  /-- The first number: a speed, an angle or an amount. -/
  first : α
  /-- The second number. -/
  second : α
  /-- How many ticks a timed instruction lasts. -/
  duration : Int32
  /-- How often, or how many bullets; for some kinds an identifier. -/
  count : Int32
  vector : Vec2 α
  /-- The subroutine called, or the name of another program. -/
  label : String
  /-- A slot, template, path, item or other identifier. -/
  extra : Int32
  sound : String
  volume : α

namespace Instruction

variable {κ α : Type} [Scalar α]

/-- An instruction with no operand given. -/
def ofKind (kind : κ) : Instruction κ α where
  kind
  first := 0.0
  second := 0.0
  duration := 0
  count := 0
  vector := .zero
  label := ""
  extra := 0
  sound := ""
  volume := 1.0

/-- An instruction that plays a sound. -/
def ofSound (kind : κ) (sound : String) (volume : α) : Instruction κ α :=
  { ofKind kind with sound, volume }

variable [Vocabulary κ]

def flow (i : Instruction κ α) : Flow :=
  Vocabulary.flow i.kind

/-! ### Control, the same in every vocabulary -/

/-- Holds the script for some ticks. -/
def wait (ticks : Int32) : Instruction κ α :=
  { ofKind Vocabulary.wait with duration := ticks }

/-- Opens a loop whose body runs `count` times, or not at all when that is not positive. -/
def loopStart (count : Int32) : Instruction κ α :=
  { ofKind Vocabulary.loopStart with count }

def loopEnd : Instruction κ α :=
  ofKind Vocabulary.loopEnd

/-- Runs the subroutine at `label` and comes back. -/
def call (label : String) : Instruction κ α :=
  { ofKind Vocabulary.call with label }

def ret : Instruction κ α :=
  ofKind Vocabulary.ret

def stop : Instruction κ α :=
  ofKind Vocabulary.stop

end Instruction

end Barrage
