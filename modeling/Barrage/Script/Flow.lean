/-
What the dispatch loop needs to know about a kind of instruction.

There are three vocabularies of kinds, one each for bullets, shots and enemies, and a
tape holds kinds of one vocabulary only.  All that scheduling asks of a kind is its
`Flow`; every vocabulary has the six control kinds, and their flows are part of the
class, so that the control instructions can be written once for all vocabularies.
-/
namespace Barrage

/-- How the dispatch loop schedules a kind of instruction. -/
inductive Flow where
  /-- Takes effect and moves on in the same tick. -/
  | instant
  /-- Lasts a number of ticks. -/
  | timed
  /-- Holds the script until its handler lets go, however long that takes. -/
  | yielding
  | loopStart
  | loopEnd
  | call
  | ret
  /-- Ends the script. -/
  | stop
  deriving DecidableEq

/-- Control kinds move by jumping; the dispatch loop runs them without a handler. -/
def Flow.isControl : Flow → Bool
  | .loopStart | .loopEnd | .call | .ret | .stop => true
  | .instant | .timed | .yielding => false

/-- A closed set of instruction kinds. -/
class Vocabulary (κ : Type) where
  /-- What the vocabulary is called in listings. -/
  name : String
  /-- Every kind, in the order of listings. -/
  all : List κ
  flow : κ → Flow
  /-- The upper-case word for a kind. -/
  mnemonic : κ → String
  /-- The number of a kind, unique within its vocabulary. -/
  code : κ → UInt8
  /-- Whether the count of such an instruction is a number of bullets. -/
  firesVolley : κ → Bool := fun _ => false
  wait : κ
  loopStart : κ
  loopEnd : κ
  call : κ
  ret : κ
  stop : κ
  flow_wait : flow wait = .timed := by rfl
  flow_loopStart : flow loopStart = .loopStart := by rfl
  flow_loopEnd : flow loopEnd = .loopEnd := by rfl
  flow_call : flow call = .call := by rfl
  flow_ret : flow ret = .ret := by rfl
  flow_stop : flow stop = .stop := by rfl

/-- The kind that a mnemonic stands for. -/
def Vocabulary.ofMnemonic? {κ : Type} [Vocabulary κ] (word : String) : Option κ :=
  (all : List κ).find? fun kind => mnemonic kind == word

end Barrage
