/-
The dispatch loop: one tick of a script.

Within a tick, instant instructions run one after the other, and the first timed
instruction with ticks left suspends the script.  Loops and subroutines are run here,
so an `Interpreter` sees the instructions of its own vocabulary and nothing else.

`Pulse.step` runs one instruction and `update` repeats it until the script suspends or
ends.  The loop ends because what the control instructions do next depends on the
position and the two stacks alone, and these never recur within one update: a position
is only ever reached again through a loop, whose passes are counted down.  There are
at most `Program.controlStates` different combinations, and that is the number of
steps that `update` allows.

An instruction that is visited too often without progress stops the script.  Progress
is a timed or yielding instruction that is left behind; it clears all the counts.
-/
import Barrage.Crash
import Barrage.Script.Cursor
import Barrage.Script.Limits

namespace Barrage

/-! ### What an interpreter is asked

The loop calls an interpreter for instant and for timed instructions.  What a timed one
remembers is handed to it and taken back at every call, so an interpreter keeps nothing
of its own between two ticks.
-/

/-- What an instant instruction asks of the dispatch loop. -/
inductive Signal where
  | proceed
  /-- End the script for good. -/
  | halt
  deriving DecidableEq

/-- Where a timed instruction is within its span. -/
inductive Phase (α : Type) where
  /-- A tick of the span; `t` is the fraction of the span that is over. -/
  | run (frame duration : Int32) (t : α)
  /-- The span is over. -/
  | finish

/-- What a timed instruction asks of the dispatch loop. -/
inductive Hold where
  /-- Stay on this instruction until the next tick. -/
  | pending
  /-- Leave it now and go on. -/
  | release
  deriving DecidableEq

/-- What the kinds of a vocabulary do to a state of type `σ`. -/
structure Interpreter (κ α σ : Type) where
  /-- Runs an instant instruction. -/
  instant : Instruction κ α → σ → Except Crash (Signal × σ)
  /-- Runs one tick of a timed or yielding instruction.  It is given what it remembered, which
  is nothing on its first tick, and answers with what to remember. -/
  timed : Instruction κ α → Phase α → Option (Scratch α) → σ →
    Except Crash (Hold × Option (Scratch α) × σ)

/-- The fraction of a span that is over; all of it, for a span of no ticks. -/
def progress {α : Type} [Scalar α] (frame duration : Int32) : α :=
  if duration ≤ 0 then 1.0
  else Scalar.clamp 0.0 1.0 (Scalar.ofInt32 frame / Scalar.ofInt32 duration)

/-- A counter of ticks that stays at its largest value. -/
def nextFrame (frame : Int32) : Int32 :=
  if frame = Int32.maxValue then frame else frame + 1

/-! ### Control instructions

These change the position and the two stacks and see nothing of the interpreter.  A
fault is an answer like any other here; what it does to the script is up to the loop.
-/

namespace Cursor

variable {κ α : Type} [Vocabulary κ] [Scalar α]

/-- Enters a loop, or goes to the position after its end; a loop without an end that is not
entered ends the tape. -/
def startLoop (c : Cursor κ α) (count : Int32) : Except ScriptError (Cursor κ α) :=
  if count ≤ 0 then
    .ok { c with ip := (c.program.loopExit? c.ip).getD c.program.size }
  else if Limits.loopDepth ≤ c.loops.length then
    .error (.loopStackOverflow c.ip c.loops.length)
  else
    .ok { c with loops := ⟨c.ip, count⟩ :: c.loops, ip := c.ip + 1 }

/-- Ends a pass of the innermost loop; an end with no open loop does nothing. -/
def endLoop (c : Cursor κ α) : Cursor κ α :=
  match c.loops with
  | [] => { c with ip := c.ip + 1 }
  | top :: rest =>
    let remaining := top.remaining - 1
    if 0 < remaining then
      { c with loops := { top with remaining } :: rest, ip := top.start + 1 }
    else
      { c with loops := rest, ip := c.ip + 1 }

/-- Goes to a subroutine. -/
def enter (c : Cursor κ α) (label : String) : Except ScriptError (Cursor κ α) :=
  match c.program.position? label with
  | none => .error (.unknownSubroutine c.ip label)
  | some target =>
    if Limits.callDepth ≤ c.calls.length then
      .error (.callStackOverflow c.ip c.calls.length)
    else
      .ok { c with calls := (c.ip + 1) :: c.calls, ip := target }

/-- Comes back from the innermost subroutine. -/
def leave (c : Cursor κ α) : Except ScriptError (Cursor κ α) :=
  match c.calls with
  | [] => .error (.returnWithoutCall c.ip)
  | back :: rest => .ok { c with calls := rest, ip := back }

end Cursor

/-! ### One instruction

Each tick of a span is a step that ends the tick, unless the handler lets go.  When the
span is over the handler is called once more, in the same step that leaves the
instruction.
-/

/-- A script in the middle of a tick. -/
structure Pulse (κ α σ : Type) [Vocabulary κ] [Scalar α] where
  cursor : Cursor κ α
  /-- How often each position was visited since the last progress. -/
  visits : Array Nat
  state : σ

/-- What running one instruction comes to. -/
inductive Step (κ α σ : Type) [Vocabulary κ] [Scalar α] where
  /-- The tick goes on. -/
  | next (pulse : Pulse κ α σ)
  /-- The tick is over; `running` says whether the script has more. -/
  | done (running : Bool) (cursor : Cursor κ α) (state : σ)

namespace Pulse

variable {κ α σ : Type} [Vocabulary κ] [Scalar α]

/-- No visits to any instruction of a program. -/
def noVisits (p : Program κ α) : Array Nat :=
  Array.replicate p.size 0

/-- A tick that begins, or goes on after progress. -/
def ofCursor (cursor : Cursor κ α) (state : σ) : Pulse κ α σ :=
  { cursor, visits := noVisits cursor.program, state }

/-- Goes on with the cursor that a control instruction leads to, or stops the script. -/
def jump (t : Pulse κ α σ) : Except ScriptError (Cursor κ α) → Step κ α σ
  | .ok cursor => .next { t with cursor }
  | .error e => .done false (t.cursor.abort e) t.state

/-- Suspends on the present instruction, or goes on after it. -/
def settle (c : Cursor κ α) (hold : Hold) (scratch : Option (Scratch α)) (state : σ) :
    Step κ α σ :=
  match hold with
  | .pending =>
    let kept := match scratch with
      | some s => c.scratch.insert c.ip s
      | none => c.scratch
    .done true { c with frame := nextFrame c.frame, scratch := kept } state
  | .release => .next (ofCursor c.advance state)

/-- Runs one tick of a timed or yielding instruction. -/
def hold (I : Interpreter κ α σ) (t : Pulse κ α σ) (i : Instruction κ α) (fraction : α) :
    Except Crash (Step κ α σ) := do
  let c := t.cursor
  let held := c.scratch[c.ip]?
  let c := { c with scratch := c.scratch.erase c.ip }
  let (answer, scratch, state) ← I.timed i (.run c.frame i.duration fraction) held t.state
  return settle c answer scratch state

/-- Ends the span of a timed instruction; the handler's answer is not asked for. -/
def finish (I : Interpreter κ α σ) (t : Pulse κ α σ) (i : Instruction κ α) :
    Except Crash (Step κ α σ) := do
  let c := t.cursor
  let (_, _, state) ← I.timed i .finish c.scratch[c.ip]? t.state
  return .next (ofCursor c.advance state)

/-- Runs one instruction, whatever its flow. -/
def dispatch (I : Interpreter κ α σ) (t : Pulse κ α σ) (i : Instruction κ α) :
    Except Crash (Step κ α σ) :=
  let c := t.cursor
  match i.flow with
  | .instant => do
    match ← I.instant i t.state with
    | (.proceed, state) => return .next { t with cursor := { c with ip := c.ip + 1 }, state }
    | (.halt, state) => return .done false c.finish state
  | .timed =>
    if i.duration ≤ c.frame then t.finish I i
    else t.hold I i (progress c.frame i.duration)
  | .yielding => t.hold I i 0.0
  | .loopStart => return t.jump (c.startLoop i.count)
  | .loopEnd => return .next { t with cursor := c.endLoop }
  | .call => return t.jump (c.enter i.label)
  | .ret => return t.jump c.leave
  | .stop => return .done false c.finish t.state

/-- Runs the instruction at the cursor, unless it has been visited too often or there is none. -/
def step (I : Interpreter κ α σ) (t : Pulse κ α σ) : Except Crash (Step κ α σ) :=
  let c := t.cursor
  match c.program.get? c.ip with
  | none => return .done false c.finish t.state
  | some i =>
    let visits := t.visits.modify c.ip (· + 1)
    let seen := visits[c.ip]?.getD 0
    if Limits.visits c.program.size < seen then
      return .done false (c.abort (.runawayDispatch c.ip seen)) t.state
    else
      { t with visits }.dispatch I i

/-- Repeats `step`, at most `fuel` times. -/
def run (I : Interpreter κ α σ) : (fuel : Nat) → Pulse κ α σ →
    Except Crash (Bool × Cursor κ α × σ)
  | 0, t => .ok (true, t.cursor, t.state)
  | fuel + 1, t => do
    match ← t.step I with
    | .next t => run I fuel t
    | .done running cursor state => return (running, cursor, state)

end Pulse

/-! ### One tick -/

/-- A bound on the combinations of a position with a loop stack and a call stack. -/
def Program.controlStates {κ α : Type} [Vocabulary κ] [Scalar α] (p : Program κ α) : Nat :=
  Nat.pow ((p.size + 2) * 0x100000000) (Limits.loopDepth + Limits.callDepth + 2)

/-- Runs one tick of a script and says whether it has more. -/
def Cursor.update {κ α σ : Type} [Vocabulary κ] [Scalar α] (I : Interpreter κ α σ)
    (c : Cursor κ α) (state : σ) : Except Crash (Bool × Cursor κ α × σ) :=
  if c.finished then .ok (false, c, state)
  else if c.program.size ≤ c.ip then .ok (false, c.finish, state)
  else (Pulse.ofCursor c state).run I c.program.controlStates

end Barrage
