/-
An interpreter that writes down what it is asked.

A probe has no effects of its own.  It records every call of the dispatch loop and
answers by a fixed plan, so that the loop can be watched on its own, for any
vocabulary.
-/
import Barrage.Script.Dispatch

namespace Barrage

/-- A call of the dispatch loop. -/
inductive DispatchCall (κ α : Type) where
  | instant (kind : κ)
  | run (kind : κ) (frame duration : Int32) (t : α) (scratch : Option (Scratch α))
  | finish (kind : κ) (scratch : Option (Scratch α))

/-- What a probe leaves behind for the next tick of an instruction. -/
inductive ScratchPlan where
  /-- What it found. -/
  | keep
  /-- The frame, where it found nothing. -/
  | capture
  /-- The frame on even frames, and nothing on odd ones. -/
  | alternate
  /-- A raised signal always; it also claims at the end of a span to be still pending. -/
  | litter
  deriving DecidableEq

/-- How a probe answers. -/
structure Probe (κ : Type) where
  /-- The kinds that end the script. -/
  halts : List κ
  /-- Whether each tick of a span lets go, counted over the whole run; after that none does. -/
  releases : Array Bool
  scratch : ScratchPlan

/-- What a probe has written down. -/
structure ProbeLog (κ α : Type) where
  calls : Array (DispatchCall κ α)
  /-- How many ticks of spans there were. -/
  runs : Nat

namespace Probe

variable {κ α : Type} [DecidableEq κ] [Scalar α]

/-- What the plan leaves behind on a tick of a span. -/
def scratchAfter (p : Probe κ) (frame : Int32) (found : Option (Scratch α)) : Option (Scratch α) :=
  let mark : Option (Scratch α) := some (.start (Scalar.ofInt32 frame))
  match p.scratch with
  | .keep => found
  | .capture => if found.isNone then mark else found
  | .alternate => if frame % 2 = 0 then mark else none
  | .litter => some .raised

def interpreter (p : Probe κ) : Interpreter κ α (ProbeLog κ α) where
  instant i log :=
    let log := { log with calls := log.calls.push (.instant i.kind) }
    .ok (if i.kind ∈ p.halts then .halt else .proceed, log)
  timed i phase scratch log :=
    match phase with
    | .run frame duration t =>
      let hold := if p.releases[log.runs]?.getD false then Hold.release else Hold.pending
      let calls := log.calls.push (.run i.kind frame duration t scratch)
      .ok (hold, p.scratchAfter frame scratch, { calls, runs := log.runs + 1 })
    | .finish =>
      let log := { log with calls := log.calls.push (.finish i.kind scratch) }
      match p.scratch with
      | .litter => .ok (.pending, some .raised, log)
      | _ => .ok (.release, scratch, log)

end Probe

end Barrage
