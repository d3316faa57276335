/-
A run: ticks until the field is empty or time is up.
-/
import Barrage.Stage.Step

namespace Barrage.Stage

/-- Runs ticks while the field is busy, at most `limit`, and puts what can be seen after each in
front of `seen`. -/
def runTicks : (limit : Nat) → (seen : List Snapshot) → Stage →
    Except Crash (Stage × List Snapshot)
  | 0, seen, s => .ok (s, seen)
  | limit + 1, seen, s => do
    let s ← s.step
    let seen := s.snapshot :: seen
    if s.isBusy then runTicks limit seen s else return (s, seen)

/-- The totals, with what is known only at the end. -/
def totals (s : Stage) : Summary :=
  { s.summary with ticks := s.tick, sounds := s.world.sounds }

/-- Runs a stage for a number of ticks at most: the totals, and what could be seen after each
tick. -/
def run (limit : Nat) (s : Stage) : Except Crash (Summary × List Snapshot) := do
  let (s, seen) ← runTicks limit [] s
  return (s.totals, seen.reverse)

end Barrage.Stage
