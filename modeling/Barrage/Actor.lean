/-
Single actors, driven by hand.

An actor is a bullet, an emitter or an enemy with its script.  Each part of a tick can
be run on its own, against any host, in any order.
-/
import Barrage.Bullet.Script
import Barrage.Enemy.Script

namespace Barrage

/-- Something that a script steers, with its script; only a bullet may have none. -/
inductive Actor (α : Type) [Scalar α] where
  | bullet (script : Option (Cursor Bullet.Kind α)) (motion : Bullet.Motion α)
  | shot (script : Cursor Shot.Kind α) (emitter : Shot.Emitter α)
  | enemy (script : Cursor Enemy.Kind α) (body : Enemy.Body α)

/-- What the parts of a tick have answered: whether the script has more, and how many shots are
running. -/
structure TickReport where
  running : Option Bool
  shots : Option Nat

namespace Actor

variable {α η : Type} [Scalar α]

/-- The same actor at the start of its script. -/
def restart : Actor α → Actor α
  | bullet script motion => bullet (script.map Cursor.fresh) motion
  | shot script emitter => shot script.fresh emitter
  | enemy script body => enemy script.fresh body

/-- Whether the script has ended; a bullet may have none. -/
def finished? : Actor α → Option Bool
  | bullet script _ => script.map (·.finished)
  | shot script _ => some script.finished
  | enemy script _ => some script.finished

/-- Runs one tick of the script. -/
def update (host : Host α η) : Actor α → η → Except Crash (TickReport × Actor α × η)
  | bullet none motion, h => .ok (⟨none, none⟩, bullet none motion, h)
  | bullet (some script) motion, h => do
    let (running, script, motion, h) ← Bullet.update host script motion h
    return (⟨some running, none⟩, bullet (some script) motion, h)
  | shot script emitter, h => do
    let (running, script, emitter, h) ← Shot.update host script emitter h
    return (⟨some running, none⟩, shot script emitter, h)
  | enemy script body, h => do
    let (running, script, body, h) ← Enemy.update host script body h
    return (⟨some running, none⟩, enemy script body, h)

/-- Moves for one tick; an emitter does not move. -/
def integrate : Actor α → Actor α
  | bullet script motion => bullet script motion.integrate
  | shot script emitter => shot script emitter
  | enemy script body => enemy script body.integrate

/-- Runs one tick of the shots of an enemy. -/
def tickShots (host : Host α η) : Actor α → η → Except Crash (TickReport × Actor α × η)
  | enemy script body, h => do
    let (shots, body, h) ← Enemy.tickShots host body h
    return (⟨none, some shots⟩, enemy script body, h)
  | actor, h => .ok (⟨none, none⟩, actor, h)

/-- A whole tick: the script, then the movement, then the shots. -/
def cycle (host : Host α η) (actor : Actor α) (h : η) :
    Except Crash (TickReport × Actor α × η) := do
  let (first, actor, h) ← actor.update host h
  let (second, actor, h) ← actor.integrate.tickShots host h
  return (⟨first.running, second.shots⟩, actor, h)

/-- Runs ticks of the script until it says that it has no more, at most `limit`; says how many
there were.  An actor without a script never says so. -/
def runOut (host : Host α η) (limit : Nat) (actor : Actor α) (h : η) :
    Except Crash (Nat × TickReport × Actor α × η) :=
  go limit 0 ⟨none, none⟩ actor h
where
  go : Nat → Nat → TickReport → Actor α → η → Except Crash (Nat × TickReport × Actor α × η)
    | 0, calls, report, actor, h => .ok (calls, report, actor, h)
    | n + 1, calls, _, actor, h => do
      let (report, actor, h) ← actor.update host h
      if report.running = some false then return (calls + 1, report, actor, h)
      else go n (calls + 1) report actor h

end Actor

end Barrage
