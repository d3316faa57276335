/-
Headings in degrees: 0 points along the first axis, and they grow towards the second.

`turnTowards` is the one partial operation.  Its limit bounds the turn on both sides,
so a limit that is no number leaves no interval to turn within.
-/
import Barrage.Crash
import Barrage.Vec2

namespace Barrage.Angle

variable {α : Type} [Scalar α]

/-- The vector of length one that points along `degrees`. -/
def direction (degrees : α) : Vec2 α :=
  let r := Scalar.toRadians degrees
  ⟨Scalar.cos r, Scalar.sin r⟩

/-- The displacement per tick for a speed and a heading. -/
def velocity (speed degrees : α) : Vec2 α :=
  direction degrees * speed

/-- The heading of a displacement; 0 for the displacement that goes nowhere. -/
def headingOf (v : Vec2 α) : α :=
  if v.isZero then 0.0 else Scalar.toDegrees (Scalar.atan2 v.y v.x)

/-- The heading from one point to another. -/
def towards (here there : Vec2 α) : α :=
  headingOf (there - here)

/-- The same heading, above -180 degrees and at most 180. -/
def wrap (degrees : α) : α :=
  let d := Scalar.wrapBelow 360.0 degrees
  if 180.0 < d then d - 360.0 else d

/-- Turns `current` towards `target` the shorter way round, by `maxTurn` degrees at most. -/
def turnTowards (current target maxTurn : α) : Except Crash α :=
  let limit := Scalar.abs maxTurn
  if -limit ≤ limit then
    .ok (current + Scalar.clamp (-limit) limit (wrap (target - current)))
  else
    .error .turnLimit

end Barrage.Angle
