/-
Paths to fly along.

A path is anything that has a point for each fraction of the way: scripts ask for that
point and look at nothing else, so whoever runs them may bring paths of its own.  The two
kinds below take a fraction outside 0 to 1 for the nearer of the two.
-/
import Barrage.Vec2

namespace Barrage

/-- A path in the plane, as the point that each fraction of it leads to. -/
structure Curve (α : Type) where
  pointAt : α → Vec2 α

namespace Curve

variable {α : Type} [Scalar α]

/-- The straight line between two points. -/
def line (start finish : Vec2 α) : Curve α where
  pointAt t := start.lerp finish (Scalar.clamp 0.0 1.0 t)

/-- The cubic curve that leaves its first point towards the second and enters its last point
from the third. -/
def cubic (p q r s : Vec2 α) : Curve α where
  pointAt t :=
    let t := Scalar.clamp 0.0 1.0 t
    let u := 1.0 - t
    p * (u * u * u) + q * (3.0 * u * u * t) + r * (3.0 * u * t * t) + s * (t * t * t)

end Curve

end Barrage
