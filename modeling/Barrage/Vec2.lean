/-
Points and displacements in the plane.

The order of the operations matters to the last digit, and it is that of `glam` 0.29: a
straight line between two points weighs both end points, so that it hits each of them
exactly.
-/
import Barrage.Scalar

namespace Barrage

/-- A point of the plane, or a displacement. -/
structure Vec2 (α : Type) where
  x : α
  y : α

namespace Vec2

variable {α : Type} [Scalar α]

instance : Add (Vec2 α) := ⟨fun a b => ⟨a.x + b.x, a.y + b.y⟩⟩
instance : Sub (Vec2 α) := ⟨fun a b => ⟨a.x - b.x, a.y - b.y⟩⟩
instance : HMul (Vec2 α) α (Vec2 α) := ⟨fun a s => ⟨a.x * s, a.y * s⟩⟩

def zero : Vec2 α := ⟨0.0, 0.0⟩

/-- Both coordinates compare equal to zero, whatever its sign. -/
def isZero (a : Vec2 α) : Bool :=
  a.x == 0.0 && a.y == 0.0

/-- Both coordinates without their sign. -/
def abs (a : Vec2 α) : Vec2 α :=
  ⟨Scalar.abs a.x, Scalar.abs a.y⟩

/-- The point at fraction `t` of the way from `a` to `b`. -/
def lerp (a b : Vec2 α) (t : α) : Vec2 α :=
  a * (1.0 - t) + b * t

def distance (a b : Vec2 α) : α :=
  let d := a - b
  Scalar.sqrt (d.x * d.x + d.y * d.y)

end Vec2

end Barrage
