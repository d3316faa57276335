/-
A bullet in flight, and a bullet that is asked for.
-/
import Barrage.Angle
import Barrage.Bullet.Vocabulary
import Barrage.Entity
import Barrage.Script.Cursor

namespace Barrage.Bullet

variable {α : Type} [Scalar α]

/-- What a bullet script steers. -/
structure Motion (α : Type) where
  speed : α
  /-- Degrees. -/
  heading : α
  position : Vec2 α
  /-- Degrees added to the heading every tick. -/
  angularVelocity : α
  /-- Added to the speed every tick. -/
  acceleration : α
  template : Int32
  color : Int32
  handle : Option Handle
  /-- The bullet has asked to be fired again; its owner does that and clears the flag. -/
  refirePending : Bool

namespace Motion

/-- A bullet that flies straight. -/
def straight (position : Vec2 α) (speed heading : α) : Motion α where
  speed
  heading
  position
  angularVelocity := 0.0
  acceleration := 0.0
  template := 0
  color := 0
  handle := none
  refirePending := false

def velocity (m : Motion α) : Vec2 α :=
  Angle.velocity m.speed m.heading

/-- One tick of flight: speed and heading change first, then the position. -/
def integrate (m : Motion α) : Motion α :=
  let m := { m with
    speed := m.speed + m.acceleration, heading := m.heading + m.angularVelocity }
  { m with position := m.position + m.velocity }

end Motion

/-- A bullet that is asked for. -/
structure Launch (α : Type) [Scalar α] where
  position : Vec2 α
  heading : α
  speed : α
  template : Int32
  color : Int32
  sprite : Sprite α
  angularVelocity : α
  acceleration : α
  /-- The script that the bullet will run. -/
  script : Option (Cursor Kind α)

/-- The bullet as it leaves. -/
def Launch.motion (l : Launch α) (handle : Option Handle) : Motion α where
  speed := l.speed
  heading := l.heading
  position := l.position
  angularVelocity := l.angularVelocity
  acceleration := l.acceleration
  template := l.template
  color := l.color
  handle
  refirePending := false

end Barrage.Bullet
