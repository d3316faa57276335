/-
Enemies: their state, and the shots that they have started.
-/
import Barrage.Entity
import Barrage.Script.Cursor
import Barrage.Shot.Emitter
import Barrage.Shot.Vocabulary

namespace Barrage.Enemy

/-- Items that an enemy drops when it dies. -/
structure Drop where
  item : Int32
  count : Int32
  deriving DecidableEq

/-- A shot program that an enemy has started and that is still running. -/
structure ActiveShot (α : Type) [Scalar α] where
  name : String
  /-- The fire slot that the shot leaves from. -/
  slot : Int32
  emitter : Shot.Emitter α
  script : Cursor Shot.Kind α

/-- What an enemy script steers. -/
structure Body (α : Type) [Scalar α] where
  hp : Int32
  hitbox : α
  position : Vec2 α
  /-- Length per tick. -/
  velocity : Vec2 α
  /-- Added to the velocity every tick. -/
  acceleration : Vec2 α
  /-- Degrees. -/
  angle : α
  drops : List Drop
  updateHook : Option Int32
  /-- Effects by effect slot. -/
  effects : Std.TreeMap Int32 Int32
  /-- Where each fire slot is, seen from the enemy; the others are at its position. -/
  fireOffsets : Std.TreeMap Int32 (Vec2 α)
  dead : Bool
  handle : Option Handle
  /-- The running shots in the order in which they were started. -/
  shots : List (ActiveShot α)

variable {α : Type} [Scalar α]

namespace Body

/-- An enemy that nothing has been set on. -/
def ofPosition (position : Vec2 α) : Body α where
  hp := 1
  hitbox := 0.0
  position
  velocity := .zero
  acceleration := .zero
  angle := 0.0
  drops := []
  updateHook := none
  effects := ∅
  fireOffsets := ∅
  dead := false
  handle := none
  shots := []

/-- Where a fire slot is. -/
def fireOrigin (b : Body α) (slot : Int32) : Vec2 α :=
  b.position + b.fireOffsets[slot]?.getD .zero

/-- One tick of free movement: the velocity changes first, then the position. -/
def integrate (b : Body α) : Body α :=
  let b := { b with velocity := b.velocity + b.acceleration }
  { b with position := b.position + b.velocity }

end Body

end Barrage.Enemy
