/-
The world as scripts see it for one tick.

A host is a record of operations over a state of any type `η`.  What a script can only
look at stays as it is during the tick and is plain data; what a script can cause goes
through the state, and so does chance.  Nothing is assumed about the operations: a
host may refuse bullets, forget positions and draw what it likes.
-/
import Barrage.Bullet.Motion
import Barrage.Curve
import Barrage.Library

namespace Barrage

/-- What scripts can look at. -/
structure Setting (α : Type) [Scalar α] where
  library : Library α
  /-- The sprite of a template in a color. -/
  sprite? : (template color : Int32) → Option (Sprite α)
  path? : Int32 → Option (Curve α)
  /-- Where the player is, if there is one. -/
  player : Option (Vec2 α)

/-- What scripts can look at, ask for and cause. -/
structure Host (α η : Type) [Scalar α] extends Setting α where
  /-- Asks for a bullet; the answer is its handle, or nothing when it is refused. -/
  spawnBullet : Bullet.Launch α → η → Option Handle × η
  setPosition : Handle → Vec2 α → η → η
  setRotation : Handle → α → η → η
  setVelocity : Handle → Vec2 α → η → η
  destroy : Handle → η → η
  playSound : String → α → η → η
  /-- Draws a number between two bounds. -/
  uniform : α → α → η → Except Crash (α × η)
  /-- Puts a list in random order. -/
  shuffle : List Nat → η → List Nat × η

/-- The heading from a point to the player. -/
def Setting.headingToPlayer? {α : Type} [Scalar α] (s : Setting α) (here : Vec2 α) : Option α :=
  s.player.map (Angle.towards here)

end Barrage
