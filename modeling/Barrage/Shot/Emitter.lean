/-
Emitters: where bullets leave from, and how.
-/
import Std.Data.TreeMap.Basic
import Barrage.Vec2

namespace Barrage.Shot

/-- One bullet of a volley, as the emitter sees it. -/
structure Round (α : Type) where
  /-- Degrees off the base angle. -/
  angle : α
  speed : α
  template : Int32
  color : Int32
  /-- Where the bullet leaves from, seen from the muzzle. -/
  offset : Vec2 α
  angularVelocity : α
  acceleration : α

/-- What a shot script steers. -/
structure Emitter (α : Type) where
  /-- Where the owner is. -/
  origin : Vec2 α
  /-- Where the muzzle is, seen from the owner. -/
  offset : Vec2 α
  /-- Degrees. -/
  baseAngle : α
  template : Int32
  color : Int32
  /-- The bullets kept under a number. -/
  slots : Std.TreeMap Int32 (Round α)
  /-- By how much the next volley may be off; zero if it may not. -/
  jitter : α
  /-- The bullet program that every bullet runs. -/
  motion : Option String
  /-- How many bullets were accepted. -/
  fired : Nat

variable {α : Type} [Scalar α]

namespace Emitter

/-- An emitter that nothing has been set on. -/
def ofOrigin (origin : Vec2 α) : Emitter α where
  origin
  offset := .zero
  baseAngle := 0.0
  template := 0
  color := 0
  slots := ∅
  jitter := 0.0
  motion := none
  fired := 0

def muzzle (e : Emitter α) : Vec2 α :=
  e.origin + e.offset

/-- A bullet of the present appearance. -/
def plain (e : Emitter α) (angle speed : α) : Round α where
  angle
  speed
  template := e.template
  color := e.color
  offset := .zero
  angularVelocity := 0.0
  acceleration := 0.0

/-- Changes the bullet in a slot; a slot that holds none starts from a bullet at rest of the
present appearance. -/
def modifySlot (e : Emitter α) (slot : Int32) (change : Round α → Round α) : Emitter α :=
  { e with slots := e.slots.insert slot (change (e.slots[slot]?.getD (e.plain 0.0 0.0))) }

end Emitter

end Barrage.Shot
