/-
The entities of a stage: where they are, and the bullets asked for.

A bullet that is asked for gets its handle and its place at once, but waits in a queue
until the stage takes it up at a fixed point of the tick.
-/
import Barrage.Bullet.Motion
import Barrage.Single

namespace Barrage

/-- Where an entity is and where it looks. -/
structure Transform where
  position : Vec2 Float32
  /-- Degrees. -/
  rotation : Float32

/-- The entities of a stage. -/
structure Store where
  /-- The last handle given out. -/
  last : UInt32
  transforms : Std.TreeMap UInt32 Transform
  /-- The bullets asked for and not yet taken up, the first one first. -/
  queued : Array (Handle × Bullet.Launch Float32)

namespace Store

def empty : Store :=
  { last := 0, transforms := ∅, queued := #[] }

/-- Gives out the next handle, with its place.  The count wraps around after the last number of
32 bits, as arithmetic does that is not checked for overflow; with checks the run would end at the
handle 2 ^ 32 instead. -/
def allocate (t : Transform) (s : Store) : Handle × Store :=
  let id := s.last + 1
  (⟨id⟩, { s with last := id, transforms := s.transforms.insert id t })

/-- Makes an entity that stands at the origin. -/
def spawn (s : Store) : Handle × Store :=
  s.allocate { position := .zero, rotation := 0.0 }

/-- Queues a bullet; none is refused. -/
def spawnBullet (launch : Bullet.Launch Float32) (s : Store) : Handle × Store :=
  let (handle, s) := s.allocate { position := launch.position, rotation := launch.heading }
  (handle, { s with queued := s.queued.push (handle, launch) })

/-- Where an entity is, if there is one. -/
def transform? (s : Store) (handle : Handle) : Option Transform :=
  s.transforms[handle.id]?

/-- Changes the place of an entity, if there is one. -/
def modify (s : Store) (handle : Handle) (change : Transform → Transform) : Store :=
  match s.transform? handle with
  | some t => { s with transforms := s.transforms.insert handle.id (change t) }
  | none => s

def setPosition (s : Store) (handle : Handle) (position : Vec2 Float32) : Store :=
  s.modify handle fun t => { t with position }

def setRotation (s : Store) (handle : Handle) (rotation : Float32) : Store :=
  s.modify handle fun t => { t with rotation }

def destroy (s : Store) (handle : Handle) : Store :=
  { s with transforms := s.transforms.erase handle.id }

end Store

end Barrage
