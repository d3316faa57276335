/-
A host that writes down what scripts ask of it.

A recorder keeps the bullets it has accepted, whose handles count up from 1, and no
other state of the field.  Chance comes from a seed, or from a list of fractions that
is used over and over.
-/
import Barrage.Host
import Barrage.Random.Draw

namespace Barrage

/-- Something that a script has asked for, with the answer if there is one. -/
inductive Event (α : Type) [Scalar α] where
  | launched (handle : Handle) (launch : Bullet.Launch α)
  | refused (launch : Bullet.Launch α)
  | setPosition (handle : Handle) (position : Vec2 α)
  | setRotation (handle : Handle) (degrees : α)
  | setVelocity (handle : Handle) (velocity : Vec2 α)
  | destroyed (handle : Handle)
  | played (sound : String) (volume : α)
  | drawn (min max result : α)
  | shuffled (result : List Nat)

/-- Where the chance comes from. -/
inductive Chance where
  | seeded (generator : Random.Generator)
  | scripted (fractions : Array Float32) (taken : Nat)

namespace Chance

/-- The next fraction of a list, which starts again after its end. -/
def nextFraction (fractions : Array Float32) (taken : Nat) : Float32 :=
  fractions[taken % fractions.size]?.getD 0.5

/-- Draws a number between two bounds. -/
def uniform (min max : Float32) : Chance → Except Crash (Float32 × Chance)
  | seeded g => do
    let (x, g) ← g.uniform min max
    return (x, seeded g)
  | scripted fractions taken =>
    .ok (min + (max - min) * nextFraction fractions taken, scripted fractions (taken + 1))

/-- Puts a list in random order; a list of fractions only turns it round. -/
def shuffle (items : List Nat) : Chance → List Nat × Chance
  | seeded g =>
    let (items, g) := g.shuffle items
    (items, seeded g)
  | scripted fractions taken =>
    let turn := (nextFraction fractions taken * Float32.ofNat items.length).toUInt64.toNat
    (items.drop turn ++ items.take turn, scripted fractions (taken + 1))

end Chance

/-- What a recorder has seen and accepted. -/
structure Recorder where
  events : Array (Event Float32)
  /-- The bullets accepted so far. -/
  launches : Array (Bullet.Launch Float32)
  /-- Refuses every further bullet. -/
  full : Bool
  chance : Chance

namespace Recorder

def ofChance (chance : Chance) : Recorder :=
  { events := #[], launches := #[], full := false, chance }

def record (r : Recorder) (e : Event Float32) : Recorder :=
  { r with events := r.events.push e }

/-- The recorder without the events it has shown. -/
def shown (r : Recorder) : Recorder :=
  { r with events := #[] }

def spawnBullet (launch : Bullet.Launch Float32) (r : Recorder) : Option Handle × Recorder :=
  if r.full then (none, r.record (.refused launch))
  else
    let handle : Handle := ⟨(r.launches.size + 1).toUInt32⟩
    (some handle, { r with launches := r.launches.push launch }.record (.launched handle launch))

/-- The recorder as a host; a silent one plays no sound and hears none. -/
def host (setting : Setting Float32) (silent : Bool) : Host Float32 Recorder where
  toSetting := setting
  spawnBullet := spawnBullet
  setPosition handle position r := r.record (.setPosition handle position)
  setRotation handle degrees r := r.record (.setRotation handle degrees)
  setVelocity handle velocity r := r.record (.setVelocity handle velocity)
  destroy handle r := r.record (.destroyed handle)
  playSound sound volume r := if silent then r else r.record (.played sound volume)
  uniform min max r := do
    let (x, chance) ← r.chance.uniform min max
    return (x, { r with chance }.record (.drawn min max x))
  shuffle items r :=
    let (items, chance) := r.chance.shuffle items
    (items, { r with chance }.record (.shuffled items))

end Recorder

end Barrage
