/-
The stage: one enemy, its bullets and a player who stands still.

The field is 384 wide and 448 high, with the second axis pointing down, so that a
heading of 90 degrees leads to the bottom.  A tick runs the enemy and its shots, takes
up the bullets they have asked for, and then runs every bullet.  Bullets that split do
so at the end of the tick: what they ask for takes off in the next one.
-/
import Barrage.Bullet.Script
import Barrage.Enemy.Script
import Barrage.Stage.Summary
import Barrage.Stage.World

namespace Barrage.Stage

/-! ### The field -/

def fieldSize : Vec2 Float32 := ⟨384.0, 448.0⟩

/-- Where the enemy enters. -/
def entrance : Vec2 Float32 := ⟨192.0, 32.0⟩

/-- Where the player stands. -/
def playerPosition : Vec2 Float32 := ⟨192.0, 400.0⟩

/-- How far outside the field something may be before it is removed. -/
def margin : Float32 := 32.0

/-- Whether a point is off the field by more than the margin; a point that is none is not. -/
def outside (p : Vec2 Float32) : Bool :=
  p.x < -margin || p.y < -margin || fieldSize.x + margin < p.x || fieldSize.y + margin < p.y

/-! ### Bullets on the field

A bullet that splits goes on flying, and so the flag is taken down in the same tick in
which it is found up.  Its script sees that on the next tick and goes on.
-/

/-- A bullet on the field. -/
structure LiveBullet where
  motion : Bullet.Motion Float32
  script : Option (Cursor Bullet.Kind Float32)
  sprite : Sprite Float32
  /-- The template and color that the sprite was last looked up for. -/
  appearance : Int32 × Int32

namespace LiveBullet

/-- A bullet that takes off. -/
def ofLaunch (handle : Handle) (launch : Bullet.Launch Float32) : LiveBullet where
  motion := launch.motion (some handle)
  script := launch.script
  sprite := launch.sprite
  appearance := (launch.template, launch.color)

/-- Looks the sprite up again if the bullet has changed its appearance; one that cannot be found
leaves the old sprite. -/
def refreshSprite (setting : Setting Float32) (b : LiveBullet) : LiveBullet :=
  let wanted := (b.motion.template, b.motion.color)
  if wanted = b.appearance then b
  else
    { b with
      appearance := wanted
      sprite := (setting.sprite? wanted.1 wanted.2).getD b.sprite }

/-- The bullet that a bullet asks for when it splits: the same flight, without a script. -/
def split (b : LiveBullet) : Bullet.Launch Float32 where
  position := b.motion.position
  heading := b.motion.heading
  speed := b.motion.speed
  template := b.motion.template
  color := b.motion.color
  sprite := b.sprite
  angularVelocity := 0.0
  acceleration := 0.0
  script := none

/-- Runs one tick of the script; a script that ends is dropped. -/
def runScript (host : Host Float32 World) (b : LiveBullet) (w : World) :
    Except Crash (LiveBullet × World) :=
  match b.script with
  | none => .ok (b, w)
  | some script => do
    let (running, script, motion, w) ← Bullet.update host script b.motion w
    return ({ b with motion, script := if running then some script else none }, w)

/-- One tick of a bullet, with the bullet that it asks for. -/
def step (host : Host Float32 World) (b : LiveBullet) (w : World) :
    Except Crash (LiveBullet × Option (Bullet.Launch Float32) × World) := do
  let (b, w) ← b.runScript host w
  let b := b.refreshSprite host.toSetting
  let asked := if b.motion.refirePending then some b.split else none
  let motion := { b.motion with refirePending := false }.integrate
  let w := match motion.handle with
    | some handle => host.setPosition handle motion.position w
    | none => w
  return ({ b with motion }, asked, w)

end LiveBullet

/-- One tick of some bullets in order, with the bullets that they ask for. -/
def stepAll (host : Host Float32 World) : List LiveBullet → World →
    Except Crash (List LiveBullet × List (Bullet.Launch Float32) × World)
  | [], w => .ok ([], [], w)
  | b :: rest, w => do
    let (b, asked, w) ← b.step host w
    let (rest, more, w) ← stepAll host rest w
    return (b :: rest, asked.toList ++ more, w)

end Stage

/-! ### The stage

The order within a tick decides what can be seen of it: bullets that a shot asks for
take off in the same tick, bullets that others split into do so in the next one.
-/

open Stage in
/-- An enemy encounter. -/
structure Stage where
  setting : Setting Float32
  world : World
  /-- The enemy while it is on stage. -/
  enemy : Option (Enemy.Body Float32)
  script : Cursor Enemy.Kind Float32
  bullets : List LiveBullet
  /-- The totals so far; the ticks and the sounds are filled in at the end of the run. -/
  summary : Summary
  /-- The ticks that have begun. -/
  tick : Nat

namespace Stage

/-- A stage with one of the library's enemies at the entrance, if it has that enemy. -/
def ofEnemy? (setting : Setting Float32) (seed : UInt64) (enemy : String) : Option Stage := do
  let script ← setting.library.enemies.cursor? enemy
  let (handle, store) := Store.empty.spawn
  return {
    setting
    world := {
      store := store.setPosition handle entrance
      sounds := 0
      generator := .ofSeed seed }
    enemy := some { Enemy.Body.ofPosition entrance with handle := some handle }
    script
    bullets := []
    summary := .initial
    tick := 0 }

/-- The host of the stage's scripts. -/
def host (s : Stage) : Host Float32 World :=
  World.host s.setting

/-- How many items a list of drops comes to. -/
def dropCount (drops : List Enemy.Drop) : Nat :=
  drops.foldl (fun count d => count + d.count.toNatClampNeg) 0

/-- Makes an entity for each of some items. -/
def dropItems (count : Nat) (w : World) : World :=
  { w with store := Nat.repeat (fun store => store.spawn.2) count w.store }

/-- Takes the enemy off the stage. -/
def removeEnemy (s : Stage) (body : Enemy.Body Float32) (fate : Fate) : Stage :=
  let world := match body.handle with
    | some handle => s.host.destroy handle s.world
    | none => s.world
  { s with world, enemy := none, summary := { s.summary with fate } }

/-- One tick of the enemy and its shots. -/
def stepEnemy (s : Stage) : Except Crash Stage :=
  match s.enemy with
  | none => .ok s
  | some body => do
    let (running, script, body, world) ← Enemy.update s.host s.script body s.world
    let s := { s with script }
    if body.dead then
      let count := dropCount body.drops
      let summary := { s.summary with drops := s.summary.drops + count }
      return { s with world := dropItems count world, summary }.removeEnemy body (.died s.tick)
    else
      let body := body.integrate
      let world := match body.handle with
        | some handle => s.host.setPosition handle body.position world
        | none => world
      let (shots, body, world) ← Enemy.tickShots s.host body world
      let s := { s with world, enemy := some body }
      if outside body.position then
        return s.removeEnemy body (.left s.tick)
      else if !running && shots == 0 && body.velocity.isZero && body.acceleration.isZero then
        return s.removeEnemy body (.finished s.tick)
      else
        return s

/-- Takes up the bullets asked for. -/
def collect (s : Stage) : Stage :=
  let queued := s.world.store.queued.toList
  { s with
    world := { s.world with store := { s.world.store with queued := #[] } }
    bullets := s.bullets ++ queued.map fun (handle, launch) => .ofLaunch handle launch
    summary := { s.summary with fired := s.summary.fired + queued.length } }

/-- Asks for the bullets that others have split into. -/
def launchSplits (s : Stage) (splits : List (Bullet.Launch Float32)) : Stage :=
  splits.foldl (fun s launch =>
    match s.host.spawnBullet launch s.world with
    | (some _, world) =>
      { s with world, summary := { s.summary with refired := s.summary.refired + 1 } }
    | (none, world) => { s with world }) s

/-- Removes the bullets that have left the field. -/
def cull (s : Stage) : Stage :=
  let (gone, kept) := s.bullets.partition fun b => outside b.motion.position
  let destroy (w : World) (b : LiveBullet) : World :=
    match b.motion.handle with
    | some handle => s.host.destroy handle w
    | none => w
  { s with
    world := gone.foldl destroy s.world
    bullets := kept
    summary := { s.summary with culled := s.summary.culled + gone.length } }

/-- One tick of the bullets. -/
def stepBullets (s : Stage) : Except Crash Stage := do
  let (bullets, splits, world) ← stepAll s.host s.bullets s.world
  return ({ s with bullets, world }.launchSplits splits).cull

/-- Whether anything is left that can still do something. -/
def isBusy (s : Stage) : Bool :=
  s.enemy.isSome || !s.bullets.isEmpty || !s.world.store.queued.isEmpty

/-- One tick. -/
def step (s : Stage) : Except Crash Stage := do
  let s ← { s with tick := s.tick + 1 }.stepEnemy
  let s ← s.collect.stepBullets
  return { s with summary := { s.summary with peak := max s.summary.peak s.bullets.length } }

/-- What can be seen now. -/
def snapshot (s : Stage) : Snapshot :=
  let nowhere : Float32 := 0.0 / 0.0
  let place (handle : Handle) : Vec2 Float32 × Float32 :=
    match s.world.store.transform? handle with
    | some t => (t.position, t.rotation)
    | none => (⟨nowhere, nowhere⟩, 0.0)
  { tick := s.tick
    enemy := (s.enemy.bind (·.handle)).map place
    shots := (s.enemy.map (·.shots.length)).getD 0
    bullets := s.bullets.length }

end Stage

end Barrage
