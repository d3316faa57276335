/-
How a shot script aims and fires.

Firing has three parts.  `volley?` says which bullets an instruction describes and
makes the random choices that belong to it; `fire` then uses up the pending jitter,
with one random number for the whole volley; and `launch` asks the host for each
bullet in turn.  A bullet without a sprite is not asked for, and one that is refused is
not counted.
-/
import Barrage.Host
import Barrage.Script.Dispatch
import Barrage.Shot.Emitter
import Barrage.Spread

namespace Barrage.Shot

variable {α η : Type} [Scalar α]

/-! ### Firing

What is described and what is asked for are kept apart: the angle of a round is counted
from the base angle of its emitter and the jitter comes on top, both when it is
launched.
-/

/-- The items of a list in the order that a list of their positions gives. -/
def pick (items : List α) (order : List Nat) : Except Crash (List α) :=
  let table := items.toArray
  order.mapM fun i =>
    match table[i]? with
    | some item => .ok item
    | none => .error .strayIndex

/-- The bullets that an instruction fires, or nothing if it is not one that fires. -/
def volley? (host : Host α η) (i : Instruction Kind α) (e : Emitter α) (h : η) :
    Except Crash (Option (List (Round α)) × η) :=
  let atAngles (angles : List α) : Option (List (Round α)) :=
    some (angles.map fun angle => e.plain angle i.first)
  let start := i.vector.x
  let arc := i.vector.y
  match i.kind with
  | .fire => .ok (some [e.plain 0.0 i.first], h)
  | .fireAt => .ok (some [e.plain i.first i.second], h)
  | .fireSpeeds => .ok (some ((Spread.fanSpeeds i.count i.first i.second).map (e.plain 0.0)), h)
  | .fireSpread => .ok (atAngles (Spread.angles i.count start arc), h)
  | .fireSpreadCentered => .ok (atAngles (Spread.centeredAngles i.count start arc), h)
  | .fireSpreadShuffled => do
    let angles := Spread.angles i.count start arc
    let (order, h) := host.shuffle (List.range angles.length) h
    return (atAngles (← pick angles order), h)
  | .fireSpreadRandom => do
    let (angles, h) ← Spread.randomAngles host.uniform i.count start arc h
    return (atAngles angles, h)
  | .fireRing => .ok (atAngles (Spread.ringAngles i.count 0.0), h)
  | .fireSlot => .ok (some e.slots[i.extra]?.toList, h)
  | .fireAllSlots => .ok (some e.slots.values, h)
  | _ => .ok (none, h)

/-- Asks the host for one bullet. -/
def launch (host : Host α η) (heading : α) (r : Round α) (e : Emitter α) (h : η) :
    Emitter α × η :=
  match host.sprite? r.template r.color with
  | none => (e, h)
  | some sprite =>
    let (answer, h) := host.spawnBullet
      { position := e.muzzle + r.offset
        heading
        speed := r.speed
        template := r.template
        color := r.color
        sprite
        angularVelocity := r.angularVelocity
        acceleration := r.acceleration
        script := e.motion.bind host.library.bullets.cursor? } h
    (if answer.isSome then { e with fired := e.fired + 1 } else e, h)

/-- Asks the host for some bullets in order, all of them off by the same angle. -/
def launchAll (host : Host α η) (deviation : α) (rounds : List (Round α)) (e : Emitter α) (h : η) :
    Emitter α × η :=
  rounds.foldl (fun (e, h) r => launch host (e.baseAngle + r.angle + deviation) r e h) (e, h)

/-- Fires a volley and uses up the jitter, also if the volley is empty. -/
def fire (host : Host α η) (rounds : List (Round α)) (e : Emitter α) (h : η) :
    Except Crash (Emitter α × η) :=
  let calm := { e with jitter := 0.0 }
  if e.jitter == 0.0 then .ok (launchAll host 0.0 rounds calm h)
  else do
    let (deviation, h) ← host.uniform (-e.jitter) e.jitter h
    return launchAll host deviation rounds calm h

/-! ### The other instructions -/

/-- What an instant instruction does that fires nothing. -/
def adjust (host : Host α η) (i : Instruction Kind α) (e : Emitter α) (h : η) : Emitter α × η :=
  match i.kind with
  | .setBulletType => ({ e with template := i.extra, color := i.count }, h)
  | .setSlotBulletType =>
    (e.modifySlot i.extra fun r => { r with template := i.count, color := Scalar.trunc i.first }, h)
  | .setAngle => ({ e with baseAngle := i.first }, h)
  | .addAngle => ({ e with baseAngle := e.baseAngle + i.first }, h)
  | .aimAtPlayer =>
    match host.headingToPlayer? e.muzzle with
    | some target => ({ e with baseAngle := target + i.first }, h)
    | none => (e, h)
  | .randomizeNext => ({ e with jitter := Scalar.abs i.first }, h)
  | .registerBullet =>
    (e.modifySlot i.extra fun r =>
      { r with angle := i.first, speed := i.second, offset := i.vector }, h)
  | .setSlotSpeed => (e.modifySlot i.extra fun r => { r with speed := i.first }, h)
  | .setSlotSpin => (e.modifySlot i.extra fun r => { r with angularVelocity := i.first }, h)
  | .setSlotAcceleration => (e.modifySlot i.extra fun r => { r with acceleration := i.first }, h)
  | .setSlotOffset => (e.modifySlot i.extra fun r => { r with offset := i.vector }, h)
  | .clearSlots => ({ e with slots := ∅ }, h)
  | .attachMotion => ({ e with motion := some i.label }, h)
  | .detachMotion => ({ e with motion := none }, h)
  | .setOffset => ({ e with offset := i.vector }, h)
  | .playSound => (e, host.playSound i.sound i.volume h)
  | _ => (e, h)

/-- What an instant instruction does. -/
def act (host : Host α η) (i : Instruction Kind α) (e : Emitter α) (h : η) :
    Except Crash (Emitter α × η) := do
  match ← volley? host i e h with
  | (some rounds, h) => fire host rounds e h
  | (none, h) => return adjust host i e h

/-- One tick of a timed instruction. -/
def tick (i : Instruction Kind α) (e : Emitter α) : Emitter α :=
  match i.kind with
  | .rotateBase => { e with baseAngle := e.baseAngle + i.first }
  | _ => e

/-- The shot vocabulary, for an emitter in a world. -/
def interpreter (host : Host α η) : Interpreter Kind α (Emitter α × η) where
  instant i := fun (e, h) => do
    let state ← act host i e h
    return (.proceed, state)
  timed i phase scratch := fun (e, h) =>
    match phase with
    | .run .. => .ok (.pending, scratch, tick i e, h)
    | .finish => .ok (.release, scratch, e, h)

/-- Runs one tick of a shot's script and says whether it has more. -/
def update (host : Host α η) (script : Cursor Kind α) (e : Emitter α) (h : η) :
    Except Crash (Bool × Cursor Kind α × Emitter α × η) :=
  script.update (interpreter host) (e, h)

end Barrage.Shot
