/-
How an enemy script moves and arms its enemy.

Movements between two points work from the position they found on their first tick.  A
random walk is a chain of legs around such an anchor, and the next leg is chosen on the
tick that ends the one before.  Shots run beside the script that started them and never
hold it up; `tickShots` runs them.
-/
import Barrage.Enemy.Body
import Barrage.Shot.Script

namespace Barrage.Enemy

variable {α η : Type} [Scalar α]

/-! ### Instant instructions -/

/-- Starts a shot program, if there is one of that name. -/
def startShot (host : Host α η) (name : String) (slot : Int32) (b : Body α) : Body α :=
  match host.library.shots.cursor? name with
  | none => b
  | some script =>
    let emitter := .ofOrigin (b.fireOrigin slot)
    { b with shots := b.shots ++ [{ name, slot, emitter, script }] }

/-- Dies: drops the shots, gives up the handle and destroys the entity behind it. -/
def die (host : Host α η) (b : Body α) (h : η) : Body α × η :=
  let h := match b.handle with
    | some handle => host.destroy handle h
    | none => h
  ({ b with dead := true, shots := [], handle := none }, h)

/-- What an instant instruction does. -/
def act (host : Host α η) (i : Instruction Kind α) (b : Body α) (h : η) : Signal × Body α × η :=
  match i.kind with
  | .setHp => (.proceed, { b with hp := i.extra }, h)
  | .setHitbox => (.proceed, { b with hitbox := i.first }, h)
  | .addDrop => (.proceed, { b with drops := b.drops ++ [⟨i.extra, i.count⟩] }, h)
  | .clearDrops => (.proceed, { b with drops := [] }, h)
  | .setAngle => (.proceed, { b with angle := i.first }, h)
  | .die => (.halt, die host b h)
  | .teleport => (.proceed, { b with position := i.vector }, h)
  | .setVelocity => (.proceed, { b with velocity := i.vector }, h)
  | .setAcceleration => (.proceed, { b with acceleration := i.vector }, h)
  | .halt => (.proceed, { b with velocity := .zero, acceleration := .zero }, h)
  | .fire => (.proceed, startShot host i.label i.extra b, h)
  | .setUpdateHook => (.proceed, { b with updateHook := some i.extra }, h)
  | .setEffect => (.proceed, { b with effects := b.effects.insert i.extra i.count }, h)
  | .setFireOffset => (.proceed, { b with fireOffsets := b.fireOffsets.insert i.extra i.vector }, h)
  | .playSound => (.proceed, b, host.playSound i.sound i.volume h)
  | _ => (.proceed, b, h)

/-! ### Random walks

The two walks differ in how a leg is chosen, and `LegChoice` is all that sets them
apart.  The anchor is where the first tick found the enemy; it goes on from leg to leg,
so a walk does not drift.
-/

/-- Chooses where a leg goes and how many ticks it takes, given the anchor of the walk and the
start of the leg. -/
abbrev LegChoice (α η : Type) := Vec2 α → Vec2 α → η → Except Crash ((Vec2 α × Int32) × η)

/-- A point at most `radius` from the anchor, `span` ticks away. -/
def chooseNear (host : Host α η) (radius : α) (span : Int32) : LegChoice α η :=
  fun anchor _ h => do
    let (heading, h) ← host.uniform 0.0 360.0 h
    let (distance, h) ← host.uniform 0.0 radius h
    return ((anchor + Angle.direction heading * distance, span), h)

/-- How many ticks a distance takes; one tick for a speed that is not positive. -/
def legTicks (distance speed : α) : Int32 :=
  if speed ≤ 0.0 then 1 else max (Scalar.ceil (distance / speed)) 1

/-- A point in the box around the anchor, reached with a speed. -/
def chooseInBox (host : Host α η) (half : Vec2 α) (speed : α) : LegChoice α η :=
  fun anchor departure h => do
    let (x, h) ← host.uniform (-half.x) half.x h
    let (y, h) ← host.uniform (-half.y) half.y h
    let target := anchor + ⟨x, y⟩
    return ((target, legTicks (departure.distance target) speed), h)

/-- The leg that a walk is on; a walk that begins chooses its first. -/
def currentLeg (choose : LegChoice α η) (scratch : Option (Scratch α)) (here : Vec2 α) (h : η) :
    Except Crash (Leg α × η) :=
  match scratch with
  | some (.leg leg) => .ok (leg, h)
  | _ => do
    let ((target, span), h) ← choose here here h
    return ({ anchor := here, departure := here, target, timer := 0, span }, h)

/-- One tick of a random walk. -/
def walk (choose : LegChoice α η) (scratch : Option (Scratch α)) (b : Body α) (h : η) :
    Except Crash (Option (Scratch α) × Body α × η) := do
  let (leg, h) ← currentLeg choose scratch b.position h
  let timer := leg.timer + 1
  let fraction := Scalar.atMostOne (Scalar.ofInt32 timer / Scalar.ofInt32 leg.span)
  let b := { b with position := leg.departure.lerp leg.target fraction }
  if leg.span ≤ timer then
    let ((target, span), h) ← choose leg.anchor leg.target h
    let next : Leg α := { anchor := leg.anchor, departure := leg.target, target, timer := 0, span }
    return (some (.leg next), b, h)
  else
    return (some (.leg { leg with timer }), b, h)

/-! ### Timed instructions -/

/-- The position found on the first tick, which is this one if nothing is remembered. -/
def originOr (scratch : Option (Scratch α)) (current : Vec2 α) : Vec2 α :=
  match scratch with
  | some (.origin position) => position
  | _ => current

/-- How far a swing is out, `frame` ticks after its start; not at all, for a period that is not
positive. -/
def swing (period : α) (frame : Int32) : α :=
  if period ≤ 0.0 then 0.0 else Scalar.waveSine period frame

/-- One tick of a timed instruction. -/
def tick (host : Host α η) (i : Instruction Kind α) (frame : Int32) (t : α)
    (scratch : Option (Scratch α)) (b : Body α) (h : η) :
    Except Crash (Option (Scratch α) × Body α × η) :=
  let start := originOr scratch b.position
  match i.kind with
  | .moveTo => .ok (some (.origin start), { b with position := start.lerp i.vector t }, h)
  | .moveBy => .ok (some (.origin start), { b with position := start + i.vector * t }, h)
  | .rotate => .ok (scratch, { b with angle := b.angle + i.first }, h)
  | .oscillate =>
    .ok (some (.origin start),
      { b with position := start + i.vector * swing i.first frame }, h)
  | .home => do
    let angle ← match host.headingToPlayer? b.position with
      | some target => Angle.turnTowards b.angle target i.second
      | none => pure b.angle
    let position := b.position + Angle.velocity i.first angle
    return (scratch, { b with angle, position }, h)
  | .followPath =>
    match host.path? i.extra with
    | some curve => .ok (scratch, { b with position := curve.pointAt t }, h)
    | none => .ok (scratch, b, h)
  | .wander => walk (chooseNear host (Scalar.abs i.first) (max i.count 1)) scratch b h
  | .patrol => walk (chooseInBox host i.vector.abs (Scalar.abs i.first)) scratch b h
  | _ => .ok (scratch, b, h)

/-- The end of a span: the exact final position. -/
def conclude (host : Host α η) (i : Instruction Kind α) (scratch : Option (Scratch α))
    (b : Body α) : Body α :=
  let start := originOr scratch b.position
  match i.kind with
  | .moveTo => { b with position := i.vector }
  | .moveBy => { b with position := start + i.vector }
  | .oscillate => { b with position := start + i.vector * swing i.first i.duration }
  | .followPath =>
    match host.path? i.extra with
    | some curve => { b with position := curve.pointAt 1.0 }
    | none => b
  | _ => b

/-! ### Scripts and shots -/

/-- The enemy vocabulary, for an enemy in a world. -/
def interpreter (host : Host α η) : Interpreter Kind α (Body α × η) where
  instant i := fun (b, h) => .ok (act host i b h)
  timed i phase scratch := fun (b, h) =>
    match phase with
    | .run frame _ t => do
      let state ← tick host i frame t scratch b h
      return (.pending, state)
    | .finish => .ok (.release, scratch, conclude host i scratch b, h)

/-- Runs one tick of an enemy's script and says whether it has more.  Where the enemy then is,
and where it looks, is told to its entity, unless it has none. -/
def update (host : Host α η) (script : Cursor Kind α) (b : Body α) (h : η) :
    Except Crash (Bool × Cursor Kind α × Body α × η) :=
  if script.finished then .ok (false, script, b, h)
  else do
    let (running, script, b, h) ← script.update (interpreter host) (b, h)
    match b.handle with
    | some handle =>
      let h := host.setPosition handle b.position h
      return (running, script, b, host.setRotation handle b.angle h)
    | none => return (running, script, b, h)

/-- Runs one tick of some shots in order and keeps those that have more. -/
def advanceShots (host : Host α η) (origin : Int32 → Vec2 α) :
    List (ActiveShot α) → η → Except Crash (List (ActiveShot α) × η)
  | [], h => .ok ([], h)
  | shot :: rest, h => do
    let emitter := { shot.emitter with origin := origin shot.slot }
    let (running, script, emitter, h) ← Shot.update host shot.script emitter h
    let (kept, h) ← advanceShots host origin rest h
    return (if running then { shot with script, emitter } :: kept else kept, h)

/-- Runs one tick of the enemy's shots, each from where its fire slot is now, and says how many
of them are left. -/
def tickShots (host : Host α η) (b : Body α) (h : η) : Except Crash (Nat × Body α × η) := do
  let (shots, h) ← advanceShots host b.fireOrigin b.shots h
  return (shots.length, { b with shots }, h)

end Barrage.Enemy
