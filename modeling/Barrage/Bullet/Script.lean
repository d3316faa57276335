/-
How a bullet script steers its bullet.

The instructions that change a number evenly, or swing it, work from the number they
found on their first tick and remember it in their scratch; a wave instead remembers
what it has added, so that it can take that away again whatever else has happened to
the heading.  When a script ends, the speed and heading it leaves behind are written
back to the bullet's entity, once.
-/
import Barrage.Host
import Barrage.Script.Dispatch

namespace Barrage.Bullet

variable {α η : Type} [Scalar α]

/-- What an instant instruction does. -/
def act (host : Host α η) (i : Instruction Kind α) (m : Motion α) (h : η) :
    Except Crash (Motion α × η) :=
  match i.kind with
  | .setVelocity => .ok ({ m with speed := i.first, heading := i.second }, h)
  | .setSpeed => .ok ({ m with speed := i.first }, h)
  | .setAngle => .ok ({ m with heading := i.first }, h)
  | .addAngle => .ok ({ m with heading := m.heading + i.first }, h)
  | .aimAtPlayer =>
    match host.headingToPlayer? m.position with
    | some target => .ok ({ m with heading := target + i.first }, h)
    | none => .ok (m, h)
  | .jitter => do
    let range := Scalar.abs i.first
    let (turn, h) ← host.uniform (-range) range h
    return ({ m with heading := m.heading + turn }, h)
  | .setAppearance => .ok ({ m with template := i.extra, color := i.count }, h)
  | .playSound => .ok (m, host.playSound i.sound i.volume h)
  | _ => .ok (m, h)

/-- The number found on the first tick, which is this one if nothing is remembered. -/
def startOr (scratch : Option (Scratch α)) (current : α) : α :=
  match scratch with
  | some (.start value) => value
  | _ => current

/-- What a wave has added to the heading so far. -/
def appliedWave (scratch : Option (Scratch α)) : α :=
  match scratch with
  | some (.wave applied) => applied
  | _ => 0.0

/-- What a wave adds to the heading in all, `frame` ticks after its start; nothing, for a period
that is not positive. -/
def waveOffset (amplitude period : α) (frame : Int32) : α :=
  if period ≤ 0.0 then 0.0 else amplitude * Scalar.waveSine period frame

/-- Raises the signal on the first tick and holds until it has been cleared. -/
def askAgain (scratch : Option (Scratch α)) (m : Motion α) :
    Hold × Option (Scratch α) × Motion α :=
  if scratch.isNone then (.pending, some .raised, { m with refirePending := true })
  else if m.refirePending then (.pending, scratch, m)
  else (.release, scratch, m)

/-- One tick of a timed or yielding instruction. -/
def tick (host : Host α η) (i : Instruction Kind α) (frame : Int32) (t : α)
    (scratch : Option (Scratch α)) (m : Motion α) :
    Except Crash (Hold × Option (Scratch α) × Motion α) :=
  match i.kind with
  | .accelerate => .ok (.pending, scratch, { m with speed := m.speed + i.first })
  | .rotate => .ok (.pending, scratch, { m with heading := m.heading + i.first })
  | .lerpSpeed =>
    let start := startOr scratch m.speed
    .ok (.pending, some (.start start), { m with speed := Scalar.lerp start i.first t })
  | .lerpAngle =>
    let start := startOr scratch m.heading
    .ok (.pending, some (.start start), { m with heading := Scalar.lerp start i.first t })
  | .home =>
    match host.headingToPlayer? m.position with
    | some target => do
      let heading ← Angle.turnTowards m.heading target i.first
      return (.pending, scratch, { m with heading })
    | none => .ok (.pending, scratch, m)
  | .wave =>
    let offset := waveOffset i.first i.second (frame + 1)
    .ok (.pending, some (.wave offset),
      { m with heading := m.heading + (offset - appliedWave scratch) })
  | .zigzag =>
    let base := startOr scratch m.heading
    let interval := max i.count 1
    let side : α := if (frame / interval) % 2 = 0 then 1.0 else -1.0
    .ok (.pending, some (.start base), { m with heading := base + side * i.first })
  | .refire => .ok (askAgain scratch m)
  | _ => .ok (.pending, scratch, m)

/-- The end of a span: the exact final value, or the heading without what the span had added. -/
def conclude (i : Instruction Kind α) (scratch : Option (Scratch α)) (m : Motion α) : Motion α :=
  match i.kind, scratch with
  | .lerpSpeed, _ => { m with speed := i.first }
  | .lerpAngle, _ => { m with heading := i.first }
  | .wave, some (.wave applied) => { m with heading := m.heading - applied }
  | .zigzag, some (.start base) => { m with heading := base }
  | _, _ => m

/-- The bullet vocabulary, for a bullet in a world. -/
def interpreter (host : Host α η) : Interpreter Kind α (Motion α × η) where
  instant i := fun (m, h) => do
    let state ← act host i m h
    return (.proceed, state)
  timed i phase scratch := fun (m, h) =>
    match phase with
    | .run frame _ t => do
      let (hold, scratch, m) ← tick host i frame t scratch m
      return (hold, scratch, m, h)
    | .finish => .ok (.release, scratch, conclude i scratch m, h)

/-- Runs one tick of a bullet's script and says whether it has more. -/
def update (host : Host α η) (script : Cursor Kind α) (m : Motion α) (h : η) :
    Except Crash (Bool × Cursor Kind α × Motion α × η) :=
  if script.finished then .ok (false, script, m, h)
  else do
    let (running, script, m, h) ← script.update (interpreter host) (m, h)
    match running, m.handle with
    | false, some handle =>
      let h := host.setVelocity handle m.velocity h
      return (running, script, m, host.setRotation handle m.heading h)
    | _, _ => return (running, script, m, h)

end Barrage.Bullet
