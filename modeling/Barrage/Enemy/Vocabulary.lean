/-
The vocabulary of enemies: kinds that move, arm and configure one enemy.

Below, *first* and *second* are the two number operands of an instruction.  Angles are
degrees, and lengths are those of the field.
-/
import Barrage.Script.Instruction

namespace Barrage.Enemy

/-- A kind of instruction for an enemy. -/
inductive Kind where
  | setHp
  | setHitbox
  /-- Adds *count* items *extra* to what the enemy drops. -/
  | addDrop
  | clearDrops
  | setAngle
  /-- Dies at once; the script ends. -/
  | die
  /-- Moves evenly to the vector. -/
  | moveTo
  /-- Moves evenly by the vector. -/
  | moveBy
  | teleport
  | setVelocity
  | setAcceleration
  /-- Drops all velocity and acceleration. -/
  | halt
  /-- Adds *first* to the facing angle every tick. -/
  | rotate
  /-- Swings by the vector around the start, with period *first*. -/
  | oscillate
  /-- Flies with speed *first*, turning towards the player by *second* degrees per tick at most. -/
  | home
  /-- Follows the path *extra* from its start to its end. -/
  | followPath
  /-- Drifts to random points at most *first* from the start, *count* ticks to each. -/
  | wander
  /-- Flies to random points of the box whose half sides are the vector, with speed *first*. -/
  | patrol
  | wait
  /-- Starts the shot program named by the label, in fire slot *extra*. -/
  | fire
  | setUpdateHook
  /-- Effect slot *extra* shows effect *count*. -/
  | setEffect
  /-- Fire slot *extra* is at the vector, seen from the enemy. -/
  | setFireOffset
  | playSound
  | loopStart
  | loopEnd
  | call
  | ret
  | stop
  deriving DecidableEq

namespace Kind

def all : List Kind :=
  [.setHp, .setHitbox, .addDrop, .clearDrops, .setAngle, .die, .moveTo, .moveBy, .teleport,
   .setVelocity, .setAcceleration, .halt, .rotate, .oscillate, .home, .followPath, .wander, .patrol,
   .wait, .fire, .setUpdateHook, .setEffect, .setFireOffset, .playSound, .loopStart, .loopEnd,
   .call, .ret, .stop]

def flow : Kind → Flow
  | .moveTo | .moveBy | .rotate | .oscillate | .home | .followPath | .wander | .patrol
  | .wait => .timed
  | .loopStart => .loopStart
  | .loopEnd => .loopEnd
  | .call => .call
  | .ret => .ret
  | .stop => .stop
  | _ => .instant

def mnemonic : Kind → String
  | .setHp => "SET_HP"
  | .setHitbox => "SET_HITBOX"
  | .addDrop => "ADD_DROP"
  | .clearDrops => "CLEAR_DROPS"
  | .setAngle => "SET_ANGLE"
  | .die => "DIE"
  | .moveTo => "MOVE_TO"
  | .moveBy => "MOVE_BY"
  | .teleport => "TELEPORT"
  | .setVelocity => "SET_VELOCITY"
  | .setAcceleration => "SET_ACCELERATION"
  | .halt => "STOP"
  | .rotate => "ROTATE"
  | .oscillate => "OSCILLATE"
  | .home => "HOME"
  | .followPath => "FOLLOW_PATH"
  | .wander => "WANDER"
  | .patrol => "PATROL"
  | .wait => "WAIT"
  | .fire => "FIRE"
  | .setUpdateHook => "SET_UPDATE_HOOK"
  | .setEffect => "SET_EFFECT"
  | .setFireOffset => "SET_FIRE_OFFSET"
  | .playSound => "PLAY_SOUND"
  | .loopStart => "LOOP_START"
  | .loopEnd => "LOOP_END"
  | .call => "CALL"
  | .ret => "RETURN"
  | .stop => "END"

def code : Kind → UInt8
  | .setHp => 0x01
  | .setHitbox => 0x02
  | .addDrop => 0x03
  | .clearDrops => 0x04
  | .setAngle => 0x05
  | .die => 0x06
  | .moveTo => 0x10
  | .moveBy => 0x11
  | .teleport => 0x12
  | .setVelocity => 0x13
  | .setAcceleration => 0x14
  | .halt => 0x15
  | .rotate => 0x16
  | .oscillate => 0x17
  | .home => 0x18
  | .followPath => 0x19
  | .wander => 0x1a
  | .patrol => 0x1b
  | .wait => 0x1c
  | .fire => 0x20
  | .setUpdateHook => 0x21
  | .setEffect => 0x22
  | .setFireOffset => 0x23
  | .playSound => 0x24
  | .loopStart => 0x30
  | .loopEnd => 0x31
  | .call => 0x32
  | .ret => 0x33
  | .stop => 0x34

end Kind

instance : Vocabulary Kind where
  name := "enemy"
  all := Kind.all
  flow := Kind.flow
  mnemonic := Kind.mnemonic
  code := Kind.code
  wait := .wait
  loopStart := .loopStart
  loopEnd := .loopEnd
  call := .call
  ret := .ret
  stop := .stop

/-! ### The instructions, by their operands -/

namespace Command

open Instruction (ofKind ofSound)

variable {α : Type} [Scalar α]

def setHp (hp : Int32) : Instruction Kind α := { ofKind Kind.setHp with extra := hp }

def setHitbox (radius : α) : Instruction Kind α := { ofKind Kind.setHitbox with first := radius }

def addDrop (item count : Int32) : Instruction Kind α :=
  { ofKind Kind.addDrop with extra := item, count }

def clearDrops : Instruction Kind α := ofKind .clearDrops

def setAngle (angle : α) : Instruction Kind α := { ofKind Kind.setAngle with first := angle }

def die : Instruction Kind α := ofKind .die

def moveTo (target : Vec2 α) (ticks : Int32) : Instruction Kind α :=
  { ofKind Kind.moveTo with vector := target, duration := ticks }

def moveBy (delta : Vec2 α) (ticks : Int32) : Instruction Kind α :=
  { ofKind Kind.moveBy with vector := delta, duration := ticks }

def teleport (position : Vec2 α) : Instruction Kind α :=
  { ofKind Kind.teleport with vector := position }

def setVelocity (velocity : Vec2 α) : Instruction Kind α :=
  { ofKind Kind.setVelocity with vector := velocity }

def setAcceleration (acceleration : Vec2 α) : Instruction Kind α :=
  { ofKind Kind.setAcceleration with vector := acceleration }

def halt : Instruction Kind α := ofKind .halt

def rotate (perTick : α) (ticks : Int32) : Instruction Kind α :=
  { ofKind Kind.rotate with first := perTick, duration := ticks }

def oscillate (amplitude : Vec2 α) (period : α) (ticks : Int32) : Instruction Kind α :=
  { ofKind Kind.oscillate with vector := amplitude, first := period, duration := ticks }

def home (speed maxTurn : α) (ticks : Int32) : Instruction Kind α :=
  { ofKind Kind.home with first := speed, second := maxTurn, duration := ticks }

def followPath (path ticks : Int32) : Instruction Kind α :=
  { ofKind Kind.followPath with extra := path, duration := ticks }

def wander (radius : α) (legTicks ticks : Int32) : Instruction Kind α :=
  { ofKind Kind.wander with first := radius, count := legTicks, duration := ticks }

def patrol (halfSides : Vec2 α) (speed : α) (ticks : Int32) : Instruction Kind α :=
  { ofKind Kind.patrol with vector := halfSides, first := speed, duration := ticks }

def fire (shot : String) (slot : Int32) : Instruction Kind α :=
  { ofKind Kind.fire with label := shot, extra := slot }

def setUpdateHook (hook : Int32) : Instruction Kind α :=
  { ofKind Kind.setUpdateHook with extra := hook }

def setEffect (slot effect : Int32) : Instruction Kind α :=
  { ofKind Kind.setEffect with extra := slot, count := effect }

def setFireOffset (slot : Int32) (offset : Vec2 α) : Instruction Kind α :=
  { ofKind Kind.setFireOffset with extra := slot, vector := offset }

def playSound (sound : String) (volume : α) : Instruction Kind α := ofSound .playSound sound volume

end Command

end Barrage.Enemy
