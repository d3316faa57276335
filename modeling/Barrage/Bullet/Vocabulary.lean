/-
The vocabulary of bullets: kinds that steer one bullet in flight.

Below, *first* and *second* are the two number operands of an instruction.  Angles are
degrees, and speeds are lengths per tick.
-/
import Barrage.Script.Instruction

namespace Barrage.Bullet

/-- A kind of instruction for a bullet. -/
inductive Kind where
  /-- Speed *first*, heading *second*. -/
  | setVelocity
  | setSpeed
  | setAngle
  | addAngle
  /-- Heads for the player, *first* degrees off. -/
  | aimAtPlayer
  /-- Turns once by a random angle of at most *first* degrees. -/
  | jitter
  /-- Adds *first* to the speed every tick. -/
  | accelerate
  /-- Adds *first* to the heading every tick. -/
  | rotate
  /-- Changes the speed evenly to *first*. -/
  | lerpSpeed
  /-- Changes the heading evenly to *first*. -/
  | lerpAngle
  /-- Turns towards the player, by *first* degrees per tick at most. -/
  | home
  /-- Lays a wave of amplitude *first* and period *second* over the heading. -/
  | wave
  /-- Heads *first* degrees to one side and to the other, changing every *count* ticks. -/
  | zigzag
  /-- Takes template *extra* and color *count*. -/
  | setAppearance
  | playSound
  /-- Asks to be fired again, and holds until that has been taken up. -/
  | refire
  | wait
  | loopStart
  | loopEnd
  | call
  | ret
  | stop
  deriving DecidableEq

namespace Kind

def all : List Kind :=
  [.setVelocity, .setSpeed, .setAngle, .addAngle, .aimAtPlayer, .jitter, .accelerate, .rotate,
   .lerpSpeed, .lerpAngle, .home, .wave, .zigzag, .setAppearance, .playSound, .refire, .wait,
   .loopStart, .loopEnd, .call, .ret, .stop]

def flow : Kind → Flow
  | .accelerate | .rotate | .lerpSpeed | .lerpAngle | .home | .wave | .zigzag | .wait => .timed
  | .refire => .yielding
  | .loopStart => .loopStart
  | .loopEnd => .loopEnd
  | .call => .call
  | .ret => .ret
  | .stop => .stop
  | _ => .instant

def mnemonic : Kind → String
  | .setVelocity => "SET_VELOCITY"
  | .setSpeed => "SET_SPEED"
  | .setAngle => "SET_ANGLE"
  | .addAngle => "ADD_ANGLE"
  | .aimAtPlayer => "AIM_AT_PLAYER"
  | .jitter => "JITTER"
  | .accelerate => "ACCELERATE"
  | .rotate => "ROTATE"
  | .lerpSpeed => "LERP_SPEED"
  | .lerpAngle => "LERP_ANGLE"
  | .home => "HOME"
  | .wave => "WAVE"
  | .zigzag => "ZIGZAG"
  | .setAppearance => "SET_APPEARANCE"
  | .playSound => "PLAY_SOUND"
  | .refire => "REFIRE"
  | .wait => "WAIT"
  | .loopStart => "LOOP_START"
  | .loopEnd => "LOOP_END"
  | .call => "CALL"
  | .ret => "RETURN"
  | .stop => "END"

def code : Kind → UInt8
  | .setVelocity => 0x01
  | .setSpeed => 0x02
  | .setAngle => 0x03
  | .addAngle => 0x04
  | .aimAtPlayer => 0x05
  | .jitter => 0x06
  | .accelerate => 0x10
  | .rotate => 0x11
  | .lerpSpeed => 0x12
  | .lerpAngle => 0x13
  | .home => 0x14
  | .wave => 0x15
  | .zigzag => 0x16
  | .setAppearance => 0x20
  | .playSound => 0x21
  | .refire => 0x22
  | .wait => 0x30
  | .loopStart => 0x31
  | .loopEnd => 0x32
  | .call => 0x33
  | .ret => 0x34
  | .stop => 0x35

end Kind

instance : Vocabulary Kind where
  name := "bullet"
  all := Kind.all
  flow := Kind.flow
  mnemonic := Kind.mnemonic
  code := Kind.code
  wait := .wait
  loopStart := .loopStart
  loopEnd := .loopEnd
  call := .call
  ret := .ret
  stop := .stop

/-! ### The instructions, by their operands -/

namespace Command

open Instruction (ofKind ofSound)

variable {α : Type} [Scalar α]

def setVelocity (speed angle : α) : Instruction Kind α :=
  { ofKind Kind.setVelocity with first := speed, second := angle }

def setSpeed (speed : α) : Instruction Kind α := { ofKind Kind.setSpeed with first := speed }

def setAngle (angle : α) : Instruction Kind α := { ofKind Kind.setAngle with first := angle }

def addAngle (delta : α) : Instruction Kind α := { ofKind Kind.addAngle with first := delta }

def aimAtPlayer (offset : α) : Instruction Kind α :=
  { ofKind Kind.aimAtPlayer with first := offset }

def jitter (range : α) : Instruction Kind α := { ofKind Kind.jitter with first := range }

def accelerate (perTick : α) (ticks : Int32) : Instruction Kind α :=
  { ofKind Kind.accelerate with first := perTick, duration := ticks }

def rotate (perTick : α) (ticks : Int32) : Instruction Kind α :=
  { ofKind Kind.rotate with first := perTick, duration := ticks }

def lerpSpeed (target : α) (ticks : Int32) : Instruction Kind α :=
  { ofKind Kind.lerpSpeed with first := target, duration := ticks }

def lerpAngle (target : α) (ticks : Int32) : Instruction Kind α :=
  { ofKind Kind.lerpAngle with first := target, duration := ticks }

def home (maxTurn : α) (ticks : Int32) : Instruction Kind α :=
  { ofKind Kind.home with first := maxTurn, duration := ticks }

def wave (amplitude period : α) (ticks : Int32) : Instruction Kind α :=
  { ofKind Kind.wave with first := amplitude, second := period, duration := ticks }

def zigzag (amplitude : α) (interval ticks : Int32) : Instruction Kind α :=
  { ofKind Kind.zigzag with first := amplitude, count := interval, duration := ticks }

def setAppearance (template color : Int32) : Instruction Kind α :=
  { ofKind Kind.setAppearance with extra := template, count := color }

def playSound (sound : String) (volume : α) : Instruction Kind α := ofSound .playSound sound volume

def refire : Instruction Kind α := ofKind .refire

end Command

end Barrage.Bullet
