/-
The vocabulary of shots: kinds that aim an emitter and fire bullets from it.

Every angle that a bullet is fired at is relative to the emitter's base angle.  Below,
*first* and *second* are the two number operands of an instruction; the spreads take
their start or center, and their arc, from the two coordinates of the vector, and
their speed from *first*.
-/
import Barrage.Script.Instruction

namespace Barrage.Shot

/-- A kind of instruction for an emitter. -/
inductive Kind where
  /-- Bullets have template *extra* and color *count*. -/
  | setBulletType
  /-- Slot *extra* has template *count* and color *first*, cut to a whole number. -/
  | setSlotBulletType
  | setAngle
  | addAngle
  /-- Aims at the player, *first* degrees off. -/
  | aimAtPlayer
  /-- The next volley is off by a random angle of at most *first* degrees. -/
  | randomizeNext
  /-- One bullet, with speed *first*. -/
  | fire
  /-- One bullet at angle *first*, with speed *second*. -/
  | fireAt
  /-- *count* bullets on one line, with speeds from *first* to *second*. -/
  | fireSpeeds
  /-- *count* bullets from a start across an arc. -/
  | fireSpread
  /-- *count* bullets across an arc around its center. -/
  | fireSpreadCentered
  /-- The bullets of a spread in random order. -/
  | fireSpreadShuffled
  /-- *count* bullets at random angles of an arc around its center. -/
  | fireSpreadRandom
  /-- *count* bullets around the full circle. -/
  | fireRing
  /-- Slot *extra* fires at angle *first*, with speed *second*, from the vector as offset. -/
  | registerBullet
  | setSlotSpeed
  /-- Bullets of slot *extra* turn by *first* degrees per tick. -/
  | setSlotSpin
  /-- Bullets of slot *extra* gain speed *first* per tick. -/
  | setSlotAcceleration
  | setSlotOffset
  /-- One bullet of slot *extra*, if there is such a slot. -/
  | fireSlot
  /-- One bullet of each slot, in ascending order. -/
  | fireAllSlots
  | clearSlots
  /-- Bullets run the bullet program named by the label from now on. -/
  | attachMotion
  | detachMotion
  /-- Bullets leave from the vector, seen from the owner. -/
  | setOffset
  /-- Adds *first* to the base angle every tick. -/
  | rotateBase
  | playSound
  | wait
  | loopStart
  | loopEnd
  | call
  | ret
  | stop
  deriving DecidableEq

namespace Kind

def all : List Kind :=
  [.setBulletType, .setSlotBulletType, .setAngle, .addAngle, .aimAtPlayer, .randomizeNext, .fire,
   .fireAt, .fireSpeeds, .fireSpread, .fireSpreadCentered, .fireSpreadShuffled, .fireSpreadRandom,
   .fireRing, .registerBullet, .setSlotSpeed, .setSlotSpin, .setSlotAcceleration, .setSlotOffset,
   .fireSlot, .fireAllSlots, .clearSlots, .attachMotion, .detachMotion, .setOffset, .rotateBase,
   .playSound, .wait, .loopStart, .loopEnd, .call, .ret, .stop]

def flow : Kind → Flow
  | .rotateBase | .wait => .timed
  | .loopStart => .loopStart
  | .loopEnd => .loopEnd
  | .call => .call
  | .ret => .ret
  | .stop => .stop
  | _ => .instant

def mnemonic : Kind → String
  | .setBulletType => "SET_BULLET_TYPE"
  | .setSlotBulletType => "SET_SLOT_BULLET_TYPE"
  | .setAngle => "SET_ANGLE"
  | .addAngle => "ADD_ANGLE"
  | .aimAtPlayer => "AIM_AT_PLAYER"
  | .randomizeNext => "RANDOMIZE_NEXT"
  | .fire => "FIRE"
  | .fireAt => "FIRE_AT"
  | .fireSpeeds => "FIRE_SPEEDS"
  | .fireSpread => "FIRE_SPREAD"
  | .fireSpreadCentered => "FIRE_SPREAD_CENTERED"
  | .fireSpreadShuffled => "FIRE_SPREAD_SHUFFLED"
  | .fireSpreadRandom => "FIRE_SPREAD_RANDOM"
  | .fireRing => "FIRE_RING"
  | .registerBullet => "REGISTER_BULLET"
  | .setSlotSpeed => "SET_SLOT_SPEED"
  | .setSlotSpin => "SET_SLOT_SPIN"
  | .setSlotAcceleration => "SET_SLOT_ACCELERATION"
  | .setSlotOffset => "SET_SLOT_OFFSET"
  | .fireSlot => "FIRE_SLOT"
  | .fireAllSlots => "FIRE_ALL_SLOTS"
  | .clearSlots => "CLEAR_SLOTS"
  | .attachMotion => "ATTACH_MOTION"
  | .detachMotion => "DETACH_MOTION"
  | .setOffset => "SET_OFFSET"
  | .rotateBase => "ROTATE_BASE"
  | .playSound => "PLAY_SOUND"
  | .wait => "WAIT"
  | .loopStart => "LOOP_START"
  | .loopEnd => "LOOP_END"
  | .call => "CALL"
  | .ret => "RETURN"
  | .stop => "END"

def code : Kind → UInt8
  | .setBulletType => 0x01
  | .setSlotBulletType => 0x02
  | .setAngle => 0x10
  | .addAngle => 0x11
  | .aimAtPlayer => 0x12
  | .randomizeNext => 0x13
  | .fire => 0x20
  | .fireAt => 0x21
  | .fireSpeeds => 0x22
  | .fireSpread => 0x23
  | .fireSpreadCentered => 0x24
  | .fireSpreadShuffled => 0x25
  | .fireSpreadRandom => 0x26
  | .fireRing => 0x27
  | .registerBullet => 0x30
  | .setSlotSpeed => 0x31
  | .setSlotSpin => 0x32
  | .setSlotAcceleration => 0x33
  | .setSlotOffset => 0x34
  | .fireSlot => 0x35
  | .fireAllSlots => 0x36
  | .clearSlots => 0x37
  | .attachMotion => 0x40
  | .detachMotion => 0x41
  | .setOffset => 0x42
  | .rotateBase => 0x43
  | .playSound => 0x44
  | .wait => 0x50
  | .loopStart => 0x51
  | .loopEnd => 0x52
  | .call => 0x53
  | .ret => 0x54
  | .stop => 0x55

/-- The kinds whose count is a number of bullets. -/
def firesVolley : Kind → Bool
  | .fireSpeeds | .fireSpread | .fireSpreadCentered | .fireSpreadShuffled | .fireSpreadRandom
  | .fireRing => true
  | _ => false

end Kind

instance : Vocabulary Kind where
  name := "shot"
  all := Kind.all
  flow := Kind.flow
  mnemonic := Kind.mnemonic
  code := Kind.code
  firesVolley := Kind.firesVolley
  wait := .wait
  loopStart := .loopStart
  loopEnd := .loopEnd
  call := .call
  ret := .ret
  stop := .stop

/-! ### The instructions, by their operands -/

namespace Command

open Instruction (ofKind ofSound)

variable {α : Type} [Scalar α]

def setBulletType (template color : Int32) : Instruction Kind α :=
  { ofKind Kind.setBulletType with extra := template, count := color }

/-- The color travels as a number. -/
def setSlotBulletType (slot template color : Int32) : Instruction Kind α :=
  { ofKind Kind.setSlotBulletType with
    extra := slot, count := template, first := Scalar.ofInt32 color }

def setAngle (angle : α) : Instruction Kind α := { ofKind Kind.setAngle with first := angle }

def addAngle (delta : α) : Instruction Kind α := { ofKind Kind.addAngle with first := delta }

def aimAtPlayer (offset : α) : Instruction Kind α :=
  { ofKind Kind.aimAtPlayer with first := offset }

def randomizeNext (range : α) : Instruction Kind α :=
  { ofKind Kind.randomizeNext with first := range }

def fire (speed : α) : Instruction Kind α := { ofKind Kind.fire with first := speed }

def fireAt (angle speed : α) : Instruction Kind α :=
  { ofKind Kind.fireAt with first := angle, second := speed }

def fireSpeeds (count : Int32) (low high : α) : Instruction Kind α :=
  { ofKind Kind.fireSpeeds with count, first := low, second := high }

/-- An instruction of one of the spreads. -/
def spread (kind : Kind) (count : Int32) (angle arc speed : α) : Instruction Kind α :=
  { ofKind kind with count, vector := ⟨angle, arc⟩, first := speed }

def fireSpread (count : Int32) (start arc speed : α) : Instruction Kind α :=
  spread .fireSpread count start arc speed

def fireSpreadCentered (count : Int32) (center arc speed : α) : Instruction Kind α :=
  spread .fireSpreadCentered count center arc speed

def fireSpreadShuffled (count : Int32) (start arc speed : α) : Instruction Kind α :=
  spread .fireSpreadShuffled count start arc speed

def fireSpreadRandom (count : Int32) (center arc speed : α) : Instruction Kind α :=
  spread .fireSpreadRandom count center arc speed

def fireRing (count : Int32) (speed : α) : Instruction Kind α :=
  { ofKind Kind.fireRing with count, first := speed }

def registerBullet (slot : Int32) (angle speed : α) (offset : Vec2 α) : Instruction Kind α :=
  { ofKind Kind.registerBullet with
    extra := slot, first := angle, second := speed, vector := offset }

def setSlotSpeed (slot : Int32) (speed : α) : Instruction Kind α :=
  { ofKind Kind.setSlotSpeed with extra := slot, first := speed }

def setSlotSpin (slot : Int32) (perTick : α) : Instruction Kind α :=
  { ofKind Kind.setSlotSpin with extra := slot, first := perTick }

def setSlotAcceleration (slot : Int32) (perTick : α) : Instruction Kind α :=
  { ofKind Kind.setSlotAcceleration with extra := slot, first := perTick }

def setSlotOffset (slot : Int32) (offset : Vec2 α) : Instruction Kind α :=
  { ofKind Kind.setSlotOffset with extra := slot, vector := offset }

def fireSlot (slot : Int32) : Instruction Kind α := { ofKind Kind.fireSlot with extra := slot }

def fireAllSlots : Instruction Kind α := ofKind .fireAllSlots

def clearSlots : Instruction Kind α := ofKind .clearSlots

def attachMotion (program : String) : Instruction Kind α :=
  { ofKind Kind.attachMotion with label := program }

def detachMotion : Instruction Kind α := ofKind .detachMotion

def setOffset (offset : Vec2 α) : Instruction Kind α :=
  { ofKind Kind.setOffset with vector := offset }

def rotateBase (perTick : α) (ticks : Int32) : Instruction Kind α :=
  { ofKind Kind.rotateBase with first := perTick, duration := ticks }

def playSound (sound : String) (volume : α) : Instruction Kind α := ofSound .playSound sound volume

end Command

end Barrage.Shot
