/-
Built-in enemy patterns: how an enemy enters, attacks and leaves.

Enemies enter at the top of the field, in the middle.
-/
import Barrage.Catalog.Paths
import Barrage.Catalog.Pattern

namespace Barrage.Catalog

open Enemy.Command

/-- The code of the pattern that pauses in a subroutine for its volleys. -/
def patroller : Builder Enemy.Kind Float32 :=
  Builder.empty
    |>.append [setHp 60, moveTo ⟨192.0, 90.0⟩ 45,
      .loopStart 3, .call "volley", patrol ⟨120.0, 30.0⟩ 2.0 100, .loopEnd,
      halt, setAcceleration ⟨0.0, -0.05⟩, .wait 120, .stop]
    |>.label "volley"
    |>.append [fire "fan" 0, .wait 20, fire "speed_fan" 0, .ret]

/-- The built-in enemy patterns. -/
def enemyPatterns : Except LabelError (List (Pattern Enemy.Kind Float32)) := do
  let patroller ← patroller.build
  return [
    .ofInstructions "fairy_aimed" "Drop in, fire three aimed bursts, fly back out the top"
      [setHp 20, setHitbox 8.0, addDrop 1 2, moveTo ⟨192.0, 120.0⟩ 60,
       .loopStart 3, fire "aimed_burst" 0, .wait 40, .loopEnd,
       moveBy ⟨0.0, -220.0⟩ 90],
    .ofInstructions "sentinel" "Hold the centre, alternating rings and spirals, then burst"
      [setHp 200, setHitbox 16.0, addDrop 1 5, addDrop 2 1, setFireOffset 1 ⟨0.0, 12.0⟩,
       setEffect 0 3, moveTo ⟨192.0, 150.0⟩ 60,
       .loopStart 4, fire "ring" 1, .wait 30, fire "spiral" 0, .wait 90, .loopEnd,
       playSound "explode" 1.0, die],
    .ofInstructions "wanderer" "Drift around a point while raining bullets"
      [setHp 40, moveTo ⟨192.0, 100.0⟩ 40,
       fire "rain" 0, wander 40.0 30 240, fire "flower" 0, wander 40.0 30 120,
       moveTo ⟨192.0, -64.0⟩ 60],
    { id := "patroller", intent := "Patrol the upper field, pausing for fan volleys",
      program := patroller },
    .ofInstructions "swooper" "Swoop across the field on a curve, dropping splitters"
      [setHp 15, teleport ⟨-16.0, 60.0⟩,
       fire "splitter" 0, followPath swoop 180, fire "splitter" 0,
       setVelocity ⟨2.0, -1.0⟩, .wait 120],
    .ofInstructions "diver" "Dive down the left flank, spin and release a wall"
      [setHp 10, setAngle 90.0, followPath dive 90, rotate 8.0 45, fire "shuffle_wall" 0,
       setVelocity ⟨0.0, 1.5⟩, setAcceleration ⟨0.0, 0.05⟩, .wait 200],
    .ofInstructions "oscillator" "Sway left and right while blooming flowers"
      [setHp 80, setUpdateHook 1, moveTo ⟨192.0, 110.0⟩ 50,
       fire "flower" 0, oscillate ⟨80.0, 0.0⟩ 120.0 240,
       fire "cross" 0, oscillate ⟨0.0, 20.0⟩ 60.0 120,
       clearDrops, addDrop 3 1, die],
    .ofInstructions "hunter" "Chase the player slowly while firing walls"
      [setHp 30, setAngle 90.0,
       fire "shuffle_wall" 0, home 1.2 2.0 150, fire "shuffle_wall" 0, home 1.2 2.0 150,
       setVelocity ⟨0.0, -3.0⟩, .wait 200]]

end Barrage.Catalog
