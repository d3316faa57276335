/-
Built-in shot patterns: what an enemy fires, and in what shape.
-/
import Barrage.Catalog.Pattern
import Barrage.Single

namespace Barrage.Catalog

open Shot.Command

/-- The built-in shot patterns. -/
def shotPatterns : List (Pattern Shot.Kind Float32) := [
  .ofInstructions "aimed_burst" "Five quick pellets straight at the player"
    [setBulletType 0 0, aimAtPlayer 0.0,
     .loopStart 5, fire 4.0, playSound "shot" 0.3, .wait 4, .loopEnd],
  .ofInstructions "ring" "A single ring of orbs in every direction"
    [setBulletType 2 5, fireRing 24 2.5, playSound "ring" 0.6],
  .ofInstructions "spiral" "Three rotating arms of rice bullets"
    [setBulletType 1 6,
     .loopStart 60, fireSpread 3 0.0 360.0 2.0, addAngle 7.0, .wait 2, .loopEnd],
  .ofInstructions "fan" "A five-way fan centred on the player"
    [setBulletType 3 1, aimAtPlayer 0.0, fireSpreadCentered 5 0.0 60.0 3.0],
  .ofInstructions "speed_fan" "Six bullets down one line at rising speeds"
    [setBulletType 1 2, aimAtPlayer 0.0, fireSpeeds 6 2.0 5.0],
  .ofInstructions "rain" "Loose downward drizzle with random spread"
    [setBulletType 0 4, setAngle 90.0,
     .loopStart 30, randomizeNext 30.0, fireSpreadRandom 2 0.0 40.0 2.5, .wait 3, .loopEnd],
  .ofInstructions "flower" "Three spinning petals that curl as they travel"
    [setBulletType 1 3,
     registerBullet 0 0.0 2.0 .zero,
     registerBullet 1 120.0 2.0 .zero,
     registerBullet 2 240.0 2.0 .zero,
     setSlotSpin 0 0.5, setSlotSpin 1 0.5, setSlotSpin 2 0.5,
     setSlotBulletType 2 2 7,
     attachMotion "curve_left",
     .loopStart 20, fireAllSlots, rotateBase 6.0 3, .loopEnd,
     clearSlots],
  .ofInstructions "shuffle_wall" "A wide wall of accelerating bullets released out of order"
    [setBulletType 0 1, attachMotion "accelerate", fireSpreadShuffled 12 30.0 120.0 1.0],
  .ofInstructions "splitter" "Three heavy bullets that split in flight"
    [setBulletType 2 0, attachMotion "split", aimAtPlayer 0.0,
     fireSpreadCentered 3 0.0 30.0 3.0, detachMotion],
  .ofInstructions "cross" "Paired slots either side of the muzzle, fired twice"
    [setOffset ⟨0.0, 8.0⟩, setAngle 90.0,
     registerBullet 0 (-20.0) 2.5 ⟨-12.0, 0.0⟩,
     registerBullet 1 20.0 2.5 ⟨12.0, 0.0⟩,
     setSlotSpeed 1 3.0, setSlotAcceleration 0 0.02, setSlotOffset 1 ⟨16.0, 0.0⟩,
     fireSlot 0, fireSlot 1, .wait 10,
     attachMotion "wave", fireAt 0.0 2.0, fireAllSlots]]

end Barrage.Catalog
