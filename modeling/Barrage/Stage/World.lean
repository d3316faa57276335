/-
The world of a stage: what scripts change in it, and how it is their host.

The stage moves bullets by their own state, so a velocity that is written back to an
entity is not kept; of the sounds only their number is.
-/
import Barrage.Host
import Barrage.Random.Draw
import Barrage.Stage.Store

namespace Barrage.Stage

/-- What scripts change. -/
structure World where
  store : Store
  /-- How many sounds were played. -/
  sounds : Nat
  generator : Random.Generator

/-- The host that scripts see. -/
def World.host (setting : Setting Float32) : Host Float32 World where
  toSetting := setting
  spawnBullet launch w :=
    let (handle, store) := w.store.spawnBullet launch
    (some handle, { w with store })
  setPosition handle position w := { w with store := w.store.setPosition handle position }
  setRotation handle rotation w := { w with store := w.store.setRotation handle rotation }
  setVelocity _ _ w := w
  destroy handle w := { w with store := w.store.destroy handle }
  playSound _ _ w := { w with sounds := w.sounds + 1 }
  uniform min max w := do
    let (x, generator) ← w.generator.uniform min max
    return (x, { w with generator })
  shuffle items w :=
    let (items, generator) := w.generator.shuffle items
    (items, { w with generator })

end Barrage.Stage
