/-
Built-in bullet patterns: how a bullet flies once it is fired.
-/
import Barrage.Catalog.Pattern
import Barrage.Single

namespace Barrage.Catalog

open Bullet.Command

/-- The built-in bullet patterns. -/
def bulletPatterns : List (Pattern Bullet.Kind Float32) := [
  .ofInstructions "curve_left" "Bend steadily counter-clockwise for one second"
    [rotate 1.5 60, .stop],
  .ofInstructions "curve_right" "Bend steadily clockwise for one second"
    [rotate (-1.5) 60, .stop],
  .ofInstructions "accelerate" "Start slow and pick up speed"
    [setSpeed 1.0, accelerate 0.05 60],
  .ofInstructions "brake_and_aim" "Brake to a crawl, pause, then lunge at the player"
    [lerpSpeed 0.5 30, .wait 20, aimAtPlayer 0.0, setAppearance 3 0, setSpeed 3.5],
  .ofInstructions "wave" "Weave side to side around the firing line"
    [wave 25.0 40.0 240],
  .ofInstructions "zigzag" "Snap between two headings every quarter second"
    [zigzag 30.0 15 180],
  .ofInstructions "homing" "Fly straight briefly, then track the player"
    [.wait 20, home 2.0 90],
  .ofInstructions "split" "Fly, split once, then veer off faster"
    [.wait 40, playSound "split" 0.4, refire, addAngle 20.0, setSpeed 2.5],
  .ofInstructions "scatter" "Drift off course by a random amount and speed up"
    [jitter 15.0, accelerate 0.02 60],
  .ofInstructions "swerve" "Ease into a new heading and speed"
    [.wait 30, lerpAngle 90.0 45, setVelocity 2.0 90.0]]

end Barrage.Catalog
