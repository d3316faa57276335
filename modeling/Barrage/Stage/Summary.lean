/-
What is reported of a run.
-/
import Barrage.Decimal.Tenths
import Barrage.Vec2

namespace Barrage.Stage

/-- What has become of the enemy. -/
inductive Fate where
  | alive
  | died (tick : Nat)
  | left (tick : Nat)
  | finished (tick : Nat)
  deriving DecidableEq

def Fate.message : Fate → String
  | alive => "alive"
  | died tick => s!"died at tick {tick}"
  | left tick => s!"left the field at tick {tick}"
  | finished tick => s!"finished at tick {tick}"

/-- The totals of a run. -/
structure Summary where
  ticks : Nat
  /-- Bullets that took off. -/
  fired : Nat
  /-- Bullets asked for by other bullets. -/
  refired : Nat
  /-- The most bullets on the field at the end of a tick. -/
  peak : Nat
  /-- Bullets that left the field. -/
  culled : Nat
  sounds : Nat
  /-- Items dropped. -/
  drops : Nat
  fate : Fate
  deriving DecidableEq

/-- The totals before the first tick. -/
def Summary.initial : Summary where
  ticks := 0
  fired := 0
  refired := 0
  peak := 0
  culled := 0
  sounds := 0
  drops := 0
  fate := .alive

/-- What can be seen at the end of a tick. -/
structure Snapshot where
  tick : Nat
  /-- Where the enemy is and where it looks, if there is one. -/
  enemy : Option (Vec2 Float32 × Float32)
  shots : Nat
  bullets : Nat

/-- A snapshot as a line of text. -/
def Snapshot.line (s : Snapshot) : String :=
  let enemy := match s.enemy with
    | some (p, facing) =>
      Decimal.tenths p.x ++ "," ++ Decimal.tenths p.y ++ " facing=" ++ Decimal.tenths facing
    | none => "-"
  s!"tick={s.tick} enemy={enemy} shots={s.shots} bullets={s.bullets}"

end Barrage.Stage
