/-
Where the bullets of a volley go.

A partial arc has a bullet on each of its two ends, so `count` bullets are `count - 1`
steps apart.  A full circle has no ends: there the step is the arc over `count`, which
keeps a second bullet off the seam.  A volley of no bullets, or of a negative number,
is empty.
-/
import Barrage.Crash
import Barrage.Scalar

namespace Barrage.Spread

variable {α : Type} [Scalar α]

/-- An arc this close to 360 degrees, on either side, counts as the full circle. -/
def fullCircleEpsilon : α := 1e-3

/-- Whether an arc closes the circle, in either direction. -/
def isFullCircle (arc : α) : Bool :=
  decide (Scalar.abs (Scalar.abs arc - 360.0) ≤ fullCircleEpsilon)

/-- The angle from one bullet to the next. -/
def step (count : Int32) (arc : α) : α :=
  if count ≤ 1 then 0.0
  else if isFullCircle arc then arc / Scalar.ofInt32 count
  else arc / Scalar.ofInt32 (count - 1)

/-- `count` numbers from `first` on, each `gap` above the one before. -/
def evenly (count : Int32) (first gap : α) : List α :=
  (List.range count.toNatClampNeg).map fun i => first + gap * Scalar.ofInt32 (Int32.ofNat i)

/-- `count` angles from `start` across `arc` degrees. -/
def angles (count : Int32) (start arc : α) : List α :=
  evenly count start (step count arc)

/-- `count` angles across `arc` degrees with `center` in their middle. -/
def centeredAngles (count : Int32) (center arc : α) : List α :=
  if count = 1 then [center] else angles count (center - arc / 2.0) arc

/-- `count` angles around the full circle. -/
def ringAngles (count : Int32) (start : α) : List α :=
  angles count start 360.0

/-- `count` angles, each drawn on its own from the arc around `center`. -/
def randomAngles {σ : Type} (draw : α → α → σ → Except Crash (α × σ)) (count : Int32)
    (center arc : α) : σ → Except Crash (List α × σ) :=
  go count.toNatClampNeg
where
  half : α := arc / 2.0
  go : Nat → σ → Except Crash (List α × σ)
    | 0, s => .ok ([], s)
    | n + 1, s => do
      let (u, s) ← draw (-half) half s
      let (rest, s) ← go n s
      return ((center + u) :: rest, s)

/-- `count` speeds from `low` to `high`, both included. -/
def fanSpeeds (count : Int32) (low high : α) : List α :=
  if count ≤ 0 then []
  else if count = 1 then [low]
  else evenly count low ((high - low) / Scalar.ofInt32 (count - 1))

end Barrage.Spread
