/-
The numbers that pattern scripts compute with.

Every formula of the library is written once, over `Scalar`, so that it has two
readings: with binary32 numbers (`Barrage.Single`) it is what a run does, and with exact
numbers it is the geometry that the formula stands for.  The class therefore asks for
operations only and for no law about them; a comparison may fail both ways round, as it
does for a binary32 number that is no number.

Of the binary32 operations all but three are fixed by the number format.  Sine, cosine and
arc tangent are not: there `Single` rounds once from 53 bits, and a library that computes
them in another way may differ from it in the last digit.
-/
namespace Barrage

/-- Operations on the numbers of a script. -/
class Scalar (α : Type) extends Add α, Sub α, Mul α, Div α, Neg α, OfScientific α, LT α, LE α,
    BEq α where
  decLt : (x y : α) → Decidable (x < y)
  decLe : (x y : α) → Decidable (x ≤ y)
  /-- The number without its sign. -/
  abs : α → α
  sqrt : α → α
  /-- The sine of an angle in radians. -/
  sin : α → α
  /-- The cosine of an angle in radians. -/
  cos : α → α
  /-- The angle, in radians, of the vector whose coordinates are the second argument and the
  first. -/
  atan2 : α → α → α
  /-- What is left of the first number after taking away the second a whole number of times,
  rounded towards zero; it has the sign of the first. -/
  rem : α → α → α
  ofInt32 : Int32 → α
  /-- The whole part, kept within 32 bits; 0 for what is no number. -/
  trunc : α → Int32

namespace Scalar

variable {α : Type} [Scalar α]

instance (x y : α) : Decidable (x < y) := decLt x y
instance (x y : α) : Decidable (x ≤ y) := decLe x y

/-- The least whole number that is not below `x`, kept within 32 bits. -/
def ceil (x : α) : Int32 :=
  let n := trunc x
  if ofInt32 n < x ∧ n ≠ Int32.maxValue then n + 1 else n

/-- The point between `lo` and `hi` that is nearest to `x`. -/
def clamp (lo hi x : α) : α :=
  if x < lo then lo else if hi < x then hi else x

/-- The smaller of `x` and one; what is no number counts as one. -/
def atMostOne (x : α) : α :=
  if x < 1.0 then x else 1.0

/-- What is left of `x` after taking away `m` a whole number of times, never negative. -/
def wrapBelow (m x : α) : α :=
  let r := rem x m
  if r < 0.0 then r + abs m else r

/-- The point at fraction `t` of the way from `a` to `b`. -/
def lerp (a b t : α) : α :=
  a + (b - a) * t

/-- A full turn in radians. -/
def fullTurn : α := 6.2831855

def toRadians (degrees : α) : α :=
  degrees * 0.017453292

def toDegrees (radians : α) : α :=
  radians * 57.29578

/-- The sine of a wave of the given period, `frame` ticks after its start. -/
def waveSine (period : α) (frame : Int32) : α :=
  sin (fullTurn * ofInt32 frame / period)

end Scalar

end Barrage
