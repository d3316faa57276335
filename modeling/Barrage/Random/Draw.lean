/-
Random numbers drawn from a stream of words, in the way of `rand` 0.8.

A fraction has 23 random bits.  A number between two bounds is a fraction, scaled to
the span and moved to the lower bound; the scale is lowered, if need be, until the
largest fraction stays within the upper bound.  Whole numbers below a bound use the
upper half of a product, and draw again where the lower half would favour some of
them.
-/
import Barrage.Crash
import Barrage.Random.Stream
import Barrage.Single

namespace Barrage.Random.Generator

/-! ### Numbers

The bounds come in any order and may be infinite or no number.  So `uniform` puts them
in order, settles the cases in which there is nothing to draw, and leaves to `between`
what is an interval of numbers.
-/

/-- Draws a fraction, at least 0 and below 1. -/
def fraction (g : Generator) : Float32 × Generator :=
  let (word, g) := g.next
  (Float32.ofBits ((word >>> 9) ||| 0x3f800000) - 1.0, g)

/-- The largest fraction that is ever drawn. -/
def largestFraction : Float32 := Float32.ofBits 0x3f7ffffe

/-- The largest scale, with the given bits or lower ones, that keeps the largest fraction within
the upper bound. -/
def fitScale (low high : Float32) : (bits : Nat) → Float32
  | 0 => 0.0
  | bits + 1 =>
    let scale := Float32.ofBits (bits + 1).toUInt32
    if high < scale * largestFraction + low then fitScale low high bits else scale

/-- Draws a number from `low` to `high`, which are in this order. -/
def between (low high : Float32) (g : Generator) : Except Crash (Float32 × Generator) :=
  let scale := (high - low) / largestFraction
  if scale.isFinite then
    let (u, g) := g.fraction
    .ok (u * fitScale low high scale.toBits.toNat + low, g)
  else
    .error .spanTooWide

/-- Draws a number between two bounds in either order.  Where there is nothing to choose, the
first bound is the answer and nothing is drawn; where the span is too wide for a number, the
bounds themselves are mixed. -/
def uniform (min max : Float32) (g : Generator) : Except Crash (Float32 × Generator) :=
  if !(min.isFinite && max.isFinite) || min == max then .ok (min, g)
  else
    let (low, high) := if min < max then (min, max) else (max, min)
    if (high - low).isFinite then between low high g
    else do
      let (u, g) ← between 0.0 1.0 g
      return (low * (1.0 - u) + high * u, g)

/-! ### Whole numbers -/

/-- Draws words until one is accepted, at most `fuel` of them. -/
def accept (bound zone : UInt32) : (fuel : Nat) → Generator → UInt32 × Generator
  | 0, g => (0, g)
  | fuel + 1, g =>
    let (word, g) := g.next
    let product := word.toUInt64 * bound.toUInt64
    if product.toUInt32 ≤ zone then ((product >>> 32).toUInt32, g) else accept bound zone fuel g

/-- Draws a whole number below a bound; for the bound 0 that is 0.  The stream repeats itself
after 2 ^ 68 words, so no more than these are looked at. -/
def below (bound : UInt32) (g : Generator) : UInt32 × Generator :=
  let zone := (bound <<< (31 - bound.toNat.log2).toUInt32) - 1
  accept bound zone (Nat.pow 2 68) g

/-- Draws a whole number between two bounds in either order, both included.  Between the least
and the greatest there is nothing to leave out, and any word will do as it is. -/
def uniformInt (min max : Int32) (g : Generator) : Int32 × Generator :=
  let (low, high) := if min ≤ max then (min, max) else (max, min)
  let size := (high - low + 1).toUInt32
  if size = 0 then
    let (word, g) := g.next
    (word.toInt32, g)
  else
    let (n, g) := g.below size
    (low + n.toInt32, g)

/-! ### Orders -/

/-- Puts the items up to position `n` in random order, the last one first. -/
def shuffleUpTo {β : Type} : (n : Nat) → Array β → Generator → Array β × Generator
  | 0, items, g => (items, g)
  | n + 1, items, g =>
    let (j, g) := g.below (n + 2).toUInt32
    shuffleUpTo n (items.swapIfInBounds (n + 1) j.toNat) g

/-- Puts a list in random order. -/
def shuffle {β : Type} (items : List β) (g : Generator) : List β × Generator :=
  let (items, g) := shuffleUpTo (items.length - 1) items.toArray g
  (items.toList, g)

end Barrage.Random.Generator
