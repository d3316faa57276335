/-
A stream of random words, fixed by its seed.

The words are those of the standard generator of `rand` 0.8, so that a seed gives the same
run.  For what is proved of runs it does not matter how they come about: all that is used of
a generator is that it draws fairly, which is `Host.DrawsFairly`.

The stream is the key stream of the ChaCha cipher with twelve rounds, under a key
spread out from a 64-bit seed.  Word `n` of the stream is word `n % 16` of the block
with number `n / 16`, so a generator is a key and a position, and no block is kept.
-/
namespace Barrage.Random

/-! ### The key -/

abbrev Key := Vector UInt32 8

/-- The state of the seed spreader after one more word. -/
def spreadState (s : UInt64) : UInt64 :=
  s * 6364136223846793005 + 11634580027462260723

def rotateLeft (x n : UInt32) : UInt32 :=
  (x <<< n) ||| (x >>> (32 - n))

/-- The word that the seed spreader gives out in a state: its top five bits rotate the rest. -/
def spreadWord (s : UInt64) : UInt32 :=
  let rotation := (s >>> 59).toUInt32
  rotateLeft (((s >>> 18) ^^^ s) >>> 27).toUInt32 (32 - rotation)

/-- The key of a seed. -/
def keyOfSeed (seed : UInt64) : Key :=
  .ofFn fun i => spreadWord (Nat.repeat spreadState (i + 1) seed)

/-! ### The blocks

Additions wrap around, and the order of the two half rounds matters.  The number of a
block takes the place of a counter, so any block can be had without those before it.
-/

abbrev Block := Vector UInt32 16

/-- Mixes four words of a block. -/
def quarterRound (w : Block) (i j k l : Fin 16) : Block :=
  let a := w[i] + w[j]
  let d := rotateLeft (w[l] ^^^ a) 16
  let c := w[k] + d
  let b := rotateLeft (w[j] ^^^ c) 12
  let a := a + b
  let d := rotateLeft (d ^^^ a) 8
  let c := c + d
  let b := rotateLeft (b ^^^ c) 7
  (((w.set i a).set j b).set k c).set l d

/-- Mixes the columns of a block and then its diagonals. -/
def doubleRound (w : Block) : Block :=
  let w := quarterRound w 0 4 8 12
  let w := quarterRound w 1 5 9 13
  let w := quarterRound w 2 6 10 14
  let w := quarterRound w 3 7 11 15
  let w := quarterRound w 0 5 10 15
  let w := quarterRound w 1 6 11 12
  let w := quarterRound w 2 7 8 13
  quarterRound w 3 4 9 14

/-- The block with a number before it is mixed: four fixed words, the key, the number in 64 bits
and two zeros. -/
def plainBlock (key : Key) (number : Nat) : Block :=
  let n := number.toUInt64
  (#v[0x61707865, 0x3320646e, 0x79622d32, 0x6b206574] : Vector UInt32 4) ++ key
    ++ (#v[n.toUInt32, (n >>> 32).toUInt32, 0, 0] : Vector UInt32 4)

/-- The block with a number: twelve rounds, added to the plain block. -/
def block (key : Key) (number : Nat) : Block :=
  let plain := plainBlock key number
  (Nat.repeat doubleRound 6 plain).zipWith (· + ·) plain

/-! ### Generators -/

/-- A position in the stream of a key. -/
structure Generator where
  key : Key
  /-- How many words have been drawn. -/
  drawn : Nat

namespace Generator

def ofSeed (seed : UInt64) : Generator :=
  { key := keyOfSeed seed, drawn := 0 }

/-- Draws the next word. -/
def next (g : Generator) : UInt32 × Generator :=
  let words := block g.key (g.drawn / 16)
  (words.get ⟨g.drawn % 16, Nat.mod_lt _ (by decide)⟩, { g with drawn := g.drawn + 1 })

end Generator

end Barrage.Random
