/-
The flags of a run.

Flags are read from left to right, and a later one replaces an earlier one.  A flag
that takes a value takes the next word, whatever it looks like; whole numbers are ASCII
digits, with or without a plus sign in front, up to a limit.
-/
namespace Barrage.CommandLine

/-- The settings of a run. -/
structure RunOptions where
  ticks : Nat
  seed : UInt64
  /-- The file that gets a line for every tick. -/
  trace : Option String
  /-- Whether there is a player to aim at. -/
  player : Bool
  deriving DecidableEq

/-- The settings of a run without flags. -/
def RunOptions.default : RunOptions where
  ticks := 600
  seed := 0
  trace := none
  player := true

/-- Why a word is refused as a flag or as its value. -/
inductive FlagError where
  | missingValue (flag : String)
  | invalidValue (flag value : String)
  | unknownFlag (word : String)
  deriving DecidableEq

def FlagError.message : FlagError → String
  | missingValue flag => s!"error: {flag} requires a value"
  | invalidValue flag value => s!"error: invalid value '{value}' for {flag}"
  | unknownFlag word => s!"error: unknown flag '{word}'"

/-- The number that some digits stand for, the first digit being the highest. -/
def valueOf (digits : List Char) : Nat :=
  digits.foldl (fun n c => 10 * n + (c.toNat - '0'.toNat)) 0

/-- The digits of a word that is a whole number. -/
def digits? (word : String) : Option (List Char) :=
  let digits := match word.toList with
    | '+' :: rest => rest
    | all => all
  if digits ≠ [] ∧ digits.all Char.isDigit then some digits else none

/-- The whole number that a word stands for, if it is at most `limit`. -/
def wholeNumber? (limit : Nat) (word : String) : Option Nat :=
  (digits? word).bind fun digits =>
    let n := valueOf digits
    if n ≤ limit then some n else none

/-- Reads a value that is a whole number of at most `limit`. -/
def readNumber (limit : Nat) (flag value : String) : Except FlagError Nat :=
  match wholeNumber? limit value with
  | some n => .ok n
  | none => .error (.invalidValue flag value)

/-- Reads some flags, given the settings made by those before them. -/
def readFlags : List String → RunOptions → Except FlagError RunOptions
  | [], o => .ok o
  | "--no-player" :: rest, o => readFlags rest { o with player := false }
  | "--ticks" :: value :: rest, o =>
    match readNumber (UInt32.size - 1) "--ticks" value with
    | .ok ticks => readFlags rest { o with ticks }
    | .error e => .error e
  | "--seed" :: value :: rest, o =>
    match readNumber (UInt64.size - 1) "--seed" value with
    | .ok seed => readFlags rest { o with seed := .ofNat seed }
    | .error e => .error e
  | "--trace" :: value :: rest, o => readFlags rest { o with trace := some value }
  | [flag], _ =>
    if flag = "--ticks" ∨ flag = "--seed" ∨ flag = "--trace" then .error (.missingValue flag)
    else .error (.unknownFlag flag)
  | word :: _, _ => .error (.unknownFlag word)

/-- Reads the flags of a run. -/
def parseFlags (words : List String) : Except FlagError RunOptions :=
  readFlags words .default

end Barrage.CommandLine
