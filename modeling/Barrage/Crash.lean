/-
The operands that no script survives.

Almost every malformed script only stops itself, with a `ScriptError` on its cursor.
What is listed here is different: the operation has no result at all, and whoever
called it, up to the whole stage, has none either.
-/
namespace Barrage

/-- Why an operation has no result. -/
inductive Crash where
  /-- A turn was limited by an angle that is no number. -/
  | turnLimit
  /-- A random number was asked for in a range too wide to be cut into steps. -/
  | spanTooWide
  /-- A shuffled volley named a bullet that it does not have. -/
  | strayIndex
  deriving DecidableEq

end Barrage
