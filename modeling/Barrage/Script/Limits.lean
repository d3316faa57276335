/-
The limits of a run.
-/
namespace Barrage.Limits

/-- Ticks in a second. -/
def tickRate : Nat := 60

/-- How many subroutines may be running inside each other. -/
def callDepth : Nat := 64

/-- How many loops may be open at once. -/
def loopDepth : Nat := 64

/-- How often one instruction of a program may be visited between two pieces of progress. -/
def visits (size : Nat) : Nat :=
  min (size + 1) 0xffffffff

end Barrage.Limits
