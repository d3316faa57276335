/-
The paths that enemies can follow, by number.
-/
import Barrage.Curve
import Barrage.Single

namespace Barrage.Catalog

/-- A swoop across the upper field. -/
def swoop : Int32 := 0

/-- A straight dive down the left side. -/
def dive : Int32 := 1

/-- The paths by number, in ascending order. -/
def paths : List (Int32 × Curve Float32) :=
  [(swoop, .cubic ⟨-16.0, 60.0⟩ ⟨96.0, 260.0⟩ ⟨288.0, 260.0⟩ ⟨400.0, 60.0⟩),
   (dive, .line ⟨64.0, -16.0⟩ ⟨64.0, 300.0⟩)]

def path? (number : Int32) : Option (Curve Float32) :=
  paths.lookup number

end Barrage.Catalog
