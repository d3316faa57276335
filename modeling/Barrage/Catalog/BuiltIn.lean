/-
The built-in catalog.

Enemy patterns start shot patterns by name, and shot patterns attach bullet patterns by
name, so the three lists belong together.
-/
import Barrage.Catalog.Bullets
import Barrage.Catalog.Enemies
import Barrage.Catalog.Shots

namespace Barrage.Catalog

/-- Every built-in pattern, unless one of them has a label that is refused. -/
def builtIn : Except LabelError (Catalog Float32) := do
  let enemies ← enemyPatterns
  return { bullets := bulletPatterns, shots := shotPatterns, enemies }

end Barrage.Catalog
