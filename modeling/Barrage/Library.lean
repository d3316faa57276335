/-
The programs that scripts refer to by name: bullets by the shots that fire them, shots
by the enemies that start them.
-/
import Barrage.Bullet.Vocabulary
import Barrage.Enemy.Vocabulary
import Barrage.Script.Registry
import Barrage.Shot.Vocabulary

namespace Barrage

/-- One registry for each vocabulary. -/
structure Library (α : Type) [Scalar α] where
  bullets : Registry Bullet.Kind α
  shots : Registry Shot.Kind α
  enemies : Registry Enemy.Kind α

def Library.empty {α : Type} [Scalar α] : Library α :=
  ⟨.empty, .empty, .empty⟩

end Barrage
