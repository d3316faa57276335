/-
The sprites of bullets: every template in every color.
-/
import Barrage.Entity
import Barrage.Single

namespace Barrage.Catalog

/-- The templates with the radius of their hitbox. -/
def templates : List (String × Float32) :=
  [("pellet", 2.0), ("rice", 2.5), ("orb", 4.0), ("knife", 3.0)]

/-- The colors that every template comes in. -/
def colors : List String :=
  ["red", "orange", "yellow", "green", "cyan", "blue", "purple", "white"]

/-- The sprites by the numbers of their template and color, in ascending order. -/
def sprites : List ((Int32 × Int32) × Sprite Float32) :=
  templates.zipIdx.flatMap fun ((template, radius), t) =>
    colors.zipIdx.map fun (color, c) =>
      ((.ofNat t, .ofNat c), { image := s!"{template}_{color}", radius })

def sprite? (template color : Int32) : Option (Sprite Float32) :=
  sprites.lookup (template, color)

end Barrage.Catalog
