/-
Patterns: programs with a name and a description, as they are kept in a catalog.
-/
import Barrage.Library

namespace Barrage

/-- A named program. -/
structure Pattern (κ α : Type) [Vocabulary κ] [Scalar α] where
  /-- The name that other programs refer to. -/
  id : String
  /-- What it looks like on the field. -/
  intent : String
  program : Program κ α

/-- A pattern without labels. -/
def Pattern.ofInstructions {κ α : Type} [Vocabulary κ] [Scalar α] (id intent : String)
    (code : List (Instruction κ α)) : Pattern κ α :=
  { id, intent, program := .ofInstructions code }

/-- Patterns that belong together. -/
structure Catalog (α : Type) [Scalar α] where
  bullets : List (Pattern Bullet.Kind α)
  shots : List (Pattern Shot.Kind α)
  enemies : List (Pattern Enemy.Kind α)

namespace Catalog

variable {α : Type} [Scalar α]

def size (c : Catalog α) : Nat :=
  c.bullets.length + c.shots.length + c.enemies.length

/-- The registry of some patterns, registered in order. -/
def registryOf {κ : Type} [Vocabulary κ] (patterns : List (Pattern κ α)) : Registry κ α :=
  Registry.empty.registerAll (patterns.map fun p => (p.id, p.program))

/-- The library of a catalog. -/
def install (c : Catalog α) : Library α where
  bullets := registryOf c.bullets
  shots := registryOf c.shots
  enemies := registryOf c.enemies

end Catalog

end Barrage
