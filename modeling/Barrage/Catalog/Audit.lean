/-
What can be found wrong with a catalog.

Apart from the findings about each program, a name may be dangling: an enemy starts a
shot, or a shot attaches a motion, that no pattern provides.
-/
import Barrage.Catalog.Pattern
import Barrage.Script.Check

namespace Barrage.Catalog

variable {α : Type} [Scalar α]

/-- A problem with a catalog; every one names a pattern. -/
inductive Problem where
  | finding (vocabulary pattern : String) (finding : Finding)
  | unknownShot (pattern shot : String) (position : Nat)
  | unknownMotion (pattern program : String) (position : Nat)
  deriving DecidableEq

def Problem.message : Problem → String
  | finding vocabulary pattern f =>
    let text := f.message
    s!"{vocabulary} '{pattern}': {text}"
  | unknownShot pattern shot position =>
    s!"enemy '{pattern}': FIRE of unknown shot '{shot}' at instruction {position}"
  | unknownMotion pattern program position =>
    s!"shot '{pattern}': ATTACH_MOTION of unknown program '{program}' at instruction {position}"

/-- The findings about some patterns. -/
def findings {κ : Type} [Vocabulary κ] (patterns : List (Pattern κ α)) : List Problem :=
  patterns.flatMap fun p => p.program.check.map (.finding (Vocabulary.name κ) p.id)

/-- The shots started and the motions attached that the library of the catalog does not have. -/
def dangling (c : Catalog α) : List Problem :=
  let library := c.install
  let shots := c.enemies.flatMap fun p =>
    p.program.code.toList.zipIdx.filterMap fun (i, position) =>
      if i.kind = .fire ∧ !library.shots.contains i.label then
        some (.unknownShot p.id i.label position)
      else none
  let motions := c.shots.flatMap fun p =>
    p.program.code.toList.zipIdx.filterMap fun (i, position) =>
      if i.kind = .attachMotion ∧ !library.bullets.contains i.label then
        some (.unknownMotion p.id i.label position)
      else none
  shots ++ motions

/-- Everything found wrong with a catalog. -/
def problems (c : Catalog α) : List Problem :=
  findings c.bullets ++ findings c.shots ++ findings c.enemies ++ c.dangling

end Barrage.Catalog
