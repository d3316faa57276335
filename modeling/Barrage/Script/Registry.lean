/-
Registries: programs by name.

The first program registered under a name keeps it.  A program without a name and a
program without instructions are not stored.
-/
import Barrage.Script.Cursor

namespace Barrage

/-- Programs of one vocabulary by name. -/
structure Registry (κ α : Type) [Vocabulary κ] [Scalar α] where
  programs : Std.TreeMap String (Program κ α)

namespace Registry

variable {κ α : Type} [Vocabulary κ] [Scalar α]

def empty : Registry κ α := ⟨∅⟩

def get? (r : Registry κ α) (name : String) : Option (Program κ α) :=
  r.programs[name]?

def contains (r : Registry κ α) (name : String) : Bool :=
  r.programs.contains name

def size (r : Registry κ α) : Nat :=
  r.programs.size

def isEmpty (r : Registry κ α) : Bool :=
  r.programs.isEmpty

/-- The names, in ascending order. -/
def names (r : Registry κ α) : List String :=
  r.programs.keys

/-- Stores a program under a name, if both are good and the name is free; says whether it did. -/
def register (r : Registry κ α) (name : String) (program : Program κ α) : Bool × Registry κ α :=
  if name.isEmpty || program.isEmpty || r.contains name then (false, r)
  else (true, ⟨r.programs.insert name program⟩)

/-- Registers some programs in order. -/
def registerAll (r : Registry κ α) (programs : List (String × Program κ α)) : Registry κ α :=
  programs.foldl (fun r (name, program) => (r.register name program).2) r

/-- The start of the program with a name. -/
def cursor? (r : Registry κ α) (name : String) : Option (Cursor κ α) :=
  (r.get? name).map .ofProgram

end Registry

end Barrage
