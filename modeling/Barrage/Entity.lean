/-
What scripts know of the things on the field.
-/
namespace Barrage

/-- Names a thing on the field. -/
structure Handle where
  id : UInt32
  deriving DecidableEq

/-- What a bullet looks like and how big it is. -/
structure Sprite (α : Type) where
  image : String
  radius : α

end Barrage
