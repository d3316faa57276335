/-
Binary32 numbers as scalars.

Addition to square root are those of the number format.  The remainder is taken
exactly, on whole numbers in the smaller of the two units, and the result is always
representable.  Sine, cosine and arc tangent are computed with 53 bits and then
rounded once.
-/
import Barrage.Scalar

namespace Barrage.Single

open Float.Model (Format UnpackedFloat)

/-- The remainder of truncating division; it has the sign of `x`, also when it is zero. -/
def rem (x y : Float32) : Float32 :=
  match x.toModel.unpack, y.toModel.unpack with
  | .finite s m e _, .finite _ n f _ =>
    let unit := min e f
    let r := (m <<< (e - unit).toNat) % (n <<< (f - unit).toNat)
    .ofModel (.pack (if r = 0 then .zero s else .round Format.binary32 s r unit))
  | .finite .., .infinity _ | .zero _, .infinity _ | .zero _, .finite .. => x
  | _, _ => .ofModel (.pack .notANumber)

instance : Scalar Float32 where
  decLt := Float32.decLt
  decLe := Float32.decLe
  abs := Float32.abs
  sqrt := Float32.sqrt
  sin x := (Float.sin x.toFloat).toFloat32
  cos x := (Float.cos x.toFloat).toFloat32
  atan2 y x := (Float.atan2 y.toFloat x.toFloat).toFloat32
  rem := rem
  ofInt32 n := .ofModel (.ofInt32 n)
  trunc x := x.toModel.toInt32

end Barrage.Single
