/-
Numbers with one decimal.

The exact value of a binary32 number is rounded to tenths, and a tie goes to the even
tenth.  The sign is kept where nothing else is left of the number.
-/
namespace Barrage.Decimal

/-- The whole number nearest to a quotient; of two that are equally near, the even one. -/
def roundDiv (num den : Nat) : Nat :=
  let q := num / den
  let r := num % den
  if 2 * r < den ∨ (2 * r = den ∧ q % 2 = 0) then q else q + 1

/-- A number of tenths, with a point before its last digit. -/
def ofTenths (n : Nat) : String :=
  toString (n / 10) ++ "." ++ toString (n % 10)

/-- A sign for what is negative. -/
def signOf : Float.Model.UnpackedFloat.Sign → String
  | .negative => "-"
  | .positive => ""

/-- A number with one decimal. -/
def tenths (x : Float32) : String :=
  match x.toModel.unpack with
  | .notANumber => "NaN"
  | .infinity s => signOf s ++ "inf"
  | .zero s => signOf s ++ "0.0"
  | .finite s m e _ =>
    signOf s ++ ofTenths (roundDiv ((10 * m) <<< e.toNat) (1 <<< (-e).toNat))

end Barrage.Decimal
