/-
The formulas of scripts with exact numbers.

A formula is written once, over any numbers that have the operations of `Scalar`.  Here
these are the operations of an ordered field, say of the rational numbers, so nothing is
rounded and the formula is the geometry that it stands for.  What such a field need not
have are roots and the functions of angles: they may be any functions of it, and what is
needed of them is said where it is needed.  The real numbers have all of them.

Two headings are the same when whole turns lead from one to the other, which is congruence
modulo 360.

The operations of a field are now found in two ways, as those of the field and as those of
`Scalar`.  They are the same, and the second way is taken in statements; so that it is, this
module is imported before others that know about numbers.
-/
import Mathlib.Algebra.Group.ModEq
import Mathlib.Algebra.Order.Floor.Ring
import Mathlib.Analysis.SpecialFunctions.Complex.Arg
import Mathlib.Tactic.Linarith
import Mathlib.Tactic.Ring
import Barrage.Scalar

namespace Barrage.Exact

/-- The functions of scripts that an ordered field need not have. -/
class Functions (K : Type) where
  sqrt : K → K
  sin : K → K
  cos : K → K
  atan2 : K → K → K

noncomputable instance : Functions ℝ where
  sqrt := Real.sqrt
  sin := Real.sin
  cos := Real.cos
  atan2 y x := Complex.arg ⟨x, y⟩

section Operations

variable {K : Type} [Field K] [LinearOrder K] [FloorRing K]

/-- The whole part of a number, rounded towards zero. -/
def whole (x : K) : ℤ :=
  if 0 ≤ x then ⌊x⌋ else ⌈x⌉

instance [Functions K] : Scalar K where
  toOfScientific := inferInstance
  decLt := inferInstance
  decLe := inferInstance
  beq x y := decide (x = y)
  abs x := |x|
  sqrt := Functions.sqrt
  sin := Functions.sin
  cos := Functions.cos
  atan2 := Functions.atan2
  rem x m := x - m * whole (x / m)
  ofInt32 n := n.toInt
  trunc x := .ofIntClamp (whole x)

end Operations

variable {K : Type} [Field K] [LinearOrder K] [IsStrictOrderedRing K]

theorem abs_sub_whole_lt [FloorRing K] (x : K) : |x - whole x| < 1 := by
  rw [whole, abs_lt]
  split
  · have below := Int.floor_le x
    have above := Int.lt_floor_add_one x
    constructor <;> linarith
  · have below := Int.ceil_lt_add_one x
    have above := Int.le_ceil x
    constructor <;> linarith

/-- Headings that are less than a whole turn apart are the same only if they are equal. -/
theorem eq_of_modEq {a b : K} (same : a ≡ b [PMOD 360]) (near : |b - a| < 360) : a = b := by
  obtain ⟨turns, hturns⟩ := AddCommGroup.modEq_iff_zsmul'.mp same
  rw [zsmul_eq_mul] at hturns
  have few : |(turns : K)| < 1 := by
    rw [hturns, abs_mul, abs_of_pos (by norm_num : (0 : K) < 360)] at near
    linarith
  have none : turns = 0 := by
    rw [← Int.cast_abs, ← Int.cast_one, Int.cast_lt] at few
    exact Int.abs_lt_one_iff.mp few
  rw [none, Int.cast_zero, zero_mul] at hturns
  linarith

/-! ### What lies between two numbers is no further off than they are

Regions are bounded by an absolute value or by a squared distance, and both are convex.
The squared distance is bounded without a root, so that no root has to be assumed.
-/

theorem mix_le {a b c t : K} (ha : a ≤ c) (hb : b ≤ c) (low : 0 ≤ t) (high : t ≤ 1) :
    a * (1 - t) + b * t ≤ c := by
  have first : a * (1 - t) ≤ c * (1 - t) := mul_le_mul_of_nonneg_right ha (sub_nonneg.mpr high)
  have second : b * t ≤ c * t := mul_le_mul_of_nonneg_right hb low
  linarith

theorem abs_mix_le {a b c t : K} (ha : |a| ≤ c) (hb : |b| ≤ c) (low : 0 ≤ t) (high : t ≤ 1) :
    |a * (1 - t) + b * t| ≤ c := by
  obtain ⟨ha', ha⟩ := abs_le.mp ha
  obtain ⟨hb', hb⟩ := abs_le.mp hb
  refine abs_le.mpr ⟨?_, mix_le ha hb low high⟩
  have below := mix_le (neg_le.mp ha') (neg_le.mp hb') low high
  linarith

/-- Between two points the squared distance is no more than between the squared distances. -/
theorem sq_mix_le {a b a' b' c t : K} (ha : a ^ 2 + a' ^ 2 ≤ c) (hb : b ^ 2 + b' ^ 2 ≤ c)
    (low : 0 ≤ t) (high : t ≤ 1) :
    (a * (1 - t) + b * t) ^ 2 + (a' * (1 - t) + b' * t) ^ 2 ≤ c := by
  have spread : 0 ≤ t * (1 - t) * ((a - b) ^ 2 + (a' - b') ^ 2) :=
    mul_nonneg (mul_nonneg low (sub_nonneg.mpr high)) (add_nonneg (sq_nonneg _) (sq_nonneg _))
  calc (a * (1 - t) + b * t) ^ 2 + (a' * (1 - t) + b' * t) ^ 2
      = (a ^ 2 + a' ^ 2) * (1 - t) + (b ^ 2 + b' ^ 2) * t
          - t * (1 - t) * ((a - b) ^ 2 + (a' - b') ^ 2) := by ring
    _ ≤ (a ^ 2 + a' ^ 2) * (1 - t) + (b ^ 2 + b' ^ 2) * t := sub_le_self _ spread
    _ ≤ c := mix_le ha hb low high

theorem abs_le_of_mem_uIcc {x half : K} (between : x ∈ Set.uIcc (-|half|) |half|) :
    |x| ≤ |half| := by
  have ordered : -|half| ≤ |half| := neg_le_self (abs_nonneg half)
  rw [Set.uIcc_of_le ordered] at between
  exact abs_le.mpr between

end Barrage.Exact
