/-
Where the operations on binary32 numbers have no result.

There are two such places.  A turn is limited by an interval, and the limits are the
wrong way round just if the limit is no number: what has to be shown is that every other
number has a size, and that minus a size is at most the size.  A random number is cut
into equal steps, and the scale of these may be infinite although the span is not.

For the first, nothing of the format is needed but that a number keeps its sign, and
stays a number, when it is packed into bits and unpacked again; `Signed` is that.
-/
import Mathlib.Algebra.Group.Nat.Defs
import Barrage.Angle
import Barrage.Random.Draw

namespace Barrage

open Float.Model (Format UnpackedFloat)
open Float.Model.UnpackedFloat (Sign packComponents unpackExponent unpackMantissa
  unpackExponent_packComponents unpackMantissa_packComponents)

namespace Single

/-! ### Numbers keep their sign

The size of a number is packed into bits, unpacked, negated and compared.  Nothing has
to be known of its digits for that: a negative number is at most any positive one.
-/

/-- The number has this sign, so it is a number. -/
inductive Signed (s : Sign) : UnpackedFloat → Prop
  | infinity : Signed s (.infinity s)
  | zero : Signed s (.zero s)
  | finite (m : Nat) (e : Int) (pos : 0 < m) : Signed s (.finite s m e pos)

variable {s : Sign} {u v : UnpackedFloat} {format : Format}

theorem Signed.neg (h : Signed .positive u) : Signed .negative u.neg := by
  cases h with
  | infinity => exact .infinity
  | zero => exact .zero
  | finite m e pos => exact .finite m e pos

theorem signed_abs (h : u.isNaN = false) : Signed .positive u.abs := by
  cases u with
  | notANumber => cases h
  | infinity _ => exact .infinity
  | zero _ => exact .zero
  | finite _ m e pos => exact .finite m e pos

theorem Signed.le (hu : Signed .negative u) (hv : Signed .positive v) : u.le v = true := by
  cases hu <;> cases hv <;> rfl

/-- An exponent that fits is not the one of infinity. -/
theorem ofNat_ne_top {bits n : Nat} (fits : n + 1 < 2 ^ bits) : BitVec.ofNat bits n ≠ -1#_ := by
  intro top
  have h := congrArg BitVec.toNat top
  simp only [BitVec.neg_one_eq_allOnes, BitVec.toNat_allOnes, BitVec.toNat_ofNat] at h
  rw [Nat.mod_eq_of_lt (by omega)] at h
  omega

/-- A number is packed with its sign, and not as what is no number. -/
theorem Signed.pack_eq (h : Signed s u) (format : Format) : ∃ exponent mantissa,
    u.pack format = packComponents format s exponent mantissa ∧
      (exponent = -1#_ → mantissa = 0#_) := by
  cases h with
  | infinity => exact ⟨-1#_, 0, rfl, fun _ => rfl⟩
  | zero => exact ⟨0, 0, rfl, fun _ => rfl⟩
  | finite m e pos =>
      dsimp only [UnpackedFloat.pack]
      split
      · exact ⟨-1#_, 0, rfl, fun _ => rfl⟩
      · rename_i fits
        split
        · exact ⟨_, _, rfl, fun top => absurd top (ofNat_ne_top (Nat.lt_of_not_le fits))⟩
        · refine ⟨0#_, _, rfl, fun top => absurd top (ofNat_ne_top ?_)⟩
          exact Nat.one_lt_two_pow (Nat.ne_of_gt format.he)

/-- The sign is the first of the bits. -/
theorem sign_packComponents (format : Format) (s : Sign) (exponent mantissa) :
    Sign.ofBitVec (UnpackedFloat.unpackSign (packComponents format s exponent mantissa)) = s := by
  have first : UnpackedFloat.unpackSign (packComponents format s exponent mantissa) = s.toBitVec := by
    unfold UnpackedFloat.unpackSign packComponents
    ext i hi
    obtain rfl : i = 0 := by omega
    simp [BitVec.getLsbD_append, BitVec.getElem_append, Nat.not_lt.mpr (Nat.le_add_right _ _)]
  rw [first]
  cases s <;> rfl

theorem signed_unpack {exponent mantissa} (h : exponent = -1#_ → mantissa = 0#_) :
    Signed s (.unpack format (packComponents format s exponent mantissa)) := by
  dsimp only [UnpackedFloat.unpack]
  rw [sign_packComponents, unpackExponent_packComponents]
  by_cases top : exponent = -1#_
  · rw [if_pos top, unpackMantissa_packComponents, if_pos (h top)]
    exact .infinity
  rw [if_neg top]
  by_cases bottom : exponent = 0#_
  · rw [if_pos bottom]
    by_cases zero : unpackMantissa (packComponents format s exponent mantissa) = 0#_
    · rw [dif_pos zero]
      exact .zero
    · rw [dif_neg zero]
      exact .finite _ _ _
  · rw [if_neg bottom]
    exact .finite _ _ _

theorem Signed.unpack_pack (h : Signed s u) : Signed s (Float32.Model.pack u).unpack := by
  obtain ⟨exponent, mantissa, hpack, top⟩ := h.pack_eq Format.binary32
  show Signed s (.unpack Format.binary32 (u.pack Format.binary32))
  rw [hpack]
  exact signed_unpack top

/-- Numbers compare as they do unpacked. -/
theorem le_iff (x y : Float32) : x ≤ y ↔ x.toModel.unpack.le y.toModel.unpack = true :=
  decide_eq_true_iff

/-- Minus a size is at most the size, unless there is no number. -/
theorem neg_abs_le_abs_iff (x : Float32) : -x.abs ≤ x.abs ↔ x.isNaN = false := by
  rw [le_iff]
  show (Float32.Model.pack (Float32.Model.pack x.toModel.unpack.abs).unpack.neg).unpack.le
    (Float32.Model.pack x.toModel.unpack.abs).unpack = true ↔ x.toModel.unpack.isNaN = false
  constructor
  · intro hle
    cases hx : x.toModel.unpack with
    | notANumber =>
        rw [hx] at hle
        exact absurd hle (by decide)
    | infinity _ | zero _ | finite _ _ _ _ => rfl
  · intro number
    have size := (signed_abs number).unpack_pack
    exact size.neg.unpack_pack.le size

end Single

/-! ### Turns and draws -/

/-- A turn has no result just if its limit is no number. -/
theorem Angle.turnTowards_eq_error {current target maxTurn : Float32} {e : Crash} :
    turnTowards current target maxTurn = .error e ↔ e = .turnLimit ∧ maxTurn.isNaN = true := by
  have number : -Scalar.abs maxTurn ≤ Scalar.abs maxTurn ↔ maxTurn.isNaN = false :=
    Single.neg_abs_le_abs_iff maxTurn
  unfold turnTowards
  dsimp only
  by_cases h : maxTurn.isNaN = false
  · rw [if_pos (number.mpr h), h]
    simp
  · rw [if_neg (mt number.mp h)]
    constructor
    · intro hcrash
      exact ⟨(Except.error.inj hcrash).symm, (Bool.not_eq_false _).mp h⟩
    · rintro ⟨rfl, -⟩
      rfl

namespace Random.Generator

/-- Two bounds that are apart, by less than infinity, but by too much for the steps of a draw. -/
def TooWide (min max : Float32) : Prop :=
  (min.isFinite && max.isFinite) = true ∧ (min == max) = false ∧
    let span := if min < max then max - min else min - max
    span.isFinite = true ∧ (span / largestFraction).isFinite = false

instance (min max : Float32) : Decidable (TooWide min max) :=
  inferInstanceAs (Decidable (_ ∧ _ ∧ _ ∧ _))

theorem between_eq_error {low high : Float32} {g : Generator} {e : Crash} :
    between low high g = .error e ↔
      e = .spanTooWide ∧ ((high - low) / largestFraction).isFinite = false := by
  unfold between
  dsimp only
  split
  · rename_i finite
    simp [finite]
  · rename_i infinite
    simp only [Bool.not_eq_true] at infinite
    simp [infinite, eq_comm]

/-- A fraction of one can always be drawn. -/
theorem between_unit (g : Generator) : ∃ drawn, between 0.0 1.0 g = .ok drawn := by
  cases hdraw : between 0.0 1.0 g with
  | ok drawn => exact ⟨drawn, rfl⟩
  | error e => exact absurd (between_eq_error.mp hdraw).2 (by decide)

/-- From lower bound to upper bound, a draw has no result just if the steps between them have no
size; `mixed` is what comes of the two if their span has none. -/
theorem ordered_eq_error {low high : Float32} {g : Generator} {e : Crash}
    {mixed : Float32 × Generator → Except Crash (Float32 × Generator)}
    (answers : ∀ drawn, mixed drawn ≠ .error e) :
    (if (high - low).isFinite then between low high g else between 0.0 1.0 g >>= mixed) = .error e ↔
      e = .spanTooWide ∧ (high - low).isFinite = true ∧
        ((high - low) / largestFraction).isFinite = false := by
  split
  · rename_i finite
    rw [between_eq_error]
    simp only [finite, true_and]
  · rename_i infinite
    obtain ⟨drawn, hdraw⟩ := between_unit g
    rw [hdraw]
    exact ⟨fun hmixed => absurd hmixed (answers drawn),
      fun ⟨_, finite, _⟩ => absurd finite infinite⟩

/-- A draw has no result just if its bounds are too far apart. -/
theorem uniform_eq_error {min max : Float32} {g : Generator} {e : Crash} :
    uniform min max g = .error e ↔ e = .spanTooWide ∧ TooWide min max := by
  unfold uniform TooWide
  by_cases nothing : (!(min.isFinite && max.isFinite) || min == max) = true
  · rw [if_pos nothing]
    simp only [reduceCtorEq, false_iff]
    rintro ⟨-, finite, apart, -⟩
    rw [finite, apart] at nothing
    cases nothing
  · rw [if_neg nothing]
    simp only [Bool.not_eq_true, Bool.or_eq_false_iff, Bool.not_eq_false'] at nothing
    obtain ⟨finite, apart⟩ := nothing
    by_cases order : min < max
    · simp only [if_pos order]
      refine (ordered_eq_error fun _ => by simp [pure, Except.pure]).trans ?_
      simp only [finite, apart, true_and]
    · simp only [if_neg order]
      refine (ordered_eq_error fun _ => by simp [pure, Except.pure]).trans ?_
      simp only [finite, apart, true_and]

end Random.Generator

end Barrage
