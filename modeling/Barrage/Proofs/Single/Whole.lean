/-
Whole numbers as binary32 numbers, and back.

A binary32 number has 24 significant bits.  A whole number that needs more is rounded
when it becomes one, so it does not come back: what comes back is the nearest number
with enough zeros at its end.  There is one number of 32 bits for which the rounding
makes no difference, since it is rounded up to a number that 32 bits do not hold.

The rounding shifts bits out one by one and keeps two bits about them.  `Shifted` is
what these two say of all the bits that have been shifted out; it is an invariant of the
single shift, and the error of the rounding is read off it.
-/
import Mathlib.Algebra.Order.Ring.Int
import Barrage.Proofs.Single.Partial

namespace Barrage.Single

open Float.Model (Format UnpackedFloat totalExponent)
open Float.Model.UnpackedFloat

variable {m k : Nat} {s : Sign}

/-! ### Two bits say enough of those that are shifted out

Rounding to the nearest asks two things of the bits that go: whether they make up one
half at least, and whether they are neither nothing nor just one half.  A single shift
can answer both from the answers before it and from the bit that goes next.
-/

/-- What is left of `m` when its last `k` bits are shifted out. -/
structure Shifted (m k : Nat) (em : ExtendedMantissa) : Prop where
  mantissa : em.mantissa = m / 2 ^ k
  /-- What is shifted out makes up one half at least. -/
  roundBit : em.roundBit = true ↔ 2 ^ k ≤ 2 * (m % 2 ^ k)
  /-- What is shifted out is neither nothing nor one half. -/
  stickyBit : em.stickyBit = true ↔ 2 * (m % 2 ^ k) ≠ 0 ∧ 2 * (m % 2 ^ k) ≠ 2 ^ k

theorem Shifted.shiftRightOne {em : ExtendedMantissa} (h : Shifted m k em) :
    Shifted m (k + 1) em.shiftRightOne := by
  obtain ⟨mantissa, round, sticky⟩ := h
  have rest : m % 2 ^ (k + 1) = m % 2 ^ k + 2 ^ k * (m / 2 ^ k % 2) := by
    rw [Nat.pow_succ, Nat.mod_mul]
  have below : m % 2 ^ k < 2 ^ k := Nat.mod_lt _ (Nat.two_pow_pos k)
  have double : 2 ^ (k + 1) = 2 ^ k * 2 := Nat.pow_succ ..
  refine ⟨?_, ?_, ?_⟩
  · show em.mantissa / 2 = _
    rw [mantissa, Nat.div_div_eq_div_mul, ← double]
  · show (em.mantissa % 2 != 0) = true ↔ _
    rw [mantissa, rest, bne_iff_ne]
    obtain even | odd := Nat.mod_two_eq_zero_or_one (m / 2 ^ k)
    · rw [even]
      omega
    · rw [odd]
      omega
  · show (em.roundBit || em.stickyBit) = true ↔ _
    rw [Bool.or_eq_true, round, sticky, rest]
    obtain even | odd := Nat.mod_two_eq_zero_or_one (m / 2 ^ k)
    · rw [even]
      omega
    · rw [odd]
      omega

theorem shifted (m k : Nat) :
    Shifted m k (ExtendedMantissa.ofMantissaAndAccuracy m .exact >>> k) := by
  induction k with
  | zero =>
      have whole : m % 2 ^ 0 = 0 := Nat.mod_one m
      refine ⟨(Nat.div_one m).symm, ?_, ?_⟩
      · rw [whole]
        exact iff_of_false Bool.false_ne_true (by decide)
      · rw [whole]
        exact iff_of_false Bool.false_ne_true fun some => some.1 rfl
  | succ k ih => exact ih.shiftRightOne

/-! ### Rounding gives the nearest multiple

What is left after `k` shifts stands for a multiple of `2 ^ k`, and the two bits choose
the nearest one.  Rounding up may yield a mantissa of 25 bits.  It is shifted once more
then, and since its last bit is zero, that loses nothing.
-/

/-- A multiple of `2 ^ k` than which none is nearer to `m`. -/
structure Nearest (m k v : Nat) : Prop where
  multiple : 2 ^ k ∣ v
  above : 2 * v ≤ 2 * m + 2 ^ k
  below : 2 * m ≤ 2 * v + 2 ^ k

theorem Nearest.eq_iff {v : Nat} (h : Nearest m k v) : v = m ↔ 2 ^ k ∣ m := by
  obtain ⟨⟨b, rfl⟩, above, below⟩ := h
  have pos := Nat.two_pow_pos k
  constructor
  · rintro rfl
    exact Nat.dvd_mul_right _ _
  · rintro ⟨a, rfl⟩
    have hb : 2 ^ k * b < 2 ^ k * (a + 1) := by
      rw [Nat.mul_succ]
      omega
    have ha : 2 ^ k * a < 2 ^ k * (b + 1) := by
      rw [Nat.mul_succ]
      omega
    rw [Nat.le_antisymm (Nat.le_of_lt_succ (Nat.lt_of_mul_lt_mul_left hb))
      (Nat.le_of_lt_succ (Nat.lt_of_mul_lt_mul_left ha))]

/-- Rounding down costs less than rounding up, or the other way round. -/
theorem Shifted.error {em : ExtendedMantissa} (h : Shifted m k em) :
    (em.roundedMantissa = em.mantissa ∧ 2 * (m % 2 ^ k) ≤ 2 ^ k) ∨
      (em.roundedMantissa = em.mantissa + 1 ∧ 2 ^ k ≤ 2 * (m % 2 ^ k)) := by
  obtain ⟨mantissa, round, sticky⟩ := em
  obtain ⟨-, hround, hsticky⟩ := h
  dsimp only at hround hsticky
  cases round with
  | false =>
      have small : 2 * (m % 2 ^ k) ≤ 2 ^ k := by
        have := mt hround.mpr Bool.false_ne_true
        omega
      cases sticky <;> exact .inl ⟨rfl, small⟩
  | true =>
      have large := hround.mp rfl
      cases sticky with
      | true => exact .inr ⟨rfl, large⟩
      | false =>
          -- exactly one half: to the even one of the two
          have half : 2 * (m % 2 ^ k) = 2 ^ k := by
            have := mt hsticky.mpr Bool.false_ne_true
            have := Nat.two_pow_pos k
            omega
          show (mantissa + mantissa % 2 = _ ∧ _) ∨ (mantissa + mantissa % 2 = _ ∧ _)
          dsimp only
          omega

theorem Shifted.nearest {em : ExtendedMantissa} (h : Shifted m k em) :
    Nearest m k (em.roundedMantissa * 2 ^ k) := by
  have parts : m = em.mantissa * 2 ^ k + m % 2 ^ k := by
    rw [h.mantissa, Nat.div_add_mod']
  have below : m % 2 ^ k < 2 ^ k := Nat.mod_lt _ (Nat.two_pow_pos k)
  have next : (em.mantissa + 1) * 2 ^ k = em.mantissa * 2 ^ k + 2 ^ k := Nat.succ_mul ..
  refine ⟨Nat.dvd_mul_left _ _, ?_, ?_⟩ <;>
    obtain ⟨rounded, half⟩ | ⟨rounded, half⟩ := h.error <;> rw [rounded] <;> omega

/-- A number keeps 24 bits, unless its exponent would be less than the smallest one. -/
theorem targetExponent_eq (m : Nat) (e : Int) :
    Format.binary32.targetExponent (totalExponent m e) = max (m.log2 + 1 + e - 24) (-149) := rfl

/-- The bits beyond 24 are shifted out, if the exponent is not too small. -/
theorem shiftToTargetExponent_eq {A : Nat} {e : Int} (lo : 2 ^ (23 + k) ≤ A)
    (hi : A < 2 ^ (24 + k)) (small : -149 ≤ e) :
    shiftToTargetExponent Format.binary32 A e .exact =
      (ExtendedMantissa.ofMantissaAndAccuracy A .exact >>> k, e + k) := by
  have bits : A.log2 = 23 + k :=
    (Nat.log2_eq_iff (Nat.ne_of_gt (Nat.lt_of_lt_of_le (Nat.two_pow_pos _) lo))).mpr
      ⟨lo, by rwa [show 23 + k + 1 = 24 + k by omega]⟩
  have target : Format.binary32.targetExponent (totalExponent A e) - e = k := by
    rw [targetExponent_eq, bits]
    omega
  unfold shiftToTargetExponent shiftToExponent
  dsimp only
  rw [target]
  rfl

/-- Of a number, the bits beyond 24 are rounded away.  The rounded mantissa may have one bit too
many, and that one is zero. -/
theorem roundWithAccuracy_nearest {A : Nat} {e : Int} (lo : 2 ^ (23 + k) ≤ A)
    (hi : A < 2 ^ (24 + k)) (small : -149 ≤ e) :
    ∃ M j pos, roundWithAccuracy Format.binary32 s A e .exact = .finite s M (e + (j : Nat)) pos ∧
      2 ^ 23 ≤ M ∧ M < 2 ^ 24 ∧ j ≤ k + 1 ∧ Nearest A k (M * 2 ^ j) := by
  generalize hem : ExtendedMantissa.ofMantissaAndAccuracy A .exact >>> k = em
  have shifted : Shifted A k em := hem ▸ shifted A k
  have nearest := shifted.nearest
  have mantissa_lo : 2 ^ 23 ≤ em.mantissa := by
    rw [shifted.mantissa, Nat.le_div_iff_mul_le (Nat.two_pow_pos k), ← Nat.pow_add]
    exact lo
  have mantissa_hi : em.mantissa < 2 ^ 24 := by
    rw [shifted.mantissa, Nat.div_lt_iff_lt_mul (Nat.two_pow_pos k), ← Nat.pow_add]
    exact hi
  have rounded := shifted.error
  unfold roundWithAccuracy
  rw [shiftToTargetExponent_eq lo hi small, hem]
  dsimp only
  by_cases carry : em.roundedMantissa = 2 ^ 24
  · have again : shiftToTargetExponent Format.binary32 (2 ^ 24) (e + k) .exact =
        (⟨2 ^ 23, false, false⟩, e + (k + 1 : Nat)) :=
      (shiftToTargetExponent_eq (k := 1) (by decide) (by decide) (by omega)).trans
        (Prod.ext rfl (Int.add_assoc e k 1))
    rw [carry] at nearest ⊢
    rw [again]
    refine ⟨2 ^ 23, k + 1, by decide, rfl, Nat.le_refl _, by decide, Nat.le_refl _, ?_⟩
    rwa [show 2 ^ 23 * 2 ^ (k + 1) = 2 ^ 24 * 2 ^ k by rw [Nat.pow_succ]; omega]
  · have full : 2 ^ 23 ≤ em.roundedMantissa ∧ em.roundedMantissa < 2 ^ 24 := by omega
    have pos : 0 < em.roundedMantissa := Nat.lt_of_lt_of_le (by decide) full.1
    have again : shiftToTargetExponent Format.binary32 em.roundedMantissa (e + k) .exact =
        (⟨em.roundedMantissa, false, false⟩, e + k) :=
      (shiftToTargetExponent_eq (k := 0) full.1 full.2 (by omega)).trans
        (Prod.ext rfl (Int.add_zero _))
    rw [again]
    exact ⟨em.roundedMantissa, k, pos, dif_neg (Nat.ne_of_gt pos), full.1, full.2,
      Nat.le_succ k, nearest⟩

/-! ### Whole numbers

Below 2^32 the exponent is nowhere near its limits, so neither the smallest numbers nor
an infinity come up on the way: a number is normalised, rounded, packed into 32 bits and
unpacked again without a change to the mantissa.  Its whole part takes the shift back by
which it was normalised.
-/

/-- The bit that is left out when a number is packed comes back when it is unpacked. -/
theorem toNat_leading {M : Nat} (lo : 2 ^ 23 ≤ M) (hi : M < 2 ^ 24) :
    (1#1 ++ BitVec.ofNat 23 M).toNat = M := by
  rw [BitVec.toNat_append, Nat.shiftLeft_eq]
  show 2 ^ 23 ||| M % 2 ^ 23 = M
  rw [Nat.or_comm, Nat.or_two_pow_eq_add_of_lt (Nat.mod_lt M (Nat.two_pow_pos 23))]
  omega

/-- A mantissa of 24 bits and its exponent come back out of the bits of a number. -/
theorem unpack_pack {M : Nat} {E : Int} (lo : 2 ^ 23 ≤ M) (hi : M < 2 ^ 24) (small : -149 ≤ E)
    (large : E ≤ 104) (pos : 0 < M) :
    (Float32.Model.pack (.finite s M E pos)).unpack = .finite s M E pos := by
  have bits : M.log2 = 23 := (Nat.log2_eq_iff (Nat.ne_of_gt pos)).mpr ⟨lo, hi⟩
  have packed : UnpackedFloat.pack Format.binary32 (.finite s M E pos) =
      packComponents Format.binary32 s (BitVec.ofNat 8 (E + 127 + 23).toNat) (BitVec.ofNat 23 M) := by
    show (if 2 ^ 8 ≤ (E + 127 + 23).toNat + 1 then _ else if M.log2 + 1 = 24 then _ else _) = _
    rw [if_neg (by omega), if_pos (by rw [bits])]
    rfl
  have exponent : (BitVec.ofNat 8 (E + 127 + 23).toNat).toNat = (E + 127 + 23).toNat := by
    rw [BitVec.toNat_ofNat]
    exact Nat.mod_eq_of_lt (by omega)
  have top : BitVec.ofNat 8 (E + 127 + 23).toNat ≠ -1#_ := ofNat_ne_top (by omega)
  have bottom : BitVec.ofNat 8 (E + 127 + 23).toNat ≠ 0#8 := by
    intro zero
    rw [zero] at exponent
    have : 0 = (E + 127 + 23).toNat := exponent
    omega
  show UnpackedFloat.unpack Format.binary32 (UnpackedFloat.pack Format.binary32 _) = _
  rw [packed]
  dsimp only [UnpackedFloat.unpack]
  rw [sign_packComponents, unpackExponent_packComponents, if_neg top, if_neg bottom, finite.injEq,
    unpackMantissa_packComponents, toNat_leading lo hi, exponent]
  refine ⟨rfl, rfl, ?_⟩
  show ((E + 127 + 23).toNat : Int) - (127 + 23) = E
  omega

/-- The whole part of a number, by the shifts to the left and to the right that make it up. -/
theorem roundToInt_eq (s : Sign) (M j d : Nat) :
    roundToInt s M (-(d : Int) + (j : Nat)) = s.apply (M * 2 ^ j / 2 ^ d : Nat) := by
  have whole : ∀ (A n : Nat), (ExtendedMantissa.ofMantissaAndAccuracy A .exact >>> n).mantissa =
      A / 2 ^ n := fun A n => (shifted A n).mantissa
  unfold roundToInt decreaseExponent shiftToExponent
  dsimp only
  rw [whole, Nat.shiftLeft_eq]
  congr 2
  by_cases left : d ≤ j
  · rw [show (-(d : Int) + j - 0).toNat = j - d by omega,
      show (0 - (-(d : Int) + j - ((j - d : Nat) : Int))).toNat = 0 by omega, Nat.pow_zero,
      Nat.div_one]
    obtain ⟨i, rfl⟩ := Nat.exists_eq_add_of_le' left
    rw [Nat.add_sub_cancel, Nat.pow_add, ← Nat.mul_assoc, Nat.mul_div_cancel _ (Nat.two_pow_pos d)]
  · rw [show (-(d : Int) + j - 0).toNat = 0 by omega,
      show (0 - (-(d : Int) + j - ((0 : Nat) : Int))).toNat = d - j by omega, Nat.pow_zero,
      Nat.mul_one]
    obtain ⟨i, rfl⟩ := Nat.exists_eq_add_of_le' (Nat.le_of_not_le left)
    rw [Nat.add_sub_cancel, Nat.pow_add, Nat.mul_div_mul_right _ _ (Nat.two_pow_pos j)]

/-- A whole number is rounded to one that is nearest among those with 24 bits. -/
theorem round_nearest (s : Sign) (pos : 0 < m) (fits : m < 2 ^ 32) :
    ∃ M j d hM, UnpackedFloat.round Format.binary32 s m 0 =
      .finite s M (-(d : Nat) + (j : Nat)) hM ∧
      2 ^ 23 ≤ M ∧ M < 2 ^ 24 ∧ d ≤ 23 ∧ j ≤ 9 ∧ Nearest m (m.log2 - 23) (M * 2 ^ j / 2 ^ d) := by
  have nonzero : m ≠ 0 := Nat.ne_of_gt pos
  have bits : m.log2 < 32 := (Nat.log2_lt nonzero).mpr fits
  generalize hd : 23 - m.log2 = d
  generalize hk : m.log2 - 23 = k
  have target : Format.binary32.targetExponent (totalExponent m 0) = (k : Int) - d := by
    rw [targetExponent_eq]
    omega
  have lo : 2 ^ (23 + k) ≤ m * 2 ^ d := by
    rw [show 23 + k = m.log2 + d by omega, Nat.pow_add]
    exact Nat.mul_le_mul_right _ (Nat.log2_self_le nonzero)
  have hi : m * 2 ^ d < 2 ^ (24 + k) := by
    rw [show 24 + k = m.log2 + 1 + d by omega, Nat.pow_add]
    exact Nat.mul_lt_mul_of_pos_right Nat.lt_log2_self (Nat.two_pow_pos d)
  obtain ⟨M, j, hM, rounded, hlo, hhi, shift, nearest⟩ :=
    roundWithAccuracy_nearest (s := s) (e := -(d : Nat)) lo hi (by omega)
  refine ⟨M, j, d, hM, ?_, hlo, hhi, by omega, by omega, ?_⟩
  · rw [← rounded]
    unfold UnpackedFloat.round decreaseExponent
    rw [target]
    dsimp only
    rw [show (0 - ((k : Int) - d)).toNat = d by omega, Nat.shiftLeft_eq, Int.zero_sub]
  · by_cases short : d = 0
    · subst short
      rw [Nat.pow_zero, Nat.div_one]
      rwa [Nat.pow_zero, Nat.mul_one] at nearest
    · -- nothing has been rounded away
      obtain rfl : k = 0 := by omega
      rw [nearest.eq_iff.mpr (Nat.one_dvd _), Nat.mul_div_cancel _ (Nat.two_pow_pos d)]
      exact ⟨Nat.one_dvd _, by omega, by omega⟩

/-- No number of `b` bits is rounded to more than `2 ^ b`. -/
theorem Nearest.le_two_pow {v b : Nat} (h : Nearest m k v) (hm : m ≤ 2 ^ b) (hk : k ≤ b) :
    v ≤ 2 ^ b := by
  obtain ⟨⟨c, rfl⟩, above, -⟩ := h
  have split : 2 ^ b = 2 ^ k * 2 ^ (b - k) := by rw [← Nat.pow_add, Nat.add_sub_of_le hk]
  have pos := Nat.two_pow_pos k
  rw [split]
  refine Nat.mul_le_mul_left _ (Nat.le_of_lt_succ (Nat.lt_of_mul_lt_mul_left (a := 2 ^ k) ?_))
  rw [Nat.mul_succ]
  omega

/-- A whole number as a binary32 number. -/
theorem toInt_ofInt (n : Int) (fits : n.natAbs < 2 ^ 32) (low high : Int) :
    ∃ v, Nearest n.natAbs (n.natAbs.log2 - 23) v ∧
      (Float32.Model.pack (.ofInt Format.binary32 n)).unpack.toInt low high = n.sign * v := by
  have signed : ∀ {m} (s : Sign), 0 < m → m < 2 ^ 32 → ∃ v, Nearest m (m.log2 - 23) v ∧
      (Float32.Model.pack (.round Format.binary32 s m 0)).unpack.toInt low high = s.apply v := by
    intro m s pos fits
    obtain ⟨M, j, d, hM, rounded, lo, hi, hd, hj, nearest⟩ := round_nearest s pos fits
    refine ⟨_, nearest, ?_⟩
    rw [rounded, unpack_pack lo hi (by omega) (by omega)]
    exact roundToInt_eq s M j d
  unfold UnpackedFloat.ofInt UnpackedFloat.normalize
  obtain negative | rfl | positive := lt_trichotomy n 0
  · rw [Int.compare_eq_lt.mpr negative, Int.sign_eq_neg_one_of_neg negative]
    obtain ⟨v, nearest, back⟩ := signed .negative (m := n.natAbs) (by omega) fits
    refine ⟨v, nearest, ?_⟩
    rw [Int.neg_one_mul]
    show (Float32.Model.pack (.round _ _ (-n).toNat 0)).unpack.toInt low high = _
    rwa [show (-n).toNat = n.natAbs by omega]
  · exact ⟨0, ⟨Nat.dvd_zero _, by decide, by decide⟩, rfl⟩
  · rw [Int.compare_eq_gt.mpr positive, Int.sign_eq_one_of_pos positive]
    obtain ⟨v, nearest, back⟩ := signed .positive (m := n.natAbs) (by omega) fits
    refine ⟨v, nearest, ?_⟩
    rw [Int.one_mul]
    show (Float32.Model.pack (.round _ _ n.toNat 0)).unpack.toInt low high = _
    rwa [show n.toNat = n.natAbs by omega]

/-! ### There and back

The way back stops at the greatest number of 32 bits, 2^31 - 1.  This one needs 31 bits,
is rounded up to 2^31 and comes back as itself only because it is the limit.  It is the
sole exception to the rule that a number comes back if 24 bits are enough for it.
-/

/-- The number has 24 bits at most, apart from zeros at its end. -/
def Short (n : Int32) : Prop :=
  ∃ a j : Nat, a < 2 ^ 24 ∧ n.toInt.natAbs = a * 2 ^ j

theorem short_iff_dvd {n : Int32} :
    Short n ↔ 2 ^ (n.toInt.natAbs.log2 - 23) ∣ n.toInt.natAbs := by
  generalize hm : n.toInt.natAbs = m
  constructor
  · rintro ⟨a, j, few, same⟩
    rw [hm] at same
    by_cases zero : m = 0
    · rw [zero]
      exact Nat.dvd_zero _
    · have bits : m.log2 < 24 + j := by
        rw [Nat.log2_lt zero, same, Nat.pow_add]
        exact Nat.mul_lt_mul_of_pos_right few (Nat.two_pow_pos j)
      exact (Nat.pow_dvd_pow 2 (by omega)).trans (same ▸ Nat.dvd_mul_left _ _)
  · intro divides
    refine ⟨m / 2 ^ (m.log2 - 23), m.log2 - 23, ?_, ?_⟩
    · rw [Nat.div_lt_iff_lt_mul (Nat.two_pow_pos _), ← Nat.pow_add]
      exact Nat.lt_log2_self.trans_le (Nat.pow_le_pow_right (by decide) (by omega))
    · rw [hm, Nat.div_mul_cancel divides]

theorem toInt_ofIntClamp_min {x : Int} (low : -2 ^ 31 ≤ x) :
    (Int32.ofIntClamp x).toInt = min x Int32.maxValue.toInt := by
  by_cases high : x ≤ Int32.maxValue.toInt
  · rw [Int32.toInt_ofIntClamp low high, min_eq_left high]
  · have low : Int32.minValue.toInt ≤ x := low
    unfold Int32.ofIntClamp
    rw [dif_pos low, dif_neg high, min_eq_right (Int.le_of_not_le high)]

/-- A number of 32 bits that has become a binary32 number comes back as one that is nearest
among those with 24 bits, or as the greatest number of 32 bits if that is less. -/
theorem toInt_trunc_ofInt32 (n : Int32) :
    ∃ v, Nearest n.toInt.natAbs (n.toInt.natAbs.log2 - 23) v ∧ v ≤ 2 ^ 31 ∧
      (Scalar.trunc (Scalar.ofInt32 n : Float32)).toInt =
        min (n.toInt.sign * v) Int32.maxValue.toInt := by
  have below := n.toInt_lt
  have above := n.le_toInt
  have size : n.toInt.natAbs ≤ 2 ^ 31 := by omega
  have bits : n.toInt.natAbs.log2 - 23 ≤ 31 := by
    by_cases zero : n.toInt.natAbs = 0
    · rw [zero]
      decide
    · have := (Nat.log2_lt (k := 32) zero).mpr (by omega)
      omega
  obtain ⟨v, nearest, back⟩ := toInt_ofInt n.toInt (by omega) Int32.minValue.toInt
    Int32.maxValue.toInt
  have small := nearest.le_two_pow size bits
  refine ⟨v, nearest, small, ?_⟩
  show (Int32.ofIntClamp ((Float32.Model.pack (.ofInt Format.binary32 n.toInt)).unpack.toInt
    Int32.minValue.toInt Int32.maxValue.toInt)).toInt = _
  rw [back]
  apply toInt_ofIntClamp_min
  obtain sign | sign | sign := n.toInt.sign_trichotomy <;> rw [sign] <;> omega

/-- Just the numbers with 24 bits come back as they were, and the greatest number of 32 bits. -/
theorem trunc_ofInt32_eq_iff (n : Int32) :
    Scalar.trunc (Scalar.ofInt32 n : Float32) = n ↔ Short n ∨ n = Int32.maxValue := by
  have below := n.toInt_lt
  obtain ⟨v, nearest, small, back⟩ := toInt_trunc_ofInt32 n
  have same_iff : v = n.toInt.natAbs ↔ Short n := nearest.eq_iff.trans short_iff_dvd.symm
  have top : Int32.maxValue.toInt = 2 ^ 31 - 1 := rfl
  rw [← Int32.toInt_inj, ← Int32.toInt_inj, back, ← same_iff, top]
  obtain negative | zero | positive := lt_trichotomy n.toInt 0
  · rw [Int.sign_eq_neg_one_of_neg negative]
    omega
  · have above := nearest.above
    rw [zero] at above
    change 2 * v ≤ 2 * 0 + 2 ^ 0 at above
    obtain rfl : v = 0 := by omega
    rw [Int.natCast_zero, Int.mul_zero]
    omega
  · rw [Int.sign_eq_one_of_pos positive]
    have rounded_up : n.toInt = 2 ^ 31 - 1 → 2 ^ 31 - 1 ≤ v := by
      intro greatest
      rw [greatest] at nearest
      obtain ⟨⟨c, rfl⟩, -, near⟩ := nearest
      change 2 * (2 ^ 31 - 1) ≤ 2 * (2 ^ 7 * c) + 2 ^ 7 at near
      change 2 ^ 31 - 1 ≤ 2 ^ 7 * c
      omega
    omega

end Barrage.Single
