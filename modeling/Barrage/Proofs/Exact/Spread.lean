/-
The geometry of a volley, with exact numbers.

All the formulas come down to an arithmetic progression: `n` numbers from the first one on,
a gap apart.  They take up `n - 1` gaps.  Across a partial arc these make up the arc, so
both ends of it have a bullet; around the full circle one gap more makes up the circle, and
so the last bullet is a gap away from the first as well.  In either case two of the bullets
are less than a whole turn apart, which is why no two fly in the same direction.

Mirroring turns the order of a partial arc round.  Around the circle the first bullet has
no partner on the other end and is its own.
-/
import Mathlib.Data.List.Chain
import Mathlib.Data.List.Range
import Barrage.Proofs.Exact.Arithmetic
import Barrage.Proofs.Shot.Volley

namespace Barrage.Spread

open Exact

variable {K : Type} [Field K] [LinearOrder K] [FloorRing K] [Functions K] {count : Int32} {n : ℕ}
  {first gap s arc : K}

/-! ### Lists of numbers

Headings are angles, so they are the same when they differ by whole turns, and that is
what `Apart` and `MirroredRound` compare.  The gaps and the mirroring of a partial arc
are about the numbers themselves.
-/

/-- The numbers begin with the first, and each is `gap` above the one before. -/
structure Spaced (first gap : K) (l : List K) : Prop where
  head : l.head? = some first
  gaps : l.IsChain fun a b => b - a = gap

/-- No two of the headings are the same. -/
def Apart (l : List K) : Prop :=
  l.Pairwise fun a b => ¬ a ≡ b [PMOD 360]

/-- The numbers are mirrored at `s` when their order is turned round. -/
def Mirrored (s : K) (l : List K) : Prop :=
  ∀ i (_ : i < l.length), l[i] + l[l.length - 1 - i] = 2 * s

/-- Mirrored at `s`, the headings are the same ones, in whatever order. -/
structure MirroredRound (s : K) (l : List K) : Prop where
  into : ∀ a ∈ l, ∃ b ∈ l, 2 * s - a ≡ b [PMOD 360]
  onto : ∀ b ∈ l, ∃ a ∈ l, 2 * s - a ≡ b [PMOD 360]

/-! ### Arithmetic progressions

`evenly` counts in machine integers and casts each of them.  Below 2^31 the cast is that
of the natural number, and from `evenly_eq` on no machine integer is left.
-/

theorem ofInt32_ofNat {i : ℕ} (small : i < 2 ^ 31) :
    (Scalar.ofInt32 (Int32.ofNat i) : K) = i := by
  show ((Int32.ofNat i).toInt : K) = i
  rw [Int32.toInt_ofNat_of_lt small]
  exact Int.cast_natCast i

theorem evenly_eq (hcount : count.toInt = n) (first gap : K) :
    evenly count first gap = (List.range n).map fun i : ℕ => first + gap * (i : K) := by
  have small := count.toInt_lt
  have length : count.toNatClampNeg = n := by
    rw [Int32.toNatClampNeg, hcount]
    exact Int.toNat_natCast n
  rw [evenly, length]
  apply List.map_congr_left
  intro i hi
  have hi := List.mem_range.mp hi
  rw [ofInt32_ofNat (by omega)]

theorem evenly_length (hcount : count.toInt = n) (first gap : K) :
    (evenly count first gap).length = n := by
  rw [evenly_eq hcount, List.length_map, List.length_range]

theorem getElem_evenly (hcount : count.toInt = n) {i : ℕ}
    (h : i < (evenly count first gap).length) :
    (evenly count first gap)[i] = first + gap * (i : K) := by
  simp [evenly_eq hcount]

theorem mem_evenly (hcount : count.toInt = n) {a : K} :
    a ∈ evenly count first gap ↔ ∃ i < n, a = first + gap * (i : K) := by
  simp [evenly_eq hcount, eq_comm]

theorem spaced_evenly (hcount : count.toInt = n) (some : 1 ≤ n) (first gap : K) :
    Spaced first gap (evenly count first gap) := by
  rw [evenly_eq hcount]
  constructor
  · rw [List.head?_map, List.head?_range, if_neg (by omega)]
    simp
  · rw [List.isChain_map, List.isChain_range]
    intro i _
    push_cast
    ring

theorem evenly_getLast? (hcount : count.toInt = n) (several : 1 ≤ n) (first gap : K) :
    (evenly count first gap).getLast? = some (first + gap * ((n : K) - 1)) := by
  rw [evenly_eq hcount, List.getLast?_map, List.getLast?_range, if_neg (by omega)]
  simp [Nat.cast_sub several]

/-- Numbers are mirrored in the middle between the first and the last. -/
theorem mirrored_evenly (hcount : count.toInt = n)
    (middle : 2 * first + gap * ((n : K) - 1) = 2 * s) : Mirrored s (evenly count first gap) := by
  intro i hi
  have length := evenly_length hcount first gap
  rw [getElem_evenly hcount, getElem_evenly hcount, ← middle, length]
  have hi : i + 1 ≤ n := by omega
  have partner : ((n - 1 - i : ℕ) : K) = n - 1 - i := by
    rw [show n - 1 - i = n - (i + 1) by omega, Nat.cast_sub hi]
    push_cast
    ring
  rw [partner]
  ring

/-- Around the circle every heading but the first has its partner one place further on than it
would have on a partial arc. -/
theorem mirroredRound_evenly (hcount : count.toInt = n)
    (middle : 2 * first + gap * (n : K) = 2 * s) (round : 2 * s - first ≡ first [PMOD 360]) :
    MirroredRound s (evenly count first gap) := by
  have partner : ∀ a ∈ evenly count first gap, ∃ b ∈ evenly count first gap,
      2 * s - a ≡ b [PMOD 360] := by
    intro a ha
    obtain ⟨i, hi, rfl⟩ := (mem_evenly hcount).mp ha
    by_cases start : i = 0
    · subst start
      refine ⟨_, ha, ?_⟩
      simpa using round
    · refine ⟨first + gap * ((n - i : ℕ) : K), (mem_evenly hcount).mpr ⟨_, by omega, rfl⟩, ?_⟩
      have mirror : 2 * s - (first + gap * (i : K)) = first + gap * ((n : K) - i) := by
        rw [← middle]
        ring
      rw [Nat.cast_sub hi.le, mirror]
  refine ⟨partner, ?_⟩
  -- mirrored twice, a heading is where it was
  intro b hb
  obtain ⟨a, ha, same⟩ := partner b hb
  refine ⟨a, ha, ?_⟩
  have back := same.symm.sub_left (2 * s)
  rwa [sub_sub_cancel] at back

/-! ### Gaps

Whether an arc is the full circle is a test with a tolerance.  Partial arcs are those
that fail it, and a full circle is taken to be one of 360 degrees exactly, so the few
arcs that are near 360 without being it are in neither statement.
-/

/-- The arc does not count as the full circle. -/
def Partial (arc : K) : Prop :=
  fullCircleEpsilon < |(|arc| - 360)|

theorem isFullCircle_of_partial (h : Partial arc) : isFullCircle arc = false := by
  have turn : (360.0 : K) = 360 := by norm_num
  rw [isFullCircle, decide_eq_false_iff_not, not_le, turn]
  exact h

theorem ofInt32_eq (hcount : count.toInt = n) : (Scalar.ofInt32 count : K) = n := by
  show (count.toInt : K) = n
  rw [hcount, Int.cast_natCast]

theorem ofInt32_sub_one (hcount : count.toInt = n) (several : 2 ≤ n) :
    (Scalar.ofInt32 (count - 1) : K) = n - 1 := by
  have small := count.toInt_lt
  have before : (count - 1).toInt = (n : ℤ) - 1 := by
    rw [Int32.toInt_sub, hcount, Int32.toInt_one]
    exact Int.bmod_eq_of_le (by omega) (by omega)
  show ((count - 1).toInt : K) = n - 1
  rw [before, Int.cast_sub, Int.cast_natCast, Int.cast_one]

theorem step_of_several (hcount : count.toInt = n) (several : 2 ≤ n) (arc : K) :
    step count arc = if isFullCircle arc then arc / n else arc / (n - 1) := by
  have some : ¬ count ≤ 1 := by
    rw [Int32.le_iff_toInt_le, hcount, Int32.toInt_one]
    omega
  rw [step, if_neg some, ofInt32_eq hcount, ofInt32_sub_one hcount several]

/-! ### Several bullets

With two bullets or more no formula has a special case left, and each is a progression:
from one end of the arc, from half an arc before the middle, or from the first speed.
-/

section Several

variable (hcount : count.toInt = n) (several : 2 ≤ n)

include hcount several

theorem angles_of_partial (h : Partial arc) (s : K) :
    angles count s arc = evenly count s (arc / (n - 1)) := by
  rw [angles, step_of_several hcount several, isFullCircle_of_partial h]
  rfl

theorem centeredAngles_of_several (s arc : K) :
    centeredAngles count s arc = angles count (s - arc / 2) arc := by
  have more : count ≠ 1 := by
    rintro rfl
    have : (1 : ℤ) = n := hcount
    omega
  have half : (2.0 : K) = 2 := by norm_num
  rw [centeredAngles, if_neg more, half]

theorem fanSpeeds_of_several (low high : K) :
    fanSpeeds count low high = evenly count low ((high - low) / (n - 1)) := by
  have some : ¬ count ≤ 0 := by
    rw [Int32.le_iff_toInt_le, hcount, Int32.toInt_zero]
    omega
  have more : count ≠ 1 := by
    rintro rfl
    have : (1 : ℤ) = n := hcount
    omega
  rw [fanSpeeds, if_neg some, if_neg more, ofInt32_sub_one hcount several]

end Several

variable [IsStrictOrderedRing K]

theorem isFullCircle_of_eq (h : |arc| = 360) : isFullCircle arc = true := by
  rw [isFullCircle, decide_eq_true_iff]
  show |(|arc| - 360.0)| ≤ (1e-3 : K)
  rw [h]
  norm_num

theorem angles_of_round (hcount : count.toInt = n) (several : 2 ≤ n) (h : |arc| = 360) (s : K) :
    angles count s arc = evenly count s (arc / n) := by
  rw [angles, step_of_several hcount several, isFullCircle_of_eq h, if_pos rfl]

theorem gaps_pos (several : 2 ≤ n) : (0 : K) < n ∧ (0 : K) < n - 1 := by
  have : ((2 : ℕ) : K) ≤ n := Nat.cast_le.mpr several
  push_cast at this
  constructor <;> linarith

/-- Two of the headings are at most `n - 1` gaps apart, and that is less than a whole turn. -/
theorem apart_evenly (hcount : count.toInt = n) (moves : gap ≠ 0)
    (within : |gap| * ((n : K) - 1) < 360) : Apart (evenly count first gap) := by
  rw [Apart, evenly_eq hcount, List.pairwise_map]
  refine List.pairwise_lt_range.imp_of_mem ?_
  intro i j _ hj before same
  have between : first + gap * (j : K) - (first + gap * (i : K)) = gap * ((j : K) - i) := by ring
  have later : (i : K) < j := Nat.cast_lt.mpr before
  have last : (j : K) ≤ n - 1 := by
    have : ((j + 1 : ℕ) : K) ≤ n := Nat.cast_le.mpr (List.mem_range.mp hj)
    push_cast at this
    linarith
  have near : |first + gap * (j : K) - (first + gap * (i : K))| < 360 := by
    rw [between, abs_mul, abs_of_pos (sub_pos.mpr later)]
    refine lt_of_le_of_lt (mul_le_mul_of_nonneg_left ?_ (abs_nonneg gap)) within
    have : (0 : K) ≤ i := Nat.cast_nonneg i
    linarith
  have none : gap * ((j : K) - i) = 0 := by
    rw [← between, eq_of_modEq same near, sub_self]
  rcases mul_eq_zero.mp none with zero | zero
  · exact moves zero
  · linarith

/-! ### Volleys

The two cases of an arc are two sets of fields, each under its condition.  The number of
bullets stands outside of both.
-/

/-- What the angles of a volley of several bullets are like, across an arc from `s` on. -/
structure Fans (count : Int32) (s arc : K) : Prop where
  length : (angles count s arc).length = count.toNatClampNeg
  spaced : Spaced s (step count arc) (angles count s arc)
  /-- A partial arc has a bullet on its other end. -/
  ends : Partial arc → (angles count s arc).getLast? = some (s + arc)
  apart : Partial arc → 0 < |arc| → |arc| < 360 → Apart (angles count s arc)
  /-- Around the full circle there is one gap more, between the last bullet and the first. -/
  roundGap : |arc| = 360 → step count arc = arc / (count.toInt : K)
  roundApart : |arc| = 360 → Apart (angles count s arc)
  closes : |arc| = 360 → ∃ last, (angles count s arc).getLast? = some last ∧
    s + arc - last = step count arc

/-- What they are like with `s` in the middle. -/
structure Centers (count : Int32) (s arc : K) : Prop where
  length : (centeredAngles count s arc).length = count.toNatClampNeg
  mirrored : Partial arc → Mirrored s (centeredAngles count s arc)
  mirroredRound : |arc| = 360 → MirroredRound s (centeredAngles count s arc)

/-- What the speeds of several bullets are like, from `low` to `high`. -/
structure Climbs (count : Int32) (low high : K) : Prop where
  length : (fanSpeeds count low high).length = count.toNatClampNeg
  spaced : ∃ gap, Spaced low gap (fanSpeeds count low high)
  ends : (fanSpeeds count low high).getLast? = some high

section Several

variable (hcount : count.toInt = n) (several : 2 ≤ n)

include hcount several

theorem fans (s arc : K) : Fans count s arc := by
  obtain ⟨pos, gaps⟩ := gaps_pos (K := K) several
  have one : 1 ≤ n := by omega
  refine ⟨angles_length count s arc, spaced_evenly hcount one _ _, ?_, ?_, ?_, ?_, ?_⟩
  · intro part
    rw [angles_of_partial hcount several part, evenly_getLast? hcount one,
      div_mul_cancel₀ _ gaps.ne']
  · intro part some less
    rw [angles_of_partial hcount several part]
    refine apart_evenly hcount (div_ne_zero (abs_pos.mp some) gaps.ne') ?_
    rwa [abs_div, abs_of_pos gaps, div_mul_cancel₀ _ gaps.ne']
  · intro round
    rw [step_of_several hcount several, isFullCircle_of_eq round, if_pos rfl, hcount,
      Int.cast_natCast]
  · intro round
    have turns : arc ≠ 0 := by
      rintro rfl
      norm_num at round
    rw [angles_of_round hcount several round]
    refine apart_evenly hcount (div_ne_zero turns pos.ne') ?_
    -- all the gaps but one are less than the circle
    have gap : 0 < |arc / (n : K)| := abs_pos.mpr (div_ne_zero turns pos.ne')
    have all : |arc / (n : K)| * n = 360 := by
      rw [abs_div, abs_of_pos pos, div_mul_cancel₀ _ pos.ne', round]
    linarith
  · intro round
    refine ⟨_, evenly_getLast? hcount one _ _, ?_⟩
    rw [step_of_several hcount several, isFullCircle_of_eq round, if_pos rfl]
    have all : arc / (n : K) * n = arc := div_mul_cancel₀ _ pos.ne'
    linarith

theorem centers (s arc : K) : Centers count s arc := by
  obtain ⟨pos, gaps⟩ := gaps_pos (K := K) several
  refine ⟨centeredAngles_length count s arc, ?_, ?_⟩
  · intro part
    rw [centeredAngles_of_several hcount several, angles_of_partial hcount several part]
    refine mirrored_evenly hcount ?_
    rw [div_mul_cancel₀ _ gaps.ne']
    ring
  · intro round
    rw [centeredAngles_of_several hcount several, angles_of_round hcount several round]
    refine mirroredRound_evenly hcount ?_ ?_
    · rw [div_mul_cancel₀ _ pos.ne']
      ring
    · have around : 2 * s - (s - arc / 2) = s - arc / 2 + arc := by ring
      rw [around, AddCommGroup.add_modEq_left]
      rcases eq_or_eq_neg_of_abs_eq round with rfl | rfl
      · exact AddCommGroup.self_modEq_zero
      · exact AddCommGroup.modEq_neg.mp AddCommGroup.self_modEq_zero

theorem climbs (low high : K) : Climbs count low high := by
  obtain ⟨-, gaps⟩ := gaps_pos (K := K) several
  have one : 1 ≤ n := by omega
  have speeds := fanSpeeds_of_several hcount several low high
  refine ⟨fanSpeeds_length count low high, ⟨(high - low) / (n - 1), ?_⟩, ?_⟩
  · rw [speeds]
    exact spaced_evenly hcount one _ _
  · rw [speeds, evenly_getLast? hcount one, div_mul_cancel₀ _ gaps.ne', add_sub_cancel]

end Several

/--
**Volleys are laid out evenly.**  Several angles from `s` on are as many as were asked for,
all the same gap apart.  Across a partial arc the last one is its other end, and no two are
the same heading if the arc is neither nothing nor as much as a whole turn.  Around the
full circle the gap is the arc over the count, no two are the same heading, and the last one
is a gap away from the first.  Centered angles are as many, mirrored at the center, and
speeds go evenly from the first to the last.  A single bullet has what it was asked for, and
no bullets, or fewer, are no angles and no speeds.
-/
theorem volley_geometry (count : Int32) (s arc low high : K) :
    (2 ≤ count → Fans count s arc ∧ Centers count s arc ∧ Climbs count low high) ∧
    (count = 1 → angles count s arc = [s] ∧ centeredAngles count s arc = [s] ∧
      fanSpeeds count low high = [low]) ∧
    (count ≤ 0 → angles count s arc = [] ∧ centeredAngles count s arc = [] ∧
      fanSpeeds count low high = []) := by
  refine ⟨?_, ?_, ?_⟩
  · intro several
    have several := Int32.le_iff_toInt_le.mp several
    obtain ⟨n, hcount⟩ := Int.eq_ofNat_of_zero_le ((by decide : (0 : ℤ) ≤ 2).trans several)
    rw [hcount] at several
    have several : 2 ≤ n := Int.ofNat_le.mp several
    exact ⟨fans hcount several s arc, centers hcount several s arc, climbs hcount several low high⟩
  · rintro rfl
    have one : (1 : Int32).toInt = (1 : ℕ) := rfl
    have single : angles 1 s arc = [s] := by
      rw [angles, evenly_eq one]
      simp
    exact ⟨single, rfl, rfl⟩
  · intro none
    have nobody : count.toNatClampNeg = 0 := by
      have := Int32.le_iff_toInt_le.mp none
      rw [Int32.toInt_zero] at this
      rw [Int32.toNatClampNeg]
      omega
    have other : count ≠ 1 := by
      rintro rfl
      exact absurd none (by decide)
    have nothing : ∀ s : K, angles count s arc = [] := by
      intro s
      rw [angles, evenly, nobody]
      rfl
    refine ⟨nothing s, ?_, if_pos none⟩
    rw [centeredAngles, if_neg other]
    exact nothing _

/-- Four bullets once around, the other way round, and three across an arc of 60 degrees. -/
theorem volley_geometry_wheel :
    (Apart (angles 4 (90 : ℝ) (-360)) ∧ (angles 4 (90 : ℝ) (-360)).getLast? = some (-180) ∧
      MirroredRound 90 (centeredAngles 4 (90 : ℝ) (-360)) ∧
      (centeredAngles 4 (90 : ℝ) (-360)).length = 4) ∧
    Apart (angles 3 (60 : ℝ) 60) ∧ (angles 3 (60 : ℝ) 60).getLast? = some 120 ∧
      Mirrored 90 (centeredAngles 3 (90 : ℝ) 60) ∧
    angles 1 (60 : ℝ) 60 = [60] ∧ centeredAngles (-2) (60 : ℝ) 60 = [] := by
  have wheel := (volley_geometry 4 (90 : ℝ) (-360) 0 0).1 (by decide)
  have fan := (volley_geometry 3 (60 : ℝ) 60 0 0).1 (by decide)
  have middle := (volley_geometry 3 (90 : ℝ) 60 0 0).1 (by decide)
  have round : |(-360 : ℝ)| = 360 := by norm_num
  have part : Partial (60 : ℝ) := by
    show (1e-3 : ℝ) < |(|60| - 360)|
    norm_num
  refine ⟨⟨wheel.1.roundApart round, ?_, wheel.2.1.mirroredRound round, wheel.2.1.length⟩,
    fan.1.apart part (by norm_num) (by norm_num), ?_, middle.2.1.mirrored part,
    ((volley_geometry 1 (60 : ℝ) 60 0 0).2.1 rfl).1,
    ((volley_geometry (-2) (60 : ℝ) 60 0 0).2.2 (by decide)).2.1⟩
  · obtain ⟨last, hlast, gap⟩ := wheel.1.closes round
    rw [wheel.1.roundGap round, show (4 : Int32).toInt = 4 from rfl] at gap
    rw [hlast, show last = -180 by push_cast at gap; linarith]
  · rw [fan.1.ends part]
    norm_num

end Barrage.Spread
