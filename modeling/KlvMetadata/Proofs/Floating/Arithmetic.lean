import KlvMetadata.Proofs.Floating.Words

/-!
# Arithmetic in Terms of Values

What the operations on eight-byte numbers do to the values the words stand for. Each is
exact arithmetic followed by one rounding, and so is its lemma: from the values of the
operands to the rounded value of the result. Only a result too great for a word needs a
condition, and it is a condition on the exact result.

Rounding to a whole number is an operation that rounds nothing else: the whole numbers
next to a number with few bits have no more of them.

## Main definitions

* `Binary64.StandsFor`, from the theory of words, is what all lemmas are about.

## Theorems

* `Binary64.StandsFor.add`, `sub`, `mul`, `div`, `neg`, `abs`: Arithmetic.
* `Binary64.StandsFor.floor`, `Binary64.StandsFor.round`: Whole numbers.
* `Binary64.StandsFor.toUInt64_eq`, `Binary64.StandsFor.toInt64_eq`: Conversions of whole
  numbers that are in the range of the integers.
* `Binary64.standsFor_ofInt`, `Binary64.standsFor_exp2`: Numbers that are found exactly.
-/

namespace KlvMetadata

open Precision

theorem abs_nearestAway_sub_le (q : ℚ) : |(Binary64.nearestAway q : ℚ) - q| ≤ 1 / 2 := by
  have hbelow := Rat.floor_le (q + 1 / 2)
  have habove := Rat.lt_floor_add_one (q + 1 / 2)
  have hbelow' := Rat.floor_le (-q + 1 / 2)
  have habove' := Rat.lt_floor_add_one (-q + 1 / 2)
  push_cast at habove habove'
  rw [Binary64.nearestAway, abs_le]
  split
  · push_cast
    constructor <;> linarith
  · constructor <;> linarith

theorem nearestAway_eq {q : ℚ} {n : Int} (h : |q - n| < 1 / 2) : Binary64.nearestAway q = n := by
  have hclose := abs_le.mp (abs_nearestAway_sub_le q)
  have hnear := abs_lt.mp h
  have hlow : (n : ℚ) - 1 < Binary64.nearestAway q := by linarith [hclose.1, hnear.1]
  have hhigh : (Binary64.nearestAway q : ℚ) < n + 1 := by linarith [hclose.2, hnear.2]
  have hlow' : n - 1 < Binary64.nearestAway q := by exact_mod_cast hlow
  have hhigh' : Binary64.nearestAway q < n + 1 := by exact_mod_cast hhigh
  omega

theorem truncate_intCast (n : Int) : Binary64.truncate n = n := by
  rw [Binary64.truncate]
  split
  · rw [← Int.cast_neg, Rat.floor_intCast, neg_neg]
  · exact Rat.floor_intCast n

namespace Precision

/-- A whole number of at most as many bits as a significand has. -/
theorem representable_intCast {n : Int} (h : |n| ≤ 2 ^ 53) : double.Representable n :=
  ⟨n, 0, by decide, h, by rw [zpow_zero, mul_one]⟩

theorem abs_intCast_lt {n : Int} (h : |n| ≤ 2 ^ 53) : |(n : ℚ)| < 2 ^ (1023 : Int) := by
  rw [← Int.cast_abs]
  calc ((|n| : Int) : ℚ) ≤ ((2 ^ 53 : Int) : ℚ) := by exact_mod_cast h
    _ = 2 ^ (53 : Int) := by norm_num
    _ < 2 ^ (1023 : Int) := zpow_lt_iff.mpr (by decide)

/-- What can be counted in a significand is far from being too great. -/
theorem abs_le_of_countable {q : ℚ} (h : |q| ≤ 2 ^ 54) : |q| ≤ 2 ^ (1022 : Int) := by
  refine le_trans h ?_
  rw [← zpow_natCast]
  exact zpow_le_iff.mpr (by decide)

theorem abs_lt_of_countable {q : ℚ} (h : |q| ≤ 2 ^ 54) : |q| < 2 ^ (1023 : Int) :=
  lt_of_le_of_lt (abs_le_of_countable h) (zpow_lt_iff.mpr (by decide))

theorem representable_zpow {k : Int} (h : -1074 ≤ k) : double.Representable (2 ^ k) :=
  ⟨1, k, h, by decide, by rw [Int.cast_one, one_mul]⟩

/-- The whole numbers next to a number are as good as the number: either it is whole, or it
    has a bit to spare. -/
theorem Representable.whole_near {q : ℚ} {n : Int} (hq : double.Representable q)
    (h : |(n : ℚ) - q| < 1) : double.Representable n := by
  rcases hq with ⟨m, k, hk, hm, rfl⟩
  rcases Int.lt_or_le k 0 with hneg | hnonneg
  · -- Half of the greatest significand bounds the number.
    have hhalf : |(m : ℚ) * 2 ^ k| ≤ 2 ^ 52 := by
      rw [abs_mul, abs_of_pos (by positivity : (0 : ℚ) < 2 ^ k), ← Int.cast_abs]
      calc ((|m| : Int) : ℚ) * 2 ^ k
          ≤ ((2 ^ 53 : Int) : ℚ) * 2 ^ (-1 : Int) :=
            mul_le_mul (by exact_mod_cast hm) (zpow_le_iff.mpr (by omega)) (by positivity)
              (by norm_num)
        _ = 2 ^ 52 := by norm_num
    have hbound : |(n : ℚ)| < 2 ^ 53 := by
      rw [abs_lt] at h ⊢
      rw [abs_le] at hhalf
      constructor <;> linarith [h.1, h.2, hhalf.1, hhalf.2]
    rw [← Int.cast_abs] at hbound
    have hbound' : |n| < 2 ^ 53 := by exact_mod_cast hbound
    exact representable_intCast hbound'.le
  · -- The number is whole, and it is the only whole number this close.
    have hwhole : (m : ℚ) * 2 ^ k = (m * 2 ^ k.toNat : Int) := by
      push_cast
      rw [← zpow_natCast, Int.toNat_of_nonneg hnonneg]
    have heq : n = m * 2 ^ k.toNat := by
      rw [hwhole, ← Int.cast_sub, ← Int.cast_abs] at h
      have hlt : |n - m * 2 ^ k.toNat| < 1 := by exact_mod_cast h
      linarith [Int.abs_lt_one_iff.mp hlt]
    rw [heq, ← hwhole]
    exact ⟨m, k, hk, hm, rfl⟩

end Precision

namespace Binary64

variable {x y : Binary64} {a b : ℚ}

theorem onNumbers_eq (hx : x.isNaN = false) (hy : y.isNaN = false) (z : Binary64) :
    onNumbers x y z = z := by
  rw [onNumbers, hx, hy, if_neg Bool.false_ne_true, if_neg Bool.false_ne_true]

theorem word_neg (x : Binary64) : (-x).word = x.word ^^^ 2 ^ 63 := UInt64.toNat_xor _ _

theorem magnitude_neg (x : Binary64) : (-x).magnitude = x.magnitude := by
  rw [magnitude, magnitude, Precision.magnitude, Precision.magnitude, signWeight_double, word_neg,
    Nat.xor_mod_two_pow, Nat.mod_self, Nat.xor_zero]

theorem isNegative_neg (x : Binary64) : (-x).isNegative = !x.isNegative := by
  have hdiv : (-x).word / 2 ^ 63 = x.word / 2 ^ 63 ^^^ 1 := by
    rw [word_neg, Nat.xor_div_two_pow, Nat.div_self (by decide)]
  have hx := x.word_lt
  rw [Bool.eq_iff_iff, Bool.not_eq_true', Bool.eq_false_iff, ne_eq, isNegative_iff, isNegative_iff]
  rcases (show x.word / 2 ^ 63 = 0 ∨ x.word / 2 ^ 63 = 1 by omega) with hzero | hone
  · rw [hzero, Nat.zero_xor] at hdiv
    omega
  · rw [hone, Nat.xor_self] at hdiv
    omega

theorem standsFor_ofInt {n : Int} (h : |n| ≤ 2 ^ 53) : (ofInt n).StandsFor n :=
  standsFor_ofRat_of_representable false (representable_intCast h) (abs_intCast_lt h)

theorem standsFor_exp2 {n : Int} (hlow : -1022 ≤ n) (hhigh : n ≤ 1022) :
    (exp2 n).StandsFor (2 ^ n) := by
  rw [exp2, if_neg (by omega), if_neg (by omega)]
  refine standsFor_ofRat_of_representable false (representable_zpow (by omega)) ?_
  rw [abs_of_pos (by positivity)]
  exact zpow_lt_iff.mpr (by omega)

theorem standsFor_zero : zero.StandsFor 0 := by
  have hstands := standsFor_ofInt (n := 0) (by decide)
  rwa [Int.cast_zero] at hstands

theorem standsFor_two : two.StandsFor 2 := standsFor_ofInt (n := 2) (by decide)

namespace StandsFor

theorem add (hx : x.StandsFor a) (hy : y.StandsFor b) (h : |a + b| < 2 ^ (1023 : Int)) :
    (x + y).StandsFor (double.rounded (a + b)) := by
  have heq : x + y = ofRat (a + b) (x.isNegative && y.isNegative) := by
    rw [← hx.toRat_eq, ← hy.toRat_eq]
    refine (onNumbers_eq hx.isNaN_eq hy.isNaN_eq _).trans ?_
    rw [hx.isInfinite_eq, hy.isInfinite_eq, if_neg Bool.false_ne_true, if_neg Bool.false_ne_true]
  rw [heq]
  exact standsFor_ofRat _ h

theorem neg (hx : x.StandsFor a) : (-x).StandsFor (-a) := by
  refine ⟨?_, ?_⟩
  · rw [Binary64.isFinite, magnitude_neg]
    exact hx.isFinite
  · rw [← hx.toRat_eq, Binary64.toRat_eq, Binary64.toRat_eq, magnitude_neg, isNegative_neg]
    cases x.isNegative
    · rfl
    · exact (neg_neg _).symm

theorem sub (hx : x.StandsFor a) (hy : y.StandsFor b) (h : |a - b| < 2 ^ (1023 : Int)) :
    (x - y).StandsFor (double.rounded (a - b)) := by
  have heq : x - y = x + -y := onNumbers_eq hx.isNaN_eq hy.isNaN_eq _
  rw [sub_eq_add_neg] at h ⊢
  rw [heq]
  exact hx.add hy.neg h

theorem mul (hx : x.StandsFor a) (hy : y.StandsFor b) (h : |a * b| < 2 ^ (1023 : Int)) :
    (x * y).StandsFor (double.rounded (a * b)) := by
  have heq : x * y = ofRat (a * b) (x.isNegative != y.isNegative) := by
    rw [← hx.toRat_eq, ← hy.toRat_eq]
    refine (onNumbers_eq hx.isNaN_eq hy.isNaN_eq _).trans ?_
    rw [hx.isInfinite_eq, hy.isInfinite_eq, Bool.or_self, if_neg Bool.false_ne_true]
  rw [heq]
  exact standsFor_ofRat _ h

theorem div (hx : x.StandsFor a) (hy : y.StandsFor b) (hb : b ≠ 0)
    (h : |a / b| < 2 ^ (1023 : Int)) : (x / y).StandsFor (double.rounded (a / b)) := by
  have hzero : y.isZero = false := Bool.eq_false_iff.mpr (mt hy.isZero_iff.mp hb)
  have heq : x / y = ofRat (a / b) (x.isNegative != y.isNegative) := by
    rw [← hx.toRat_eq, ← hy.toRat_eq]
    refine (onNumbers_eq hx.isNaN_eq hy.isNaN_eq _).trans ?_
    rw [hx.isInfinite_eq, hy.isInfinite_eq, hzero, if_neg Bool.false_ne_true,
      if_neg Bool.false_ne_true, if_neg Bool.false_ne_true]
  rw [heq]
  exact standsFor_ofRat _ h

theorem abs (hx : x.StandsFor a) : x.abs.StandsFor |a| := by
  have hroom : x.magnitude < double.infinity := of_decide_eq_true hx.isFinite
  have hstands := standsFor_ofMagnitude false hroom
  have hvalue : |a| = double.magnitudeValue x.magnitude := by
    rw [← hx.toRat_eq, Binary64.toRat_eq]
    split
    · rw [abs_neg, abs_of_nonneg (magnitudeValue_nonneg _)]
    · rw [abs_of_nonneg (magnitudeValue_nonneg _)]
  rwa [if_neg Bool.false_ne_true, if_neg Bool.false_ne_true, Nat.zero_add, ← hvalue] at hstands

theorem mapWhole {rule : ℚ → Int} (hx : x.StandsFor a) (hrule : |(rule a : ℚ) - a| < 1)
    (h : |a| ≤ 2 ^ (1022 : Int)) : (x.mapWhole rule).StandsFor (rule a) := by
  rw [Binary64.mapWhole, hx.isNaN_eq, hx.isInfinite_eq, if_neg Bool.false_ne_true,
    if_neg Bool.false_ne_true, hx.toRat_eq]
  refine standsFor_ofRat_of_representable _ (hx.representable.whole_near hrule) ?_
  have hone : (1 : ℚ) < 2 ^ (1022 : Int) := one_lt_zpow₀ one_lt_two (by decide)
  rw [show (1023 : Int) = 1022 + 1 from rfl, zpow_add_one₀ two_ne_zero]
  generalize (2 : ℚ) ^ (1022 : Int) = B at h hone ⊢
  rw [abs_lt] at hrule ⊢
  rw [abs_le] at h
  constructor <;> linarith [hrule.1, hrule.2, h.1, h.2]

theorem floor (hx : x.StandsFor a) (h : |a| ≤ 2 ^ (1022 : Int)) :
    x.floor.StandsFor (a.floor : ℚ) := by
  refine hx.mapWhole ?_ h
  have hbelow := Rat.floor_le a
  have habove := Rat.lt_floor_add_one a
  push_cast at habove
  rw [abs_lt]
  constructor <;> linarith

theorem round (hx : x.StandsFor a) (h : |a| ≤ 2 ^ (1022 : Int)) :
    x.round.StandsFor (nearestAway a : ℚ) :=
  hx.mapWhole (lt_of_le_of_lt (abs_nearestAway_sub_le a) (by norm_num)) h

theorem clampWhole_eq {n : Int} (hx : x.StandsFor n) (low high : Int) :
    x.clampWhole low high = max low (min high n) := by
  rw [clampWhole, hx.isNaN_eq, hx.isInfinite_eq, if_neg Bool.false_ne_true,
    if_neg Bool.false_ne_true, hx.toRat_eq, truncate_intCast]

theorem toUInt64_eq {n : Nat} (hx : x.StandsFor n) (hn : n < 2 ^ 64) :
    x.toUInt64 = UInt64.ofNat n := by
  rw [← Int.cast_natCast] at hx
  rw [toUInt64, hx.clampWhole_eq]
  congr 1
  omega

theorem toInt64_eq {n : Int} (hx : x.StandsFor n) (hlow : -2 ^ 63 ≤ n) (hhigh : n < 2 ^ 63) :
    x.toInt64 = Int64.ofInt n := by
  rw [toInt64, hx.clampWhole_eq]
  congr 1
  omega

end StandsFor

end Binary64

end KlvMetadata
