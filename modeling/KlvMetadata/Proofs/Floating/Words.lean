import KlvMetadata.Floating.Binary
import KlvMetadata.Proofs.Floating.Rounding

/-!
# Words of Floating-Point Numbers

What the word of an eight-byte number says: a sign, and a magnitude that grows with the
value it stands for. From the growth follow the order of the numbers and the fact that
a magnitude that carried out of its significand is still the right one. With it the word
nearest to a rational number stands for the number rounded, as long as that is not so
great that there is no word for it.

Calculations are followed in terms of `StandsFor`. It says of a word that it is finite
and what its value is; one lemma for each operation then takes the values of the operands
to the value of the result.

## Main definitions

* `Binary64.StandsFor`: The word is finite and has a given value.

## Theorems

* `Precision.magnitudeValue_strictMono`: Magnitudes grow with their values.
* `Precision.magnitudeValue_nearest`: The nearest word stands for the number rounded.
* `Binary64.StandsFor.less_iff`: The order of words is the order of values.
* `Binary64.standsFor_ofRat`: Rounding a number that is not too great.
* `Binary64.eq_infinity`: There is one infinity of each sign.
-/

namespace KlvMetadata

namespace Precision

theorem signWeight_double : double.signWeight = 2 ^ 63 := rfl

theorem leadingBit_double : double.leadingBit = 2 ^ 52 := rfl

theorem infinity_double : double.infinity = 2047 * 2 ^ 52 := rfl

theorem leastExponent_double : double.leastExponent = -1074 := rfl

theorem fractionBits_double : double.fractionBits = 52 := rfl

/-- A significand of the right size at an exponent is found again in their sum, also one
    that has carried into the exponent. -/
theorem magnitudeValue_add {k s : Nat} (hs : s ≤ 2 ^ 53) (hk : k = 0 ∨ 2 ^ 52 ≤ s) :
    double.magnitudeValue (k * 2 ^ 52 + s) = s * 2 ^ ((k : Int) - 1074) := by
  rw [magnitudeValue, significand, exponent, leadingBit_double, leastExponent_double]
  rcases Nat.lt_or_ge s (2 ^ 52) with hsmall | hgreat
  · have hzero : k = 0 := by omega
    rw [hzero, Nat.zero_mul, Nat.zero_add, if_pos hsmall, Nat.div_eq_of_lt hsmall]
    rfl
  rw [if_neg (by omega)]
  rcases Nat.lt_or_eq_of_le hs with hlt | rfl
  · have hmod : 2 ^ 52 + (k * 2 ^ 52 + s) % 2 ^ 52 = s := by omega
    have hdiv : (-1074 : Int) + ((k * 2 ^ 52 + s) / 2 ^ 52 - 1 : Nat) = k - 1074 := by omega
    rw [hmod, hdiv]
  · -- The significand has become the next power of two.
    have hmod : 2 ^ 52 + (k * 2 ^ 52 + 2 ^ 53) % 2 ^ 52 = 2 ^ 52 := by omega
    have hdiv : (-1074 : Int) + ((k * 2 ^ 52 + 2 ^ 53) / 2 ^ 52 - 1 : Nat) = k - 1074 + 1 := by
      omega
    rw [hmod, hdiv, zpow_add_one₀ two_ne_zero]
    push_cast
    ring

/-- Every magnitude is a significand added to the place of an exponent. -/
theorem exists_magnitude_eq (m : Nat) :
    ∃ k s, m = k * 2 ^ 52 + s ∧ s < 2 ^ 53 ∧ (k = 0 ∨ 2 ^ 52 ≤ s) := by
  rcases Nat.lt_or_ge m (2 ^ 52) with hsmall | hgreat
  · exact ⟨0, m, by omega, by omega, Or.inl rfl⟩
  · exact ⟨m / 2 ^ 52 - 1, 2 ^ 52 + m % 2 ^ 52, by omega, by omega, Or.inr (by omega)⟩

theorem magnitudeValue_strictMono : StrictMono double.magnitudeValue := by
  intro m n hmn
  rcases exists_magnitude_eq m with ⟨k, s, rfl, hs, hk⟩
  rcases exists_magnitude_eq n with ⟨j, t, rfl, ht, hj⟩
  rw [magnitudeValue_add (by omega) hk, magnitudeValue_add (by omega) hj]
  rcases Nat.lt_trichotomy k j with hlt | rfl | hgt
  · -- Two significands differ by less than a factor of two.
    calc (s : ℚ) * 2 ^ ((k : Int) - 1074)
        < ((2 ^ 53 : Nat) : ℚ) * 2 ^ ((k : Int) - 1074) :=
          mul_lt_mul_of_pos_right (by exact_mod_cast hs) (by positivity)
      _ = ((2 ^ 52 : Nat) : ℚ) * 2 ^ ((k : Int) - 1074 + 1) := by
          rw [zpow_add_one₀ two_ne_zero]
          push_cast
          ring
      _ ≤ t * 2 ^ ((j : Int) - 1074) := by
          refine mul_le_mul ?_ (zpow_le_iff.mpr (by omega)) (by positivity) (by positivity)
          have ht' : 2 ^ 52 ≤ t := by omega
          exact_mod_cast ht'
  · have hst : s < t := by omega
    exact mul_lt_mul_of_pos_right (by exact_mod_cast hst) (by positivity)
  · omega

theorem magnitudeValue_zero : double.magnitudeValue 0 = 0 := by
  have hzero := magnitudeValue_add (k := 0) (s := 0) (by omega) (Or.inl rfl)
  rwa [Nat.zero_mul, Nat.zero_add, Nat.cast_zero, zero_mul] at hzero

theorem magnitudeValue_nonneg (m : Nat) : 0 ≤ double.magnitudeValue m :=
  magnitudeValue_zero ▸ magnitudeValue_strictMono.monotone (Nat.zero_le m)

theorem representable_magnitudeValue (m : Nat) :
    double.Representable (double.magnitudeValue m) := by
  rcases exists_magnitude_eq m with ⟨k, s, rfl, hs, hk⟩
  refine ⟨s, k - 1074, ?_, ?_, ?_⟩
  · rw [leastExponent_double]
    omega
  · rw [fractionBits_double, abs_of_nonneg (by omega)]
    omega
  · rw [magnitudeValue_add (by omega) hk, Int.cast_natCast]

/-- The word nearest to a number stands for the number rounded, if there is room above
    it. -/
theorem magnitudeValue_nearest {q : ℚ} (hq : 0 ≤ q) (hlt : q < 2 ^ (1023 : Int)) :
    double.nearest q < double.infinity ∧
      double.magnitudeValue (double.nearest q) = double.rounded q := by
  rw [nearest]
  split
  · next hle =>
    rw [le_antisymm hle hq, rounded_zero]
    exact ⟨by decide, magnitudeValue_zero⟩
  next hpos =>
  have hpos : 0 < q := not_le.mp hpos
  have hplace : max double.leastExponent (floorLog 2 q - double.fractionBits)
      = double.place q := by rw [place, abs_of_pos hpos]
  have hweight : (0 : ℚ) < 2 ^ double.place q := by positivity
  rw [hplace]
  -- The significand has as many bits as there are, unless the place is the least one.
  have hwhole : 0 ≤ nearestEven (q / 2 ^ double.place q) := nearestEven_nonneg (by positivity)
  have hmost : nearestEven (q / 2 ^ double.place q) ≤ 2 ^ 53 := nearestEven_quotient_le hpos
  have hleast : double.place q = -1074 ∨ 2 ^ 52 ≤ nearestEven (q / 2 ^ double.place q) := by
    rcases Int.lt_or_le double.leastExponent (double.place q) with hgt | hle
    · exact Or.inr (le_nearestEven_quotient hpos hgt)
    · exact Or.inl (le_antisymm hle (le_max_left _ _))
  have hexponent : double.place q ≤ 970 := by
    have hlog := floorLog_lt hpos hlt
    rw [← hplace, leastExponent_double, fractionBits_double]
    omega
  have hleastPlace : -1074 ≤ double.place q := le_max_left _ _
  have hroom : (double.place q - double.leastExponent).toNat * double.leadingBit
      + (nearestEven (q / 2 ^ double.place q)).toNat < double.infinity := by
    rw [leastExponent_double, leadingBit_double, infinity_double]
    omega
  refine ⟨lt_of_le_of_lt (Nat.min_le_right _ _) hroom, ?_⟩
  rw [Nat.min_eq_right hroom.le, leadingBit_double,
    magnitudeValue_add (by omega) (by rw [leastExponent_double]; omega), rounded]
  have hplaces : (((double.place q - double.leastExponent).toNat : Nat) : Int) - 1074
      = double.place q := by
    rw [leastExponent_double]
    omega
  rw [hplaces]
  congr 1
  exact_mod_cast Int.toNat_of_nonneg hwhole

end Precision

namespace Binary64

open Precision

variable {x y : Binary64} {a b : ℚ}

theorem word_lt (x : Binary64) : x.word < 2 ^ 64 := x.bits.toNat_lt

theorem word_ofWord {w : Nat} (h : w < 2 ^ 64) : (ofWord w).word = w :=
  UInt64.toNat_ofNat_of_lt' h

theorem isNegative_iff (x : Binary64) : x.isNegative = true ↔ 2 ^ 63 ≤ x.word := by
  rw [isNegative, Precision.isNegative, signWeight_double, decide_eq_true_iff]

/-- A word is its sign and its magnitude. -/
theorem word_eq (x : Binary64) :
    x.word = (if x.isNegative then 2 ^ 63 else 0) + x.magnitude := by
  have hlt := x.word_lt
  rw [magnitude, Precision.magnitude, signWeight_double]
  by_cases hsign : x.isNegative = true
  · have hle := x.isNegative_iff.mp hsign
    rw [if_pos hsign]
    omega
  · have hgt := mt x.isNegative_iff.mpr hsign
    rw [if_neg hsign]
    omega

theorem ext_of_magnitude (hsign : x.isNegative = y.isNegative)
    (hmagnitude : x.magnitude = y.magnitude) : x = y := by
  have hword : x.word = y.word := by rw [word_eq, word_eq, hsign, hmagnitude]
  rcases x with ⟨x⟩
  rcases y with ⟨y⟩
  exact congrArg mk (UInt64.toNat_inj.mp hword)

theorem isNegative_ofWord {negative : Bool} {m : Nat} (h : m < 2 ^ 63) :
    (ofWord ((if negative then 2 ^ 63 else 0) + m)).isNegative = negative := by
  rw [Bool.eq_iff_iff, isNegative_iff, word_ofWord (by split <;> omega)]
  cases negative
  · simp only [Bool.false_eq_true, if_false, iff_false]
    omega
  · simp only [if_true, iff_true]
    omega

theorem magnitude_ofWord {negative : Bool} {m : Nat} (h : m < 2 ^ 63) :
    (ofWord ((if negative then 2 ^ 63 else 0) + m)).magnitude = m := by
  rw [magnitude, Precision.magnitude, word_ofWord (by split <;> omega), signWeight_double]
  split <;> omega

theorem infinity_eq (negative : Bool) :
    infinity negative = ofWord ((if negative then 2 ^ 63 else 0) + double.infinity) := by
  cases negative <;> rfl

/-- There is one infinity of each sign. -/
theorem eq_infinity (h : x.isInfinite = true) : x = infinity x.isNegative := by
  have hlt : double.infinity < 2 ^ 63 := by decide
  have hinf : x.magnitude = double.infinity := of_decide_eq_true h
  refine ext_of_magnitude ?_ ?_
  · rw [infinity_eq, isNegative_ofWord hlt]
  · rw [infinity_eq, magnitude_ofWord hlt, hinf]

theorem isFinite_iff (x : Binary64) :
    x.isFinite = true ↔ x.isNaN = false ∧ x.isInfinite = false := by
  rw [isFinite, isNaN, isInfinite, decide_eq_true_iff, decide_eq_false_iff_not,
    decide_eq_false_iff_not]
  omega

theorem toRat_eq (x : Binary64) :
    x.toRat = if x.isNegative then -double.magnitudeValue x.magnitude
      else double.magnitudeValue x.magnitude := rfl

theorem representable_toRat (x : Binary64) : double.Representable x.toRat := by
  rw [toRat_eq]
  split
  · exact (representable_magnitudeValue _).neg
  · exact representable_magnitudeValue _

/-- The order of finite words is the order of their values. -/
theorem rank_lt_iff (x y : Binary64) : x.rank < y.rank ↔ x.toRat < y.toRat := by
  have hlt (m n : Nat) : m < n ↔ double.magnitudeValue m < double.magnitudeValue n :=
    magnitudeValue_strictMono.lt_iff_lt.symm
  have hx := magnitudeValue_nonneg x.magnitude
  have hy := magnitudeValue_nonneg y.magnitude
  rw [rank, rank, toRat_eq, toRat_eq]
  split <;> split
  · rw [neg_lt_neg_iff, neg_lt_neg_iff, Int.ofNat_lt, hlt]
  · -- Only the two zeros are not told apart by their signs.
    have hzeros := hlt 0
    rw [magnitudeValue_zero] at hzeros
    have hxzero := hzeros x.magnitude
    have hyzero := hzeros y.magnitude
    constructor
    · intro h
      rcases (show 0 < x.magnitude ∨ 0 < y.magnitude by omega) with hpos | hpos
      · linarith [hxzero.mp hpos]
      · linarith [hyzero.mp hpos]
    · intro h
      by_contra hnot
      have hxnot := mt hxzero.mpr (by omega)
      have hynot := mt hyzero.mpr (by omega)
      linarith
  · constructor
    · intro h
      omega
    · intro h
      linarith
  · rw [Int.ofNat_lt, hlt]

/-- The word is finite and has the value `a`. -/
structure StandsFor (x : Binary64) (a : ℚ) : Prop where
  isFinite : x.isFinite = true
  toRat_eq : x.toRat = a

theorem standsFor_toRat (h : x.isFinite = true) : x.StandsFor x.toRat := ⟨h, rfl⟩

namespace StandsFor

theorem isNaN_eq (hx : x.StandsFor a) : x.isNaN = false := (x.isFinite_iff.mp hx.isFinite).1

theorem isInfinite_eq (hx : x.StandsFor a) : x.isInfinite = false :=
  (x.isFinite_iff.mp hx.isFinite).2

theorem representable (hx : x.StandsFor a) : double.Representable a :=
  hx.toRat_eq ▸ x.representable_toRat

theorem isZero_iff (hx : x.StandsFor a) : x.isZero = true ↔ a = 0 := by
  have hinj := magnitudeValue_strictMono.injective.eq_iff (a := x.magnitude) (b := 0)
  rw [magnitudeValue_zero] at hinj
  rw [isZero, decide_eq_true_iff, ← hinj, ← hx.toRat_eq, Binary64.toRat_eq]
  split
  · rw [neg_eq_zero]
  · rfl

theorem less_iff (hx : x.StandsFor a) (hy : y.StandsFor b) : x.less y = true ↔ a < b := by
  rw [less, hx.isNaN_eq, hy.isNaN_eq, Bool.not_false, Bool.true_and, Bool.true_and,
    decide_eq_true_iff, rank_lt_iff, hx.toRat_eq, hy.toRat_eq]

end StandsFor

theorem standsFor_ofMagnitude (negative : Bool) {m : Nat} (h : m < double.infinity) :
    (ofWord ((if negative then 2 ^ 63 else 0) + m)).StandsFor
      (if negative then -double.magnitudeValue m else double.magnitudeValue m) := by
  have hlt : m < 2 ^ 63 := lt_trans h (by decide)
  refine ⟨?_, ?_⟩
  · rwa [isFinite, magnitude_ofWord hlt, decide_eq_true_iff]
  · rw [Binary64.toRat_eq, isNegative_ofWord hlt, magnitude_ofWord hlt]

theorem standsFor_ofRat {q : ℚ} (negativeZero : Bool) (h : |q| < 2 ^ (1023 : Int)) :
    (ofRat q negativeZero).StandsFor (double.rounded q) := by
  rcases abs_lt.mp h with ⟨hlow, hhigh⟩
  rw [ofRat, nearestWord]
  split
  · next hneg =>
    rcases magnitudeValue_nearest (q := -q) (by linarith) (by linarith) with ⟨hroom, hvalue⟩
    have hstands := standsFor_ofMagnitude true hroom
    rwa [if_pos rfl, if_pos rfl, hvalue, rounded_neg, neg_neg] at hstands
  next hnonneg =>
  split
  · next hzero =>
    have hq : q = 0 := of_decide_eq_true (Bool.and_eq_true_iff.mp hzero).1
    have hstands := standsFor_ofMagnitude true (m := 0) (by decide)
    rwa [if_pos rfl, if_pos rfl, magnitudeValue_zero, neg_zero, ← rounded_zero (p := double),
      ← hq] at hstands
  · rcases magnitudeValue_nearest (not_lt.mp hnonneg) hhigh with ⟨hroom, hvalue⟩
    have hstands := standsFor_ofMagnitude false hroom
    rwa [if_neg Bool.false_ne_true, if_neg Bool.false_ne_true, Nat.zero_add, hvalue] at hstands

/-- A number with few bits is its own nearest one. -/
theorem standsFor_ofRat_of_representable {q : ℚ} (negativeZero : Bool)
    (hq : double.Representable q) (h : |q| < 2 ^ (1023 : Int)) :
    (ofRat q negativeZero).StandsFor q := by
  have hstands := standsFor_ofRat negativeZero h
  rwa [rounded_of_representable hq] at hstands

end Binary64

end KlvMetadata
