import KlvMetadata.Proofs.Floating.Arithmetic

/-!
# Multiples of a Place

Numbers that are all multiples of one power of two can be added without loss as long as
they are not too far above it, and rounding them gives such multiples again. This is one
way for a calculation to be exact.

Another is to undo what was done. What a sum has lost is often put back when one of the
operands is taken off again, since the result is rounded to the other operand. It fails
only if the loss was half of a last place, where the even neighbour is taken. Whole
numbers below a quarter of the greatest significand are even in this sense, for their last
place is less than a half. So a whole number survives that a fraction is taken off and put
back, with an offset in between that has the same fraction.

## Main definitions

* `Precision.Multiple`: A whole multiple of a power of two.

## Theorems

* `Multiple.rounded_eq`: Multiples that are not too great are not rounded.
* `Multiple.rounded_mul_zpow`: Scaling commutes with rounding.
* `rounded_eq_of_even`: Half of a last place does not matter next to an even number.
* `rounded_eq_of_near`: A quarter of a last place does not matter.
* `rounded_sub_add`: A fraction is taken off a whole number and put back.
* `rounded_add_sub`: An offset is added and taken off.
-/

namespace KlvMetadata

/-- Half away from an even number is still rounded to it. -/
theorem nearestEven_of_even {q : ℚ} {k : Int} (h : |q - (2 * k : Int)| ≤ 1 / 2) :
    nearestEven q = 2 * k := by
  rcases abs_le.mp h with ⟨hlow, hhigh⟩
  rw [nearestEven]
  rcases lt_or_ge q (2 * k : Int) with hlt | hge
  · have hfloor : q.floor = 2 * k - 1 := by
      refine (Int.floor_eq_iff (R := ℚ)).mpr ?_
      push_cast at hlow hlt ⊢
      exact ⟨by linarith, by linarith⟩
    rw [hfloor]
    push_cast at hlow ⊢
    rw [if_neg (by linarith)]
    split
    · omega
    · rw [if_neg (by omega)]
      omega
  · have hfloor : q.floor = 2 * k := by
      refine (Int.floor_eq_iff (R := ℚ)).mpr ?_
      push_cast at hhigh hge ⊢
      exact ⟨by linarith, by linarith⟩
    rw [hfloor]
    push_cast at hhigh ⊢
    split
    · rfl
    · rw [if_neg (by linarith), if_pos (by omega)]

theorem nearestEven_eq {q : ℚ} {n : Int} (h : |q - n| < 1 / 2) : nearestEven q = n := by
  have hnear := abs_nearestEven_sub_le q
  rw [abs_le] at hnear
  rw [abs_lt] at h
  have hlow : ((nearestEven q : Int) : ℚ) < n + 1 := by linarith
  have hhigh : (n : ℚ) < nearestEven q + 1 := by linarith
  have hlow' : nearestEven q < n + 1 := by exact_mod_cast hlow
  have hhigh' : n < nearestEven q + 1 := by exact_mod_cast hhigh
  omega

namespace Precision

/-- A whole multiple of a place. -/
def Multiple (j : Int) (q : ℚ) : Prop := ∃ k : Int, q = k * 2 ^ j

variable {j k : Int} {p q : ℚ}

theorem Multiple.add (hp : Multiple j p) (hq : Multiple j q) : Multiple j (p + q) := by
  rcases hp with ⟨m, rfl⟩
  rcases hq with ⟨n, rfl⟩
  exact ⟨m + n, by push_cast; ring⟩

theorem Multiple.sub (hp : Multiple j p) (hq : Multiple j q) : Multiple j (p - q) := by
  rcases hp with ⟨m, rfl⟩
  rcases hq with ⟨n, rfl⟩
  exact ⟨m - n, by push_cast; ring⟩

theorem Multiple.mul_zpow (hq : Multiple j q) (k : Int) : Multiple (j + k) (q * 2 ^ k) := by
  rcases hq with ⟨m, rfl⟩
  exact ⟨m, by rw [zpow_add₀ two_ne_zero, mul_assoc]⟩

theorem Multiple.mono (hq : Multiple j q) (h : k ≤ j) : Multiple k q := by
  rcases hq with ⟨m, rfl⟩
  refine ⟨m * 2 ^ (j - k).toNat, ?_⟩
  have hsum : ((j - k).toNat : Int) + k = j := by omega
  push_cast
  rw [mul_assoc, ← zpow_natCast, ← zpow_add₀ two_ne_zero, hsum]

theorem multiple_intCast (n : Int) (hj : j ≤ 0) : Multiple j n :=
  Multiple.mono ⟨n, by rw [zpow_zero, mul_one]⟩ hj

/-- A multiple of a place that is not too far up needs no more bits than there are. -/
theorem Multiple.rounded_eq (hq : Multiple j q) (hj : -1074 ≤ j) (h : |q| ≤ 2 ^ (j + 53)) :
    double.rounded q = q := by
  rcases hq with ⟨m, rfl⟩
  refine rounded_of_representable ⟨m, j, hj, ?_, rfl⟩
  have hpos : (0 : ℚ) < 2 ^ j := by positivity
  rw [abs_mul, abs_of_pos hpos, add_comm, zpow_add₀ two_ne_zero] at h
  have hm := le_of_mul_le_mul_right h hpos
  rw [← Int.cast_abs] at hm
  exact_mod_cast hm

theorem multiple_rounded (q : ℚ) : Multiple (double.place q) (double.rounded q) := ⟨_, rfl⟩

theorem Representable.multiple (hq : double.Representable q) : Multiple (double.place q) q := by
  have hrounded := multiple_rounded q
  rwa [rounded_of_representable hq] at hrounded

/-- Rounding stays among the multiples of a place. -/
theorem Multiple.rounded (hq : Multiple j q) : Multiple j (double.rounded q) := by
  rcases Int.le_total j (double.place q) with hle | hge
  · exact (multiple_rounded q).mono hle
  · rcases hq.mono hge with ⟨m, hm⟩
    rwa [rounded_of_dvd hm]

theorem floorLog_mul_zpow (hq : 0 < q) (k : Int) : floorLog 2 (q * 2 ^ k) = floorLog 2 q + k := by
  have hpos : 0 < q * 2 ^ k := by positivity
  refine le_antisymm (Int.lt_add_one_iff.mp (floorLog_lt hpos ?_)) (le_floorLog hpos ?_)
  · rw [add_right_comm, zpow_add₀ two_ne_zero]
    exact mul_lt_mul_of_pos_right (lt_zpow_floorLog hq) (by positivity)
  · rw [zpow_add₀ two_ne_zero]
    exact mul_le_mul_of_nonneg_right (zpow_floorLog_le hq) (by positivity)

/-- Scaling by a power of two commutes with rounding where no bits get lost below the least
    place. -/
theorem Multiple.rounded_mul_zpow (hq : Multiple j q) (hj : -1074 ≤ j) (hk : -1074 ≤ j + k) :
    double.rounded (q * 2 ^ k) = double.rounded q * 2 ^ k := by
  rcases eq_or_ne q 0 with rfl | hne
  · rw [zero_mul, rounded_zero, zero_mul]
  have hpos := abs_pos.mpr hne
  have hlog : floorLog 2 |q * 2 ^ k| = floorLog 2 |q| + k := by
    rw [abs_mul, abs_of_pos (show (0 : ℚ) < 2 ^ k by positivity), floorLog_mul_zpow hpos]
  by_cases hplaces : -1074 ≤ floorLog 2 |q| - 52 ∧ -1074 ≤ floorLog 2 |q| + k - 52
  · have hplace : double.place q = floorLog 2 |q| - 52 := max_eq_right hplaces.1
    have hplace' : double.place (q * 2 ^ k) = double.place q + k := by
      rw [hplace, place, hlog, fractionBits_double]
      exact (max_eq_right hplaces.2).trans (by omega)
    rw [Precision.rounded, hplace', Precision.rounded, zpow_add₀ two_ne_zero,
      mul_div_mul_right _ _ (by positivity), mul_assoc]
  · -- Such a small multiple has few bits, before and after.
    have hsmall : |q| ≤ 2 ^ (j + 53) :=
      le_trans (lt_zpow_floorLog hpos).le (zpow_le_iff.mpr (by omega))
    rw [hq.rounded_eq hj hsmall]
    refine (hq.mul_zpow k).rounded_eq hk ?_
    rw [abs_mul, abs_of_pos (show (0 : ℚ) < 2 ^ k by positivity), add_right_comm,
      zpow_add₀ two_ne_zero]
    exact mul_le_mul_of_nonneg_right hsmall (by positivity)

/-- A number of few bits that is scaled to one or more has no bits that get lost. -/
theorem Representable.mul_zpow (hq : double.Representable q) (h : 1 ≤ |q * 2 ^ k|) :
    double.Representable (q * 2 ^ k) := by
  rcases hq with ⟨m, j, -, hm, rfl⟩
  refine ⟨m, j + k, ?_, hm, by rw [mul_assoc, ← zpow_add₀ two_ne_zero]⟩
  have hm' : |(m : ℚ)| ≤ 2 ^ (53 : Int) := by
    rw [← Int.cast_abs]
    exact_mod_cast hm
  rw [mul_assoc, ← zpow_add₀ two_ne_zero, abs_mul,
    abs_of_pos (show (0 : ℚ) < 2 ^ (j + k) by positivity)] at h
  have hone := le_trans h (mul_le_mul_of_nonneg_right hm' (by positivity))
  rw [← zpow_add₀ two_ne_zero, ← zpow_zero (2 : ℚ)] at hone
  have hexponent := zpow_le_iff.mp hone
  rw [leastExponent_double]
  omega

theorem place_mono (hp : 0 < p) (h : p ≤ q) : double.place p ≤ double.place q := by
  have hq := lt_of_lt_of_le hp h
  rw [place, place, abs_of_pos hp, abs_of_pos hq]
  have hlog := le_floorLog hq (le_trans (zpow_floorLog_le hp) h)
  omega

theorem least_le_place (q : ℚ) : -1074 ≤ double.place q := le_max_left _ _

theorem abs_lt_zpow_place (hq : q ≠ 0) : |q| < 2 ^ (double.place q + 53) := by
  have hlt := abs_lt_of_place (p := double) hq
  rwa [fractionBits_double, add_assoc] at hlt

/-- A number has a last place by its first one. -/
theorem le_place (h : 2 ^ (k + 52) ≤ |q|) : k ≤ double.place q := by
  have hlog := le_floorLog (lt_of_lt_of_le (by positivity) h) h
  rw [place, fractionBits_double]
  exact le_trans (by omega) (le_max_right _ _)

theorem zpow_place_le (hq : q ≠ 0) (h : -1074 < double.place q) :
    2 ^ (double.place q + 52) ≤ |q| := by
  have hplace : double.place q = floorLog 2 |q| - 52 := by
    rw [place, leastExponent_double, fractionBits_double] at h ⊢
    omega
  rw [hplace, sub_add_cancel]
  exact zpow_floorLog_le (abs_pos.mpr hq)

/-- Numbers from one up to a greatest significand have places below the point. -/
theorem place_bounds (hone : 1 ≤ |q|) (h : |q| < 2 ^ 53) :
    -52 ≤ double.place q ∧ double.place q ≤ 0 := by
  refine ⟨le_place (by rwa [neg_add_cancel, zpow_zero]), ?_⟩
  refine place_le (abs_pos.mp (lt_of_lt_of_le one_pos hone)) (by decide) ?_
  rw [fractionBits_double]
  exact_mod_cast h

/-- The last place of a number is not above that of what it is rounded to. -/
theorem place_le_of_rounded_le (hp : 0 < p) (h : double.rounded p ≤ q) :
    double.place p ≤ double.place q := by
  rcases eq_or_lt_of_le (least_le_place p) with hleast | hlt
  · rw [← hleast]
    exact least_le_place q
  · have hpow := rounded_mono (p := double) (zpow_place_le hp.ne' hlt)
    rw [abs_of_pos hp, rounded_of_representable (representable_zpow (by omega))] at hpow
    exact le_place (le_trans (le_trans hpow h) (le_abs_self q))

/-- A number is one place away from zero, and from where places get greater. -/
theorem Representable.place_bounds (ha : double.Representable q) (hpos : 0 < q) :
    2 ^ double.place q ≤ q ∧ q + 2 ^ double.place q ≤ 2 ^ (double.place q + 53) := by
  have hweight : (0 : ℚ) < 2 ^ double.place q := by positivity
  have hlt := abs_lt_zpow_place hpos.ne'
  rcases ha.multiple with ⟨k, hk⟩
  rw [abs_of_pos hpos, add_comm, zpow_add₀ two_ne_zero] at hlt
  have hlow : (0 : ℚ) < k := (mul_pos_iff_of_pos_right hweight).mp (hk ▸ hpos)
  have hhigh : (k : ℚ) < 2 ^ (53 : Int) := lt_of_mul_lt_mul_right (hk ▸ hlt) hweight.le
  have hone : (1 : ℚ) ≤ k := by exact_mod_cast hlow
  have hmost : (k : ℚ) + 1 ≤ 2 ^ (53 : Int) := by exact_mod_cast hhigh
  have hone' := mul_le_mul_of_nonneg_right hone hweight.le
  have hmost' := mul_le_mul_of_nonneg_right hmost hweight.le
  rw [add_comm (double.place q), zpow_add₀ two_ne_zero]
  exact ⟨by linarith, by linarith⟩

/-- A quarter of a last place leads to numbers of this place, or to one half as great. -/
theorem place_near {a : ℚ} (ha : double.Representable a) (hpos : 0 < a)
    (h : |q - a| ≤ 2 ^ double.place a / 4) :
    double.place q ≤ double.place a ∧ double.place a ≤ double.place q + 1 := by
  have hweight : (0 : ℚ) < 2 ^ double.place a := by positivity
  rcases abs_le.mp h with ⟨hlow, hhigh⟩
  rcases ha.place_bounds hpos with ⟨hone, hmost⟩
  have hq : 0 < q := by linarith
  constructor
  · refine place_le hq.ne' (le_max_left _ _) ?_
    rw [abs_of_pos hq, fractionBits_double, add_assoc]
    exact lt_of_lt_of_le (show q < a + 2 ^ double.place a by linarith) hmost
  · rcases eq_or_lt_of_le (least_le_place a) with hleast | hlt
    · have hleast' := least_le_place q
      omega
    · have hpow := zpow_place_le hpos.ne' hlt
      have hbelow : double.place a - 1 ≤ double.place q := by
        refine le_place ?_
        rw [abs_of_pos hpos, zpow_add₀ two_ne_zero] at hpow
        rw [abs_of_pos hq, zpow_add₀ two_ne_zero, zpow_sub_one₀ two_ne_zero]
        linarith
      omega

theorem rounded_eq_of_lt {m : ℚ} (hm : Multiple (double.place q) m)
    (h : |q - m| < 2 ^ double.place q / 2) : double.rounded q = m := by
  rcases hm with ⟨k, rfl⟩
  have hpos : (0 : ℚ) < 2 ^ double.place q := by positivity
  have hquotient : |q / 2 ^ double.place q - k| < 1 / 2 := by
    rw [div_sub' hpos.ne', abs_div, abs_of_pos hpos, div_lt_iff₀ hpos, mul_comm _ (k : ℚ)]
    linarith
  rw [Precision.rounded, nearestEven_eq hquotient]

/-- Half of a last place is no reason to leave a number whose last digit is even. -/
theorem rounded_eq_of_even {m : ℚ} (hm : Multiple (double.place q + 1) m)
    (h : |q - m| ≤ 2 ^ double.place q / 2) : double.rounded q = m := by
  rcases hm with ⟨k, rfl⟩
  have hpos : (0 : ℚ) < 2 ^ double.place q := by positivity
  have heven : (k : ℚ) * 2 ^ (double.place q + 1) = (2 * k : Int) * 2 ^ double.place q := by
    rw [zpow_add_one₀ two_ne_zero]
    push_cast
    ring
  rw [heven] at h ⊢
  have hquotient : |q / 2 ^ double.place q - (2 * k : Int)| ≤ 1 / 2 := by
    rw [div_sub' hpos.ne', abs_div, abs_of_pos hpos, div_le_iff₀ hpos,
      mul_comm _ ((2 * k : Int) : ℚ)]
    linarith
  rw [Precision.rounded, nearestEven_of_even hquotient]

/-- A quarter of a last place is no reason to leave a number, not even for numbers below with
    places half as great. -/
theorem rounded_eq_of_near {a : ℚ} (ha : double.Representable a) (hpos : 0 < a)
    (h : |q - a| ≤ 2 ^ double.place a / 4) : double.rounded q = a := by
  have hweight : (0 : ℚ) < 2 ^ double.place a := by positivity
  rcases place_near ha hpos h with ⟨habove, hbelow⟩
  rcases (show double.place q = double.place a ∨ double.place q + 1 = double.place a by omega)
    with hsame | hnext
  · refine rounded_eq_of_lt (hsame ▸ ha.multiple) ?_
    rw [hsame]
    linarith
  · -- Next to a number whose place has changed, the number is an even one.
    refine rounded_eq_of_even (hnext ▸ ha.multiple) ?_
    rw [← hnext, zpow_add_one₀ two_ne_zero] at h
    linarith

/-- What is off by half of the last place before it was rounded still is afterwards. -/
theorem abs_rounded_sub_le_of_le (hp : 0 < p) (h : double.rounded p ≤ q) :
    |double.rounded p - p| ≤ 2 ^ double.place q / 2 := by
  refine le_trans (abs_rounded_sub_le p) (div_le_div_of_nonneg_right ?_ zero_le_two)
  exact zpow_le_iff.mpr (place_le_of_rounded_le hp h)

/-- A whole number with a bit to spare is even at its last place. -/
theorem multiple_succ_place {n : Int} (hq : q ≠ 0) (h : |q| < 2 ^ 52) :
    Multiple (double.place q + 1) n := by
  have hplace := place_le (p := double) (k := -1) hq (by decide) (by
    rw [fractionBits_double]
    exact_mod_cast h)
  exact multiple_intCast n (by omega)

variable {n : Int} {z : ℚ}

/-- A fraction is taken off a whole number, and when it is put back the number is whole
    again. -/
theorem rounded_sub_add (hone : 1 ≤ n) (hle : n ≤ 2 ^ 50) (hz0 : 0 ≤ z) (hz1 : z ≤ 1) :
    double.rounded (double.rounded (n - z) + z) = n := by
  have hwhole : double.rounded n = n :=
    rounded_of_representable (representable_intCast (abs_le.mpr ⟨by omega, by omega⟩))
  have hone' : (1 : ℚ) ≤ n := by exact_mod_cast hone
  have hle' : (n : ℚ) ≤ 2 ^ 50 := by exact_mod_cast hle
  rcases eq_or_lt_of_le (show 0 ≤ (n : ℚ) - z by linarith) with hzero | hpos
  · rw [← hzero, rounded_zero, zero_add, ← sub_eq_zero.mp hzero.symm]
    exact hwhole
  rcases eq_or_lt_of_le hz0 with rfl | hz
  · rw [sub_zero, add_zero, hwhole, hwhole]
  have hmost := rounded_mono (p := double) (show (n : ℚ) - z ≤ n by linarith)
  rw [hwhole] at hmost
  have hnonneg := rounded_nonneg (p := double) hpos.le
  have herror := abs_rounded_sub_le_of_le (q := double.rounded (n - z) + z) hpos (by linarith)
  refine rounded_eq_of_even (multiple_succ_place (by linarith) ?_) ?_
  · exact abs_lt.mpr ⟨by linarith, by linarith⟩
  · rwa [sub_sub_eq_add_sub] at herror

variable {f : ℚ} {k : Int}

/-- Up to the size of an offset, a whole number without the fraction of the offset has no bits
    below the last place of the offset. -/
theorem rounded_add_sub_of_neg (hf : double.Representable f) (hfz : f = k + z)
    (hf1 : f ≤ -1) (hfmost : -2 ^ 50 ≤ f) (hz1 : z ≤ 1) (hn : 0 ≤ n)
    (hneg : double.rounded (n - z) + f < 0) :
    double.rounded (double.rounded (double.rounded (n - z) + f) - f) =
      double.rounded (n - z) := by
  have hn' : (0 : ℚ) ≤ n := by exact_mod_cast hn
  have hplace := (place_bounds (q := f) (by rw [abs_of_neg (by linarith)]; linarith)
    (by rw [abs_of_neg (by linarith)]; linarith)).2
  have hz : Multiple (double.place f) z := by
    rw [show z = f - k by rw [hfz]; ring]
    exact hf.multiple.sub (multiple_intCast k hplace)
  have hbelow : (n : ℚ) - z < -f := by
    by_contra hnot
    have hmono := rounded_mono (p := double) (not_lt.mp hnot)
    rw [rounded_neg, rounded_of_representable hf] at hmono
    linarith
  have hlt := abs_lt_zpow_place (show f ≠ 0 by linarith)
  rw [abs_of_neg (by linarith)] at hlt
  have hexact : double.rounded (n - z) = n - z :=
    ((multiple_intCast n hplace).sub hz).rounded_eq (least_le_place f)
      (abs_le.mpr ⟨by linarith, by linarith⟩)
  -- The sum is a whole number.
  have hsum : (n : ℚ) - z + f = (n + k : Int) := by
    rw [hfz]
    push_cast
    ring
  have hwhole : |n + k| ≤ 2 ^ 53 := by
    have hlow : (-2 ^ 53 : ℚ) ≤ (n + k : Int) := by linarith
    have hhigh : ((n + k : Int) : ℚ) ≤ 2 ^ 53 := by linarith
    exact abs_le.mpr ⟨by exact_mod_cast hlow, by exact_mod_cast hhigh⟩
  rw [hexact, hsum, rounded_of_representable (representable_intCast hwhole), ← hsum,
    add_sub_cancel_right, hexact]

/-- Beyond the size of an offset, a sum that has a smaller last place loses too little, and in
    one that has the same last place it is made good for what was lost before. -/
theorem rounded_add_sub_of_nonneg (hf : double.Representable f) (hfz : f = k + z)
    (hf1 : f ≤ -1) (hz0 : 0 ≤ z) (hle : n ≤ 2 ^ 50)
    (hnonneg : 0 ≤ double.rounded (n - z) + f) :
    double.rounded (double.rounded (double.rounded (n - z) + f) - f) =
      double.rounded (n - z) := by
  have hle' : (n : ℚ) ≤ 2 ^ 50 := by exact_mod_cast hle
  have hp : 0 < (n : ℚ) - z := by
    by_contra hnot
    have hmono := rounded_mono (p := double) (not_lt.mp hnot)
    rw [rounded_zero] at hmono
    linarith
  have hmost := abs_rounded_le (representable_zpow (k := 50) (by decide))
    (abs_le.mpr ⟨by linarith, by linarith⟩ : |(n : ℚ) - z| ≤ 2 ^ (50 : Int))
  have hmost' : double.rounded (n - z) ≤ 2 ^ 50 := le_of_abs_le hmost
  rcases eq_or_lt_of_le hnonneg with hzero | hpos
  · rw [← hzero, rounded_zero, zero_sub, rounded_neg, rounded_of_representable hf]
    linarith
  have hplace := place_mono hpos
    (show double.rounded (n - z) + f ≤ double.rounded (n - z) by linarith)
  rcases lt_or_eq_of_le hplace with hlower | hsame
  · have herror := abs_rounded_sub_le (p := double) (double.rounded (n - z) + f)
    have hquarter : (2 : ℚ) ^ double.place (double.rounded (n - z) + f) ≤
        2 ^ double.place (double.rounded (n - z)) / 2 := by
      rw [le_div_iff₀ two_pos, ← zpow_add_one₀ two_ne_zero]
      exact zpow_le_iff.mpr hlower
    refine rounded_eq_of_near (representable_rounded _) (by linarith) ?_
    rw [sub_right_comm, sub_sub]
    linarith
  · have herror := abs_rounded_sub_le_of_le (q := double.rounded (n - z)) hp (le_refl _)
    have hsum : (n : ℚ) - z + f = (n + k : Int) := by
      rw [hfz]
      push_cast
      ring
    have hwhole : double.rounded (double.rounded (n - z) + f) = (n + k : Int) := by
      refine rounded_eq_of_even (multiple_succ_place hpos.ne' ?_) ?_
      · exact abs_lt.mpr ⟨by linarith, by linarith⟩
      · rw [hsame, ← hsum, add_sub_add_right_eq_sub]
        exact herror
    rw [hwhole, ← hsum, add_sub_cancel_right]

/-- An offset that ends in a fraction is added to what a whole number is without it, and taken
    off again. -/
theorem rounded_add_sub (hf : double.Representable f) (hfz : f = k + z) (hf1 : f ≤ -1)
    (hfmost : -2 ^ 50 ≤ f) (hz0 : 0 ≤ z) (hz1 : z ≤ 1) (hn : 0 ≤ n) (hle : n ≤ 2 ^ 50) :
    double.rounded (double.rounded (double.rounded (n - z) + f) - f) =
      double.rounded (n - z) := by
  rcases lt_or_ge (double.rounded (n - z) + f) 0 with hneg | hnonneg
  · exact rounded_add_sub_of_neg hf hfz hf1 hfmost hz1 hn hneg
  · exact rounded_add_sub_of_nonneg hf hfz hf1 hz0 hle hnonneg

end Precision

end KlvMetadata
