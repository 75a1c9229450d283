import KlvMetadata.Floating.Precision
import Mathlib.Algebra.Order.Field.Power
import Mathlib.Data.Rat.Floor
import Mathlib.Tactic.FieldSimp
import Mathlib.Tactic.Linarith
import Mathlib.Tactic.NormNum
import Mathlib.Tactic.Positivity
import Mathlib.Tactic.Ring

/-!
# Rounding of Rational Numbers

What rounding to a precision does to a rational number, before any word comes into
play. The place of the last bit follows from the size of the number (`place`), and the
number is rounded to a whole multiple of that place (`rounded`).

Two facts carry all that is said about calculations. A number moves by no more than
half of its last place, so an error can be bounded by a bound on the number. And a
number that needs no more bits than there are does not move at all. Both are stated
for a bound that does not have to be tight, because the size of a result is known only
roughly when a calculation is followed step by step.

Rounding is monotone. That is not a matter of errors: two numbers that straddle a power
of two are rounded to different places, and it is the power between them that keeps
them apart.

## Main definitions

* `Precision.place`: The exponent of the last bit.
* `Precision.rounded`: The nearest number of a precision.
* `Precision.Representable`: Numbers that need no more bits than there are.

## Theorems

* `zpow_floorLog_le`, `lt_zpow_floorLog`: What the whole part of a logarithm is.
* `nearestEven_mono`, `nearestEven_neg`, `abs_nearestEven_sub_le`: Rounding to integers.
* `Precision.abs_rounded_sub_le_div`, `Precision.abs_rounded_sub_le_zpow`: A number moves
  by half of its last place at most.
* `Precision.rounded_of_representable`: A number with few bits stays where it is.
* `Precision.rounded_mono`: Rounding is monotone.
* `Precision.abs_rounded_scaled_le`: Scaling by a power of two loses bits only below the
  least place.
-/

namespace KlvMetadata

theorem floorLogNat_spec {b : Nat} (hb : 2 ≤ b) {fuel n : Nat} (hn : n ≠ 0)
    (hfuel : n < b ^ fuel) :
    b ^ floorLogNat b fuel n ≤ n ∧ n < b ^ (floorLogNat b fuel n + 1) := by
  induction fuel generalizing n with
  | zero => exact absurd hfuel (by rw [Nat.pow_zero]; omega)
  | succ fuel ih =>
      rw [floorLogNat]
      by_cases hlt : n < b
      · rw [if_pos hlt, Nat.pow_zero, Nat.zero_add, Nat.pow_one]
        exact ⟨Nat.pos_of_ne_zero hn, hlt⟩
      · have hpos : 0 < b := by omega
        have hquotient : n / b ≠ 0 := Nat.div_ne_zero_iff.mpr ⟨by omega, by omega⟩
        rcases ih hquotient (Nat.div_lt_of_lt_mul (by rwa [← Nat.pow_succ'])) with ⟨hlow, hhigh⟩
        rw [if_neg hlt]
        refine ⟨?_, ?_⟩
        · rw [Nat.pow_succ]
          exact (Nat.le_div_iff_mul_le hpos).mp hlow
        · rw [Nat.pow_succ]
          exact (Nat.div_lt_iff_lt_mul hpos).mp hhigh

/-- The fuel of a logarithm is enough, because no base makes it greater than the
    binary one. -/
theorem floorLogNat_log2 {b : Nat} (hb : 2 ≤ b) {n : Nat} (hn : n ≠ 0) :
    b ^ floorLogNat b (n.log2 + 1) n ≤ n ∧ n < b ^ (floorLogNat b (n.log2 + 1) n + 1) :=
  floorLogNat_spec hb hn (Nat.lt_of_lt_of_le Nat.lt_log2_self (Nat.pow_le_pow_left hb _))

theorem floorLog_bounds {b : Nat} (hb : 2 ≤ b) {q : ℚ} (hq : 0 < q) :
    (b : ℚ) ^ floorLog b q ≤ q ∧ q < (b : ℚ) ^ (floorLog b q + 1) := by
  have hb0 : (b : ℚ) ≠ 0 := by
    have : b ≠ 0 := by omega
    exact_mod_cast this
  rw [floorLog]
  split
  · next hone =>
    -- A power is below the number if it is below its whole part.
    have hfloor : 1 ≤ q.floor := Rat.le_floor_iff.mpr (by exact_mod_cast hone)
    have hcast : ((q.floor.toNat : ℕ) : ℚ) = (q.floor : ℚ) := by
      exact_mod_cast Int.toNat_of_nonneg (by omega)
    rcases floorLogNat_log2 hb (n := q.floor.toNat) (by omega) with ⟨hlow, hhigh⟩
    have hbelow := Rat.floor_le q
    have habove := Rat.lt_floor_add_one q
    refine ⟨?_, ?_⟩
    · have hlow' : (b : ℚ) ^ floorLogNat b (q.floor.toNat.log2 + 1) q.floor.toNat
          ≤ (q.floor.toNat : ℕ) := by exact_mod_cast hlow
      rw [zpow_natCast]
      linarith
    · have hhigh' : ((q.floor.toNat : ℕ) : ℚ) + 1 ≤
          (b : ℚ) ^ (floorLogNat b (q.floor.toNat.log2 + 1) q.floor.toNat + 1) := by
        exact_mod_cast hhigh
      push_cast at habove
      refine lt_of_lt_of_le ?_ (hhigh'.trans (le_of_eq (zpow_natCast _ _).symm))
      linarith
  · next hone =>
    -- The reciprocal is above one, and its ceiling less one is what stays below it.
    have hrecip : 1 < 1 / q := (one_lt_div hq).mpr (not_le.mp hone)
    have hceil : 1 < (1 / q).ceil := by
      have := lt_of_lt_of_le hrecip Rat.le_ceil
      exact_mod_cast this
    have hcast : (((1 / q).ceil.toNat - 1 : ℕ) : ℚ) = ((1 / q).ceil : ℚ) - 1 := by
      have : (((1 / q).ceil.toNat - 1 : ℕ) : Int) = (1 / q).ceil - 1 := by omega
      exact_mod_cast this
    rcases floorLogNat_log2 hb (n := (1 / q).ceil.toNat - 1) (by omega) with ⟨hlow, hhigh⟩
    generalize hk : floorLogNat b (((1 / q).ceil.toNat - 1).log2 + 1) ((1 / q).ceil.toNat - 1)
      = k at hlow hhigh
    have hpos : (0 : ℚ) < (b : ℚ) ^ k := by positivity
    have hpos' : (0 : ℚ) < (b : ℚ) ^ (k + 1) := by positivity
    have hcut : ((1 / q).ceil : ℚ) < 1 / q + 1 := Rat.ceil_lt
    simp only [hk]
    refine ⟨?_, ?_⟩
    · have hhigh' : ((1 / q).ceil : ℚ) ≤ (b : ℚ) ^ (k + 1) := by
        have : ((1 / q).ceil.toNat - 1 : ℕ) + 1 ≤ b ^ (k + 1) := hhigh
        have : (((1 / q).ceil.toNat - 1 : ℕ) : ℚ) + 1 ≤ (b : ℚ) ^ (k + 1) := by
          exact_mod_cast this
        linarith
      have hle : 1 / q ≤ (b : ℚ) ^ (k + 1) := le_trans Rat.le_ceil hhigh'
      rw [zpow_negSucc]
      exact inv_le_of_inv_le₀ hq (by rwa [one_div] at hle)
    · have hlow' : (b : ℚ) ^ k ≤ ((1 / q).ceil : ℚ) - 1 := by
        rw [← hcast]
        exact_mod_cast hlow
      have hlt : (b : ℚ) ^ k < 1 / q := by linarith
      rw [show Int.negSucc k + 1 = -(k : Int) by omega, zpow_neg, zpow_natCast]
      exact (lt_inv_comm₀ hpos hq).mp (by rwa [one_div] at hlt)

theorem zpow_floorLog_le {q : ℚ} (hq : 0 < q) : (2 : ℚ) ^ floorLog 2 q ≤ q :=
  (floorLog_bounds (Nat.le_refl 2) hq).1

theorem lt_zpow_floorLog {q : ℚ} (hq : 0 < q) : q < (2 : ℚ) ^ (floorLog 2 q + 1) :=
  (floorLog_bounds (Nat.le_refl 2) hq).2

theorem zpow_le_iff {j k : Int} : (2 : ℚ) ^ j ≤ 2 ^ k ↔ j ≤ k :=
  zpow_le_zpow_iff_right₀ one_lt_two

theorem zpow_lt_iff {j k : Int} : (2 : ℚ) ^ j < 2 ^ k ↔ j < k :=
  zpow_lt_zpow_iff_right₀ one_lt_two

theorem two_pow_mul_zpow (n : Nat) (k : Int) : ((2 ^ n : Int) : ℚ) * 2 ^ k = 2 ^ (k + n) := by
  rw [zpow_add₀ two_ne_zero, zpow_natCast, mul_comm]
  push_cast
  rfl

theorem floorLog_lt {q : ℚ} (hq : 0 < q) {k : Int} (h : q < 2 ^ k) : floorLog 2 q < k :=
  zpow_lt_iff.mp (lt_of_le_of_lt (zpow_floorLog_le hq) h)

theorem le_floorLog {q : ℚ} (hq : 0 < q) {k : Int} (h : 2 ^ k ≤ q) : k ≤ floorLog 2 q := by
  have hlt := zpow_lt_iff.mp (lt_of_le_of_lt h (lt_zpow_floorLog hq))
  omega

theorem nearestEven_cases (q : ℚ) :
    nearestEven q = q.floor ∧ q - q.floor ≤ 1 / 2 ∨
      nearestEven q = q.floor + 1 ∧ 1 / 2 ≤ q - q.floor := by
  rw [nearestEven]
  split
  · next hlow => exact Or.inl ⟨rfl, le_of_lt hlow⟩
  · next hlow =>
    split
    · next hhigh => exact Or.inr ⟨rfl, le_of_lt hhigh⟩
    · next hhigh =>
      -- The number is halfway, and either neighbour is near enough.
      split
      · exact Or.inl ⟨rfl, not_lt.mp hhigh⟩
      · exact Or.inr ⟨rfl, not_lt.mp hlow⟩

theorem abs_nearestEven_sub_le (q : ℚ) : |(nearestEven q : ℚ) - q| ≤ 1 / 2 := by
  have hbelow := Rat.floor_le q
  have habove := Rat.lt_floor_add_one q
  push_cast at habove
  rw [abs_le]
  rcases nearestEven_cases q with ⟨heq, hrest⟩ | ⟨heq, hrest⟩
  · rw [heq]
    constructor <;> linarith
  · rw [heq]
    push_cast
    constructor <;> linarith

@[simp]
theorem nearestEven_intCast (n : Int) : nearestEven n = n := by
  rw [nearestEven, Rat.floor_intCast, sub_self, if_pos (by norm_num)]

theorem nearestEven_mono {p q : ℚ} (h : p ≤ q) : nearestEven p ≤ nearestEven q := by
  have hfloor : p.floor ≤ q.floor := Rat.le_floor_iff.mpr (le_trans (Rat.floor_le p) h)
  rcases Int.lt_or_eq_of_le hfloor with hlt | heq
  · rcases nearestEven_cases p with ⟨hp, _⟩ | ⟨hp, _⟩ <;>
      rcases nearestEven_cases q with ⟨hq, _⟩ | ⟨hq, _⟩ <;> omega
  · -- With one whole part, the greater of the two has the greater rest.
    have hrest : p - p.floor ≤ q - q.floor := by
      rw [heq]
      linarith
    simp only [nearestEven]
    rw [heq] at hrest ⊢
    split_ifs <;> first | omega | (exfalso; linarith)

theorem nearestEven_nonneg {q : ℚ} (h : 0 ≤ q) : 0 ≤ nearestEven q := by
  have hmono := nearestEven_mono (show ((0 : Int) : ℚ) ≤ q by rwa [Int.cast_zero])
  rwa [nearestEven_intCast] at hmono

theorem nearestEven_neg (q : ℚ) : nearestEven (-q) = -nearestEven q := by
  have hbelow := Rat.floor_le q
  have habove := Rat.lt_floor_add_one q
  push_cast at habove
  by_cases hwhole : q = q.floor
  · rw [hwhole, ← Int.cast_neg, nearestEven_intCast, nearestEven_intCast]
  · -- The rest of the opposite number is what the rest leaves of one.
    have hlt : (q.floor : ℚ) < q := lt_of_le_of_ne hbelow (Ne.symm hwhole)
    have hfloor : (-q).floor = -q.floor - 1 := by
      refine (Int.floor_eq_iff (R := ℚ)).mpr ?_
      push_cast
      constructor <;> linarith
    simp only [nearestEven]
    rw [hfloor]
    push_cast
    split_ifs <;> first | omega | (exfalso; linarith)

namespace Precision

variable (p : Precision) {q : ℚ}

/-- The exponent of the last bit of a number near `q`. -/
def place (q : ℚ) : Int := max p.leastExponent (floorLog 2 |q| - p.fractionBits)

/-- The number nearest to `q`, the one with an even last bit of two equally near. There
    is no greatest number here. -/
def rounded (q : ℚ) : ℚ := nearestEven (q / 2 ^ p.place q) * 2 ^ p.place q

/-- The number has no more bits than a significand, and none below the least place. -/
def Representable (q : ℚ) : Prop :=
  ∃ m k : Int, p.leastExponent ≤ k ∧ |m| ≤ 2 ^ (p.fractionBits + 1) ∧ q = m * 2 ^ k

variable {p}

theorem place_neg (q : ℚ) : p.place (-q) = p.place q := by rw [place, place, abs_neg]

theorem rounded_neg (q : ℚ) : p.rounded (-q) = -p.rounded q := by
  rw [rounded, rounded, place_neg, neg_div, nearestEven_neg]
  push_cast
  ring

@[simp]
theorem rounded_zero : p.rounded 0 = 0 := by
  have hzero := nearestEven_intCast 0
  rw [Int.cast_zero] at hzero
  rw [rounded, zero_div, hzero, Int.cast_zero, zero_mul]

/-- A number moves by half of its last place at most. -/
theorem abs_rounded_sub_le (q : ℚ) : |p.rounded q - q| ≤ 2 ^ p.place q / 2 := by
  have hpos : (0 : ℚ) < 2 ^ p.place q := by positivity
  have herror := mul_le_mul_of_nonneg_right (abs_nearestEven_sub_le (q / 2 ^ p.place q)) hpos.le
  calc |p.rounded q - q|
      = |(nearestEven (q / 2 ^ p.place q) : ℚ) - q / 2 ^ p.place q| * 2 ^ p.place q := by
        rw [← abs_of_pos hpos, ← abs_mul, abs_of_pos hpos, sub_mul, div_mul_cancel₀ _ hpos.ne',
          rounded]
    _ ≤ 1 / 2 * 2 ^ p.place q := herror
    _ = 2 ^ p.place q / 2 := by ring

theorem place_le {k : Int} (hq : q ≠ 0) (hk : p.leastExponent ≤ k)
    (h : |q| < 2 ^ (k + p.fractionBits + 1)) : p.place q ≤ k := by
  have hlog := floorLog_lt (abs_pos.mpr hq) h
  rw [place]
  omega

/-- The number is below what a significand at its last place can reach. -/
theorem abs_lt_of_place (hq : q ≠ 0) : |q| < 2 ^ (p.place q + p.fractionBits + 1) := by
  refine lt_of_lt_of_le (lt_zpow_floorLog (abs_pos.mpr hq)) (zpow_le_iff.mpr ?_)
  rw [place]
  omega

/-- The multiple of a last place is found exactly. -/
theorem rounded_of_dvd {n : Int} (h : q = n * 2 ^ p.place q) : p.rounded q = q := by
  have hpos : (0 : ℚ) < 2 ^ p.place q := by positivity
  have hquotient : q / 2 ^ p.place q = n := (div_eq_iff hpos.ne').mpr h
  rw [rounded, hquotient, nearestEven_intCast, ← h]

theorem rounded_of_representable (h : p.Representable q) : p.rounded q = q := by
  rcases h with ⟨m, k, hk, hm, rfl⟩
  by_cases hzero : m = 0
  · rw [hzero, Int.cast_zero, zero_mul, rounded_zero]
  have hne : (m : ℚ) * 2 ^ k ≠ 0 := mul_ne_zero (by exact_mod_cast hzero) (by positivity)
  -- It suffices that the last place divides a power of two that divides the number.
  have hexact {n j : Int} (heq : (m : ℚ) * 2 ^ k = n * 2 ^ j)
      (hle : p.place (m * 2 ^ k) ≤ j) : p.rounded (m * 2 ^ k) = m * 2 ^ k := by
    refine rounded_of_dvd (n := n * 2 ^ (j - p.place (m * 2 ^ k)).toNat) ?_
    have hexponent : j = (j - p.place (m * 2 ^ k)).toNat + p.place (m * 2 ^ k) := by omega
    rw [heq]
    conv_lhs => rw [hexponent, zpow_add₀ two_ne_zero, zpow_natCast, ← mul_assoc]
    rw [← heq]
    push_cast
    rfl
  have hsize : |(m : ℚ) * 2 ^ k| = |m| * 2 ^ k := by
    rw [abs_mul, abs_of_pos (by positivity : (0 : ℚ) < 2 ^ k), Int.cast_abs]
  have hpow : (2 : ℚ) ^ (k + p.fractionBits + 1) =
      ((2 ^ (p.fractionBits + 1) : Int) : ℚ) * 2 ^ k := by
    rw [two_pow_mul_zpow]
    push_cast
    rw [add_assoc]
  rcases lt_or_eq_of_le hm with hlt | heq
  · refine hexact rfl (place_le hne hk ?_)
    rw [hsize, hpow]
    exact mul_lt_mul_of_pos_right (by exact_mod_cast hlt) (by positivity)
  · -- A significand of one bit too many is a power of two, whose last bit is not needed.
    have hhalf : ∃ n : Int, m = n * 2 := by
      refine ⟨m.sign * 2 ^ p.fractionBits, ?_⟩
      rw [mul_assoc, ← pow_succ, ← heq, Int.sign_mul_abs]
    rcases hhalf with ⟨n, rfl⟩
    refine hexact (n := n) (j := k + 1) ?_ (place_le hne (by omega) ?_)
    · rw [zpow_add_one₀ two_ne_zero]
      push_cast
      ring
    · rw [hsize, heq, ← hpow]
      exact zpow_lt_iff.mpr (by omega)

/-- Rounding to a multiple of the last place takes no more bits than there are. -/
theorem nearestEven_quotient_le (hq : 0 < q) :
    nearestEven (q / 2 ^ p.place q) ≤ 2 ^ (p.fractionBits + 1) := by
  have hpos : (0 : ℚ) < 2 ^ p.place q := by positivity
  have hquotient : q / 2 ^ p.place q ≤ ((2 ^ (p.fractionBits + 1) : Int) : ℚ) := by
    rw [div_le_iff₀ hpos, two_pow_mul_zpow]
    have hlt := abs_lt_of_place (p := p) hq.ne'
    rw [abs_of_pos hq, add_assoc] at hlt
    exact_mod_cast hlt.le
  have hmono := nearestEven_mono hquotient
  rwa [nearestEven_intCast] at hmono

/-- It takes all of them if the place is not the least one. -/
theorem le_nearestEven_quotient (hq : 0 < q) (h : p.leastExponent < p.place q) :
    2 ^ p.fractionBits ≤ nearestEven (q / 2 ^ p.place q) := by
  have hpos : (0 : ℚ) < 2 ^ p.place q := by positivity
  have hquotient : ((2 ^ p.fractionBits : Int) : ℚ) ≤ q / 2 ^ p.place q := by
    rw [le_div_iff₀ hpos, two_pow_mul_zpow]
    refine le_trans (zpow_le_iff.mpr ?_) (zpow_floorLog_le hq)
    rw [place, abs_of_pos hq] at h ⊢
    omega
  have hmono := nearestEven_mono hquotient
  rwa [nearestEven_intCast] at hmono

theorem rounded_nonneg (h : 0 ≤ q) : 0 ≤ p.rounded q := by
  have hnonneg : 0 ≤ nearestEven (q / 2 ^ p.place q) := nearestEven_nonneg (by positivity)
  exact mul_nonneg (by exact_mod_cast hnonneg) (by positivity)

theorem Representable.neg (h : p.Representable q) : p.Representable (-q) := by
  rcases h with ⟨m, k, hk, hm, rfl⟩
  refine ⟨-m, k, hk, by rwa [abs_neg], ?_⟩
  push_cast
  ring

theorem representable_zero : p.Representable 0 :=
  ⟨0, p.leastExponent, le_refl _, by rw [abs_zero]; positivity, by rw [Int.cast_zero, zero_mul]⟩

theorem representable_rounded (q : ℚ) : p.Representable (p.rounded q) := by
  have hpositive {q : ℚ} (hq : 0 < q) : p.Representable (p.rounded q) := by
    refine ⟨_, p.place q, le_max_left _ _, abs_le.mpr ⟨?_, nearestEven_quotient_le hq⟩, rfl⟩
    have hnonneg : 0 ≤ nearestEven (q / 2 ^ p.place q) := nearestEven_nonneg (by positivity)
    linarith [show (0 : Int) ≤ 2 ^ (p.fractionBits + 1) by positivity]
  rcases lt_trichotomy q 0 with hneg | rfl | hpos
  · have hopposite := (hpositive (neg_pos.mpr hneg)).neg
    rwa [rounded_neg, neg_neg] at hopposite
  · rw [rounded_zero]
    exact representable_zero
  · exact hpositive hpos

/-- Between two places lies a power of two, which the lower number does not get
    beyond and the greater one does not fall below. -/
theorem rounded_mono_of_nonneg {r : ℚ} (hq : 0 < q) (hqr : q ≤ r) :
    p.rounded q ≤ p.rounded r := by
  have hr : 0 < r := lt_of_lt_of_le hq hqr
  have hlog : floorLog 2 |q| ≤ floorLog 2 |r| := by
    rw [abs_of_pos hq, abs_of_pos hr]
    exact le_floorLog hr (le_trans (zpow_floorLog_le hq) hqr)
  by_cases hplace : p.place q = p.place r
  · have hpos : (0 : ℚ) < 2 ^ p.place r := by positivity
    rw [rounded, rounded, hplace]
    refine mul_le_mul_of_nonneg_right ?_ hpos.le
    exact_mod_cast nearestEven_mono (div_le_div_of_nonneg_right hqr hpos.le)
  · have hlt : p.place q < p.place r := by
      simp only [place] at hplace ⊢
      omega
    have hgt : p.leastExponent < p.place r := lt_of_le_of_lt (le_max_left _ _) hlt
    have hposq : (0 : ℚ) < 2 ^ p.place q := by positivity
    have hposr : (0 : ℚ) < 2 ^ p.place r := by positivity
    calc p.rounded q
        ≤ ((2 ^ (p.fractionBits + 1) : Int) : ℚ) * 2 ^ p.place q :=
          mul_le_mul_of_nonneg_right (by exact_mod_cast nearestEven_quotient_le hq) hposq.le
      _ = 2 ^ (p.place q + (p.fractionBits + 1 : Nat)) := two_pow_mul_zpow _ _
      _ ≤ 2 ^ (p.place r + p.fractionBits) := zpow_le_iff.mpr (by push_cast; omega)
      _ = ((2 ^ p.fractionBits : Int) : ℚ) * 2 ^ p.place r := (two_pow_mul_zpow _ _).symm
      _ ≤ p.rounded r :=
          mul_le_mul_of_nonneg_right (by exact_mod_cast le_nearestEven_quotient hr hgt) hposr.le

theorem rounded_mono {r : ℚ} (h : q ≤ r) : p.rounded q ≤ p.rounded r := by
  rcases lt_or_ge 0 q with hq | hq
  · exact rounded_mono_of_nonneg hq h
  rcases lt_or_ge r 0 with hr | hr
  · have hmono := rounded_mono_of_nonneg (p := p) (neg_pos.mpr hr) (neg_le_neg h)
    rw [rounded_neg, rounded_neg] at hmono
    exact neg_le_neg_iff.mp hmono
  · have hlow := rounded_nonneg (p := p) (neg_nonneg.mpr hq)
    rw [rounded_neg] at hlow
    linarith [rounded_nonneg (p := p) hr]

/-- A bound that needs no rounding stays a bound. -/
theorem abs_rounded_le {B : ℚ} (hB : p.Representable B) (h : |q| ≤ B) : |p.rounded q| ≤ B := by
  rw [abs_le] at h ⊢
  have hlow := rounded_mono (p := p) h.1
  have hhigh := rounded_mono (p := p) h.2
  rw [rounded_neg, rounded_of_representable hB] at hlow
  rw [rounded_of_representable hB] at hhigh
  exact ⟨hlow, hhigh⟩

/-- An error bounded by a bound on the number, if there are bits below the bound. -/
theorem abs_rounded_sub_le_div {B : ℚ} (hB : 2 ^ (p.leastExponent + p.fractionBits) ≤ B)
    (h : |q| ≤ B) : |p.rounded q - q| ≤ B / 2 ^ (p.fractionBits + 1) := by
  have hle {k : Int} (hk : 2 ^ (k + p.fractionBits) ≤ B) :
      (2 : ℚ) ^ k / 2 ≤ B / 2 ^ (p.fractionBits + 1) := by
    rw [le_div_iff₀ (by positivity)]
    refine le_trans (le_of_eq ?_) hk
    rw [zpow_add₀ two_ne_zero, zpow_natCast, pow_succ]
    ring
  by_cases hq : q = 0
  · rw [hq, rounded_zero, sub_self, abs_zero]
    exact div_nonneg (le_trans (by positivity) hB) (by positivity)
  refine le_trans (abs_rounded_sub_le q) (hle ?_)
  rw [place]
  rcases max_choice p.leastExponent (floorLog 2 |q| - p.fractionBits) with heq | heq
  · rwa [heq]
  · rw [heq, sub_add_cancel]
    exact le_trans (zpow_floorLog_le (abs_pos.mpr hq)) h

/-- The same for a bound that is a power of two, which is itself not rounded. -/
theorem abs_rounded_sub_le_zpow {k : Int} (hk : p.leastExponent + p.fractionBits + 1 ≤ k)
    (h : |q| ≤ 2 ^ k) : |p.rounded q - q| ≤ 2 ^ (k - p.fractionBits - 2) := by
  by_cases hq : q = 0
  · rw [hq, rounded_zero, sub_self, abs_zero]
    positivity
  rcases lt_or_eq_of_le h with hlt | heq
  · have hplace : p.place q ≤ k - p.fractionBits - 1 :=
      place_le hq (by omega) (by rwa [show k - p.fractionBits - 1 + p.fractionBits + 1 = k by ring])
    refine le_trans (abs_rounded_sub_le q) ?_
    rw [div_le_iff₀ two_pos, ← zpow_add_one₀ two_ne_zero]
    exact zpow_le_iff.mpr (by omega)
  · rw [rounded_of_representable, sub_self, abs_zero]
    · positivity
    · refine ⟨if 0 ≤ q then 1 else -1, k, by omega, ?_, ?_⟩
      · have hone : (1 : Int) ≤ 2 ^ (p.fractionBits + 1) := one_le_pow₀ (by norm_num)
        split
        · rwa [abs_one]
        · rwa [abs_neg, abs_one]
      · split
        · next hnonneg => rw [← heq, abs_of_nonneg hnonneg, Int.cast_one, one_mul]
        · next hneg =>
          rw [← heq, abs_of_neg (not_le.mp hneg)]
          push_cast
          ring

/-- Scaling by a power of two moves bits out of a significand only below the least
    place. -/
theorem abs_rounded_scaled_le (h : p.Representable q) (j : Int) :
    |p.rounded (q * 2 ^ j) - q * 2 ^ j| ≤ 2 ^ p.leastExponent / 2 := by
  rcases h with ⟨m, k, hk, hm, rfl⟩
  have hscaled : (m : ℚ) * 2 ^ k * 2 ^ j = m * 2 ^ (k + j) := by
    rw [zpow_add₀ two_ne_zero, mul_assoc]
  rw [hscaled]
  by_cases hfits : p.leastExponent ≤ k + j
  · rw [rounded_of_representable ⟨m, k + j, hfits, hm, rfl⟩, sub_self, abs_zero]
    positivity
  by_cases hzero : (m : ℚ) * 2 ^ (k + j) = 0
  · rw [hzero, rounded_zero, sub_self, abs_zero]
    positivity
  · -- So small a number has its last bit at the least place.
    have hplace : p.place (m * 2 ^ (k + j)) ≤ p.leastExponent := by
      refine place_le hzero (le_refl _) ?_
      rw [abs_mul, abs_of_pos (by positivity : (0 : ℚ) < 2 ^ (k + j)), ← Int.cast_abs]
      calc ((|m| : Int) : ℚ) * 2 ^ (k + j)
          ≤ ((2 ^ (p.fractionBits + 1) : Int) : ℚ) * 2 ^ (k + j) :=
            mul_le_mul_of_nonneg_right (by exact_mod_cast hm) (by positivity)
        _ = 2 ^ (k + j + (p.fractionBits + 1 : Nat)) := two_pow_mul_zpow _ _
        _ < 2 ^ (p.leastExponent + p.fractionBits + 1) :=
            zpow_lt_iff.mpr (by push_cast; omega)
    have hle := zpow_le_iff.mpr hplace
    linarith [abs_rounded_sub_le (p := p) ((m : ℚ) * 2 ^ (k + j))]

end Precision

end KlvMetadata
