import KlvMetadata.Format.Imap
import KlvMetadata.Proofs.Floating.Multiples
import KlvMetadata.Proofs.Format.Steps

/-!
# Mapping in Floating Point

An integer is mapped to a number by counting powers of two from the lower end of the
range, and back by taking the end off again. What comes back is rounded down, with a
millionth of a step to spare, so it must not fall short by more than this.

It does not if the numbers on the way are not too great for the step (`Imap.Resolves`).
Below so many steps that a last place is a quarter of a millionth, four results are rounded
and each loses half of a place. Above this the calculation has to be exact, or what it loses
has to be restored. It is exact if the lower end is a whole multiple of a last place: then
so is everything that is added or taken off, whatever offset there is. And a negative end
takes with it what it lost, since the number is closer to zero than the steps are.

## Main definitions

* `Imap.step`: What a step amounts to.
* `Imap.start`, `Imap.offset`: The lower end in steps, and what it is above a whole number.
* `Imap.Resolves`: A step is not lost next to the numbers on the way.
* `Imap.Close`: The calculation leads back to the integer, but for a millionth.

## Theorems

* `Imap.quantize_eq`: What is close to an integer is taken for it.
* `Imap.Resolves.close_of_coarse`, `close_of_multiple`, `close_of_negative`: The three ways
  to stay close.
* `Imap.Resolves.excludes_eq_false`: What is in the range is not refused.
-/

namespace KlvMetadata

open Precision

namespace Imap

/-- A number within a millionth of an integer is taken for it. -/
theorem quantize_eq {x : Binary64} {a : ℚ} {n : Int} (hx : x.StandsFor a)
    (hclose : |a - n| ≤ 1 / 1000000) (hsize : |a| ≤ 2 ^ (1022 : Int)) :
    (quantize x).StandsFor n := by
  have hnear : Binary64.nearestAway a = n :=
    nearestAway_eq (lt_of_le_of_lt hclose (by norm_num))
  have hround := hx.round hsize
  rw [hnear] at hround
  have hsmall {q : ℚ} (hq : |q| ≤ 1 / 1000000) : |q| < 2 ^ (1023 : Int) :=
    lt_of_le_of_lt hq (lt_trans (by norm_num) (one_lt_zpow₀ one_lt_two (by decide)))
  have hdistance := (hx.sub hround (hsmall hclose)).abs
  have hsnap := Binary64.standsFor_ofRat false (hsmall (q := 1 / 1000000) (by norm_num))
  -- Rounding keeps the distance below the one that is allowed.
  have hle : |double.rounded (a - n)| ≤ double.rounded (1 / 1000000) := by
    rw [abs_le] at hclose ⊢
    rw [← rounded_neg]
    exact ⟨rounded_mono hclose.1, rounded_mono hclose.2⟩
  have hless : snapDistance.less (x - x.round).abs = false := by
    rw [Bool.eq_false_iff]
    exact fun h => absurd ((hsnap.less_iff hdistance).mp h) (not_lt.mpr hle)
  unfold quantize
  dsimp only
  rw [hdistance.isNaN_eq, hless, Bool.or_self, if_neg Bool.false_ne_true]
  exact hround

/-- The exponent of a step. -/
def stepBits (r : Range) (length : Nat) : Int := extentBits r - fieldBits length

/-- What a step amounts to. -/
def step (r : Range) (length : Nat) : ℚ := 2 ^ stepBits r length

/-- How far from zero the numbers on the way can get. -/
def reach (r : Range) (length raw : Nat) : ℚ := |r.minimum.toRat| + (raw + 1) * step r length

/-- A step is not lost next to the numbers on the way. This is for one of three reasons: last
    places are below a millionth of a step, or they divide the step and the lower end, or the
    lower end is a negative one, so that what it loses is restored. For the last, zero has
    to be in the range or above the number. -/
structure Resolves (r : Range) (length raw : Nat) : Prop where
  minimum_isFinite : r.minimum.isFinite = true
  maximum_isFinite : r.maximum.isFinite = true
  maximum_le : |r.maximum.toRat| ≤ 2 ^ (1021 : Int)
  le_stepBits : -1022 ≤ stepBits r length
  reach_le : reach r length raw ≤ 2 ^ (1021 : Int)
  precise : reach r length raw ≤ 2 ^ 32 * step r length ∨
    (∃ j, -1074 ≤ j ∧ j ≤ stepBits r length ∧ Multiple j r.minimum.toRat ∧
      reach r length raw ≤ 2 ^ (j + 53)) ∨
    (r.minimum.toRat ≤ -step r length ∧ reach r length raw ≤ 2 ^ 50 * step r length ∧
      (0 < r.maximum.toRat ∨ r.minimum.toRat + raw * step r length ≤ 0))

/-- The number that an integer stands for, if it is no special pattern. -/
def located (r : Range) (length raw : Nat) : Binary64 :=
  (scale r length).reverse * (.ofInt raw - (scale r length).zeroOffset) + r.minimum

/-- A number as so many steps. -/
def scaled (r : Range) (length : Nat) (x : Binary64) : Binary64 :=
  (scale r length).forward * (x - r.minimum) + (scale r length).zeroOffset

variable {r : Range} {length raw : Nat}

theorem step_pos (r : Range) (length : Nat) : 0 < step r length := by
  rw [step]
  positivity

/-- The lower end as so many steps. -/
def start (r : Range) (length : Nat) : ℚ := r.minimum.toRat * 2 ^ (-stepBits r length)

theorem start_mul_step (r : Range) (length : Nat) :
    start r length * step r length = r.minimum.toRat := by
  rw [start, step, mul_assoc, ← zpow_add₀ two_ne_zero, neg_add_cancel, zpow_zero, mul_one]

theorem abs_start_mul_step (r : Range) (length : Nat) :
    |start r length| * step r length = |r.minimum.toRat| := by
  rw [← start_mul_step r length, abs_mul, abs_of_pos (step_pos r length)]

/-- What the lower end is above a multiple of the step, where this counts. -/
def offset (r : Range) (length : Nat) : ℚ :=
  if r.minimum.less .zero && Binary64.zero.less r.maximum then
    double.rounded (double.rounded (start r length) - (double.rounded (start r length)).floor)
  else 0

theorem abs_sub_floor_le (q : ℚ) : |q - q.floor| ≤ 2 ^ (0 : Int) := by
  have hbelow := Rat.floor_le q
  have habove := Rat.lt_floor_add_one q
  push_cast at habove
  rw [zpow_zero]
  exact abs_le.mpr ⟨by linarith, by linarith⟩

/-- The offset is no more than a step. -/
theorem offset_bounds (r : Range) (length : Nat) : 0 ≤ offset r length ∧ offset r length ≤ 1 := by
  rw [offset]
  split
  · generalize double.rounded (start r length) = q
    have hbelow := Rat.floor_le q
    have hle := abs_rounded_le (representable_zpow (k := 0) (by decide)) (abs_sub_floor_le q)
    rw [zpow_zero] at hle
    exact ⟨rounded_nonneg (by linarith), le_of_abs_le hle⟩
  · exact ⟨le_refl 0, zero_le_one⟩

/-- The offset is found exactly if the start is not too far from zero. -/
theorem offset_eq {i : Int} (hi : -53 ≤ i) (hle : i ≤ 0) (hstart : Multiple i (start r length))
    (hsize : |start r length| ≤ 2 ^ (i + 53)) :
    offset r length = if r.minimum.less .zero && Binary64.zero.less r.maximum then
      start r length - (start r length).floor else 0 := by
  rw [offset, hstart.rounded_eq (by omega) hsize,
    (hstart.sub (multiple_intCast (start r length).floor hle)).rounded_eq (by omega)
      (le_trans (abs_sub_floor_le _) (zpow_le_iff.mpr (by omega)))]

theorem multiple_offset {i : Int} (hi : -53 ≤ i) (hle : i ≤ 0)
    (hstart : Multiple i (start r length)) (hsize : |start r length| ≤ 2 ^ (i + 53)) :
    Multiple i (offset r length) := by
  rw [offset_eq hi hle hstart hsize]
  split
  · exact hstart.sub (multiple_intCast (start r length).floor hle)
  · exact ⟨0, by rw [Int.cast_zero, zero_mul]⟩

namespace Resolves

theorem abs_minimum_le (_ : Resolves r length raw) :
    |r.minimum.toRat| + step r length + raw * step r length ≤ reach r length raw := by
  rw [reach]
  linarith

theorem stepBits_le (h : Resolves r length raw) : stepBits r length ≤ 1022 := by
  have hpos := step_pos r length
  have hraw : 0 ≤ (raw : ℚ) * step r length := by positivity
  have hle := le_trans h.abs_minimum_le h.reach_le
  have hbits := zpow_le_iff.mp (show step r length ≤ 2 ^ (1021 : Int) by
    linarith [abs_nonneg r.minimum.toRat])
  omega

/-- In steps, no number on the way is too great for a significand. -/
theorem reach_le_steps (h : Resolves r length raw) :
    reach r length raw ≤ 2 ^ 53 * step r length := by
  rcases h.precise with hcoarse | ⟨j, _, hj, _, hle⟩ | ⟨_, hsteps, _⟩
  · linarith [step_pos r length]
  · refine le_trans hle ?_
    rw [step, add_comm, zpow_add₀ two_ne_zero]
    exact mul_le_mul_of_nonneg_left (zpow_le_iff.mpr hj) (by positivity)
  · linarith [step_pos r length]

theorem standsFor_forward (h : Resolves r length raw) :
    (scale r length).forward.StandsFor (2 ^ (-stepBits r length)) := by
  have hle := h.stepBits_le
  have hge := h.le_stepBits
  have hshift : fieldBits length - extentBits r = -stepBits r length := by
    unfold stepBits
    omega
  have hforward : (scale r length).forward = Binary64.exp2 (-stepBits r length) :=
    congrArg Binary64.exp2 hshift
  rw [hforward]
  exact Binary64.standsFor_exp2 (by omega) (by omega)

theorem standsFor_reverse (h : Resolves r length raw) :
    (scale r length).reverse.StandsFor (step r length) := by
  have hle := h.stepBits_le
  have hge := h.le_stepBits
  have hshift : -(fieldBits length - extentBits r) = stepBits r length := by
    unfold stepBits
    omega
  have hreverse : (scale r length).reverse = Binary64.exp2 (stepBits r length) :=
    congrArg Binary64.exp2 hshift
  rw [hreverse]
  exact Binary64.standsFor_exp2 (by omega) (by omega)

theorem standsFor_minimum (h : Resolves r length raw) : r.minimum.StandsFor r.minimum.toRat :=
  Binary64.standsFor_toRat h.minimum_isFinite

theorem crosses_iff (h : Resolves r length raw) :
    (r.minimum.less .zero && Binary64.zero.less r.maximum) = true ↔
      r.minimum.toRat < 0 ∧ 0 < r.maximum.toRat := by
  rw [Bool.and_eq_true, h.standsFor_minimum.less_iff Binary64.standsFor_zero,
    Binary64.standsFor_zero.less_iff (Binary64.standsFor_toRat h.maximum_isFinite)]

theorem abs_start_le (h : Resolves r length raw) : |start r length| ≤ 2 ^ 53 := by
  have hpos := step_pos r length
  have hraw : 0 ≤ (raw : ℚ) * step r length := by positivity
  have hle := le_trans h.abs_minimum_le h.reach_le_steps
  refine le_of_mul_le_mul_right ?_ hpos
  rw [abs_start_mul_step]
  linarith

theorem standsFor_zeroOffset (h : Resolves r length raw) :
    (scale r length).zeroOffset.StandsFor (offset r length) := by
  have hzero : (scale r length).zeroOffset =
      if r.minimum.less .zero && Binary64.zero.less r.maximum then
        (scale r length).forward * r.minimum - ((scale r length).forward * r.minimum).floor
      else .zero := rfl
  have hstart : ((scale r length).forward * r.minimum).StandsFor
      (double.rounded (start r length)) := by
    have hproduct := h.standsFor_forward.mul h.standsFor_minimum
    rw [mul_comm (2 ^ (-stepBits r length)), ← start] at hproduct
    exact hproduct (abs_lt_of_countable (le_trans h.abs_start_le (by norm_num)))
  rw [hzero, offset]
  split
  · have hsize := abs_rounded_le (representable_zpow (k := 53) (by decide)) h.abs_start_le
    refine hstart.sub (hstart.floor (le_trans hsize (zpow_le_iff.mpr (by decide)))) ?_
    exact lt_of_le_of_lt (abs_sub_floor_le _) (zpow_lt_iff.mpr (show (0 : Int) < 1023 by decide))
  · exact Binary64.standsFor_zero

/-- Twice as far from zero there still are numbers. -/
theorem room (h : Resolves r length raw) {q : ℚ} (hq : |q| ≤ 2 * reach r length raw) :
    |q| < 2 ^ (1023 : Int) := by
  have hreach := h.reach_le
  have hpos : (0 : ℚ) < 2 ^ (1021 : Int) := by positivity
  rw [show (1023 : Int) = 1021 + 1 + 1 from rfl, zpow_add_one₀ two_ne_zero,
    zpow_add_one₀ two_ne_zero]
  generalize (2 : ℚ) ^ (1021 : Int) = T at *
  linarith

/-- The integer is a number of its own. -/
theorem standsFor_raw (h : Resolves r length raw) :
    ((raw : ℚ) + 1 ≤ 2 ^ 53) ∧ (Binary64.ofInt raw).StandsFor raw := by
  have hpos := step_pos r length
  have hle : (raw : ℚ) + 1 ≤ 2 ^ 53 := by
    refine le_of_mul_le_mul_right ?_ hpos
    linarith [h.abs_minimum_le, h.reach_le_steps, abs_nonneg r.minimum.toRat]
  have hraw : raw + 1 ≤ 2 ^ 53 := by exact_mod_cast hle
  have hstands := Binary64.standsFor_ofInt (n := raw) (by rw [Nat.abs_cast]; omega)
  rw [Int.cast_natCast] at hstands
  exact ⟨hle, hstands⟩

/-- So many steps and one more are a number as well, also if they are taken for the place. -/
theorem representable_succ (h : Resolves r length raw) {k : Int} (hk : -1074 ≤ k) :
    double.Representable ((raw + 1) * 2 ^ k) := by
  refine ⟨raw + 1, k, hk, ?_, by push_cast; rfl⟩
  have hcount := h.standsFor_raw.1
  have hcount' : raw + 1 ≤ 2 ^ 53 := by exact_mod_cast hcount
  rw [fractionBits_double, abs_of_nonneg (by omega)]
  omega

end Resolves

/-- The integer's number, taken for so many steps, is close to the integer. -/
def Close (r : Range) (length raw : Nat) : Prop :=
  ∃ x a, (located r length raw).StandsFor x ∧
    (scaled r length (located r length raw)).StandsFor a ∧ |a - raw| ≤ 1 / 1000000

/-- Where everything is a multiple of the same part of a step, the calculation is the same in
    steps as it is in numbers. -/
theorem Resolves.close_of_restored (h : Resolves r length raw) {i : Int} (hi : -1074 ≤ i)
    (hle : i ≤ 0) (hplace : -1074 ≤ i + stepBits r length) (hstart : Multiple i (start r length))
    (hoffset : Multiple i (offset r length))
    (hadd : double.rounded (double.rounded (double.rounded (raw - offset r length) +
      start r length) - start r length) = double.rounded (raw - offset r length))
    (hsub : double.rounded (double.rounded (raw - offset r length) + offset r length) = raw) :
    Close r length raw := by
  have hpos := step_pos r length
  have hparts := h.abs_minimum_le
  have hraw : 0 ≤ (raw : ℚ) * step r length := by positivity
  have hlow := abs_nonneg r.minimum.toRat
  rcases h.standsFor_raw with ⟨hcount, hy⟩
  have hz := h.standsFor_zeroOffset
  rcases offset_bounds r length with ⟨hz0, hz1⟩
  generalize offset r length = z at hz hz0 hz1 hoffset hadd hsub
  have hrawplace : Multiple i raw := by
    have hrawplace := multiple_intCast raw hle
    rwa [Int.cast_natCast] at hrawplace
  have hdiff : |(raw : ℚ) - z| ≤ raw + 1 := abs_le.mpr ⟨by linarith, by linarith⟩
  have ht := hy.sub hz (abs_lt_of_countable (by linarith))
  have htplace := (hrawplace.sub hoffset).rounded
  have htmost := abs_rounded_le (h.representable_succ (k := 0) (by decide))
    (by rwa [zpow_zero, mul_one] : |(raw : ℚ) - z| ≤ (raw + 1) * 2 ^ (0 : Int))
  rw [zpow_zero, mul_one] at htmost
  generalize double.rounded (raw - z) = t at ht htplace htmost hadd hsub
  have hsteps : |t * step r length| ≤ raw * step r length + step r length := by
    rw [abs_mul, abs_of_pos hpos]
    linarith [mul_le_mul_of_nonneg_right htmost hpos.le]
  -- The steps are scaled and added to the lower end.
  have hw := h.standsFor_reverse.mul ht (by
    rw [mul_comm]
    exact h.room (by linarith))
  rw [mul_comm, step, htplace.rounded_mul_zpow hi hplace,
    rounded_of_representable ht.representable, ← step] at hw
  have hsum : |t * step r length + r.minimum.toRat| ≤ reach r length raw :=
    le_trans (abs_add_le _ _) (by linarith)
  have hx := hw.add h.standsFor_minimum (h.room (by linarith))
  have hxmost := abs_rounded_le (representable_zpow (by decide)) (le_trans hsum h.reach_le)
  rw [← start_mul_step r length, ← add_mul, step,
    (htplace.add hstart).rounded_mul_zpow hi hplace, ← step] at hx hxmost
  -- The lower end is taken off again.
  have hu := hx.sub h.standsFor_minimum (by
    have hminmost := le_trans (show |r.minimum.toRat| ≤ reach r length raw by linarith) h.reach_le
    refine lt_of_le_of_lt (le_trans (abs_sub _ _) (add_le_add hxmost hminmost)) ?_
    rw [← two_mul, mul_comm, ← zpow_add_one₀ two_ne_zero]
    exact zpow_lt_iff.mpr (by decide))
  rw [← start_mul_step r length, ← sub_mul, step,
    ((htplace.add hstart).rounded.sub hstart).rounded_mul_zpow hi hplace, hadd] at hu
  have hscaled : 2 ^ (-stepBits r length) * (t * 2 ^ stepBits r length) = t := by
    rw [mul_left_comm, ← zpow_add₀ two_ne_zero, neg_add_cancel, zpow_zero, mul_one]
  have hv := h.standsFor_forward.mul hu (by
    rw [hscaled]
    exact abs_lt_of_countable (by linarith))
  rw [hscaled, rounded_of_representable ht.representable] at hv
  have ha := hv.add hz (by
    rcases abs_le.mp htmost with ⟨htlow, hthigh⟩
    exact abs_lt_of_countable (abs_le.mpr ⟨by linarith, by linarith⟩))
  rw [hsub] at ha
  exact ⟨_, _, hx, ha, by norm_num⟩

/-- Where all numbers are multiples of a place, nothing is lost. -/
theorem Resolves.close_of_multiple (h : Resolves r length raw) {j : Int} (hj : -1074 ≤ j)
    (hle : j ≤ stepBits r length) (hmin : Multiple j r.minimum.toRat)
    (hreach : reach r length raw ≤ 2 ^ (j + 53)) : Close r length raw := by
  have hpos := step_pos r length
  have hparts := h.abs_minimum_le
  have hraw : 0 ≤ (raw : ℚ) * step r length := by positivity
  have hlow := abs_nonneg r.minimum.toRat
  rcases offset_bounds r length with ⟨hz0, hz1⟩
  -- The same place as a part of a step.
  obtain ⟨i, hi⟩ : ∃ i, i + stepBits r length = j := ⟨j - stepBits r length, by omega⟩
  have hbits : -53 ≤ i := by
    have hbits := zpow_le_iff.mp (show step r length ≤ 2 ^ (j + 53) by linarith)
    omega
  have hstart := hmin.mul_zpow (-stepBits r length)
  rw [← hi, add_neg_cancel_right, ← start] at hstart
  have hsteps : |start r length| + raw + 1 ≤ 2 ^ (i + 53) := by
    refine le_of_mul_le_mul_right ?_ hpos
    rw [step, ← zpow_add₀ two_ne_zero, add_right_comm i, hi, ← step, add_mul, add_mul,
      abs_start_mul_step]
    linarith
  have hfew := abs_nonneg (start r length)
  have hmany : (0 : ℚ) ≤ raw := Nat.cast_nonneg _
  have hoffset := multiple_offset hbits (by omega) hstart (by linarith)
  have hrawplace : Multiple i raw := by
    have hplace := multiple_intCast raw (show i ≤ 0 by omega)
    rwa [Int.cast_natCast] at hplace
  generalize hz : offset r length = z at hz0 hz1 hoffset
  have hdiff : |(raw : ℚ) - z| ≤ raw + 1 := abs_le.mpr ⟨by linarith, by linarith⟩
  have hexact : double.rounded (raw - z) = raw - z :=
    (hrawplace.sub hoffset).rounded_eq (by omega) (by linarith)
  refine h.close_of_restored (by omega) (by omega) (by omega) hstart (hz ▸ hoffset) ?_ ?_
  · have hsum := abs_add_le ((raw : ℚ) - z) (start r length)
    rw [hz, hexact, ((hrawplace.sub hoffset).add hstart).rounded_eq (by omega) (by linarith),
      add_sub_cancel_right, hexact]
  · rw [hz, hexact, sub_add_cancel, hrawplace.rounded_eq (by omega) (by
      rw [Nat.abs_cast]
      linarith)]

/-- The error of a result below so many steps, or so many numbers, is a part of one. -/
theorem abs_rounded_sub_le_scaled {q : ℚ} {k : Int} (hk : -1022 ≤ k) (h : |q| ≤ 2 ^ 32 * 2 ^ k) :
    |double.rounded q - q| ≤ 2 ^ k / 2 ^ 22 := by
  have hpow : (2 : ℚ) ^ 32 * 2 ^ k = 2 ^ (32 + k) := by
    rw [zpow_add₀ two_ne_zero]
    norm_num
  rw [hpow] at h
  refine le_trans (abs_rounded_sub_le_zpow (p := double) (by
    rw [leastExponent_double, fractionBits_double]
    omega) h) (le_of_eq ?_)
  rw [fractionBits_double, show 32 + k - ((52 : Nat) : Int) - 2 = k - 22 by omega,
    zpow_sub₀ two_ne_zero]
  norm_num

/-- What scaling loses is no part of a step. -/
theorem abs_scaled_sub_le {q : ℚ} (hq : double.Representable q) (j : Int) {k : Int}
    (hk : -1022 ≤ k) : |double.rounded (q * 2 ^ j) - q * 2 ^ j| ≤ 2 ^ k / 2 ^ 50 := by
  refine le_trans (abs_rounded_scaled_le hq j) ?_
  rw [leastExponent_double, le_div_iff₀ (by positivity)]
  refine le_trans (le_of_eq ?_) (zpow_le_iff.mpr (show (-1025 : Int) ≤ k by omega))
  rw [show (-1025 : Int) = -1074 + 49 by decide, zpow_add₀ two_ne_zero]
  generalize (2 : ℚ) ^ (-1074 : Int) = T
  norm_num
  ring

/-- The number is where it should be, but for two errors. -/
theorem Resolves.standsFor_located (h : Resolves r length raw)
    (hcoarse : reach r length raw ≤ 2 ^ 32 * step r length) :
    ∃ x, (located r length raw).StandsFor x ∧
      |x - (r.minimum.toRat + (raw - offset r length) * step r length)| ≤
        (1 / 2 ^ 21 + 1 / 2 ^ 50) * step r length := by
  have hz := h.standsFor_zeroOffset
  rcases offset_bounds r length with ⟨hz0, hz1⟩
  generalize offset r length = z at hz hz0 hz1 ⊢
  have hpos := step_pos r length
  have hbits := h.le_stepBits
  have hparts := h.abs_minimum_le
  have hraw : 0 ≤ (raw : ℚ) * step r length := by positivity
  have hlow := abs_nonneg r.minimum.toRat
  have hcount : (raw : ℚ) + 1 ≤ 2 ^ 32 := le_of_mul_le_mul_right (by linarith) hpos
  have hy0 : (0 : ℚ) ≤ raw := Nat.cast_nonneg _
  rcases h.standsFor_raw with ⟨_, hy⟩
  -- The offset is taken off.
  have hdiff : |(raw : ℚ) - z| ≤ raw + 1 := abs_le.mpr ⟨by linarith, by linarith⟩
  have ht := hy.sub hz (abs_lt_of_countable (by linarith))
  have hterror := abs_rounded_sub_le_scaled (k := 0) (by decide)
    (by rw [zpow_zero, mul_one]; linarith : |(raw : ℚ) - z| ≤ 2 ^ 32 * 2 ^ (0 : Int))
  have htmost := abs_rounded_le (h.representable_succ (k := 0) (by decide))
    (by rwa [zpow_zero, mul_one] : |(raw : ℚ) - z| ≤ (raw + 1) * 2 ^ (0 : Int))
  rw [zpow_zero] at hterror
  rw [zpow_zero, mul_one] at htmost
  generalize double.rounded (raw - z) = t at ht hterror htmost
  -- The steps are scaled and added to the lower end.
  have hsteps : |step r length * t| ≤ (raw + 1) * step r length := by
    rw [abs_mul, abs_of_pos hpos, mul_comm]
    exact mul_le_mul_of_nonneg_right htmost hpos.le
  have hw := h.standsFor_reverse.mul ht (h.room (by linarith))
  have hwerror := abs_scaled_sub_le ht.representable (stepBits r length) hbits
  have hwmost := abs_rounded_le (h.representable_succ (k := stepBits r length) (by omega)) hsteps
  rw [← step, mul_comm t] at hwerror
  rw [← step] at hwmost
  generalize double.rounded (step r length * t) = w at hw hwerror hwmost
  have hsum := abs_add_le w r.minimum.toRat
  have hx := hw.add h.standsFor_minimum (h.room (by linarith))
  have hxerror := abs_rounded_sub_le_scaled hbits (q := w + r.minimum.toRat)
    (by rw [← step]; linarith)
  rw [← step] at hxerror
  refine ⟨_, hx, ?_⟩
  rcases abs_le.mp hterror with ⟨htlow, hthigh⟩
  rcases abs_le.mp hwerror with ⟨hwlow, hwhigh⟩
  rcases abs_le.mp hxerror with ⟨hxlow, hxhigh⟩
  have htlow' := mul_le_mul_of_nonneg_right htlow hpos.le
  have hthigh' := mul_le_mul_of_nonneg_right hthigh hpos.le
  exact abs_le.mpr ⟨by linarith, by linarith⟩

/-- A number that is about so many steps is found to be that many, but for two errors. -/
theorem Resolves.standsFor_scaled (h : Resolves r length raw)
    (hcoarse : reach r length raw ≤ 2 ^ 32 * step r length) {x : Binary64} {d : ℚ}
    (hx : x.StandsFor (r.minimum.toRat + d * step r length))
    (hd : |d - (raw - offset r length)| ≤ 1 / 2) :
    ∃ a, (scaled r length x).StandsFor a ∧
      |a - (d + offset r length)| ≤ 1 / 2 ^ 21 + 1 / 2 ^ 50 := by
  have hz := h.standsFor_zeroOffset
  rcases offset_bounds r length with ⟨hz0, hz1⟩
  generalize offset r length = z at hz hz0 hz1 hd ⊢
  have hpos := step_pos r length
  have hbits := h.le_stepBits
  have hparts := h.abs_minimum_le
  have hraw : 0 ≤ (raw : ℚ) * step r length := by positivity
  have hlow := abs_nonneg r.minimum.toRat
  have hcount : (raw : ℚ) + 1 ≤ 2 ^ 32 := le_of_mul_le_mul_right (by linarith) hpos
  have hy0 : (0 : ℚ) ≤ raw := Nat.cast_nonneg _
  rcases abs_le.mp hd with ⟨hdlow, hdhigh⟩
  have hsize : |d * step r length| ≤ (raw + 3 / 2) * step r length := by
    rw [abs_mul, abs_of_pos hpos]
    exact mul_le_mul_of_nonneg_right (abs_le.mpr ⟨by linarith, by linarith⟩) hpos.le
  have hsteps : |d * step r length| ≤ 2 ^ 32 * step r length := by
    rw [abs_mul, abs_of_pos hpos]
    exact mul_le_mul_of_nonneg_right (abs_le.mpr ⟨by linarith, by linarith⟩) hpos.le
  -- The lower end is taken off.
  have hu := hx.sub h.standsFor_minimum (by
    rw [add_sub_cancel_left]
    exact h.room (by linarith))
  rw [add_sub_cancel_left] at hu
  have huerror := abs_rounded_sub_le_scaled hbits hsteps
  rw [← step] at huerror
  generalize double.rounded (d * step r length) = u at hu huerror
  -- What is left is counted in steps.
  have hback : |2 ^ (-stepBits r length) * u - d| ≤ 1 / 2 ^ 22 := by
    have hinverse : 2 ^ (-stepBits r length) * step r length = 1 := by
      rw [step, ← zpow_add₀ two_ne_zero, neg_add_cancel, zpow_zero]
    have hscaled := mul_le_mul_of_nonneg_left huerror
      (show (0 : ℚ) ≤ 2 ^ (-stepBits r length) by positivity)
    rw [← abs_of_pos (show (0 : ℚ) < 2 ^ (-stepBits r length) by positivity), ← abs_mul,
      abs_of_pos (show (0 : ℚ) < 2 ^ (-stepBits r length) by positivity), mul_sub,
      mul_left_comm, hinverse, mul_one, ← mul_div_assoc, hinverse] at hscaled
    exact hscaled
  rcases abs_le.mp hback with ⟨hblow, hbhigh⟩
  have hv := h.standsFor_forward.mul hu
    (abs_lt_of_countable (abs_le.mpr ⟨by linarith, by linarith⟩))
  have hverror := abs_scaled_sub_le hu.representable (-stepBits r length) (k := 0) (by decide)
  rw [zpow_zero, mul_comm u] at hverror
  generalize double.rounded (2 ^ (-stepBits r length) * u) = v at hv hverror
  rcases abs_le.mp hverror with ⟨hvlow, hvhigh⟩
  -- The offset is added again.
  have hfinal : |v + z| ≤ 2 ^ 32 := abs_le.mpr ⟨by linarith, by linarith⟩
  have ha := hv.add hz (abs_lt_of_countable (by linarith))
  have haerror := abs_rounded_sub_le_scaled (k := 0) (by decide) (by rwa [zpow_zero, mul_one])
  rw [zpow_zero] at haerror
  rcases abs_le.mp haerror with ⟨halow, hahigh⟩
  exact ⟨_, ha, abs_le.mpr ⟨by linarith, by linarith⟩⟩

/-- Where last places are small parts of a step, four of them are not lost. -/
theorem Resolves.close_of_coarse (h : Resolves r length raw)
    (hcoarse : reach r length raw ≤ 2 ^ 32 * step r length) : Close r length raw := by
  have hpos := step_pos r length
  rcases h.standsFor_located hcoarse with ⟨x, hx, hxerror⟩
  obtain ⟨d, rfl⟩ : ∃ d, x = r.minimum.toRat + d * step r length :=
    ⟨(x - r.minimum.toRat) / step r length, by rw [div_mul_cancel₀ _ hpos.ne']; ring⟩
  have hd : |d - (raw - offset r length)| ≤ 1 / 2 ^ 21 + 1 / 2 ^ 50 := by
    rw [add_sub_add_left_eq_sub, ← sub_mul, abs_mul, abs_of_pos hpos] at hxerror
    exact le_of_mul_le_mul_right hxerror hpos
  rcases h.standsFor_scaled hcoarse hx (le_trans hd (by norm_num)) with ⟨a, ha, haerror⟩
  rcases abs_le.mp hd with ⟨hdlow, hdhigh⟩
  rcases abs_le.mp haerror with ⟨halow, hahigh⟩
  exact ⟨_, a, hx, ha, abs_le.mpr ⟨by linarith, by linarith⟩⟩

/-- The integer becomes whole again with the offset. -/
theorem rounded_sub_offset_add (hoffset : Multiple (-52) (offset r length))
    (hraw : (raw : ℚ) ≤ 2 ^ 50) :
    double.rounded (double.rounded (raw - offset r length) + offset r length) = raw := by
  rcases offset_bounds r length with ⟨hz0, hz1⟩
  rcases Nat.eq_zero_or_pos raw with rfl | hpos
  · have hzero := (multiple_intCast 0 (show -52 ≤ (0 : Int) by decide)).sub hoffset
    rw [Int.cast_zero] at hzero
    have hsize : |0 - offset r length| ≤ 2 ^ (-52 + 53 : Int) := by
      rw [zero_sub, abs_neg, abs_of_nonneg hz0]
      norm_num
      linarith
    rw [Nat.cast_zero, hzero.rounded_eq (by decide) hsize, sub_add_cancel, rounded_zero]
  · have hwhole := rounded_sub_add (n := raw) (by omega) (by exact_mod_cast hraw) hz0 hz1
    rwa [Int.cast_natCast] at hwhole

/-- The start is added and taken off. -/
theorem rounded_add_start_sub (hstart : double.Representable (start r length))
    (hlow : start r length ≤ -1) (hcount : -start r length + raw + 1 ≤ 2 ^ 50)
    (hplace : double.place (start r length) ≤ 0)
    (hoffset : offset r length = start r length - (start r length).floor ∨
      offset r length = 0 ∧ start r length + raw ≤ 0) :
    double.rounded (double.rounded (double.rounded (raw - offset r length) + start r length) -
      start r length) = double.rounded (raw - offset r length) := by
  rcases offset_bounds r length with ⟨hz0, hz1⟩
  have hmany : (0 : ℚ) ≤ raw := Nat.cast_nonneg _
  have hraw : raw ≤ 2 ^ 50 := by
    have hraw : (raw : ℚ) ≤ 2 ^ 50 := by linarith
    exact_mod_cast hraw
  rcases hoffset with heq | ⟨heq, hbelow⟩
  · have hrestored := rounded_add_sub (n := raw) hstart
      (show start r length = (start r length).floor + offset r length by rw [heq]; ring) hlow
      (by linarith) hz0 hz1 (by omega) (by omega)
    rwa [Int.cast_natCast] at hrestored
  · -- Below zero the sum has no more bits than the start.
    have hwhole : double.rounded (raw : ℚ) = raw := by
      have hwhole := rounded_of_representable (representable_intCast (n := raw)
        (by rw [Nat.abs_cast]; omega))
      rwa [Int.cast_natCast] at hwhole
    have hsum := (multiple_intCast raw hplace).add hstart.multiple
    rw [Int.cast_natCast] at hsum
    have hlt := abs_lt_zpow_place (show start r length ≠ 0 by linarith)
    rw [abs_of_neg (by linarith)] at hlt
    have hexact := hsum.rounded_eq (least_le_place _)
      (le_trans (show |(raw : ℚ) + start r length| ≤ -start r length from
        abs_le.mpr ⟨by linarith, by linarith⟩) hlt.le)
    rw [heq, sub_zero, hwhole, hexact, add_sub_cancel_right, hwhole]

/-- What is lost next to a negative end is found again. -/
theorem Resolves.close_of_negative (h : Resolves r length raw)
    (hlow : r.minimum.toRat ≤ -step r length) (hreach : reach r length raw ≤ 2 ^ 50 * step r length)
    (hzero : 0 < r.maximum.toRat ∨ r.minimum.toRat + raw * step r length ≤ 0) :
    Close r length raw := by
  have hpos := step_pos r length
  have hparts := h.abs_minimum_le
  have hraw : 0 ≤ (raw : ℚ) * step r length := by positivity
  have hbits := h.le_stepBits
  have hlow' : start r length ≤ -1 := by
    refine le_of_mul_le_mul_right ?_ hpos
    rw [start_mul_step]
    linarith
  have hcount : |start r length| + raw + 1 ≤ 2 ^ 50 := by
    refine le_of_mul_le_mul_right ?_ hpos
    rw [add_mul, add_mul, abs_start_mul_step]
    linarith
  have hmany : (0 : ℚ) ≤ raw := Nat.cast_nonneg _
  have hone : 1 ≤ |start r length| := by
    rw [abs_of_neg (by linarith)]
    linarith
  have hstart : double.Representable (start r length) :=
    h.standsFor_minimum.representable.mul_zpow hone
  -- The places of the start are parts of a step.
  rcases place_bounds hone (by linarith) with ⟨hplace', hplace⟩
  have hsize := (abs_lt_zpow_place (show start r length ≠ 0 by linarith)).le
  rw [abs_of_neg (by linarith)] at hcount
  have hoffset := (multiple_offset (by omega) hplace hstart.multiple hsize).mono hplace'
  have heq := offset_eq (by omega) hplace hstart.multiple hsize
  refine h.close_of_restored (by decide) (by decide) (by omega) (hstart.multiple.mono hplace')
    hoffset (rounded_add_start_sub hstart hlow' hcount hplace ?_)
    (rounded_sub_offset_add hoffset (by linarith))
  by_cases hmaximum : 0 < r.maximum.toRat
  · exact Or.inl (heq.trans (if_pos (h.crosses_iff.mpr ⟨by linarith, hmaximum⟩)))
  · refine Or.inr ⟨heq.trans (if_neg fun hcrosses => hmaximum (h.crosses_iff.mp hcrosses).2), ?_⟩
    refine nonpos_of_mul_nonpos_left ?_ hpos
    rw [add_mul, start_mul_step]
    exact hzero.resolve_left hmaximum

theorem Resolves.close (h : Resolves r length raw) : Close r length raw := by
  rcases h.precise with hcoarse | ⟨j, hj, hle, hmin, hreach⟩ | ⟨hlow, hreach, hzero⟩
  · exact h.close_of_coarse hcoarse
  · exact h.close_of_multiple hj hle hmin hreach
  · exact h.close_of_negative hlow hreach hzero

/-- A number in the range is not taken for one outside. -/
theorem Resolves.excludes_eq_false (h : Resolves r length raw) {x : Binary64} {a : ℚ}
    (hx : x.StandsFor a) (hlow : r.minimum.toRat ≤ a) (hhigh : a ≤ r.maximum.toRat) :
    r.excludes ((scale r length).reverse / .two) x = false := by
  have hpos := step_pos r length
  have hparts := h.abs_minimum_le
  have hraw : 0 ≤ (raw : ℚ) * step r length := by positivity
  have hmin := abs_le.mp (le_refl |r.minimum.toRat|)
  have hnonneg := abs_nonneg r.minimum.toRat
  have hmaximum := Binary64.standsFor_toRat h.maximum_isFinite
  have hslack := h.standsFor_reverse.div Binary64.standsFor_two two_ne_zero (h.room (by
    rw [abs_of_pos (half_pos hpos)]
    linarith))
  have hslack0 : 0 ≤ double.rounded (step r length / 2) := rounded_nonneg (half_pos hpos).le
  have hslack1 : double.rounded (step r length / 2) ≤ step r length :=
    le_trans (rounded_mono (half_le_self hpos.le))
      (le_of_eq (rounded_of_representable h.standsFor_reverse.representable))
  generalize double.rounded (step r length / 2) = slack at hslack hslack0 hslack1
  have hbelow := h.standsFor_minimum.sub hslack (h.room (abs_le.mpr ⟨by linarith, by linarith⟩))
  have habove := hmaximum.add hslack (by
    refine lt_of_le_of_lt (le_trans (abs_add_le _ _) (add_le_add h.maximum_le
      (abs_of_nonneg hslack0 ▸ le_trans hslack1 (le_trans (by linarith) h.reach_le)))) ?_
    rw [← two_mul, mul_comm, ← zpow_add_one₀ two_ne_zero]
    exact zpow_lt_iff.mpr (by decide))
  have hlow' := rounded_mono (p := double) (show r.minimum.toRat - slack ≤ a by linarith)
  have hhigh' := rounded_mono (p := double) (show a ≤ r.maximum.toRat + slack by linarith)
  rw [rounded_of_representable hx.representable] at hlow' hhigh'
  exact (Range.excludes_eq_false_iff hx hbelow habove).mpr ⟨hlow', hhigh'⟩

end Imap

end KlvMetadata
