import KlvMetadata.Proofs.Floating.Arithmetic
import KlvMetadata.Proofs.Format.FixedLength
import KlvMetadata.Proofs.Format.Restoring

/-!
# Numbers of Steps That Are Found Again

A number read from a field of steps is an end or the middle of its range and so many steps
added to it, and it is written by taking the end or the middle off and dividing by a step.
Were the calculation exact, the number of steps would come back. Each of its operations
loses a little instead, and all of them together may lose no more than half a step, or
rounding finds a neighbour.

How much that is depends on two things. A step has to be well above the last place of the
ends, and there must be fewer steps than whole numbers with a place for each bit. If a
range resolves its steps in this sense (`Range.Resolves`), every field comes back, the one
that stands for an error among them. In seven or eight bytes no range does: numbers of
steps that differ only below the last place are read as one number, which is written as one
of them at the most.

## Main definitions

* `Range.width`: A share of the range, a little less than a step.
* `Range.Resolves`: The ends of the range do not drown its steps.
* `Codec.Reproduces`: Every field is written again as it was read.

## Theorems

* `Binary64.round_steps`: Steps added and taken off again.
* `Range.standsFor_step`: A step is its share of the range, but for a fraction.
* `UnsignedSteps.encode_decode`, `SignedSteps.encode_decode`: Numbers of steps.
* `Format.fields_of_steps_come_back`: Fields come back in up to six bytes, and not in more.
-/

namespace KlvMetadata

open Precision

/-- The error of a result that is so many steps from zero. -/
theorem Precision.abs_rounded_sub_le_steps {q σ : ℚ} (hσ : 2 ^ (-1022 : Int) ≤ σ) (k : Nat)
    (h : |q| ≤ 2 ^ k * σ) : |double.rounded q - q| ≤ 2 ^ k * σ / 2 ^ 53 := by
  have hpos : 0 < σ := lt_of_lt_of_le (by positivity) hσ
  have hone : (1 : ℚ) ≤ 2 ^ k := one_le_pow₀ one_le_two
  refine abs_rounded_sub_le_div (le_trans ?_ (le_mul_of_one_le_left hpos.le hone)) h
  exact hσ

namespace Binary64

variable {b s : Binary64} {β σ : ℚ} {n : Int}

/-- So many steps are off by a small part of one. -/
theorem standsFor_steps (hs : s.StandsFor σ) (hσ : 2 ^ (-1022 : Int) ≤ σ) (hn : |n| ≤ 2 ^ 48)
    (hroom : |β| + (|(n : ℚ)| + 1) * σ < 2 ^ (1023 : Int)) :
    ∃ p, (ofInt n * s).StandsFor p ∧ |p - n * σ| ≤ σ / 32 := by
  have hpos : 0 < σ := lt_of_lt_of_le (by positivity) hσ
  have hsize : |(n : ℚ) * σ| = |(n : ℚ)| * σ := by rw [abs_mul, abs_of_pos hpos]
  have hcount : |(n : ℚ)| ≤ 2 ^ 48 := by exact_mod_cast hn
  have herror := abs_rounded_sub_le_steps hσ 48
    (hsize ▸ mul_le_mul_of_nonneg_right hcount hpos.le)
  refine ⟨_, (standsFor_ofInt (by omega)).mul hs ?_, by linarith⟩
  rw [hsize]
  linarith [abs_nonneg β]

/-- Steps that are added to a number are found again when it is taken off. -/
theorem round_steps (hb : b.StandsFor β) (hs : s.StandsFor σ) (hσ : 2 ^ (-1022 : Int) ≤ σ)
    (hβ : |β| ≤ (2 ^ 49 + 1) * σ) (hn : |n| ≤ 2 ^ 48)
    (hroom : |β| + (|(n : ℚ)| + 1) * σ < 2 ^ (1023 : Int)) :
    (∃ p, (b + ofInt n * s).StandsFor (double.rounded (β + p)) ∧ |p - n * σ| ≤ σ / 32) ∧
      ((b + ofInt n * s - b) / s).round.StandsFor n := by
  have hpos : 0 < σ := lt_of_lt_of_le (by positivity) hσ
  have hsize : |(n : ℚ) * σ| = |(n : ℚ)| * σ := by rw [abs_mul, abs_of_pos hpos]
  have hcount : |(n : ℚ)| ≤ 2 ^ 48 := by exact_mod_cast hn
  have hmost : |(n : ℚ) * σ| ≤ 2 ^ 48 * σ := hsize ▸ mul_le_mul_of_nonneg_right hcount hpos.le
  have hfits {q : ℚ} (hlow : -(|β| + |(n : ℚ) * σ| + σ) ≤ q) (hhigh : q ≤ |β| + |(n : ℚ) * σ| + σ) :
      |q| < 2 ^ (1023 : Int) := by
    refine lt_of_le_of_lt (abs_le.mpr ⟨hlow, hhigh⟩) (lt_of_le_of_lt (le_of_eq ?_) hroom)
    rw [hsize]
    ring
  rcases standsFor_steps hs hσ hn hroom with ⟨p, hp, hperror⟩
  rcases abs_le.mp hperror with ⟨hplow, hphigh⟩
  rcases abs_le.mp hβ with ⟨hβlow, hβhigh⟩
  rcases abs_le.mp hmost with ⟨hmlow, hmhigh⟩
  have hβroom := neg_abs_le β
  have hβroom' := le_abs_self β
  have hnroom := neg_abs_le ((n : ℚ) * σ)
  have hnroom' := le_abs_self ((n : ℚ) * σ)
  -- The sum.
  have hx := hb.add hp (hfits (by linarith) (by linarith))
  have hxerror := abs_rounded_sub_le_steps hσ 50
    (abs_le.mpr ⟨by linarith, by linarith⟩ : |β + p| ≤ 2 ^ 50 * σ)
  rcases abs_le.mp hxerror with ⟨hxlow, hxhigh⟩
  refine ⟨⟨p, hx, hperror⟩, ?_⟩
  generalize double.rounded (β + p) = X at hx hxlow hxhigh
  -- What is left of it.
  have hd := hx.sub hb (hfits (by linarith) (by linarith))
  have hderror := abs_rounded_sub_le_steps hσ 49
    (abs_le.mpr ⟨by linarith, by linarith⟩ : |X - β| ≤ 2 ^ 49 * σ)
  rcases abs_le.mp hderror with ⟨hdlow, hdhigh⟩
  generalize double.rounded (X - β) = D at hd hdlow hdhigh
  -- The number of steps, but for the errors.
  have hratio : |D / σ - n| ≤ 7 / 32 := by
    rw [div_sub' hpos.ne', abs_div, abs_of_pos hpos, div_le_iff₀ hpos, mul_comm σ]
    exact abs_le.mpr ⟨by linarith, by linarith⟩
  rcases abs_le.mp hratio with ⟨hrlow, hrhigh⟩
  rcases abs_le.mp hcount with ⟨hclow, hchigh⟩
  have hsmall : |D / σ| ≤ 2 ^ 49 := abs_le.mpr ⟨by linarith, by linarith⟩
  have hq := hd.div hs hpos.ne' (abs_lt_of_countable (le_trans hsmall (by norm_num)))
  have hqerror := abs_rounded_sub_le_steps (σ := 1) (zpow_le_one_of_nonpos₀ one_le_two (by decide))
    49 (by rwa [mul_one])
  rcases abs_le.mp hqerror with ⟨hqlow, hqhigh⟩
  generalize double.rounded (D / σ) = Q at hq hqlow hqhigh
  have hnear : nearestAway Q = n := nearestAway_eq (abs_lt.mpr ⟨by linarith, by linarith⟩)
  have hround := hq.round (abs_le_of_countable (abs_le.mpr ⟨by linarith, by linarith⟩))
  rwa [hnear] at hround

end Binary64

theorem Bytes.le_capacity {length : Nat} (hpos : 1 ≤ length) : 256 ≤ capacity length := by
  obtain ⟨n, rfl⟩ := Nat.exists_eq_add_of_le' hpos
  have hcapacity := capacity_pos n
  rw [capacity_succ]
  omega

theorem Bytes.two_mul_half_capacity {length : Nat} (hpos : 1 ≤ length) :
    2 * (capacity length / 2) = capacity length := by
  obtain ⟨n, rfl⟩ := Nat.exists_eq_add_of_le' hpos
  rw [capacity_succ]
  omega

namespace Range

variable {r : Range} {length : Nat}

/-- Distance of the farther end from zero. -/
def reach (r : Range) : ℚ := max |r.minimum.toRat| |r.maximum.toRat|

/-- A share of the range for each number that the bytes can hold. -/
def width (r : Range) (length : Nat) : ℚ :=
  (r.maximum.toRat - r.minimum.toRat) / Bytes.capacity length

/-- The ends of the range are finite numbers, and they are not so far from zero that a
    share of the range is lost next to them. -/
structure Resolves (r : Range) (length : Nat) : Prop where
  minimum_isFinite : r.minimum.isFinite = true
  maximum_isFinite : r.maximum.isFinite = true
  reach_le : r.reach ≤ 2 ^ (1020 : Int)
  le_width : 2 ^ (-1022 : Int) ≤ r.width length
  fine : r.reach ≤ 2 ^ 49 * r.width length

theorem abs_minimum_le (r : Range) : |r.minimum.toRat| ≤ r.reach := le_max_left _ _

theorem abs_maximum_le (r : Range) : |r.maximum.toRat| ≤ r.reach := le_max_right _ _

theorem reach_nonneg (r : Range) : 0 ≤ r.reach := le_trans (abs_nonneg _) r.abs_minimum_le

theorem capacity_mul_width (r : Range) (length : Nat) :
    Bytes.capacity length * r.width length = r.maximum.toRat - r.minimum.toRat := by
  have hne : (Bytes.capacity length : ℚ) ≠ 0 := by exact_mod_cast (Bytes.capacity_pos length).ne'
  exact mul_div_cancel₀ _ hne

/-- The extent is at most twice the distance of the farther end. -/
theorem extent_le (r : Range) : r.maximum.toRat - r.minimum.toRat ≤ 2 * r.reach := by
  have hlow := neg_le_of_abs_le r.abs_minimum_le
  have hhigh := le_of_abs_le r.abs_maximum_le
  linarith

/-- A number is not outside if it is between the ends of the range that the slack moves. -/
theorem excludes_eq_false_iff {slack x : Binary64} {a low high : ℚ} (hx : x.StandsFor a)
    (hlow : (r.minimum - slack).StandsFor low) (hhigh : (r.maximum + slack).StandsFor high) :
    r.excludes slack x = false ↔ low ≤ a ∧ a ≤ high := by
  rw [excludes, Bool.or_eq_false_iff, Bool.eq_false_iff, Bool.eq_false_iff, ne_eq, ne_eq,
    hx.less_iff hlow, hhigh.less_iff hx, not_lt, not_lt]

namespace Resolves

theorem width_pos (h : r.Resolves length) : 0 < r.width length :=
  lt_of_lt_of_le (by positivity) h.le_width

/-- The shares are as great as a part of the reach, so there cannot be many. -/
theorem length_le_six (h : r.Resolves length) : length ≤ 6 := by
  have hextent := capacity_mul_width r length
  have hcapacity : (Bytes.capacity length : ℚ) ≤ 2 ^ 50 := by
    refine le_of_mul_le_mul_right ?_ h.width_pos
    linarith [r.extent_le, h.fine]
  have hcapacity' : 256 ^ length ≤ 2 ^ 50 := by
    rw [← Bytes.capacity_eq]
    exact_mod_cast hcapacity
  by_contra hlong
  have hmono := Nat.pow_le_pow_right (show 0 < 256 by decide) (show 7 ≤ length by omega)
  omega

theorem capacity_le (h : r.Resolves length) : Bytes.capacity length ≤ 2 ^ 48 := by
  rw [Bytes.capacity_eq]
  exact Nat.pow_le_pow_right (show 0 < 256 by decide) h.length_le_six

/-- There are still numbers at the ends, the extent of the range and some steps away from
    zero. -/
theorem room (h : r.Resolves length) (hpos : 1 ≤ length) {q : ℚ}
    (hq : |q| ≤ 2 * r.reach + Bytes.capacity length * r.width length + 8 * r.width length) :
    |q| < 2 ^ (1023 : Int) := by
  have hextent := capacity_mul_width r length
  have hshares := mul_le_mul_of_nonneg_right
    (show (256 : ℚ) ≤ Bytes.capacity length by exact_mod_cast Bytes.le_capacity hpos) h.width_pos.le
  have hreach := h.reach_le
  have hT : (0 : ℚ) < 2 ^ (1020 : Int) := by positivity
  rw [show (1023 : Int) = 1020 + 3 from rfl, zpow_add₀ two_ne_zero]
  generalize (2 : ℚ) ^ (1020 : Int) = T at *
  linarith [r.extent_le]

theorem standsFor_extent (h : r.Resolves length) (hpos : 1 ≤ length) :
    ∃ E, r.extent.StandsFor E ∧
      |E - Bytes.capacity length * r.width length| ≤ r.width length / 32 := by
  have hcapacity : (Bytes.capacity length : ℚ) ≤ 2 ^ 48 := by exact_mod_cast h.capacity_le
  have hshares := mul_le_mul_of_nonneg_right hcapacity h.width_pos.le
  have hnonneg : 0 ≤ (Bytes.capacity length : ℚ) * r.width length :=
    mul_nonneg (Nat.cast_nonneg _) h.width_pos.le
  have herror := abs_rounded_sub_le_steps h.le_width 48 (by rwa [abs_of_nonneg hnonneg])
  have hextent := capacity_mul_width r length
  have hroom := h.room hpos (q := Bytes.capacity length * r.width length) (by
    rw [abs_of_nonneg hnonneg]
    linarith [h.width_pos, r.reach_nonneg])
  rw [hextent] at herror hroom
  refine ⟨_, (Binary64.standsFor_toRat h.maximum_isFinite).sub
    (Binary64.standsFor_toRat h.minimum_isFinite) hroom, ?_⟩
  rw [hextent]
  linarith

/-- A step is its share of the range, but for a fraction that is small even if all steps
    have it. Two steps may be missing from the shares, as there are steps to both sides. -/
theorem standsFor_step (h : r.Resolves length) (hpos : 1 ≤ length) {k : Binary64} {K : Nat}
    (hk : k.StandsFor K) (hlow : Bytes.capacity length ≤ K + 2)
    (hhigh : K < Bytes.capacity length) :
    ∃ σ, (r.extent / k).StandsFor σ ∧ r.width length ≤ σ ∧ σ ≤ 2 * r.width length ∧
      |K * σ - (r.maximum.toRat - r.minimum.toRat)| ≤ r.width length / 8 := by
  rcases h.standsFor_extent hpos with ⟨E, hE, herror⟩
  rcases abs_le.mp herror with ⟨helow, hehigh⟩
  have hw := h.width_pos
  have hcapacity := Bytes.le_capacity hpos
  have hK : (0 : ℚ) < K := by
    have hK : 0 < K := by omega
    exact_mod_cast hK
  -- What the bounds on the number of steps say of so many shares.
  have hshares {m n : Nat} (hle : m ≤ n) : (m : ℚ) * r.width length ≤ n * r.width length :=
    mul_le_mul_of_nonneg_right (by exact_mod_cast hle) hw.le
  have hfew := hshares h.capacity_le
  have hmany := hshares hcapacity
  have hmissing := hshares hlow
  have hbelow := hshares (show K + 1 ≤ Bytes.capacity length from hhigh)
  push_cast at hfew hmany hmissing hbelow
  have hquotient : |E / K| ≤ 2 ^ 1 * r.width length := by
    rw [abs_div, abs_of_pos hK, div_le_iff₀ hK]
    exact abs_le.mpr ⟨by linarith, by linarith⟩
  have hσ := hE.div hk hK.ne' (h.room hpos (by linarith [r.reach_nonneg]))
  have hσerror : |K * double.rounded (E / K) - E| ≤ r.width length / 16 := by
    have hrounded := mul_le_mul_of_nonneg_left
      (abs_rounded_sub_le_steps h.le_width 1 hquotient) hK.le
    rw [← abs_of_pos hK, ← abs_mul, abs_of_pos hK, mul_sub, mul_div_cancel₀ _ hK.ne'] at hrounded
    linarith
  rcases abs_le.mp hσerror with ⟨hσlow, hσhigh⟩
  rw [← capacity_mul_width r length]
  refine ⟨_, hσ, le_of_mul_le_mul_left ?_ hK, le_of_mul_le_mul_left ?_ hK,
    abs_le.mpr ⟨by linarith, by linarith⟩⟩
  · linarith
  · linarith

/-- What is within a quarter of a step from the range before it is rounded is not outside. -/
theorem excludes_eq_false (h : r.Resolves length) (hpos : 1 ≤ length) {s x : Binary64} {σ y : ℚ}
    (hs : s.StandsFor σ) (hle : r.width length ≤ σ) (hge : σ ≤ 2 * r.width length)
    (hx : x.StandsFor (double.rounded y)) (hlow : r.minimum.toRat - 3 / 8 * σ ≤ y)
    (hhigh : y ≤ r.maximum.toRat + 3 / 8 * σ) : r.excludes (s / .two) x = false := by
  have hw := h.width_pos
  have hσ := lt_of_lt_of_le hw hle
  have hshares : 0 ≤ Bytes.capacity length * r.width length :=
    mul_nonneg (Nat.cast_nonneg _) hw.le
  have hmin := abs_le.mp r.abs_minimum_le
  have hmax := abs_le.mp r.abs_maximum_le
  -- The slack is half a step, but for its error.
  have hhalf := hs.div Binary64.standsFor_two two_ne_zero (h.room hpos (by
    rw [abs_of_pos (half_pos hσ)]
    linarith [r.reach_nonneg]))
  have hherror := abs_rounded_sub_le_steps (le_trans h.le_width hle) 0
    (show |σ / 2| ≤ 2 ^ 0 * σ by
      rw [abs_of_pos (half_pos hσ)]
      linarith)
  rcases abs_le.mp hherror with ⟨hhlow, hhhigh⟩
  generalize double.rounded (σ / 2) = slack at hhalf hhlow hhhigh
  have hbelow := (Binary64.standsFor_toRat h.minimum_isFinite).sub hhalf (h.room hpos
    (abs_le.mpr ⟨by linarith, by linarith⟩))
  have habove := (Binary64.standsFor_toRat h.maximum_isFinite).add hhalf (h.room hpos
    (abs_le.mpr ⟨by linarith, by linarith⟩))
  exact (excludes_eq_false_iff hx hbelow habove).mpr
    ⟨rounded_mono (by linarith), rounded_mono (by linarith)⟩

end Resolves

end Range

namespace UnsignedSteps

variable {r : Range} {length : Nat}

theorem standsFor_step (h : r.Resolves length) (hpos : 1 ≤ length) :
    ∃ σ, (step r length).StandsFor σ ∧ r.width length ≤ σ ∧ σ ≤ 2 * r.width length ∧
      |limit length * σ - (r.maximum.toRat - r.minimum.toRat)| ≤ r.width length / 8 := by
  have hcapacity := h.capacity_le
  have hmany := Bytes.le_capacity hpos
  have hlimit : |(limit length : Int)| ≤ 2 ^ 53 := by
    rw [Nat.abs_cast]
    unfold limit
    omega
  have hstands := Binary64.standsFor_ofInt hlimit
  rw [Int.cast_natCast] at hstands
  exact h.standsFor_step hpos hstands (by unfold limit; omega) (by unfold limit; omega)

/-- The number of steps that was read is the one that is written. -/
theorem encode_decode (h : r.Resolves length) (hpos : 1 ≤ length) {n : UInt64}
    (hn : n.toNat < Bytes.capacity length) :
    encode r length (decode r length n) = .ok n := by
  have hcapacity := h.capacity_le
  have hw := h.width_pos
  have hmin := r.abs_minimum_le
  rcases standsFor_step h hpos with ⟨σ, hs, hle, hge, hall⟩
  have hσ := lt_of_lt_of_le hw hle
  have hcount : ((n.toNat : Int) : ℚ) * σ ≤ limit length * σ := by
    refine mul_le_mul_of_nonneg_right ?_ hσ.le
    have hle : n.toNat ≤ limit length := by
      unfold limit
      omega
    exact_mod_cast hle
  have hcount' : 0 ≤ ((n.toNat : Int) : ℚ) * σ := by positivity
  rcases abs_le.mp hall with ⟨hallow, hallhigh⟩
  rcases Binary64.round_steps (Binary64.standsFor_toRat h.minimum_isFinite) hs
    (le_trans h.le_width hle) (by linarith [h.fine]) (n := n.toNat)
    (by
      rw [Nat.abs_cast]
      omega)
    (by
      rw [abs_of_nonneg (by positivity : (0 : ℚ) ≤ ((n.toNat : Int) : ℚ))]
      refine lt_of_abs_lt (h.room hpos ?_)
      rw [abs_of_nonneg (by positivity), Range.capacity_mul_width]
      linarith [r.reach_nonneg]) with ⟨⟨p, hx, hp⟩, hraw⟩
  rcases abs_le.mp hp with ⟨hplow, hphigh⟩
  rw [encode_eq, if_pos ⟨hx.isNaN_eq, h.excludes_eq_false hpos hs hle hge hx (by linarith)
    (by linarith)⟩]
  rw [Int.cast_natCast] at hraw
  congr 1
  refine (congrArg (min · _) (hraw.toUInt64_eq n.toNat_lt)).trans ?_
  have hlimit : (UInt64.ofNat (limit length)).toNat = limit length := by
    refine UInt64.toNat_ofNat_of_lt' (show limit length < 2 ^ 64 from ?_)
    unfold limit
    omega
  rw [UInt64.ofNat_toNat]
  refine if_pos (UInt64.le_iff_toNat_le.mpr ?_)
  rw [hlimit]
  unfold limit
  omega

end UnsignedSteps

namespace SignedSteps

variable {r : Range} {length : Nat}

theorem limit_eq {length : Nat} (hpos : 1 ≤ length) :
    2 * limit length + 2 = Bytes.capacity length := by
  have hcapacity := Bytes.le_capacity hpos
  have heven := Bytes.two_mul_half_capacity hpos
  unfold limit
  omega

/-- All numbers of steps but the one that stands for an error are to one side or the other. -/
theorem abs_le_limit {length : Nat} (hpos : 1 ≤ length) {n : Int} (hn : Signed.Fits n length)
    (herror : n ≠ errorIndicator length) : |n| ≤ limit length := by
  have hlimit := limit_eq hpos
  unfold Signed.Fits at hn
  unfold errorIndicator at herror
  exact abs_le.mpr ⟨by omega, by omega⟩

theorem standsFor_step (h : r.Resolves length) (hpos : 1 ≤ length) :
    ∃ σ, (step r length).StandsFor σ ∧ r.width length ≤ σ ∧ σ ≤ 2 * r.width length ∧
      |2 * (limit length * σ) - (r.maximum.toRat - r.minimum.toRat)| ≤ r.width length / 8 := by
  have hcapacity := h.capacity_le
  have hmany := Bytes.le_capacity hpos
  have hlimit := limit_eq hpos
  -- The steps to both sides are counted exactly.
  have htwo : (2 : ℚ) * limit length = (2 * limit length : Int) := by push_cast; rfl
  have hsmall : |2 * limit length| ≤ 2 ^ 53 := abs_le.mpr ⟨by omega, by omega⟩
  have hstands := Binary64.standsFor_two.mul
    (Binary64.standsFor_ofInt (n := limit length) (abs_le.mpr ⟨by omega, by omega⟩))
    (by rw [htwo]; exact abs_intCast_lt hsmall)
  rw [htwo, rounded_of_representable (representable_intCast hsmall),
    show 2 * limit length = ((2 * limit length).toNat : Int) by unfold limit; omega,
    Int.cast_natCast] at hstands
  rcases h.standsFor_step hpos hstands (by omega) (by omega) with ⟨σ, hs, hle, hge, hall⟩
  refine ⟨σ, hs, hle, hge, ?_⟩
  rwa [← Int.cast_natCast, Int.toNat_of_nonneg (by unfold limit; omega), ← htwo, mul_assoc] at hall

/-- The middle of the range, but for less than a quarter of a step. -/
theorem standsFor_middle (h : r.Resolves length) (hpos : 1 ≤ length) :
    ∃ m, (middle r).StandsFor m ∧
      |m - (r.minimum.toRat + r.maximum.toRat) / 2| ≤ 3 / 16 * r.width length := by
  have hw := h.width_pos
  have hshares : 0 ≤ Bytes.capacity length * r.width length :=
    mul_nonneg (Nat.cast_nonneg _) hw.le
  have hmin := abs_le.mp r.abs_minimum_le
  have hmax := abs_le.mp r.abs_maximum_le
  have hfine := h.fine
  have hs := (Binary64.standsFor_toRat h.minimum_isFinite).add
    (Binary64.standsFor_toRat h.maximum_isFinite)
    (h.room hpos (abs_le.mpr ⟨by linarith, by linarith⟩))
  have hserror := abs_rounded_sub_le_steps h.le_width 50
    (abs_le.mpr ⟨by linarith, by linarith⟩ :
      |r.minimum.toRat + r.maximum.toRat| ≤ 2 ^ 50 * r.width length)
  rcases abs_le.mp hserror with ⟨hslow, hshigh⟩
  generalize double.rounded (r.minimum.toRat + r.maximum.toRat) = S at hs hslow hshigh
  have hm := hs.div Binary64.standsFor_two two_ne_zero
    (h.room hpos (abs_le.mpr ⟨by linarith, by linarith⟩))
  have hmerror := abs_rounded_sub_le_steps h.le_width 50
    (abs_le.mpr ⟨by linarith, by linarith⟩ : |S / 2| ≤ 2 ^ 50 * r.width length)
  rcases abs_le.mp hmerror with ⟨hmlow, hmhigh⟩
  exact ⟨_, hm, abs_le.mpr ⟨by linarith, by linarith⟩⟩

/-- What is in the range is mapped. -/
theorem encode_eq_ok {x : Binary64} (hnan : x.isNaN = false)
    (hinside : r.excludes (step r length / .two) x = false) :
    encode r length x = .ok (Int64.ofInt (max (-limit length)
      (min (limit length) ((x - middle r) / step r length).round.toInt64.toInt))) := by
  unfold encode
  dsimp only
  rw [if_neg (Bool.eq_false_iff.mp hnan), if_neg (Bool.eq_false_iff.mp hinside)]

/-- The number of steps that was read is the one that is written, and what stands for an
    error still does. -/
theorem encode_decode (h : r.Resolves length) (hpos : 1 ≤ length) {n : Int64}
    (hn : Signed.Fits n.toInt length) : encode r length (decode r length n) = .ok n := by
  rw [decode]
  split
  · next herror =>
    have hnan : Binary64.nan.isNaN = true := by decide
    rw [encode, if_pos hnan, ← herror, Int64.ofInt_toInt]
  next herror =>
  have hbounds := abs_le_limit hpos hn herror
  have hcapacity := h.capacity_le
  have hlimit := limit_eq hpos
  have hw := h.width_pos
  have hmin := abs_le.mp r.abs_minimum_le
  have hmax := abs_le.mp r.abs_maximum_le
  rcases standsFor_middle h hpos with ⟨m, hm, hmerror⟩
  rcases abs_le.mp hmerror with ⟨hmlow, hmhigh⟩
  have hreach : |m| ≤ r.reach + 3 / 16 * r.width length :=
    abs_le.mpr ⟨by linarith, by linarith⟩
  rcases standsFor_step h hpos with ⟨σ, hs, hle, hge, hall⟩
  have hσ := lt_of_lt_of_le hw hle
  rcases abs_le.mp hall with ⟨hallow, hallhigh⟩
  have hcount : |(n.toInt : ℚ)| * σ ≤ limit length * σ :=
    mul_le_mul_of_nonneg_right (by exact_mod_cast hbounds) hσ.le
  have hsteps : |(n.toInt : ℚ) * σ| ≤ limit length * σ := by
    rwa [abs_mul, abs_of_pos hσ]
  rcases abs_le.mp hsteps with ⟨hnlow, hnhigh⟩
  rcases Binary64.round_steps hm hs (le_trans h.le_width hle) (by linarith [h.fine])
    (n := n.toInt) (by omega)
    (by
      refine lt_of_abs_lt (h.room hpos ?_)
      rw [abs_of_nonneg (by positivity), Range.capacity_mul_width]
      linarith [r.reach_nonneg]) with ⟨⟨p, hx, hp⟩, hraw⟩
  rcases abs_le.mp hp with ⟨hplow, hphigh⟩
  rw [encode_eq_ok hx.isNaN_eq
    (h.excludes_eq_false hpos hs hle hge hx (by linarith) (by linarith)),
    hraw.toInt64_eq n.le_toInt n.toInt_lt, Int64.ofInt_toInt]
  rcases abs_le.mp hbounds with ⟨hlow, hhigh⟩
  rw [min_eq_right hhigh, max_eq_right hlow, Int64.ofInt_toInt]

end SignedSteps

/-- Every field of the length is read, and what is read is written as that field. -/
def Codec.Reproduces (c : Codec) (length : Nat) : Prop :=
  ∀ ⦃field : Bytes⦄, field.length = length →
    ∃ v, (∀ rest, c.read length (field ++ rest) = .ok v rest) ∧ c.Settles v (.written field)

/-- Two fields that are read as one value cannot both be written again. -/
theorem Codec.not_reproduces {c : Codec} {field other : Bytes} {v : Value}
    (hread : c.read field.length field = .ok v []) (hother : c.read field.length other = .ok v [])
    (hlength : other.length = field.length) (hne : field ≠ other) :
    ¬ c.Reproduces field.length := by
  intro h
  have hwritten {bytes : Bytes} (hbytes : bytes.length = field.length)
      (hv : c.read field.length bytes = .ok v []) : c.Settles v (.written bytes) := by
    rcases h hbytes with ⟨w, hw, hsettles⟩
    have hvalue := hw []
    rw [List.append_nil, hv] at hvalue
    injection hvalue with hvalue _
    rwa [← hvalue] at hsettles
  exact hne ((hwritten rfl hread).unique (hwritten hlength hother))

/-- Eight bytes or fewer are always a number that fits a word. -/
theorem Unsigned.exists_read_eq {field : Bytes} (hne : field ≠ []) (hle : field.length ≤ 8) :
    ∃ n, read field.length field = .ok n [] := by
  have hlt := Bytes.toNat_lt field
  have hword : Bytes.toNat field < 2 ^ 64 :=
    lt_of_lt_of_le hlt (Nat.pow_le_pow_right (show 0 < 256 by decide) hle)
  exact ⟨_, read_eq_ok_iff.mpr ⟨List.length_pos_iff.mpr hne, field, rfl, (List.append_nil _).symm,
    (UInt64.toNat_ofNat_of_lt' hword).symm⟩⟩

theorem Signed.exists_read_eq {field : Bytes} (hne : field ≠ []) (hle : field.length ≤ 8) :
    ∃ n, read field.length field = .ok n [] := by
  have hread := read_append hne []
  rw [if_pos ((fits_value hne).mono hle), List.append_nil] at hread
  exact ⟨_, hread⟩

namespace Layout

variable {r : Range} {length : Nat}

/-- A layout that writes what it has read makes a codec that does. -/
theorem reproduces {α : Type} {layout : Layout α} {view : ItemView α} {terms : Terms}
    (hkind : view.kind ≠ .blob) (hpos : 1 ≤ length) (hallow : terms.Allow length)
    (h : ∀ field : Bytes, field.length = length → field ≠ [] →
      ∃ a, layout.read length field = .ok a [] ∧ layout.lengthOf a length = .ok length ∧
        (layout.write a length).Appends field) :
    (layout.codec view terms).Reproduces length := by
  rintro field rfl
  have hne : field ≠ [] := List.length_pos_iff.mp hpos
  rcases h field rfl hne with ⟨a, hread, hlength, happ⟩
  exact ⟨_, read_field hne hallow hread, settles_written hkind hlength happ⟩

theorem read_unsignedSteps {field : Bytes} {n : UInt64}
    (h : Unsigned.read length field = .ok n []) :
    (unsignedSteps r length).read length field = .ok (UnsignedSteps.decode r length n) [] := by
  simp only [unsignedSteps, Action.bind_apply, h, Action.pure_apply]

theorem appends_unsignedSteps {x : Binary64} {n : UInt64}
    (h : UnsignedSteps.encode r length x = .ok n) (hle : Unsigned.minLength n ≤ length) :
    ((unsignedSteps r length).write x length).Appends (Bytes.ofNat length n.toNat) := by
  simp only [unsignedSteps, h, Action.ofExcept_ok_bind]
  exact Unsigned.appends_write hle

theorem read_signedSteps {field : Bytes} {n : Int64} (h : Signed.read length field = .ok n []) :
    (signedSteps r length).read length field = .ok (SignedSteps.decode r length n) [] := by
  simp only [signedSteps, Action.bind_apply, h, Action.pure_apply]

theorem appends_signedSteps {x : Binary64} {n : Int64}
    (h : SignedSteps.encode r length x = .ok n) (hle : Signed.minLength n ≤ length) :
    ((signedSteps r length).write x length).Appends (Signed.spelling length n.toInt) := by
  simp only [signedSteps, h, Action.ofExcept_ok_bind]
  exact Signed.appends_write hle

theorem unsignedSteps_reproduces (h : r.Resolves length) (hpos : 1 ≤ length)
    {terms : Terms} (hallow : terms.Allow length) :
    ((unsignedSteps r length).codec .f64 terms).Reproduces length := by
  refine reproduces (by decide) hpos hallow ?_
  rintro field rfl hne
  have hshort := h.length_le_six
  rcases Unsigned.exists_read_eq hne (by omega) with ⟨n, hread⟩
  rcases Unsigned.eq_ofNat_of_read hread with ⟨hle, hfield⟩
  have hn := ((Unsigned.minLength_le_iff n _).mp hle).2
  rw [← Bytes.capacity_eq] at hn
  have happ := appends_unsignedSteps (UnsignedSteps.encode_decode h hpos hn) hle
  rw [← hfield] at happ
  exact ⟨_, read_unsignedSteps hread, rfl, happ⟩

theorem signedSteps_reproduces (h : r.Resolves length) (hpos : 1 ≤ length)
    {terms : Terms} (hallow : terms.Allow length) :
    ((signedSteps r length).codec .f64 terms).Reproduces length := by
  refine reproduces (by decide) hpos hallow ?_
  rintro field rfl hne
  have hshort := h.length_le_six
  rcases Signed.exists_read_eq hne (by omega) with ⟨n, hread⟩
  rcases Signed.eq_spelling_of_read hread with ⟨hle, hfield⟩
  have hn := (Signed.minLength_le_iff n hpos).mp hle
  have happ := appends_signedSteps (SignedSteps.encode_decode h hpos hn) hle
  rw [← hfield] at happ
  exact ⟨_, read_signedSteps hread, rfl, happ⟩

/-- The first whole number without a place for each of its bits is rounded to the one
    below. -/
theorem ofInt_rounds : Binary64.ofInt (2 ^ 53 + 1) = Binary64.ofInt (2 ^ 53) := by
  decide +kernel

/-- The contents of two fields are the same, so what is written is one of them at most. -/
theorem not_reproduces {α : Type} {layout : Layout α} {view : ItemView α} {terms : Terms}
    {field other : Bytes} {a : α} (hfield : field.length = length) (hother : other.length = length)
    (hpos : 1 ≤ length) (hallow : terms.Allow length) (hne : field ≠ other)
    (hread : layout.read length field = .ok a []) (hread' : layout.read length other = .ok a []) :
    ¬ (layout.codec view terms).Reproduces length := by
  subst hfield
  have hsame : (layout.codec view terms).read other.length other =
      .ok ⟨some (view.toItem a), other.length⟩ [] :=
    read_field_self (List.length_pos_iff.mp (hother ▸ hpos)) (hother ▸ hallow) (hother ▸ hread')
  rw [hother] at hsame
  exact Codec.not_reproduces (read_field_self (List.length_pos_iff.mp hpos) hallow hread) hsame
    hother hne

theorem unsignedSteps_not_reproduces (r : Range) (hlong : 7 ≤ length)
    {terms : Terms} (hallow : terms.Allow length) :
    ¬ ((unsignedSteps r length).codec .f64 terms).Reproduces length := by
  have hroom : 256 ^ 7 ≤ 256 ^ length := Nat.pow_le_pow_right (by decide) hlong
  have hread {n : UInt64} (hn : n.toNat ≤ 2 ^ 53 + 1) :
      (unsignedSteps r length).read length (Bytes.ofNat length n.toNat)
        = .ok (UnsignedSteps.decode r length n) [] :=
    read_unsignedSteps (Reader.Spells.read_self (Unsigned.read_ofNat
      ((Unsigned.minLength_le_iff n length).mpr ⟨by omega, by omega⟩)))
  have hdecode : UnsignedSteps.decode r length 9007199254740993
      = UnsignedSteps.decode r length 9007199254740992 :=
    congrArg (fun n => r.minimum + n * UnsignedSteps.step r length) ofInt_rounds
  refine not_reproduces (Bytes.length_ofNat _ _) (Bytes.length_ofNat _ _) (by omega) hallow
    (fun heq => ?_) (hread (n := 9007199254740992) (by decide))
    (hdecode ▸ hread (n := 9007199254740993) (by decide))
  have hvalue := congrArg Bytes.toNat heq
  rw [Bytes.toNat_ofNat, Bytes.toNat_ofNat,
    Nat.mod_eq_of_lt (lt_of_lt_of_le (by decide) hroom),
    Nat.mod_eq_of_lt (lt_of_lt_of_le (by decide) hroom)] at hvalue
  exact absurd hvalue (by decide)

theorem signedSteps_not_reproduces (r : Range) (hlong : 7 ≤ length)
    {terms : Terms} (hallow : terms.Allow length) :
    ¬ ((signedSteps r length).codec .f64 terms).Reproduces length := by
  have hroom : 256 ^ 7 ≤ Bytes.capacity length := by
    rw [Bytes.capacity_eq]
    exact Nat.pow_le_pow_right (by decide) hlong
  have hfits {n : Int64} (hlow : 0 ≤ n.toInt) (hn : n.toInt ≤ 2 ^ 53 + 1) :
      Signed.Fits n.toInt length := ⟨by omega, by omega⟩
  have hread {n : Int64} (hlow : 0 ≤ n.toInt) (hn : n.toInt ≤ 2 ^ 53 + 1) :
      (signedSteps r length).read length (Signed.spelling length n.toInt)
        = .ok (SignedSteps.decode r length n) [] :=
    read_signedSteps (Reader.Spells.read_self (Signed.read_spelling (by omega) (hfits hlow hn)))
  have herror : SignedSteps.errorIndicator length < 0 := by
    unfold SignedSteps.errorIndicator SignedSteps.limit
    omega
  have hdecode : SignedSteps.decode r length 9007199254740993
      = SignedSteps.decode r length 9007199254740992 := by
    rw [SignedSteps.decode, SignedSteps.decode, if_neg, if_neg]
    · exact congrArg (fun n => SignedSteps.middle r + n * SignedSteps.step r length) ofInt_rounds
    · exact ne_of_gt (lt_trans herror (by decide))
    · exact ne_of_gt (lt_trans herror (by decide))
  refine not_reproduces (Signed.length_spelling _ _) (Signed.length_spelling _ _) (by omega) hallow
    (fun heq => ?_) (hread (n := 9007199254740992) (by decide) (by decide))
    (hdecode ▸ hread (n := 9007199254740993) (by decide) (by decide))
  have hvalue := congrArg Signed.value heq
  rw [Signed.value_spelling (by omega) (hfits (by decide) (by decide)),
    Signed.value_spelling (by omega) (hfits (by decide) (by decide))] at hvalue
  exact absurd hvalue (by decide)

end Layout

namespace Format

theorem terms_allow (f : Format) {length : Nat} (hfixed : f.fixedLength = some length) :
    f.terms.Allow length :=
  fun _ hrequired => Option.some.inj (hrequired.symm.trans hfixed)

/-- Fields of steps are written again as they were read, the one that stands for an error
    among them, if the range resolves its steps. No range does so in seven bytes or more,
    where some field is always written as another. -/
theorem fields_of_steps_come_back (r : Range) {length : Nat} (hpos : 1 ≤ length) :
    (r.Resolves length → (unsignedSteps r length).codec.Reproduces length ∧
      (signedSteps r length).codec.Reproduces length) ∧
    (7 ≤ length → ¬ (unsignedSteps r length).codec.Reproduces length ∧
      ¬ (signedSteps r length).codec.Reproduces length) := by
  have hunsigned := terms_allow (unsignedSteps r length) rfl
  have hsigned := terms_allow (signedSteps r length) rfl
  constructor
  · intro h
    exact ⟨Layout.unsignedSteps_reproduces h hpos hunsigned,
      Layout.signedSteps_reproduces h hpos hsigned⟩
  · intro hlong
    exact ⟨Layout.unsignedSteps_not_reproduces r hlong hunsigned,
      Layout.signedSteps_not_reproduces r hlong hsigned⟩

/-- Latitudes come back from four bytes, and not from eight. -/
theorem fields_of_steps_come_back_latitude :
    Range.Resolves ⟨.ofInt (-90), .ofInt 90⟩ 4 ∧
      (signedSteps ⟨.ofInt (-90), .ofInt 90⟩ 4).codec.Reproduces 4 ∧
      ¬ (signedSteps ⟨.ofInt (-90), .ofInt 90⟩ 8).codec.Reproduces 8 := by
  have hresolves : Range.Resolves ⟨.ofInt (-90), .ofInt 90⟩ 4 :=
    ⟨by decide +kernel, by decide +kernel, by decide +kernel, by decide +kernel, by decide +kernel⟩
  exact ⟨hresolves, ((fields_of_steps_come_back _ (by decide)).1 hresolves).2,
    ((fields_of_steps_come_back _ (by decide)).2 (by decide)).2⟩

/-- The last bit of the longest fields is lost. -/
theorem last_bit_is_lost :
    let c := (unsignedSteps ⟨.zero, .one⟩ 8).codec
    let v : Value := ⟨some (.f64 ⟨0x3FE0000000000000⟩), 8⟩
    c.read 8 [0x80, 0, 0, 0, 0, 0, 0, 1] = .ok v [] ∧
      c.write v 8 [] = .ok () [0x80, 0, 0, 0, 0, 0, 0, 0] := by
  have hdecode : UnsignedSteps.decode ⟨.zero, .one⟩ 8 0x8000000000000001 =
      ⟨0x3FE0000000000000⟩ := by
    decide +kernel
  have hencode : UnsignedSteps.encode ⟨.zero, .one⟩ 8 ⟨0x3FE0000000000000⟩ =
      .ok 0x8000000000000000 := by
    decide +kernel
  have hfield : Unsigned.read 8 [0x80, 0, 0, 0, 0, 0, 0, 1] =
      .ok (0x8000000000000001 : UInt64) [] := rfl
  have hread := Layout.read_unsignedSteps (r := ⟨.zero, .one⟩) hfield
  rw [hdecode] at hread
  have hne : ([0x80, 0, 0, 0, 0, 0, 0, 1] : Bytes) ≠ [] := by decide
  have happ : ((Layout.unsignedSteps ⟨.zero, .one⟩ 8).write ⟨0x3FE0000000000000⟩
      ([0x80, 0, 0, 0, 0, 0, 0, 0] : Bytes).length).Appends [0x80, 0, 0, 0, 0, 0, 0, 0] :=
    Layout.appends_unsignedSteps hencode (by decide)
  have hsettles : (unsignedSteps ⟨.zero, .one⟩ 8).codec.Settles
      ⟨some (.f64 ⟨0x3FE0000000000000⟩), 8⟩ (.written [0x80, 0, 0, 0, 0, 0, 0, 0]) := by
    rw [codec]
    exact Layout.settles_written (by decide) rfl happ
  have hallow := terms_allow (unsignedSteps ⟨.zero, .one⟩ 8) rfl
  refine ⟨?_, hsettles.write_eq_ok (Nat.le_refl 8) []⟩
  rw [codec]
  exact Layout.read_field_self hne hallow hread

end Format

end KlvMetadata
