import KlvMetadata.Proofs.Format.Mapping
import KlvMetadata.St0601.Schema

/-!
# Mapped Integers That Are Found Again

Where the calculation leads close enough to the integer it started from, the integer is
written again from the number it was read as. Two kinds of ranges do this in up to six
bytes. One has zero inside, so that there is a negative end to take its losses back. The
other begins at a whole number, as all ranges of the standard do. Ranges of other kinds are
not safe in five bytes: above zero they have neighbours that are mapped to one number.

Whether the number is taken back at all is a matter of the range. The powers of two reach
beyond its upper end, and an integer out there stands for a number that is refused.

## Main definitions

* `Imap.Returns`: The integer comes back, unless its number is outside of the range.
* `Imap.Straddles`: Zero is in the range.
* `Imap.Fine`: The range begins at a whole number, and has not too many steps.

## Theorems

* `Imap.decode_eq`, `Imap.encode_eq`: What reading and writing calculate.
* `Imap.Resolves.returns`: What stays close comes back.
* `Imap.Fine.resolves`, `Imap.Straddles.resolves`: The two kinds of ranges.
* `Imap.integers_come_back`: Integers whose number is in the range are found again.
-/

namespace KlvMetadata

open Precision

namespace Imap

variable {r : Range} {length raw : Nat}

/-- The integer is read as its number, and the number is written as the integer if it is in
    the range. Otherwise it may be refused, for no other reason than that. -/
def Returns (r : Range) (length : Nat) (raw : UInt64) : Prop :=
  ∃ x, decode r raw length = .ok x ∧
    (r.minimum.toRat ≤ x.toRat → x.toRat ≤ r.maximum.toRat → encode r x length = .ok raw) ∧
    encode r x length =
      if r.excludes ((scale r length).reverse / .two) x then
        .error (.value (.outsideRange "IMAP" x r.minimum r.maximum))
      else .ok raw

theorem checkLength_eq (hpos : 1 ≤ length) (hle : length ≤ 8) : checkLength length = .ok () :=
  if_pos ⟨hpos, hle⟩

theorem limit_eq (hpos : 1 ≤ length) : limit length = 2 ^ (8 * (length - 1)) * 128 - 1 := by
  have hbits : fieldBits length = 8 * (length - 1) + 7 := by
    unfold fieldBits
    omega
  rw [limit, Nat.one_shiftLeft, hbits, Nat.pow_add]

/-- The limit is a word. -/
theorem toNat_limit (hpos : 1 ≤ length) (hle : length ≤ 8) :
    (UInt64.ofNat (limit length)).toNat = limit length := by
  have hweight : 2 ^ (8 * (length - 1)) ≤ 2 ^ 56 := Nat.pow_le_pow_right (by decide) (by omega)
  have hlt : limit length < 2 ^ 64 := by
    rw [limit_eq hpos]
    omega
  exact UInt64.toNat_ofNat_of_lt' hlt

/-- The top bit is clear up to the limit. -/
theorem first_lt (hpos : 1 ≤ length) {n : Nat} (hn : n ≤ limit length) :
    (UInt8.ofNat (n >>> (8 * (length - 1)))).toNat < 0x80 := by
  have hfirst : n >>> (8 * (length - 1)) < 0x80 := by
    have hweight := Nat.two_pow_pos (8 * (length - 1))
    rw [limit_eq hpos] at hn
    rw [Nat.shiftRight_eq_div_pow]
    exact Nat.div_lt_of_lt_mul (by omega)
  rwa [UInt8.toNat_ofNat_of_lt' (lt_trans hfirst (by decide))]

/-- Integers whose top bit is clear stand for numbers. -/
theorem decode_eq (r : Range) (hpos : 1 ≤ length) (hle : length ≤ 8) {n : UInt64}
    (hn : n.toNat ≤ limit length) : decode r n length = .ok (located r length n.toNat) := by
  have hclear : ¬ 0x80 ≤ UInt8.ofNat (n.toNat >>> (8 * (length - 1))) := by
    rw [UInt8.le_iff_toNat_le]
    exact not_le.mpr (first_lt hpos hn)
  unfold decode
  rw [checkLength_eq hpos hle]
  exact if_neg hclear

theorem encode_eq (r : Range) (hpos : 1 ≤ length) (hle : length ≤ 8) {x : Binary64} {a : ℚ}
    (hx : x.StandsFor a) :
    encode r x length =
      if r.excludes ((scale r length).reverse / .two) x then
        .error (.value (.outsideRange "IMAP" x r.minimum r.maximum))
      else .ok (min (quantize (scaled r length x)).toUInt64 (UInt64.ofNat (limit length))) := by
  unfold encode
  rw [checkLength_eq hpos hle, hx.isNaN_eq, hx.isInfinite_eq]
  dsimp only
  cases r.excludes ((scale r length).reverse / .two) x <;> rfl

/-- Where a step is not lost, an integer comes back from its number. -/
theorem Resolves.returns {n : UInt64} (h : Resolves r length n.toNat) (hpos : 1 ≤ length)
    (hle : length ≤ 8) (hn : n.toNat ≤ limit length) : Returns r length n := by
  rcases h.close with ⟨x, a, hx, ha, hclose⟩
  have hcount := h.standsFor_raw.1
  have hy0 : (0 : ℚ) ≤ n.toNat := Nat.cast_nonneg _
  have hsize : |a| ≤ 2 ^ (1022 : Int) := by
    rcases abs_le.mp hclose with ⟨hlow, hhigh⟩
    exact abs_le_of_countable (abs_le.mpr ⟨by linarith, by linarith⟩)
  rw [← Int.cast_natCast (R := ℚ)] at hclose
  have hback := quantize_eq ha hclose hsize
  rw [Int.cast_natCast] at hback
  have hraw : min (quantize (scaled r length (located r length n.toNat))).toUInt64
      (UInt64.ofNat (limit length)) = n := by
    rw [hback.toUInt64_eq n.toNat_lt, UInt64.ofNat_toNat]
    refine if_pos (UInt64.le_iff_toNat_le.mpr ?_)
    rwa [toNat_limit hpos hle]
  have hencode := encode_eq r hpos hle hx
  rw [hraw] at hencode
  refine ⟨_, decode_eq r hpos hle hn, fun hlow hhigh => ?_, hencode⟩
  rw [hx.toRat_eq] at hlow hhigh
  rw [hencode, h.excludes_eq_false hx hlow hhigh, if_neg Bool.false_ne_true]

/-- The lower end is a whole number, and with the extent it is no greater than the bits of a
    step allow for. -/
structure Fine (r : Range) (length : Nat) : Prop where
  minimum_isFinite : r.minimum.isFinite = true
  maximum_isFinite : r.maximum.isFinite = true
  maximum_le : |r.maximum.toRat| ≤ 2 ^ (53 : Int)
  le_stepBits : -1022 ≤ stepBits r length
  whole : r.minimum.toRat = r.minimum.toRat.floor
  reach_le : |r.minimum.toRat| + 2 ^ extentBits r ≤ 2 ^ (min 0 (stepBits r length) + 53)

instance (r : Range) (length : Nat) : Decidable (Fine r length) :=
  decidable_of_iff (r.minimum.isFinite = true ∧ r.maximum.isFinite = true ∧
      |r.maximum.toRat| ≤ 2 ^ (53 : Int) ∧ -1022 ≤ stepBits r length ∧
      r.minimum.toRat = r.minimum.toRat.floor ∧
      |r.minimum.toRat| + 2 ^ extentBits r ≤ 2 ^ (min 0 (stepBits r length) + 53))
    ⟨fun ⟨h1, h2, h3, h4, h5, h6⟩ => ⟨h1, h2, h3, h4, h5, h6⟩,
      fun ⟨h1, h2, h3, h4, h5, h6⟩ => ⟨h1, h2, h3, h4, h5, h6⟩⟩

/-- There are as many steps as the bits of the extent allow for. -/
theorem count_mul_step_le (r : Range) (hraw : raw ≤ limit length) :
    ((raw : ℚ) + 1) * step r length ≤ 2 ^ extentBits r := by
  have hcount : ((raw : ℚ) + 1) ≤ 2 ^ fieldBits length := by
    have hcount : raw + 1 ≤ 2 ^ fieldBits length := by
      have hpos := Nat.two_pow_pos (fieldBits length)
      rw [limit, Nat.one_shiftLeft] at hraw
      omega
    exact_mod_cast hcount
  refine le_trans (mul_le_mul_of_nonneg_right hcount (step_pos r length).le) (le_of_eq ?_)
  rw [step, ← zpow_natCast, ← zpow_add₀ two_ne_zero, stepBits, add_sub_cancel]

/-- All integers of such a field come back. -/
theorem Fine.resolves (h : Fine r length) (hraw : raw ≤ limit length) :
    Resolves r length raw := by
  have hreach : reach r length raw ≤ 2 ^ (min 0 (stepBits r length) + 53) :=
    le_trans (add_le_add_right (count_mul_step_le r hraw) _) h.reach_le
  have hbits := h.le_stepBits
  exact ⟨h.minimum_isFinite, h.maximum_isFinite,
    le_trans h.maximum_le (zpow_le_iff.mpr (by decide)), hbits,
    le_trans hreach (zpow_le_iff.mpr (by omega)),
    Or.inr (Or.inl ⟨min 0 (stepBits r length), by omega, min_le_right _ _,
      h.whole ▸ multiple_intCast _ (min_le_left _ _), hreach⟩)⟩

/-- Zero is in the range, a step or more above the lower end. -/
structure Straddles (r : Range) (length : Nat) : Prop where
  minimum_isFinite : r.minimum.isFinite = true
  maximum_isFinite : r.maximum.isFinite = true
  minimum_ge : -2 ^ (1018 : Int) ≤ r.minimum.toRat
  maximum_le : r.maximum.toRat ≤ 2 ^ (1018 : Int)
  le_stepBits : -1022 ≤ stepBits r length
  minimum_le : r.minimum.toRat ≤ -step r length
  maximum_pos : 0 < r.maximum.toRat

/-- A logarithm that was rounded is not far from the exact one. -/
theorem ceil_bounds (q : ℚ) :
    floorLog 2 q ≤ LogBase.two.ceil q ∧ LogBase.two.ceil q ≤ floorLog 2 q + 1 := by
  have hbase : LogBase.two.base = 2 := rfl
  unfold LogBase.ceil
  rw [hbase]
  dsimp only
  split <;> omega

/-- The extent is greater than the distance of the lower end, and its bits are one too many or
    one too few at most. -/
theorem Straddles.extentBits_bounds (h : Straddles r length) :
    -r.minimum.toRat ≤ 2 * 2 ^ extentBits r ∧ (2 : ℚ) ^ extentBits r ≤ 2 ^ (1020 : Int) := by
  have hneg := h.minimum_le
  have hstep := step_pos r length
  have hminimum := Binary64.standsFor_toRat h.minimum_isFinite
  have hmost : |r.maximum.toRat - r.minimum.toRat| ≤ 2 ^ (1019 : Int) := by
    rw [abs_of_pos (by linarith [h.maximum_pos]), show (1019 : Int) = 1018 + 1 from rfl,
      zpow_add_one₀ two_ne_zero]
    linarith [h.minimum_ge, h.maximum_le]
  have hextent := (Binary64.standsFor_toRat h.maximum_isFinite).sub hminimum
    (lt_of_le_of_lt hmost (zpow_lt_iff.mpr (by decide)))
  have hbelow := rounded_mono (p := double)
    (show -r.minimum.toRat ≤ r.maximum.toRat - r.minimum.toRat by linarith [h.maximum_pos])
  rw [rounded_neg, rounded_of_representable hminimum.representable] at hbelow
  have habove := le_of_abs_le (abs_rounded_le (representable_zpow (by decide)) hmost)
  have hbits : extentBits r =
      LogBase.two.ceil (double.rounded (r.maximum.toRat - r.minimum.toRat)) := by
    rw [extentBits, show r.extent = r.maximum - r.minimum from rfl, hextent.isInfinite_eq,
      if_neg Bool.false_ne_true, hextent.toRat_eq]
  rw [hbits]
  generalize double.rounded (r.maximum.toRat - r.minimum.toRat) = q at hbelow habove
  have hq : 0 < q := by linarith
  rcases ceil_bounds q with ⟨hlow, hhigh⟩
  constructor
  · refine le_trans hbelow (le_trans (lt_zpow_floorLog hq).le ?_)
    rw [zpow_add_one₀ two_ne_zero, mul_comm]
    exact mul_le_mul_of_nonneg_left (zpow_le_iff.mpr hlow) zero_le_two
  · have hlog := zpow_le_iff.mp (le_trans (zpow_floorLog_le hq) habove)
    exact zpow_le_iff.mpr (by omega)

theorem Straddles.resolves (h : Straddles r length) (hle : length ≤ 6)
    (hraw : raw ≤ limit length) : Resolves r length raw := by
  have hpos := step_pos r length
  rcases h.extentBits_bounds with ⟨hmin, hextent⟩
  have hcount := count_mul_step_le r hraw
  have hlow := h.minimum_ge
  have hhigh := h.maximum_le
  have hneg := h.minimum_le
  have hsteps : (2 : ℚ) ^ extentBits r ≤ 2 ^ 47 * step r length := by
    rw [step, ← zpow_natCast, ← zpow_add₀ two_ne_zero]
    refine zpow_le_iff.mpr ?_
    unfold stepBits fieldBits
    omega
  have hreach : reach r length raw ≤ 2 ^ 50 * step r length := by
    rw [reach, abs_of_neg (by linarith)]
    linarith
  refine ⟨h.minimum_isFinite, h.maximum_isFinite, ?_, h.le_stepBits, ?_,
    Or.inr (Or.inr ⟨hneg, hreach, Or.inl h.maximum_pos⟩)⟩
  · rw [abs_of_pos h.maximum_pos]
    exact le_trans hhigh (zpow_le_iff.mpr (by decide))
  · rw [reach, abs_of_neg (by linarith), show (1021 : Int) = 1018 + 3 from rfl,
      zpow_add₀ two_ne_zero]
    rw [show (1020 : Int) = 1018 + 2 from rfl, zpow_add₀ two_ne_zero] at hextent
    generalize (2 : ℚ) ^ (1018 : Int) = T at *
    norm_num at hextent ⊢
    linarith

/-- The range of a format of mapped numbers. -/
def mappedRange : Format → Option Range
  | .imap r _ => some r
  | .unsigned _ | .signed _ | .blob _ | .string _ | .float _ | .ber | .berOid
  | .unsignedSteps _ _ | .signedSteps _ _ | .code _ _ | .command | .frameRate | .localSet _
  | .universalSet _ | .st0601 _ => none

/-- The mapped items of the standard are fine enough in up to six bytes. -/
theorem fine_of_mem_schema {e : Entry Format} (he : e ∈ St0601.schema.entries) {defaultLength : Nat}
    (hformat : e.format = .imap r defaultLength) (hpos : 1 ≤ length) (hle : length ≤ 6) :
    Fine r length := by
  have hall : (St0601.schema.entries.all fun e => (mappedRange e.format).all fun r =>
      (List.range 6).all fun k => decide (Fine r (k + 1))) = true := by
    decide +kernel
  have hentry := List.all_eq_true.mp hall e he
  rw [hformat] at hentry
  have hlength := List.all_eq_true.mp hentry (length - 1) (List.mem_range.mpr (by omega))
  rw [Nat.sub_add_cancel hpos] at hlength
  exact of_decide_eq_true hlength

/-- Integers come back from their numbers where a step is not lost on the way. This is so for
    all integers of up to six bytes if zero is in the range, and if the range is one of the
    standard. Only numbers outside of the range are refused. -/
theorem integers_come_back :
    (∀ r length (n : UInt64), 1 ≤ length → length ≤ 8 → n.toNat ≤ limit length →
      Resolves r length n.toNat → Returns r length n) ∧
    (∀ r length (n : UInt64), 1 ≤ length → length ≤ 6 → n.toNat ≤ limit length →
      Straddles r length → Returns r length n) ∧
    ∀ e ∈ St0601.schema.entries, ∀ r defaultLength, e.format = .imap r defaultLength →
      ∀ length (n : UInt64), 1 ≤ length → length ≤ 6 → n.toNat ≤ limit length →
        Returns r length n := by
  refine ⟨fun r length n hpos hle hn h => h.returns hpos hle hn,
    fun r length n hpos hle hn h => (h.resolves hle hn).returns hpos (by omega) hn, ?_⟩
  intro e he r defaultLength hformat length n hpos hle hn
  exact ((fine_of_mem_schema he hformat hpos hle).resolves hn).returns hpos (by omega) hn

/-- Half of a full scale comes back from a byte, the angles of the standard do from six, and so
    do fractions to both sides of zero. -/
theorem integers_come_back_half :
    Returns (St0601.between 0 100) 1 50 ∧
      Returns ⟨⟨0xBFB999999999999A⟩, ⟨0x3FECCCCCCCCCCCCD⟩⟩ 6 0x600000000001 ∧
      Returns (St0601.between 0 360) 6 0x400000000001 := by
  have hfine : Fine (St0601.between 0 100) 1 := by decide +kernel
  have hstraddles : Straddles ⟨⟨0xBFB999999999999A⟩, ⟨0x3FECCCCCCCCCCCCD⟩⟩ 6 := by
    constructor
    all_goals decide +kernel
  have hentry : ∃ e ∈ St0601.schema.entries, e.format = .imap (St0601.between 0 360) 2 :=
    ⟨_, List.getElem_mem (n := 111) (by decide +kernel), rfl⟩
  rcases hentry with ⟨e, he, hformat⟩
  exact ⟨integers_come_back.1 _ 1 50 (by decide) (by decide) (by decide)
      (hfine.resolves (by decide)),
    integers_come_back.2.1 _ 6 0x600000000001 (by decide) (by decide) (by decide) hstraddles,
    integers_come_back.2.2 e he _ 2 hformat 6 0x400000000001 (by decide) (by decide) (by decide)⟩

/-- The scale of a hundred reaches beyond its end, and a number there is read and refused.
    Where last places are too great, a number inside comes back as its neighbour. -/
theorem integers_are_lost :
    (decode (St0601.between 0 100) 101 1 = .ok (.ofInt 101) ∧
      encode (St0601.between 0 100) (.ofInt 101) 1 =
        .error (.value (.outsideRange "IMAP" (.ofInt 101) .zero (.ofInt 100)))) ∧
    decode ⟨⟨0x3FB999999999999A⟩, ⟨0x3FECCCCCCCCCCCCD⟩⟩ 0x2000000000 5 =
        .ok ⟨0x3FD6666666666666⟩ ∧
      encode ⟨⟨0x3FB999999999999A⟩, ⟨0x3FECCCCCCCCCCCCD⟩⟩ ⟨0x3FD6666666666666⟩ 5 =
        .ok 0x1FFFFFFFFF := by
  refine ⟨⟨?_, ?_⟩, ?_, ?_⟩
  all_goals decide +kernel

end Imap

end KlvMetadata
