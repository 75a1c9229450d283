import KlvMetadata.Proofs.Format.MappedIntegers
import KlvMetadata.Proofs.Format.Steps

/-!
# Patterns That Stand for No Number

Some integers of a quantized range are not numbers of it. The most negative one stands for
an error, and integers with their top bit set stand for infinities and for NaNs. A number
must never be written as one of these, and it is not: whatever the calculation comes to, it
is converted to a word that is clamped, and the clamped word fits the field and leaves the
reserved ones out. So nothing is said here of rounding, and every word for a number is
allowed, be it the greatest or a NaN.

What is no number is written as a pattern that is read as the same: an infinity as itself, a
NaN as one of its sign and its class.

## Main definitions

* `Binary64.Resembles`: The same infinity, or a NaN of the same sign and class.

## Theorems

* `Layout.settles_unwritable`: What a layout refuses, its codec does.
* `Imap.special_marker`: What is no number is found again in its first byte.
* `Imap.encode_number`: A number is written with its top bit clear.
* `Format.signedSteps_settles`: Only a NaN is written as what stands for an error.
* `Format.reals_avoid_reserved`: No number is written as a reserved pattern.
-/

namespace KlvMetadata

theorem Bytes.headD_ofNat {count : Nat} (hpos : 1 ≤ count) (n : Nat) :
    (ofNat count n).headD 0 = UInt8.ofNat (n >>> (8 * (count - 1))) := by
  cases count with
  | zero => contradiction
  | succ count => rfl

namespace Layout

variable {α : Type} {layout : Layout α} {view : ItemView α} {terms : Terms} {a : α}
  {hint length : Nat}

/-- A thing that its layout fails to write has a length and no bytes. -/
theorem settles_unwritable {e : Error} (hkind : view.kind ≠ .blob)
    (hlength : layout.lengthOf a hint = .ok length) (hfails : (layout.write a length).Fails e) :
    (layout.codec view terms).Settles ⟨some (view.toItem a), hint⟩ (.unwritable length e) := by
  have hview : view.ofItem? (view.toItem a) = some a := (view.ofItem?_eq_some _ a).mpr rfl
  constructor
  · refine (lengthOfField_item layout view (toItem_ne_blob hkind a) hint).trans ?_
    rw [hview]
    exact hlength
  · intro space
    have hwhole : Writer.whole (layout.write a length) = throw e := funext hfails.whole
    refine (writeField_item layout view (toItem_ne_blob hkind a) hint space).trans ?_
    rw [hview]
    simp only [writeMeasured, hlength, Action.ofExcept_ok_bind, hwhole]
    rfl

/-- The same as for `settles_written`, with the length for itself. -/
theorem settles_of_appends {bytes : Bytes} (hkind : view.kind ≠ .blob)
    (hbytes : bytes.length = length) (hlength : layout.lengthOf a hint = .ok length)
    (happ : (layout.write a length).Appends bytes) :
    (layout.codec view terms).Settles ⟨some (view.toItem a), hint⟩ (.written bytes) := by
  subst hbytes
  exact settles_written hkind hlength happ

/-- A field of the length is read, whatever stands behind it. -/
theorem read_field_of_length {field : Bytes} (hfield : field.length = length) (hpos : 1 ≤ length)
    (hallow : terms.Allow length) (hread : layout.read length field = .ok a []) (rest : Bytes) :
    (layout.codec view terms).read length (field ++ rest) =
      .ok ⟨some (view.toItem a), length⟩ rest := by
  subst hfield
  exact read_field (List.length_pos_iff.mp hpos) hallow hread rest

/-- What is written as a word that fits takes the whole length. -/
theorem appends_imap {r : Range} {defaultLength : Nat} {x : Binary64} {n : UInt64}
    (h : Imap.encode r x length = .ok n) (hle : Unsigned.minLength n ≤ length) :
    ((imap r defaultLength).write x length).Appends (Bytes.ofNat length n.toNat) := by
  simp only [imap, h, Action.ofExcept_ok_bind]
  exact Unsigned.appends_write hle

theorem read_imap {r : Range} {defaultLength : Nat} {x : Binary64} {n : UInt64} {field : Bytes}
    (hpos : 1 ≤ length) (hle : length ≤ 8) (hread : Unsigned.read length field = .ok n [])
    (h : Imap.decode r n length = .ok x) :
    (imap r defaultLength).read length field = .ok x [] := by
  simp only [imap, Imap.checkLength_eq hpos hle, Action.bind_apply, Action.ofExcept_apply, hread, h]

end Layout

/-- The same infinity, or a NaN of the same sign and class. -/
structure Binary64.Resembles (y x : Binary64) : Prop where
  infinite : x.isInfinite = true → y = x
  nan : x.isNaN = true →
    y.isNaN = true ∧ y.isNegative = x.isNegative ∧ y.isQuiet = x.isQuiet

namespace Imap

variable {r : Range} {length : Nat} {x : Binary64}

/-- The first byte of what is no number. -/
def marker (x : Binary64) : UInt8 :=
  if x.isNaN then nanByte x else if x.isNegative then minusInfinity else plusInfinity

theorem marker_ge (x : Binary64) : 0x80 ≤ marker x := by
  unfold marker nanByte
  split
  · split <;> decide
  · split <;> decide

/-- What is no number is found again in its first byte. -/
theorem special_marker (x : Binary64) : (special (marker x)).Resembles x := by
  unfold marker
  cases hnan : x.isNaN with
  | true =>
      rw [if_pos rfl]
      refine ⟨fun hinfinite => ?_, fun _ => ?_⟩
      · have hgt : Precision.double.infinity < x.magnitude := of_decide_eq_true hnan
        exact absurd (of_decide_eq_true hinfinite) (ne_of_gt hgt)
      · unfold nanByte
        cases x.isNegative <;> cases x.isQuiet <;> decide
  | false =>
      rw [if_neg Bool.false_ne_true]
      refine ⟨fun hinfinite => ?_, fun hnumber => absurd (hnan.symm.trans hnumber)
        Bool.false_ne_true⟩
      refine Eq.trans ?_ (Binary64.eq_infinity hinfinite).symm
      cases x.isNegative <;> rfl

theorem encode_marker (r : Range) (hpos : 1 ≤ length) (hle : length ≤ 8) (h : x.isFinite = false) :
    encode r x length = .ok (leading (marker x) length) := by
  unfold encode marker
  rw [checkLength_eq hpos hle]
  cases hnan : x.isNaN with
  | true => rfl
  | false =>
      have hinfinite : x.isInfinite = true := by
        by_contra hnot
        exact absurd (h.symm.trans (x.isFinite_iff.mpr ⟨hnan, Bool.eq_false_iff.mpr hnot⟩))
          Bool.false_ne_true
      rw [hinfinite]
      rfl

/-- A first byte and all that can follow it. -/
theorem pow_length (hpos : 1 ≤ length) : 256 ^ length = 256 * 2 ^ (8 * (length - 1)) := by
  rw [Nat.pow_mul, ← Nat.pow_succ', Nat.succ_eq_add_one, Nat.sub_add_cancel hpos]

/-- An integer of a first byte and zeros fits, and has that first byte. -/
theorem toNat_leading (first : UInt8) (hpos : 1 ≤ length) (hle : length ≤ 8) :
    (leading first length).toNat = first.toNat <<< (8 * (length - 1)) := by
  refine UInt64.toNat_ofNat_of_lt' ?_
  have hweight : 2 ^ (8 * (length - 1)) ≤ 2 ^ 56 := Nat.pow_le_pow_right (by decide) (by omega)
  have hlt : first.toNat < 2 ^ 8 := first.toNat_lt
  rw [Nat.shiftLeft_eq]
  exact lt_of_lt_of_le (Nat.mul_lt_mul_of_lt_of_le hlt hweight (by positivity)) (by decide)

theorem minLength_leading_le (first : UInt8) (hpos : 1 ≤ length) (hle : length ≤ 8) :
    Unsigned.minLength (leading first length) ≤ length := by
  refine (Unsigned.minLength_le_iff _ length).mpr ⟨hpos, ?_⟩
  rw [toNat_leading first hpos hle, Nat.shiftLeft_eq, pow_length hpos]
  exact Nat.mul_lt_mul_of_pos_right first.toNat_lt (Nat.two_pow_pos _)

theorem first_leading (first : UInt8) (hpos : 1 ≤ length) (hle : length ≤ 8) :
    UInt8.ofNat ((leading first length).toNat >>> (8 * (length - 1))) = first := by
  rw [toNat_leading first hpos hle, Nat.shiftLeft_shiftRight, UInt8.ofNat_toNat]

theorem decode_leading (r : Range) {first : UInt8} (hpos : 1 ≤ length) (hle : length ≤ 8)
    (h : 0x80 ≤ first) : decode r (leading first length) length = .ok (special first) := by
  unfold decode
  rw [checkLength_eq hpos hle, first_leading first hpos hle]
  exact if_pos h

/-- A number is refused, or it is written as an integer up to the limit. -/
theorem encode_number (r : Range) (hpos : 1 ≤ length) (hle : length ≤ 8) (h : x.isFinite = true) :
    encode r x length = .error (.value (.outsideRange "IMAP" x r.minimum r.maximum)) ∨
      ∃ n : UInt64, encode r x length = .ok n ∧ n.toNat ≤ limit length := by
  rw [encode_eq r hpos hle (Binary64.standsFor_toRat h)]
  split
  · exact Or.inl rfl
  · refine Or.inr ⟨_, rfl, ?_⟩
    refine le_trans (UInt64.le_iff_toNat_le.mp Std.min_le_right) ?_
    exact (toNat_limit hpos hle).le

theorem minLength_le_of_le_limit (hpos : 1 ≤ length) {n : UInt64} (hn : n.toNat ≤ limit length) :
    Unsigned.minLength n ≤ length := by
  refine (Unsigned.minLength_le_iff n length).mpr ⟨hpos, ?_⟩
  have hweight := Nat.two_pow_pos (8 * (length - 1))
  rw [limit_eq hpos] at hn
  rw [pow_length hpos]
  omega

end Imap

namespace Format

variable {r : Range} {length : Nat} {x : Binary64}

/-- A number is refused for being out of the range, or it is written in the whole length. -/
theorem unsignedSteps_settles (r : Range) (hpos : 1 ≤ length) (x : Binary64) (hint : Nat) :
    (unsignedSteps r length).codec.Settles ⟨some (.f64 x), hint⟩
        (.unwritable length (.value (.outsideRange "uflint" x r.minimum r.maximum))) ∨
      ∃ bytes, bytes.length = length ∧
        (unsignedSteps r length).codec.Settles ⟨some (.f64 x), hint⟩ (.written bytes) := by
  have hencode := UnsignedSteps.encode_eq r length x
  split at hencode
  · obtain ⟨n, hn⟩ : ∃ n, UnsignedSteps.encode r length x = .ok n := ⟨_, hencode⟩
    have hfits := UnsignedSteps.fits_of_encode hn
    rw [Bytes.capacity_eq] at hfits
    have happ := Layout.appends_unsignedSteps hn
      ((Unsigned.minLength_le_iff n length).mpr ⟨hpos, hfits⟩)
    refine Or.inr ⟨_, Bytes.length_ofNat length n.toNat, ?_⟩
    rw [codec]
    exact Layout.settles_of_appends (by decide) (Bytes.length_ofNat _ _) rfl happ
  · refine Or.inl ?_
    rw [codec]
    refine Layout.settles_unwritable (by decide) rfl fun out => ⟨out, ?_⟩
    simp only [Layout.unsignedSteps, hencode]
    rfl

/-- A number of steps is written as its bytes. -/
theorem signedSteps_writes (hpos : 1 ≤ length) (hle : length ≤ 8) {n : Int}
    (hencode : SignedSteps.encode r length x = .ok (Int64.ofInt n))
    (hlow : -SignedSteps.limit length - 1 ≤ n) (hhigh : n ≤ SignedSteps.limit length) (hint : Nat) :
    ∃ bytes, bytes.length = length ∧
      (signedSteps r length).codec.Settles ⟨some (.f64 x), hint⟩ (.written bytes) ∧
      Signed.value bytes = n := by
  have hlimit := SignedSteps.limit_eq hpos
  have hfits : Signed.Fits n length := ⟨by omega, by omega⟩
  have hword := Signed.toInt_ofInt (hfits.mono hle)
  have happ := Layout.appends_signedSteps hencode
    ((Signed.minLength_le_iff _ hpos).mpr (by rwa [hword]))
  rw [hword] at happ
  refine ⟨_, Signed.length_spelling _ _, ?_, Signed.value_spelling hpos hfits⟩
  rw [codec]
  exact Layout.settles_of_appends (by decide) (Signed.length_spelling _ _) rfl happ

/-- The most negative number is written for a NaN, and only for that. -/
theorem signedSteps_settles (r : Range) (hpos : 1 ≤ length) (hle : length ≤ 8) (x : Binary64)
    (hint : Nat) :
    (x.isNaN = false ∧ (signedSteps r length).codec.Settles ⟨some (.f64 x), hint⟩
        (.unwritable length (.value (.outsideRange "sflint" x r.minimum r.maximum)))) ∨
      ∃ bytes, bytes.length = length ∧
        (signedSteps r length).codec.Settles ⟨some (.f64 x), hint⟩ (.written bytes) ∧
        (2 * Signed.value bytes = -(Bytes.capacity length : Int) ↔ x.isNaN = true) := by
  have hlimit := SignedSteps.limit_eq hpos
  have hmany := Bytes.le_capacity hpos
  cases hnan : x.isNaN with
  | true =>
      have hencode : SignedSteps.encode r length x =
          .ok (Int64.ofInt (SignedSteps.errorIndicator length)) := if_pos hnan
      unfold SignedSteps.errorIndicator at hencode
      rcases signedSteps_writes hpos hle hencode (by omega) (by omega) hint with
        ⟨bytes, hbytes, hsettles, hvalue⟩
      exact Or.inr ⟨bytes, hbytes, hsettles, iff_of_true (by omega) rfl⟩
  | false =>
      cases hexcludes : r.excludes (SignedSteps.step r length / .two) x with
      | true =>
          refine Or.inl ⟨rfl, ?_⟩
          rw [codec]
          refine Layout.settles_unwritable (by decide) rfl fun out => ⟨out, ?_⟩
          simp only [Layout.signedSteps, SignedSteps.encode_eq_error
            (show ¬ (x.isNaN = true ∨ _ = false) by rw [hnan, hexcludes]; decide)]
          rfl
      | false =>
          rcases signedSteps_writes hpos hle (SignedSteps.encode_eq_ok hnan hexcludes)
            (by omega) (by omega) hint with ⟨bytes, hbytes, hsettles, hvalue⟩
          exact Or.inr ⟨bytes, hbytes, hsettles, iff_of_false (by omega) Bool.false_ne_true⟩

/-- What is no number is written as a marked field, and a number is not. -/
theorem imap_settles (r : Range) (hpos : 1 ≤ length) (hle : length ≤ 8) (x : Binary64)
    {hint defaultLength : Nat}
    (hlength : (imap r defaultLength).codec.lengthOf ⟨some (.f64 x), hint⟩ = .ok length) :
    (x.isFinite = true ∧ (imap r defaultLength).codec.Settles ⟨some (.f64 x), hint⟩
        (.unwritable length (.value (.outsideRange "IMAP" x r.minimum r.maximum)))) ∨
      ∃ bytes, bytes.length = length ∧
        (imap r defaultLength).codec.Settles ⟨some (.f64 x), hint⟩ (.written bytes) ∧
        (0x80 ≤ bytes.headD 0 ↔ x.isFinite = false) ∧
        (x.isFinite = false → ∃ y : Binary64, y.Resembles x ∧ ∀ rest,
          (imap r defaultLength).codec.read length (bytes ++ rest) =
            .ok ⟨some (.f64 y), length⟩ rest) := by
  rw [codec] at hlength ⊢
  cases hfinite : x.isFinite with
  | true =>
      rcases Imap.encode_number r hpos hle hfinite with hencode | ⟨n, hencode, hn⟩
      · refine Or.inl ⟨rfl, Layout.settles_unwritable (by decide) hlength fun out => ⟨out, ?_⟩⟩
        simp only [Layout.imap, hencode]
        rfl
      · have happ : ((Layout.imap r defaultLength).write x length).Appends
            (Bytes.ofNat length n.toNat) :=
          Layout.appends_imap hencode (Imap.minLength_le_of_le_limit hpos hn)
        refine Or.inr ⟨_, Bytes.length_ofNat length n.toNat, Layout.settles_of_appends
          (by decide) (Bytes.length_ofNat _ _) hlength happ, ?_, fun h => absurd h (by decide)⟩
        rw [Bytes.headD_ofNat hpos, UInt8.le_iff_toNat_le]
        exact iff_of_false (not_le.mpr (Imap.first_lt hpos hn)) (by decide)
  | false =>
      have hword := Imap.minLength_leading_le (Imap.marker x) hpos hle
      have hencode := Imap.encode_marker r hpos hle hfinite
      have hdecode := Imap.decode_leading r hpos hle (Imap.marker_ge x)
      have hfirst := Imap.first_leading (Imap.marker x) hpos hle
      generalize Imap.leading (Imap.marker x) length = n at hword hencode hdecode hfirst
      have hbytes := Bytes.length_ofNat length n.toNat
      have happ : ((Layout.imap r defaultLength).write x length).Appends
          (Bytes.ofNat length n.toNat) := Layout.appends_imap hencode hword
      have hread : (Layout.imap r defaultLength).read length (Bytes.ofNat length n.toNat) =
          .ok (Imap.special (Imap.marker x)) [] :=
        Layout.read_imap hpos hle (Reader.Spells.read_self (Unsigned.read_ofNat hword)) hdecode
      refine Or.inr ⟨_, hbytes, Layout.settles_of_appends (by decide) hbytes hlength happ, ?_,
        fun _ => ⟨_, Imap.special_marker x, fun rest => ?_⟩⟩
      · rw [Bytes.headD_ofNat hpos, hfirst]
        exact iff_of_true (Imap.marker_ge x) rfl
      · have hallow : (imap r defaultLength).terms.Allow length := fun _ hrequired =>
          nomatch hrequired
        exact Layout.read_field_of_length hbytes hpos hallow hread rest

/-- For every range, every number and every length of one to eight bytes, writing the
    number is refused for the number being out of the range, or it fills the length. The
    pattern that stands for an error is written for a NaN and for nothing else, patterns
    with their top bit set are written for infinities and NaNs and for nothing else, and
    these are read again as what they were. -/
theorem reals_avoid_reserved (r : Range) {length : Nat} (hpos : 1 ≤ length) (hle : length ≤ 8)
    (x : Binary64) (hint : Nat) :
    ((unsignedSteps r length).codec.Settles ⟨some (.f64 x), hint⟩
        (.unwritable length (.value (.outsideRange "uflint" x r.minimum r.maximum))) ∨
      ∃ bytes, bytes.length = length ∧
        (unsignedSteps r length).codec.Settles ⟨some (.f64 x), hint⟩ (.written bytes)) ∧
    ((x.isNaN = false ∧ (signedSteps r length).codec.Settles ⟨some (.f64 x), hint⟩
        (.unwritable length (.value (.outsideRange "sflint" x r.minimum r.maximum)))) ∨
      ∃ bytes, bytes.length = length ∧
        (signedSteps r length).codec.Settles ⟨some (.f64 x), hint⟩ (.written bytes) ∧
        (2 * Signed.value bytes = -(Bytes.capacity length : Int) ↔ x.isNaN = true)) ∧
    ∀ defaultLength,
      (imap r defaultLength).codec.lengthOf ⟨some (.f64 x), hint⟩ = .ok length →
      (x.isFinite = true ∧ (imap r defaultLength).codec.Settles ⟨some (.f64 x), hint⟩
          (.unwritable length (.value (.outsideRange "IMAP" x r.minimum r.maximum)))) ∨
        ∃ bytes, bytes.length = length ∧
          (imap r defaultLength).codec.Settles ⟨some (.f64 x), hint⟩ (.written bytes) ∧
          (0x80 ≤ bytes.headD 0 ↔ x.isFinite = false) ∧
          (x.isFinite = false → ∃ y : Binary64, y.Resembles x ∧ ∀ rest,
            (imap r defaultLength).codec.read length (bytes ++ rest) =
              .ok ⟨some (.f64 y), length⟩ rest) :=
  ⟨unsignedSteps_settles r hpos x hint, signedSteps_settles r hpos hle x hint,
    fun _ hlength => imap_settles r hpos hle x hlength⟩

/-- A negative signalling NaN stands for an error in one field, and is read again as such a
    NaN from another. -/
theorem reals_avoid_reserved_nan :
    (∃ bytes, (signedSteps ⟨.ofInt (-90), .ofInt 90⟩ 4).codec.Settles
        ⟨some (.f64 ⟨0xFFF0000000000001⟩), 4⟩ (.written bytes) ∧
      2 * Signed.value bytes = -(Bytes.capacity 4 : Int)) ∧
    (imap ⟨.ofInt (-90), .ofInt 90⟩ 2).codec.lengthOf ⟨some (.f64 ⟨0xFFF0000000000001⟩), 8⟩ =
      .ok 8 ∧
    ∃ bytes y, (imap ⟨.ofInt (-90), .ofInt 90⟩ 2).codec.Settles
        ⟨some (.f64 ⟨0xFFF0000000000001⟩), 8⟩ (.written bytes) ∧ 0x80 ≤ bytes.headD 0 ∧
      (imap ⟨.ofInt (-90), .ofInt 90⟩ 2).codec.read 8 bytes = .ok ⟨some (.f64 y), 8⟩ [] ∧
      y.isNaN = true ∧ y.isNegative = true ∧ y.isQuiet = false := by
  have hnan : Binary64.isNaN ⟨0xFFF0000000000001⟩ = true := by decide
  have hspecial : Binary64.isFinite ⟨0xFFF0000000000001⟩ = false := by decide
  have hlength : (imap ⟨.ofInt (-90), .ofInt 90⟩ 2).codec.lengthOf
      ⟨some (.f64 ⟨0xFFF0000000000001⟩), 8⟩ = .ok 8 := by
    rw [codec]
    rfl
  rcases reals_avoid_reserved ⟨.ofInt (-90), .ofInt 90⟩ (show 1 ≤ 4 by decide) (by decide)
    ⟨0xFFF0000000000001⟩ 4 with ⟨_, ⟨hnumber, _⟩ | ⟨bytes, _, hsettles, hvalue⟩, _⟩
  · exact absurd (hnumber.symm.trans hnan) Bool.false_ne_true
  refine ⟨⟨bytes, hsettles, hvalue.mpr hnan⟩, hlength, ?_⟩
  rcases (reals_avoid_reserved ⟨.ofInt (-90), .ofInt 90⟩ (show 1 ≤ 8 by decide) (by decide)
    ⟨0xFFF0000000000001⟩ 8).2.2 2 hlength with ⟨hfinite, _⟩ | ⟨field, _, hsettles, hhead, hread⟩
  · exact absurd (hspecial.symm.trans hfinite) Bool.false_ne_true
  rcases hread hspecial with ⟨y, hy, hfield⟩
  have hself := hfield []
  rw [List.append_nil] at hself
  exact ⟨field, y, hsettles, hhead.mpr hspecial, hself, hy.nan hnan⟩

end Format

end KlvMetadata
