import KlvMetadata.Proofs.Wire.Integers
import Mathlib.Algebra.Group.Int.Defs
import Mathlib.Order.Bounds.Defs

/-!
# Integers in Fields of a Fixed Width

In a field of a given width there is one run of bytes for each of the numbers that lie
between two bounds, and one number for each run. Writing goes one way and reading goes the
other, as far as words go: a field wider than a word has runs that no word can hold, and a
field narrower than a word is refused numbers that a word has. Both kinds of integers are
like this. They differ in the bounds, in what bytes spell, and in what stands in front of a
number that leaves room.

What stands in front is never part of the number. In a field of more than eight bytes the
last eight spell it, so a writer of words that takes eight bytes at most and insists on
numbers which fit them is asked for nothing that it would refuse.

## Main definitions

* `FixedWidth`: What is promised of integers in fields of any width.
* `IntegerCode`: Integers that have one spelling in every width that is enough for them.
* `Unsigned.code`, `Signed.code`: Both kinds of integers.

## Theorems

* `IntegerCode.fixedWidth`: The promise follows from having one spelling in every width.
* `Bytes.ofNat_padded`, `Signed.spelling_padded`: Wide fields are filled up in front.
* `Unsigned.fits_iff`, `Signed.fits_iff`: The numbers of a width lie between powers of two.
* `integers_at_fixed_width`: Both kinds of integers keep the promise.
-/

namespace KlvMetadata

/-- Integers of one kind are kept in fields of any width. Bytes spell the number `spelled`,
    and a field holds the numbers that `Fits` tells. Wide fields are filled up with `padding`. -/
structure FixedWidth {α : Type} (toInt : α → Int) (spelled : Bytes → Int)
    (Fits : Int → (width : Nat) → Prop) (minLength : α → Nat) (padding : α → UInt8)
    (read : (width : Nat) → Reader α) (write : α → (width : Nat) → Writer) : Prop where
  /-- A number that fits is written in as many bytes, and is read back from these. -/
  written : ∀ a {width}, 1 ≤ width → Fits (toInt a) width → ∃ bytes, bytes.length = width ∧
    (write a width).Appends bytes ∧ ∀ rest, read width (bytes ++ rest) = .ok a rest
  /-- Any other is refused, and nothing is written. -/
  refused : ∀ a {width}, 1 ≤ width → ¬ Fits (toInt a) width →
    ∃ fault, ∀ out, write a width out = .error (.value fault) out
  /-- Bytes that spell a number of eight bytes are read as that, and it is written as them. -/
  accepted : ∀ {bytes}, bytes ≠ [] → Fits (spelled bytes) 8 → ∃ a, toInt a = spelled bytes ∧
    (∀ rest, read bytes.length (bytes ++ rest) = .ok a rest) ∧
    (write a bytes.length).Appends bytes
  /-- Any other bytes cannot be parsed. -/
  rejected : ∀ {bytes}, bytes ≠ [] → ¬ Fits (spelled bytes) 8 →
    ∃ fault, ∀ rest, read bytes.length (bytes ++ rest) = .error (.parse fault) rest
  /-- The fewest bytes in which a number is written. -/
  fewest : ∀ a, IsLeast {width | ∃ out behind, write a width out = .ok () behind} (minLength a)
  /-- Behind the padding there is a word of eight bytes at most, which the number fits. -/
  word : ∀ a {width}, 1 ≤ width → Fits (toInt a) width → ∃ bytes, bytes.length = min width 8 ∧
    Fits (toInt a) bytes.length ∧ spelled bytes = toInt a ∧
    (write a width).Appends (List.replicate (width - 8) (padding a) ++ bytes)

/-- A code for integers. A number has one spelling in every width from its fewest bytes on,
    which are eight at most. It is written as this spelling and read from it. -/
structure IntegerCode (α : Type) where
  toInt : α → Int
  spelled : Bytes → Int
  Fits : Int → (width : Nat) → Prop
  minLength : α → Nat
  padding : α → UInt8
  spelling : (width : Nat) → α → Bytes
  read : (width : Nat) → Reader α
  write : α → (width : Nat) → Writer
  fault : α → (width : Nat) → ValueFault
  overflow : (width : Nat) → ParseFault
  minLength_bounds : ∀ a, 1 ≤ minLength a ∧ minLength a ≤ 8
  minLength_le_iff : ∀ a {width}, 1 ≤ width → (minLength a ≤ width ↔ Fits (toInt a) width)
  length_spelling : ∀ width a, (spelling width a).length = width
  spelled_eq_iff : ∀ a {bytes}, bytes ≠ [] → (spelled bytes = toInt a ↔
    minLength a ≤ bytes.length ∧ bytes = spelling bytes.length a)
  spelling_padded : ∀ a {count}, minLength a ≤ count → ∀ extra,
    spelling (extra + count) a = List.replicate extra (padding a) ++ spelling count a
  exists_toInt : ∀ {n}, Fits n 8 → ∃ a, toInt a = n
  write_apply : ∀ a width out, write a width out =
    if width < minLength a then .error (.value (fault a width)) out
    else .ok () (out ++ spelling width a)
  read_spelled : ∀ a {bytes}, bytes ≠ [] → spelled bytes = toInt a → ∀ rest,
    read bytes.length (bytes ++ rest) = .ok a rest
  read_overflow : ∀ {bytes}, bytes ≠ [] → ¬ Fits (spelled bytes) 8 → ∀ rest,
    read bytes.length (bytes ++ rest) = .error (.parse (overflow bytes.length)) rest

namespace IntegerCode

variable {α : Type} (code : IntegerCode α) {a : α} {width : Nat}

theorem spelling_ne_nil (h : code.minLength a ≤ width) : code.spelling width a ≠ [] := by
  have hpos := (code.minLength_bounds a).1
  exact List.ne_nil_of_length_pos (by rw [code.length_spelling]; omega)

/-- The spelling of a number spells it. -/
theorem spelled_spelling (h : code.minLength a ≤ width) :
    code.spelled (code.spelling width a) = code.toInt a := by
  rw [code.spelled_eq_iff a (code.spelling_ne_nil h), code.length_spelling]
  exact ⟨h, rfl⟩

theorem read_spelling (h : code.minLength a ≤ width) (rest : Bytes) :
    code.read width (code.spelling width a ++ rest) = .ok a rest := by
  have hread := code.read_spelled a (code.spelling_ne_nil h) (code.spelled_spelling h) rest
  rwa [code.length_spelling] at hread

theorem appends_write (h : code.minLength a ≤ width) :
    (code.write a width).Appends (code.spelling width a) := by
  intro out
  rw [code.write_apply, if_neg (Nat.not_lt.mpr h)]

/-- Writing succeeds from the fewest bytes on. -/
theorem exists_write_iff :
    (∃ out behind, code.write a width out = .ok () behind) ↔ code.minLength a ≤ width := by
  constructor
  · rintro ⟨out, behind, hwrite⟩
    rw [code.write_apply] at hwrite
    split at hwrite
    · contradiction
    · next hle => exact Nat.not_lt.mp hle
  · exact fun h => ⟨[], _, code.appends_write h []⟩

/-- Integers with one spelling in every width are kept in fields of any width. -/
theorem fixedWidth : FixedWidth code.toInt code.spelled code.Fits code.minLength code.padding
    code.read code.write where
  written a width hpos hfits := by
    have hle := (code.minLength_le_iff a hpos).mpr hfits
    exact ⟨_, code.length_spelling width a, code.appends_write hle, code.read_spelling hle⟩
  refused a width hpos hfits := by
    rw [← code.minLength_le_iff a hpos, Nat.not_le] at hfits
    exact ⟨_, fun out => by rw [code.write_apply, if_pos hfits]⟩
  accepted {bytes} hne hfits := by
    -- What fits eight bytes is a word, and the bytes are its one spelling of their length.
    obtain ⟨a, ha⟩ := code.exists_toInt hfits
    obtain ⟨hle, hbytes⟩ := (code.spelled_eq_iff a hne).mp ha.symm
    have happends := code.appends_write hle
    rw [← hbytes] at happends
    exact ⟨a, ha, code.read_spelled a hne ha.symm, happends⟩
  rejected hne hfits := ⟨_, code.read_overflow hne hfits⟩
  fewest a := by
    refine ⟨code.exists_write_iff.mpr (Nat.le_refl _), fun width hwrite => ?_⟩
    exact code.exists_write_iff.mp hwrite
  word a width hpos hfits := by
    -- The fewest bytes are as many as the field has and eight at most, so these are enough.
    have hle := (code.minLength_le_iff a hpos).mpr hfits
    have hword : code.minLength a ≤ min width 8 := Nat.le_min.mpr ⟨hle, (code.minLength_bounds a).2⟩
    have hlength := code.length_spelling (min width 8) a
    have happends := code.appends_write hle
    rw [← Nat.sub_add_min_cancel width 8, code.spelling_padded a hword,
      Nat.sub_add_min_cancel] at happends
    refine ⟨_, hlength, ?_, code.spelled_spelling hword, happends⟩
    rw [hlength, ← code.minLength_le_iff a (by omega)]
    exact hword

end IntegerCode

/-- A number that needs few bytes is filled up with zeros in more of them. -/
theorem Bytes.ofNat_padded {n count : Nat} (h : n < 256 ^ count) (extra : Nat) :
    ofNat (extra + count) n = List.replicate extra 0 ++ ofNat count n := by
  have hzero : toNat (List.replicate extra 0) = 0 := by
    rw [toNat_eq_zero_iff, List.any_replicate]
    simp
  have hnumber : toNat (List.replicate extra 0 ++ ofNat count n) = n := by
    rw [toNat_append, hzero, Nat.zero_mul, Nat.zero_add, toNat_ofNat, Nat.mod_eq_of_lt h]
  have hspelled := ofNat_toNat (List.replicate extra 0 ++ ofNat count n)
  rwa [hnumber, List.length_append, List.length_replicate, length_ofNat] at hspelled

namespace Unsigned

/-- The numbers of a width lie below a power of two. -/
theorem fits_iff (n width : Nat) :
    (0 ≤ (n : Int) ∧ (n : Int) < 2 ^ (8 * width)) ↔ n < 256 ^ width := by
  have hpow : (2 : Int) ^ (8 * width) = (256 ^ width : Nat) := by
    rw [Int.pow_mul, Int.natCast_pow]
    rfl
  rw [hpow, and_iff_right (Int.natCast_nonneg n), Int.ofNat_lt]

/-- Unsigned integers. -/
def code : IntegerCode UInt64 where
  toInt value := value.toNat
  spelled bytes := Bytes.toNat bytes
  Fits n width := 0 ≤ n ∧ n < 2 ^ (8 * width)
  minLength := minLength
  padding _ := 0x00
  spelling width value := Bytes.ofNat width value.toNat
  read := read
  write := write
  fault := .unsignedWidth
  overflow := .unsignedOverflow
  minLength_bounds := minLength_bounds
  minLength_le_iff value width hpos := by
    rw [minLength_le_iff, fits_iff]
    exact and_iff_right hpos
  length_spelling width value := Bytes.length_ofNat width value.toNat
  spelled_eq_iff value bytes hne := by
    rw [Int.ofNat_inj, minLength_le_iff]
    constructor
    · intro h
      rw [← h]
      exact ⟨⟨List.length_pos_iff.mpr hne, Bytes.toNat_lt bytes⟩, (Bytes.ofNat_toNat bytes).symm⟩
    · rintro ⟨⟨_, hlt⟩, hbytes⟩
      rw [hbytes, Bytes.toNat_ofNat, Nat.mod_eq_of_lt hlt]
  spelling_padded value count hle extra :=
    Bytes.ofNat_padded ((minLength_le_iff value count).mp hle).2 extra
  exists_toInt {n} hfits := by
    obtain ⟨number, rfl⟩ := Int.eq_ofNat_of_zero_le hfits.1
    exact ⟨UInt64.ofNat number, congrArg _ (UInt64.toNat_ofNat_of_lt' ((fits_iff _ 8).mp hfits))⟩
  write_apply := write_apply
  read_spelled value bytes hne h rest := by
    have hnumber := Int.ofNat_inj.mp h
    rw [read_append hne, hnumber, if_pos value.toNat_lt, UInt64.ofNat_toNat]
  read_overflow {bytes} hne hfits rest := by
    have hlarge : ¬ Bytes.toNat bytes < UInt64.size := fun h => hfits ((fits_iff _ 8).mpr h)
    rw [read_append hne, if_neg hlarge]

end Unsigned

namespace Signed

/-- The numbers of a width lie within half a power of two to both sides of zero. -/
theorem fits_iff {n : Int} {width : Nat} (hpos : 1 ≤ width) :
    Fits n width ↔ -2 ^ (8 * width - 1) ≤ n ∧ n < 2 ^ (8 * width - 1) := by
  -- One bit of the width is taken by the sign, and what is left counts to each side of zero.
  obtain ⟨k, rfl⟩ := Nat.exists_eq_add_of_le' hpos
  have hhalf : 8 * (k + 1) = 8 * k + 7 + 1 := by omega
  have hpow : (Bytes.capacity (k + 1) : Int) = 2 * 2 ^ (8 * k + 7) := by
    rw [Bytes.capacity, Nat.one_shiftLeft, hhalf, Nat.pow_succ']
    exact_mod_cast rfl
  rw [Fits, hpow, hhalf, Nat.add_sub_cancel]
  omega

theorem isNegative_iff_value_neg (bytes : Bytes) : isNegative bytes = true ↔ value bytes < 0 := by
  have hlt := Bytes.toNat_lt bytes
  rw [← Bytes.capacity_eq] at hlt
  unfold value
  cases isNegative bytes with
  | true =>
      simp only [if_true, true_iff]
      omega
  | false => simp

/-- A spelling goes on in front with ones if the number is negative and with zeros if not. -/
theorem sign_spelling {n : Int} {width : Nat} (hpos : 1 ≤ width) (h : Fits n width) :
    sign (spelling width n) = if n < 0 then 0xFF else 0x00 := by
  have hneg := isNegative_iff_value_neg (spelling width n)
  rw [value_spelling hpos h] at hneg
  simp only [sign, hneg]

/-- A number that needs few bytes is filled up with its sign in more of them. -/
theorem spelling_padded {n : Int} {count : Nat} (hpos : 1 ≤ count) (h : Fits n count)
    (extra : Nat) :
    spelling (extra + count) n =
      List.replicate extra (if n < 0 then 0xFF else 0x00) ++ spelling count n := by
  have hsign := sign_spelling hpos h
  have hall : ∀ b ∈ List.replicate extra (sign (spelling count n)), b = sign (spelling count n) :=
    fun b hb => List.eq_of_mem_replicate hb
  have hvalue := (value_sign_append hall).1
  rw [value_spelling hpos h, hsign] at hvalue
  -- Both sides are as long and spell the same number.
  have hfits := h.mono (Nat.le_add_left count extra)
  refine eq_of_value_eq ?_ ?_ ?_
  · exact List.ne_nil_of_length_pos (by rw [length_spelling]; omega)
  · rw [List.length_append, List.length_replicate, length_spelling, length_spelling]
  · rw [hvalue, value_spelling (by omega) hfits]

/-- Signed integers. -/
def code : IntegerCode Int64 where
  toInt := Int64.toInt
  spelled := value
  Fits n width := -2 ^ (8 * width - 1) ≤ n ∧ n < 2 ^ (8 * width - 1)
  minLength := minLength
  padding n := if n.toInt < 0 then 0xFF else 0x00
  spelling width n := spelling width n.toInt
  read := read
  write := write
  fault := .signedWidth
  overflow := .signedOverflow
  minLength_bounds n := ⟨one_le_minLength n, (minLength_le_iff n (by decide)).mpr (fits_word n)⟩
  minLength_le_iff n _ hpos := (minLength_le_iff n hpos).trans (fits_iff hpos)
  length_spelling width n := length_spelling width n.toInt
  spelled_eq_iff n bytes hne := by
    have hpos := List.length_pos_iff.mpr hne
    rw [minLength_le_iff n hpos]
    constructor
    · intro h
      rw [← h]
      exact ⟨fits_value hne, (spelling_value hne).symm⟩
    · rintro ⟨hfits, hbytes⟩
      rw [hbytes]
      exact value_spelling hpos hfits
  spelling_padded n count hle extra := by
    have hpos := Nat.le_trans (one_le_minLength n) hle
    exact spelling_padded hpos ((minLength_le_iff n hpos).mp hle) extra
  exists_toInt hfits := ⟨_, toInt_ofInt ((fits_iff (by decide)).mpr hfits)⟩
  write_apply := write_apply
  read_spelled n bytes hne h rest := by
    rw [read_append hne, h, if_pos (fits_word n), Int64.ofInt_toInt]
  read_overflow hne hfits rest := by
    rw [read_append hne, if_neg fun h => hfits ((fits_iff (by decide)).mp h)]

end Signed

/-- Unsigned integers that lie between zero and a power of two, and signed ones within half of
    it to both sides of zero, are written in a field of any width and read back from it. Its
    bytes are the only ones that are read as the number there, and those in front of the last
    eight say no more than its sign. Other integers are refused, as are fields that spell
    what no word can hold. -/
theorem integers_at_fixed_width :
    FixedWidth (fun value : UInt64 => (value.toNat : Int)) (fun bytes => (Bytes.toNat bytes : Int))
      (fun n width => 0 ≤ n ∧ n < 2 ^ (8 * width)) Unsigned.minLength (fun _ => 0x00)
      Unsigned.read Unsigned.write ∧
    FixedWidth Int64.toInt Signed.value
      (fun n width => -2 ^ (8 * width - 1) ≤ n ∧ n < 2 ^ (8 * width - 1)) Signed.minLength
      (fun n => if n.toInt < 0 then 0xFF else 0x00) Signed.read Signed.write :=
  ⟨Unsigned.code.fixedWidth, Signed.code.fixedWidth⟩

end KlvMetadata
