import KlvMetadata.Proofs.Format.Restoring
import Mathlib.Order.Bounds.Defs

/-!
# Integers That Keep Their Width

A hint outlives the number it came with. Another number that is put in the place of
one that was read is written in as many bytes as that took, and in more only if it
needs more. So a field grows when it has to and never shrinks, and nothing is cut
off. The number that was read gets its own field again, be it padded beyond a word.

What this takes is that a number has just one spelling in each length it fits, from
the fewest bytes on, whether these are filled up with zeros or with copies of the
sign. Which lengths are enough is a matter of the number alone: below a power of
256, or within half of one to both sides of zero.

## Main definitions

* `Layout.Elastic`: A number has one spelling in each length that is enough for it.
* `Codec.KeepsWidth`: Numbers that replace others are written in no fewer bytes.

## Theorems

* `Layout.Elastic.isLeast`: The fewest bytes that are enough.
* `Layout.Elastic.settles`, `Elastic.read_spelling`: A number under any hint, and what is read
  back.
* `Layout.elastic_unsigned`, `elastic_signed`: Both layouts of integers.
* `Format.integers_keep_width`: Both formats of integers of variable length.
-/

namespace KlvMetadata

/-- A value that was read from a field holds a number. When another is put in its place,
    that is written in as many bytes as the field had, or in the fewest that are enough for
    it if those are more, and it is read back from them. The same number gives the field. -/
def Codec.KeepsWidth {α : Type} (c : Codec) (view : ItemView α) (Fits : α → Nat → Prop) : Prop :=
  ∀ (field left : Bytes) (v : Value), field ≠ [] → c.read field.length field = .ok v left →
    ∃ n, v.get view.kind = .ok (view.toItem n) ∧ ∀ w, ∃ fewest bytes,
      IsLeast {length | 1 ≤ length ∧ Fits w length} fewest ∧
      bytes.length = max field.length fewest ∧
      c.Settles (v.set (view.toItem w)) (.written bytes) ∧
      (∀ rest, c.read bytes.length (bytes ++ rest) =
        .ok ⟨some (view.toItem w), bytes.length⟩ rest) ∧
      (w = n → bytes = field)

namespace Layout

variable {α : Type} {layout : Layout α} {Fits : α → Nat → Prop} {fewest : α → Nat}
  {spelling : α → Nat → Bytes} {view : ItemView α} {terms : Terms}

/-- A number has one spelling in each length that is enough for it, and the length of
    the hint is taken if it is one of these. -/
structure Elastic (layout : Layout α) (Fits : α → Nat → Prop) (fewest : α → Nat)
    (spelling : α → Nat → Bytes) : Prop where
  one_le : ∀ a, 1 ≤ fewest a
  le_iff : ∀ a {length}, 1 ≤ length → (fewest a ≤ length ↔ Fits a length)
  length_spelling : ∀ a length, (spelling a length).length = length
  lengthOf : ∀ a hint, layout.lengthOf a hint = .ok (max (fewest a) hint)
  appends : ∀ {a length}, fewest a ≤ length → (layout.write a length).Appends (spelling a length)
  read : ∀ {a length}, fewest a ≤ length → layout.read length (spelling a length) = .ok a []
  eq_spelling : ∀ {field left a}, layout.read field.length field = .ok a left →
    fewest a ≤ field.length ∧ field = spelling a field.length

namespace Elastic

variable (h : layout.Elastic Fits fewest spelling)
include h

/-- The fewest bytes that are enough. -/
theorem isLeast (a : α) : IsLeast {length | 1 ≤ length ∧ Fits a length} (fewest a) := by
  have hpos := h.one_le a
  -- It is enough for the number, and whatever is enough is no less.
  refine ⟨⟨hpos, (h.le_iff a hpos).mp (Nat.le_refl _)⟩, ?_⟩
  rintro length ⟨hlength, hfits⟩
  exact (h.le_iff a hlength).mpr hfits

/-- Under any hint a number is written in that length, or in the fewest bytes for it. -/
theorem settles (hkind : view.kind ≠ .blob) (a : α) (hint : Nat) :
    (layout.codec view terms).Settles ⟨some (view.toItem a), hint⟩
      (.written (spelling a (max (fewest a) hint))) := by
  have hlength := h.length_spelling a (max (fewest a) hint)
  refine settles_written hkind ?_ ?_
  · rw [hlength]
    exact h.lengthOf a hint
  · rw [hlength]
    exact h.appends (Nat.le_max_left _ _)

/-- A number is read back from its spelling in front of anything. -/
theorem read_spelling (hfree : terms.fixedLength = none) {a : α} {length : Nat}
    (hle : fewest a ≤ length) (rest : Bytes) :
    (layout.codec view terms).read length (spelling a length ++ rest) =
      .ok ⟨some (view.toItem a), length⟩ rest := by
  have hlength := h.length_spelling a length
  have hne : spelling a length ≠ [] := by
    have hpos := h.one_le a
    exact List.ne_nil_of_length_pos (by omega)
  have hread : layout.read (spelling a length).length (spelling a length) = .ok a [] := by
    rw [hlength]
    exact h.read hle
  have hfield : (layout.codec view terms).read (spelling a length).length
      (spelling a length ++ rest) = .ok ⟨some (view.toItem a), (spelling a length).length⟩ rest :=
    read_field hne (Terms.allow_of_free hfree _) hread rest
  rwa [hlength] at hfield

/-- Numbers keep the width of what they replace. -/
theorem keepsWidth (hfree : terms.fixedLength = none) (hkind : view.kind ≠ .blob) :
    (layout.codec view terms).KeepsWidth view Fits := by
  intro field left v hne hread
  rcases read_codec_eq_ok hread with ⟨hnil, _⟩ | ⟨_, _, n, hn, rfl⟩
  · exact absurd hnil hne
  -- The hint is the length of the field, and the field is the spelling of its number.
  obtain ⟨hle, hfield⟩ := h.eq_spelling hn
  refine ⟨n, by simp [Value.get, view.kind_toItem], fun w => ?_⟩
  refine ⟨fewest w, spelling w (max (fewest w) field.length), h.isLeast w, ?_,
    h.settles hkind w field.length, ?_, ?_⟩
  · rw [h.length_spelling, Nat.max_comm]
  · rw [h.length_spelling]
    exact h.read_spelling hfree (Nat.le_max_left _ _)
  · -- The field was long enough for the number that was read from it.
    rintro rfl
    rw [Nat.max_eq_right hle, ← hfield]

end Elastic

theorem elastic_unsigned : (unsigned none).Elastic (fun n length => n.toNat < 256 ^ length)
    Unsigned.minLength fun n length => Bytes.ofNat length n.toNat where
  one_le n := (Unsigned.minLength_bounds n).1
  le_iff n length hpos := by
    rw [Unsigned.minLength_le_iff]
    exact and_iff_right hpos
  length_spelling _ _ := Bytes.length_ofNat _ _
  lengthOf _ _ := rfl
  appends := Unsigned.appends_write
  read hle := Reader.Spells.read_self (Unsigned.read_ofNat hle)
  eq_spelling := Unsigned.eq_ofNat_of_read

theorem elastic_signed : (signed none).Elastic (fun n length => Signed.Fits n.toInt length)
    Signed.minLength fun n length => Signed.spelling length n.toInt where
  one_le := Signed.one_le_minLength
  le_iff n _ := Signed.minLength_le_iff n
  length_spelling _ _ := Signed.length_spelling _ _
  lengthOf _ _ := rfl
  appends := Signed.appends_write
  read {n _} hle := by
    have hpos := Nat.le_trans (Signed.one_le_minLength n) hle
    exact Reader.Spells.read_self
      (Signed.read_spelling hpos ((Signed.minLength_le_iff n hpos).mp hle))
  eq_spelling := Signed.eq_spelling_of_read

end Layout

namespace Format

/-- Under both formats of integers of variable length, a number that replaces one that
    was read from a field is written in as many bytes, or in the fewest that are enough
    for it if those are more, and is read back from them. If it is the same number they
    are those of the field. -/
theorem integers_keep_width :
    (unsigned none).codec.KeepsWidth .u64 (fun n length => n.toNat < 256 ^ length) ∧
    (signed none).codec.KeepsWidth .i64 (fun n length => Signed.Fits n.toInt length) :=
  ⟨Layout.elastic_unsigned.keepsWidth rfl nofun, Layout.elastic_signed.keepsWidth rfl nofun⟩

/-- Minus two in nine bytes, seven of which only repeat the sign. The number 300 needs two
    bytes and no sign, and is written in nine as well. -/
theorem integers_keep_width_padded :
    let field : Bytes := [255, 255, 255, 255, 255, 255, 255, 255, 254]
    let read : Value := ⟨some (.i64 (-2)), 9⟩
    (signed none).codec.read 9 field = .ok read [] ∧
    ∃ bytes : Bytes, bytes.length = 9 ∧
      (signed none).codec.Settles (read.set (.i64 300)) (.written bytes) ∧
      ∀ rest, (signed none).codec.read 9 (bytes ++ rest) = .ok ⟨some (.i64 300), 9⟩ rest := by
  intro field read
  have hread : (signed none).codec.read 9 field = .ok read [] := rfl
  obtain ⟨_, _, hreplace⟩ := integers_keep_width.2 field [] read (by simp [field]) hread
  obtain ⟨fewest, bytes, hleast, hlength, hwritten, hback, _⟩ := hreplace 300
  -- Two bytes are enough for the new number, and nine are kept.
  have hfewest : fewest ≤ 2 := hleast.2 ⟨by decide, by decide⟩
  have hnine : bytes.length = 9 := by
    rw [hlength]
    exact Nat.max_eq_left (Nat.le_trans hfewest (by decide))
  rw [hnine] at hback
  exact ⟨hread, bytes, hnine, hwritten, hback⟩

end Format

end KlvMetadata
