import KlvMetadata.Proofs.Format.Contents

/-!
# Fields That Are Passed On

A field that was read and is written again should have the bytes it had. For
integers this is where hints matter: a number has a spelling in every length
that is enough for it, and the hint tells which one it was read from, be it
wider than a word. Text and blobs have no choice, and a code of one byte is the
byte.

A code in more bytes than one is another matter, because numbers past a byte
share a code. Sets are another matter too, as what is in them has more than one
spelling.

## Main definitions

* `Codec.Restores`: What is read from a field is written as that field.
* `Layout.Restores`: The same for contents.

## Theorems

* `Layout.Restores.codec`: Contents that are restored make values that are.
* `Layout.restores_unsigned`, `restores_signed`, `restores_code`: Integers.
* `Layout.restores_string`, `restores_blob`: Text and blobs.
-/

namespace KlvMetadata

/-- What is read from a field is written as that field. -/
def Codec.Restores (c : Codec) : Prop :=
  ∀ ⦃field : Bytes⦄ ⦃v : Value⦄ ⦃left : Bytes⦄, c.read field.length field = .ok v left →
    c.Settles v (.written field)

namespace Layout

variable {α : Type} {layout : Layout α} {view : ItemView α} {terms : Terms}

/-- What is read from a field is written as that field, with its length for a hint. -/
def Restores (layout : Layout α) (terms : Terms) : Prop :=
  ∀ ⦃field : Bytes⦄ ⦃a : α⦄, field ≠ [] → terms.Allow field.length →
    layout.read field.length field = .ok a [] →
    layout.lengthOf a field.length = .ok field.length ∧
      (layout.write a field.length).Appends field

/-- What a layout has read when it was given a field of its own. -/
theorem read_codec_eq_ok {field left : Bytes} {v : Value}
    (h : (layout.codec view terms).read field.length field = .ok v left) :
    (field = [] ∧ v = .empty) ∨
      (field ≠ [] ∧ terms.Allow field.length ∧ ∃ a, layout.read field.length field = .ok a [] ∧
        v = ⟨some (view.toItem a), field.length⟩) := by
  rcases readField_eq_ok_iff.mp h with
    ⟨hzero, hv, _⟩ | ⟨hne, hallow, field', a, hlength, hfield, hread, hv⟩
  · exact Or.inl ⟨List.length_eq_zero_iff.mp hzero, hv⟩
  · -- The field that was read is as long as the whole, so it is the whole.
    obtain ⟨rfl, _⟩ := List.append_inj ((List.append_nil field).trans hfield) hlength.symm
    exact Or.inr ⟨fun hnil => hne (List.length_eq_zero_iff.mpr hnil), hallow, a, hread, hv⟩

/-- Contents that are restored make values that are. -/
theorem Restores.codec (h : layout.Restores terms) (hkind : view.kind ≠ .blob) :
    (layout.codec view terms).Restores := by
  intro field v left hread
  rcases read_codec_eq_ok hread with ⟨rfl, rfl⟩ | ⟨hne, hallow, a, ha, rfl⟩
  · exact settles_empty layout view terms 0
  · rcases h hne hallow ha with ⟨hlength, happ⟩
    exact settles_written hkind hlength happ

/-- A blob is written as it was read. -/
theorem restores_blob (terms : Terms) : (blob.codec .blob terms).Restores := by
  intro field v left hread
  rcases read_codec_eq_ok hread with ⟨rfl, rfl⟩ | ⟨_, _, bytes, hbytes, rfl⟩
  · exact settles_empty blob .blob terms 0
  · obtain ⟨_, rfl⟩ := Reader.take_eq_ok hbytes
    rw [List.append_nil]
    exact ⟨rfl, fun _ => rfl⟩

/-- The length that a number was read in is asked for again. -/
theorem integerLength_eq {fixed : Option Nat} {minimal length : Nat}
    (hfixed : ∀ required, fixed = some required → required = length) (hle : minimal ≤ length) :
    integerLength fixed minimal length = length := by
  cases fixed with
  | none => exact Nat.max_eq_right hle
  | some required => exact hfixed required rfl

theorem restores_unsigned (fixed : Option Nat) :
    (unsigned fixed).Restores (Format.unsigned fixed).terms := by
  intro field n _ hallow hread
  -- What was read is the number in the length of the field, which is asked for again.
  rcases Unsigned.eq_ofNat_of_read hread with ⟨hle, hfield⟩
  have happ := Unsigned.appends_write hle
  rw [← hfield] at happ
  exact ⟨congrArg Except.ok (integerLength_eq hallow hle), happ⟩

theorem restores_signed (fixed : Option Nat) :
    (signed fixed).Restores (Format.signed fixed).terms := by
  intro field n _ hallow hread
  rcases Signed.eq_spelling_of_read hread with ⟨hle, hfield⟩
  have happ := Signed.appends_write hle
  rw [← hfield] at happ
  exact ⟨congrArg Except.ok (integerLength_eq hallow hle), happ⟩

/-- The number of a code of one byte is the byte. -/
theorem toUInt64_codeOf {n : UInt64} (h : n < 256) : (CodeTable.codeOf n).toUInt64 = n := by
  rw [UInt64.lt_iff_toNat_lt] at h
  change n.toNat < 256 at h
  rw [CodeTable.codeOf, if_pos (UInt64.lt_iff_toNat_lt.mpr h), ← UInt64.toNat_inj,
    UInt8.toNat_toUInt64, UInt64.toNat_toUInt8]
  exact Nat.mod_eq_of_lt h

theorem restores_code (table : CodeTable) :
    (code table 1).Restores (Format.code table 1).terms := by
  intro field c _ hallow hread
  have hone : field.length = 1 := (hallow 1 rfl).symm
  simp only [code, Action.bind_apply] at hread
  split at hread
  · next n left hn =>
    rcases Unsigned.eq_ofNat_of_read hn with ⟨hle, hfield⟩
    rw [Action.pure_apply] at hread
    injection hread with hc _
    -- A number that was read from one byte is its own code.
    have hsmall : n < 256 := by
      rw [hone, Unsigned.minLength_le_iff] at hle
      exact UInt64.lt_iff_toNat_lt.mpr hle.2
    have happ := Unsigned.appends_write hle
    rw [← hfield] at happ
    refine ⟨congrArg Except.ok hone.symm, ?_⟩
    simp only [code, ← hc, toUInt64_codeOf hsmall]
    exact happ
  · contradiction

theorem restores_string (fixed : Option Nat) :
    (string fixed).Restores (Format.string fixed).terms := by
  intro field s hne hallow hread
  have hencode : Utf8.encode s = field := by
    have hdata := (TextField.eq_append_of_read hread).2
    rw [hdata, List.append_nil]
  subst hencode
  -- The text fills its field again, so what spells it is what is written.
  have hspells := spells_string hne (fun required h => (hallow required h).symm)
    (Utf8.encode s).length
  exact ⟨hspells.lengthOf, hspells.appends⟩

end Layout

end KlvMetadata
