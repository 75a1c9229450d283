import KlvMetadata.Proofs.Text.Hex
import KlvMetadata.Wire.Field

/-!
# The Texts of a Key

Whoever writes a key down need not write it as it is shown. Dots may be left out or put
elsewhere, even between the two digits of a byte, and letters may be of either case. All such
texts are read as the key, and no others are.

What decides about a text is its characters without the dots. There have to be thirty-two of
them, all of them digits, and the bytes of the key are those they spell. This is enough for
the text that is shown as well. Its dots stand between groups of digits and are the only
characters that go, so what is left are two digits for each byte, and these spell it.

All of this is said of any codec for digits that does what is asked of it.

## Main definitions

* `UniversalKey.undotted`: The characters of a text but for its dots.
* `UniversalKey.IsKeyText`: Texts of thirty-two digits, dots aside.
* `UniversalKey.Alike`: Texts that differ in dots and in the case of letters only.

## Theorems

* `UniversalKey.undotted_text`: The digits in the text of a key.
* `UniversalKey.parse_eq_ok_iff`: A text is read as the key whose bytes it spells.
* `UniversalKey.exists_parse_iff`: Which texts are read.
* `UniversalKey.parse_eq_ok_iff_alike`: A text is read as the key whose text is like it.
* `UniversalKey.texts_spell_keys`: Reading the texts of keys, and all others.
-/

namespace KlvMetadata

/-- A small letter has no smaller one. -/
theorem toLower_toLower (c : Char) : c.toLower.toLower = c.toLower := by
  rw [← Char.toNat_inj, toNat_toLower, toNat_toLower]
  by_cases h : 65 ≤ c.toNat ∧ c.toNat ≤ 90
  · rw [if_pos h, if_neg (by omega)]
  · rw [if_neg h, if_neg h]

theorem toLower_eq_dot_iff (c : Char) : c.toLower = '.' ↔ c = '.' := by
  rw [← Char.toNat_inj, ← Char.toNat_inj, toNat_toLower]
  change _ = 46 ↔ _ = 46
  split <;> omega

namespace Bytes

/-- The pieces of four bytes are all of the bytes. -/
theorem flatten_quads (bytes : Bytes) : (quads bytes).flatten = bytes := by
  fun_induction quads bytes with
  | case1 a b c d rest ih => rw [List.flatten_cons, ih]; rfl
  | case2 => rfl
  | case3 rest _ _ => exact List.append_nil rest

theorem ne_dot_of_mem_byteDigits {b : UInt8} {c : Char} (h : c ∈ byteDigits b) : c ≠ '.' := by
  have hdigit : ∀ n < 16, (Nat.digitChar n).toUpper ≠ '.' := by decide
  have hlt := b.toNat_lt
  rw [byteDigits] at h
  simp only [List.map_cons, List.map_nil, List.mem_cons, List.not_mem_nil, or_false] at h
  rcases h with rfl | rfl
  · exact hdigit _ (by omega)
  · exact hdigit _ (by omega)

end Bytes

namespace UniversalKey

variable {hex : HexCodec}

/-- The characters of a text but for its dots. -/
def undotted (text : String) : List Char := text.toList.filter (· ≠ '.')

/-- A text of thirty-two digits in either case, with dots anywhere. -/
def IsKeyText (text : String) : Prop :=
  (undotted text).length = 32 ∧ ∀ c ∈ undotted text, Hex.IsDigit c

instance : DecidablePred IsKeyText := fun _ => inferInstanceAs (Decidable (_ ∧ _))

/-- Texts that differ in their dots and in the case of their letters, and in nothing else. -/
def Alike (a b : String) : Prop :=
  (undotted a).map Char.toLower = (undotted b).map Char.toLower

instance : DecidableRel Alike := fun _ _ => inferInstanceAs (Decidable (_ = _))

/-- Dots between pieces that have none are left out, and nothing else is. -/
theorem filter_intercalate (pieces : List (List Char)) (h : ∀ piece ∈ pieces, '.' ∉ piece) :
    (['.'].intercalate pieces).filter (· ≠ '.') = pieces.flatten := by
  have hkeep (piece : List Char) (hmem : '.' ∉ piece) : piece.filter (· ≠ '.') = piece := by
    rw [List.filter_eq_self]
    intro c hc
    exact decide_eq_true (ne_of_mem_of_not_mem hc hmem)
  induction pieces with
  | nil => rfl
  | cons piece pieces ih =>
      rw [List.forall_mem_cons] at h
      cases pieces with
      | nil => simpa using hkeep piece h.1
      | cons next pieces =>
          rw [List.intercalate_cons_cons, List.filter_append, List.filter_append, ih h.2,
            hkeep piece h.1, List.flatten_cons]
          simp

/-- The text of a key has two digits for each byte, and nothing else but dots. -/
theorem undotted_text (h : hex.Lawful) (key : UniversalKey) :
    undotted (key.text hex) = key.bytes.flatMap Bytes.byteDigits := by
  have hpieces : (key.bytes.quads.map hex.encodeUpper).map String.toList =
      key.bytes.quads.map (List.flatMap Bytes.byteDigits) := by
    rw [List.map_map]
    exact List.map_congr_left fun quad _ => h.toList_encodeUpper quad
  have hdots : ∀ piece ∈ key.bytes.quads.map (List.flatMap Bytes.byteDigits), '.' ∉ piece := by
    intro piece hpiece hdot
    obtain ⟨quad, _, rfl⟩ := List.mem_map.mp hpiece
    obtain ⟨b, _, hb⟩ := List.mem_flatMap.mp hdot
    exact Bytes.ne_dot_of_mem_byteDigits hb rfl
  calc undotted (key.text hex)
      = (['.'].intercalate (key.bytes.quads.map (List.flatMap Bytes.byteDigits))).filter
          (· ≠ '.') := by
        rw [undotted, text, String.toList_intercalate, hpieces]
        rfl
    _ = (key.bytes.quads.map (List.flatMap Bytes.byteDigits)).flatten :=
        filter_intercalate _ hdots
    _ = key.bytes.quads.flatten.flatMap Bytes.byteDigits := by
        rw [List.flatten_eq_flatMap, List.flatten_eq_flatMap, List.flatMap_assoc, List.flatMap_map]
        rfl
    _ = key.bytes.flatMap Bytes.byteDigits := by rw [Bytes.flatten_quads]

/-- In small letters a text has the same dots. -/
theorem undotted_toLower (text : String) :
    undotted text.toLower = (undotted text).map Char.toLower := by
  change undotted (text.map Char.toLower) = _
  rw [undotted, String.toList_map, List.filter_map, undotted]
  congr 1
  refine List.filter_congr fun c _ => ?_
  simp only [Function.comp_apply, ne_eq, toLower_eq_dot_iff]

theorem ofBytes?_eq_some_iff (bytes : Bytes) (key : UniversalKey) :
    ofBytes? bytes = some key ↔ bytes = key.bytes := by
  obtain ⟨own, hown⟩ := key
  rw [ofBytes?]
  by_cases h : bytes.length = 16
  · rw [dif_pos h, Option.some.injEq, mk.injEq]
  · rw [dif_neg h]
    refine iff_of_false (by simp) fun hbytes => h ?_
    rw [hbytes, hown]

/-- A text is read as the key whose bytes it spells without its dots. -/
theorem parse_eq_ok_iff (h : hex.Lawful) (text : String) (key : UniversalKey) :
    parse hex text = .ok key ↔ Hex.Spells (undotted text) key.bytes := by
  rw [← Hex.decode_encode_eq_ok_iff h, undotted, parse, ofText]
  cases hex.decode ((text.toList.filter (· ≠ '.')).flatMap String.utf8EncodeChar) with
  | error reason => simp
  | ok bytes =>
      rw [Except.ok.injEq, ← ofBytes?_eq_some_iff]
      dsimp only
      cases ofBytes? bytes <;> simp

/-- A text is read as some key, or the text cannot be parsed. -/
theorem exists_fault_iff (hex : HexCodec) (text : String) :
    (∃ fault, parse hex text = .error (.parse (.keyText text fault))) ↔
      ¬ ∃ key, parse hex text = .ok key := by
  rw [parse]
  cases ofText hex text <;> simp

/-- The texts that are read are those of thirty-two digits. -/
theorem exists_parse_iff (h : hex.Lawful) (text : String) :
    (∃ key, parse hex text = .ok key) ↔ IsKeyText text := by
  rw [IsKeyText, ← Hex.exists_spells_iff (undotted text) 16]
  constructor
  · rintro ⟨key, hkey⟩
    exact ⟨key.bytes, key.length_bytes, (parse_eq_ok_iff h text key).mp hkey⟩
  · rintro ⟨bytes, hlength, hspells⟩
    exact ⟨⟨bytes, hlength⟩, (parse_eq_ok_iff h text _).mpr hspells⟩

/-- A text is read as a key if the key's own text is like it. -/
theorem parse_eq_ok_iff_alike (h : hex.Lawful) (text : String) (key : UniversalKey) :
    parse hex text = .ok key ↔ Alike text (key.text hex) := by
  have hown := (Hex.spells_iff_lower _ _).mp (Bytes.spells_byteDigits key.bytes)
  rw [parse_eq_ok_iff h, Hex.spells_iff_lower, Alike, undotted_text h, hown]

/-- With any codec for digits that does what is asked of it, a text is read as a key if it
    is thirty-two digits but for its dots, which may stand anywhere. The key's bytes are
    those that the digits spell. Any other text cannot be parsed. A key is read from the
    text it is shown as, from this in small letters or without dots, and from all texts
    that differ from it in dots and in the case of letters only. -/
theorem texts_spell_keys (hex : HexCodec) (h : hex.Lawful) :
    (∀ text : String,
      ((∃ key, parse hex text = .ok key) ↔ IsKeyText text) ∧
      ((∃ fault, parse hex text = .error (.parse (.keyText text fault))) ↔ ¬ IsKeyText text) ∧
      ∀ key, parse hex text = .ok key ↔ Hex.Spells (undotted text) key.bytes) ∧
    ∀ key : UniversalKey,
      parse hex (key.text hex) = .ok key ∧
      parse hex (key.text hex).toLower = .ok key ∧
      parse hex (String.ofList (undotted (key.text hex))) = .ok key ∧
      ∀ text, parse hex text = .ok key ↔ Alike text (key.text hex) := by
  refine ⟨fun text => ⟨exists_parse_iff h text, ?_, parse_eq_ok_iff h text⟩, fun key => ?_⟩
  · rw [exists_fault_iff, exists_parse_iff h]
  have hsmall : Alike (key.text hex).toLower (key.text hex) := by
    rw [Alike, undotted_toLower, List.map_map]
    exact List.map_congr_left fun c _ => toLower_toLower c
  have hbare : Alike (String.ofList (undotted (key.text hex))) (key.text hex) := by
    simp only [Alike, undotted, String.toList_ofList, List.filter_filter, Bool.and_self]
  have halike := fun text => parse_eq_ok_iff_alike h text key
  exact ⟨(halike _).mpr rfl, (halike _).mpr hsmall, (halike _).mpr hbare, halike⟩

/-- The codec in use reads a key from digits of either case with a dot between the two
    digits of one byte, and from its own text in small letters. It refuses a text with
    thirty-two characters, the last of which is no digit. -/
theorem texts_spell_keys_in_use :
    let key := Standard.st0601Key
    let dotted := "0.60e2B34020b01010E010301010000.00."
    let foreign := "060E2B34.020B0101.0E010301.0100000é"
    Hex.codec.Lawful ∧
      IsKeyText dotted ∧ parse Hex.codec dotted = .ok key ∧
      parse Hex.codec (key.text Hex.codec).toLower = .ok key ∧
      ¬ IsKeyText foreign ∧
      ∃ fault, parse Hex.codec foreign = .error (.parse (.keyText foreign fault)) := by
  intro key dotted foreign
  have hdotted : Alike dotted (key.text Hex.codec) := by decide +kernel
  have hlast : 'é' ∈ undotted foreign := by decide +kernel
  have hforeign : ¬ IsKeyText foreign := fun htext => absurd (htext.2 'é' hlast) (by decide)
  rcases texts_spell_keys Hex.codec Hex.lawful_codec with ⟨htexts, hkeys⟩
  rcases hkeys key with ⟨_, hsmall, _, halike⟩
  have hparse := (halike dotted).mpr hdotted
  exact ⟨Hex.lawful_codec, (htexts dotted).1.mp ⟨key, hparse⟩, hparse, hsmall, hforeign,
    (htexts foreign).2.1.mpr hforeign⟩

/-- Bytes are counted, and not all characters are one. -/
example :
    let text := "060E2B34.020B0101.0E010301.0100000é"
    parse Hex.codec text =
      .error (.parse (.keyText text (.digits "Odd number of digits"))) := by rfl

end UniversalKey

end KlvMetadata
