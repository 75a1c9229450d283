import KlvMetadata.Text.Utf8

/-!
# UTF-8 There and Back

Every character has one spelling of one to four bytes. The decoder's rules for
first and second bytes say which these are, and they agree with the encoder:
what they leave out is what would spell a number in more bytes than it needs,
or one that is no character. So decoding undoes encoding, and bytes that can be
decoded are the encoding of what they are decoded to.

## Main definitions

* `Utf8.Spelling`: Bytes that the decoder takes for a character.

## Theorems

* `Utf8.Spelling.decodeFrom`, `exists_spelling_of_decodeFrom`: Decoding takes one
  spelling after the other.
* `Utf8.spelling_encodeChar`, `Spelling.eq_encode`: The spelling of a character
  is its encoding.
* `Utf8.decode_encode`: Text is decoded from its bytes.
* `Utf8.encode_of_decode`: Bytes are encoded from their text.
-/

namespace KlvMetadata

namespace Utf8

theorem isTail_iff (b : UInt8) : isTail b = true ↔ 0x80 ≤ b.toNat ∧ b.toNat ≤ 0xBF := by
  simp [isTail, UInt8.le_iff_toNat_le]

theorem isSecondOfThree_iff (a b : UInt8) :
    isSecondOfThree a b = true ↔ (0x80 ≤ b.toNat ∧ b.toNat ≤ 0xBF) ∧
      (a.toNat = 0xE0 → 0xA0 ≤ b.toNat) ∧ (a.toNat = 0xED → b.toNat ≤ 0x9F) := by
  unfold isSecondOfThree isTail
  simp only [← UInt8.toNat_inj, UInt8.reduceToNat]
  split
  · simp [UInt8.le_iff_toNat_le]
    omega
  · split
    · simp [UInt8.le_iff_toNat_le]
      omega
    · simp [UInt8.le_iff_toNat_le]
      omega

theorem isSecondOfFour_iff (a b : UInt8) :
    isSecondOfFour a b = true ↔ (0x80 ≤ b.toNat ∧ b.toNat ≤ 0xBF) ∧
      (a.toNat = 0xF0 → 0x90 ≤ b.toNat) ∧ (a.toNat = 0xF4 → b.toNat ≤ 0x8F) := by
  unfold isSecondOfFour isTail
  simp only [← UInt8.toNat_inj, UInt8.reduceToNat]
  split
  · simp [UInt8.le_iff_toNat_le]
    omega
  · split
    · simp [UInt8.le_iff_toNat_le]
      omega
    · simp [UInt8.le_iff_toNat_le]
      omega

/-- Bytes that the decoder takes for a character. -/
inductive Spelling : Char → Bytes → Prop
  | one {a : UInt8} : a.toNat < 0x80 → Spelling (Char.ofNat a.toNat) [a]
  | two {a b : UInt8} : 0xC2 ≤ a.toNat → a.toNat ≤ 0xDF → isTail b →
      Spelling (Char.ofNat (a.toNat % 32 * 64 + tailBits b)) [a, b]
  | three {a b c : UInt8} : 0xE0 ≤ a.toNat → a.toNat ≤ 0xEF → isSecondOfThree a b → isTail c →
      Spelling (Char.ofNat (a.toNat % 16 * 4096 + tailBits b * 64 + tailBits c)) [a, b, c]
  | four {a b c d : UInt8} : 0xF0 ≤ a.toNat → a.toNat ≤ 0xF4 → isSecondOfFour a b → isTail c →
      isTail d →
      Spelling (Char.ofNat
        (a.toNat % 8 * 262144 + tailBits b * 4096 + tailBits c * 64 + tailBits d)) [a, b, c, d]

/-- A spelling is decoded in front of anything. -/
theorem Spelling.decodeFrom {char : Char} {bytes : Bytes} (h : Spelling char bytes) (index : Nat)
    (rest : Bytes) :
    Utf8.decodeFrom index (bytes ++ rest) =
      (char :: ·) <$> Utf8.decodeFrom (index + bytes.length) rest := by
  -- The first byte decides which of the branches is taken.
  cases h with
  | @one a ha =>
      have hone : a < 0x80 := UInt8.lt_iff_toNat_lt.mpr ha
      rw [List.cons_append, Utf8.decodeFrom.eq_def]
      simp [hone]
  | @two a b hlow hhigh hb =>
      have hone : ¬ a < 0x80 := by simp [UInt8.lt_iff_toNat_lt]; omega
      have htwo : 0xC2 ≤ a ∧ a ≤ 0xDF := by simp [UInt8.le_iff_toNat_le]; omega
      rw [List.cons_append, Utf8.decodeFrom.eq_def]
      simp [hone, htwo, hb]
  | @three a b c hlow hhigh hb hc =>
      have hone : ¬ a < 0x80 := by simp [UInt8.lt_iff_toNat_lt]; omega
      have htwo : ¬ a ≤ 0xDF := by simp [UInt8.le_iff_toNat_le]; omega
      have hthree : 0xE0 ≤ a ∧ a ≤ 0xEF := by simp [UInt8.le_iff_toNat_le]; omega
      rw [List.cons_append, Utf8.decodeFrom.eq_def]
      simp [hone, htwo, hthree, hb, hc]
  | @four a b c d hlow hhigh hb hc hd =>
      have hone : ¬ a < 0x80 := by simp [UInt8.lt_iff_toNat_lt]; omega
      have htwo : ¬ a ≤ 0xDF := by simp [UInt8.le_iff_toNat_le]; omega
      have hthree : ¬ a ≤ 0xEF := by simp [UInt8.le_iff_toNat_le]; omega
      have hfour : 0xF0 ≤ a ∧ a ≤ 0xF4 := by simp [UInt8.le_iff_toNat_le]; omega
      rw [List.cons_append, Utf8.decodeFrom.eq_def]
      simp [hone, htwo, hthree, hfour, hb, hc, hd]

theorem map_eq_ok_iff {ε α β : Type} {f : α → β} {x : Except ε α} {b : β} :
    f <$> x = .ok b ↔ ∃ a, x = .ok a ∧ f a = b := by
  cases x with
  | error e => simp [Functor.map, Except.map]
  | ok a => simp [Functor.map, Except.map]

/-- Decoding that gives a character in front of others has taken its spelling. -/
theorem Spelling.taken {index : Nat} {char : Char} {bytes rest : Bytes} {chars : List Char}
    (hspelling : Spelling char bytes)
    (h : (char :: ·) <$> Utf8.decodeFrom (index + bytes.length) rest = .ok chars) :
    ∃ char' bytes' rest' chars', Spelling char' bytes' ∧ bytes ++ rest = bytes' ++ rest' ∧
      chars = char' :: chars' ∧ Utf8.decodeFrom (index + bytes'.length) rest' = .ok chars' := by
  rcases map_eq_ok_iff.mp h with ⟨chars', hrest, rfl⟩
  exact ⟨char, bytes, rest, chars', hspelling, rfl, rfl, hrest⟩

/-- Decoding starts with a spelling. -/
theorem exists_spelling_of_decodeFrom {index : Nat} {a : UInt8} {data : Bytes} {chars : List Char}
    (h : decodeFrom index (a :: data) = .ok chars) :
    ∃ char bytes rest chars', Spelling char bytes ∧ a :: data = bytes ++ rest ∧
      chars = char :: chars' ∧ decodeFrom (index + bytes.length) rest = .ok chars' := by
  -- The range of the first byte tells how many follow, and these are looked at one by one.
  rw [decodeFrom.eq_def] at h
  simp only [Bool.and_eq_true, decide_eq_true_eq, UInt8.lt_iff_toNat_lt, UInt8.le_iff_toNat_le,
    UInt8.reduceToNat, Bool.not_eq_true'] at h
  split at h
  · next hone => exact (Spelling.one hone).taken h
  split at h
  · next htwo =>
    cases data with
    | nil => contradiction
    | cons b data =>
    dsimp only at h
    split at h
    · contradiction
    · next hb => exact (Spelling.two htwo.1 htwo.2 (by simpa using hb)).taken h
  split at h
  · next hthree =>
    cases data with
    | nil => contradiction
    | cons b data =>
    dsimp only at h
    split at h
    · contradiction
    · next hb =>
      cases data with
      | nil => contradiction
      | cons c data =>
      dsimp only at h
      split at h
      · contradiction
      · next hc =>
        have hspelling := Spelling.three hthree.1 hthree.2 (by simpa using hb) (by simpa using hc)
        exact hspelling.taken h
  split at h
  · next hfour =>
    cases data with
    | nil => contradiction
    | cons b data =>
    dsimp only at h
    split at h
    · contradiction
    · next hb =>
      cases data with
      | nil => contradiction
      | cons c data =>
      dsimp only at h
      split at h
      · contradiction
      · next hc =>
        cases data with
        | nil => contradiction
        | cons d data =>
        dsimp only at h
        split at h
        · contradiction
        · next hd =>
          have hspelling := Spelling.four hfour.1 hfour.2 (by simpa using hb) (by simpa using hc)
            (by simpa using hd)
          exact hspelling.taken h
  · contradiction

/-- The number of a character that is made from a number. -/
theorem toNat_charOfNat {n : Nat} (h : n.isValidChar) : (Char.ofNat n).val.toNat = n := by
  rw [Char.ofNat, dif_pos h]
  rfl

/-- The spelling of a character is its encoding. -/
theorem Spelling.eq_encode {char : Char} {bytes : Bytes} (h : Spelling char bytes) :
    bytes = String.utf8EncodeChar char := by
  cases h with
  | @one a ha =>
      have hvalid : a.toNat.isValidChar := Or.inl (by omega)
      have hone : a.toNat ≤ 127 := by omega
      rw [String.utf8EncodeChar, toNat_charOfNat hvalid]
      simp [hone]
  | @two a b hlow hhigh hb =>
      rw [isTail_iff] at hb
      generalize hn : a.toNat % 32 * 64 + tailBits b = n
      unfold tailBits at hn
      have hvalid : n.isValidChar := Or.inl (by omega)
      have hone : ¬ n ≤ 127 := by omega
      have htwo : n ≤ 2047 := by omega
      have hfirst : n / 64 % 32 + 192 = a.toNat := by omega
      have hsecond : n % 64 + 128 = b.toNat := by omega
      rw [String.utf8EncodeChar, toNat_charOfNat hvalid]
      simp only [hone, htwo, hfirst, hsecond, if_false, if_true, UInt8.ofNat_toNat]
  | @three a b c hlow hhigh hb hc =>
      rw [isSecondOfThree_iff] at hb
      rw [isTail_iff] at hc
      generalize hn : a.toNat % 16 * 4096 + tailBits b * 64 + tailBits c = n
      unfold tailBits at hn
      have hvalid : n.isValidChar := by
        unfold Nat.isValidChar
        omega
      have htwo : ¬ n ≤ 2047 := by omega
      have hone : ¬ n ≤ 127 := by omega
      have hthree : n ≤ 65535 := by omega
      have hfirst : n / 4096 % 16 + 224 = a.toNat := by omega
      have hsecond : n / 64 % 64 + 128 = b.toNat := by omega
      have hthird : n % 64 + 128 = c.toNat := by omega
      rw [String.utf8EncodeChar, toNat_charOfNat hvalid]
      simp only [hone, htwo, hthree, hfirst, hsecond, hthird, if_false, if_true,
        UInt8.ofNat_toNat]
  | @four a b c d hlow hhigh hb hc hd =>
      rw [isSecondOfFour_iff] at hb
      rw [isTail_iff] at hc hd
      generalize hn : a.toNat % 8 * 262144 + tailBits b * 4096 + tailBits c * 64 + tailBits d = n
      unfold tailBits at hn
      have hvalid : n.isValidChar := by
        unfold Nat.isValidChar
        omega
      have hthree : ¬ n ≤ 65535 := by omega
      have htwo : ¬ n ≤ 2047 := by omega
      have hone : ¬ n ≤ 127 := by omega
      have hfirst : n / 262144 % 8 + 240 = a.toNat := by omega
      have hsecond : n / 4096 % 64 + 128 = b.toNat := by omega
      have hthird : n / 64 % 64 + 128 = c.toNat := by omega
      have hfourth : n % 64 + 128 = d.toNat := by omega
      rw [String.utf8EncodeChar, toNat_charOfNat hvalid]
      simp only [hone, htwo, hthree, hfirst, hsecond, hthird, hfourth, if_false,
        UInt8.ofNat_toNat]

/-- The encoding of a character is a spelling of it. -/
theorem spelling_encodeChar (char : Char) : Spelling char (String.utf8EncodeChar char) := by
  have hspelling {n : Nat} {bytes : Bytes} (h : Spelling (Char.ofNat n) bytes)
      (hn : n = char.val.toNat) : Spelling char bytes := by
    have hchar : Char.ofNat char.val.toNat = char := Char.ofNat_toNat char
    rwa [hn, hchar] at h
  have hbyte (n : Nat) (hlt : n < 256) : ∃ a : UInt8, UInt8.ofNat n = a ∧ a.toNat = n :=
    ⟨_, rfl, UInt8.toNat_ofNat_of_lt' hlt⟩
  have hvalid : char.val.toNat.isValidChar := char.valid
  unfold Nat.isValidChar at hvalid
  unfold String.utf8EncodeChar
  generalize char.val.toNat = v at *
  dsimp only
  -- The number's range decides how many bytes there are, and each is in its own range.
  split
  · rcases hbyte v (by omega) with ⟨a, ha, hnat⟩
    rw [ha]
    exact hspelling (.one (by omega)) hnat
  split
  · rcases hbyte (v / 64 % 32 + 192) (by omega) with ⟨a, ha, hanat⟩
    rcases hbyte (v % 64 + 128) (by omega) with ⟨b, hb, hbnat⟩
    rw [ha, hb]
    refine hspelling (.two (by omega) (by omega) ?_) ?_
    · rw [isTail_iff]
      omega
    · unfold tailBits
      omega
  split
  · rcases hbyte (v / 4096 % 16 + 224) (by omega) with ⟨a, ha, hanat⟩
    rcases hbyte (v / 64 % 64 + 128) (by omega) with ⟨b, hb, hbnat⟩
    rcases hbyte (v % 64 + 128) (by omega) with ⟨c, hc, hcnat⟩
    rw [ha, hb, hc]
    refine hspelling (.three (by omega) (by omega) ?_ ?_) ?_
    · rw [isSecondOfThree_iff]
      omega
    · rw [isTail_iff]
      omega
    · unfold tailBits
      omega
  · rcases hbyte (v / 262144 % 8 + 240) (by omega) with ⟨a, ha, hanat⟩
    rcases hbyte (v / 4096 % 64 + 128) (by omega) with ⟨b, hb, hbnat⟩
    rcases hbyte (v / 64 % 64 + 128) (by omega) with ⟨c, hc, hcnat⟩
    rcases hbyte (v % 64 + 128) (by omega) with ⟨d, hd, hdnat⟩
    rw [ha, hb, hc, hd]
    refine hspelling (.four (by omega) (by omega) ?_ ?_ ?_) ?_
    · rw [isSecondOfFour_iff]
      omega
    · rw [isTail_iff]
      omega
    · rw [isTail_iff]
      omega
    · unfold tailBits
      omega

/-- Characters are decoded from their encodings. -/
theorem decodeFrom_flatMap (chars : List Char) (index : Nat) :
    decodeFrom index (chars.flatMap String.utf8EncodeChar) = .ok chars := by
  induction chars generalizing index with
  | nil => rfl
  | cons char chars ih =>
      rw [List.flatMap_cons, (spelling_encodeChar char).decodeFrom, ih]
      rfl

/-- Bytes that are decoded are the encodings of their characters. -/
theorem flatMap_of_decodeFrom {index : Nat} {bytes : Bytes} {chars : List Char}
    (h : decodeFrom index bytes = .ok chars) : chars.flatMap String.utf8EncodeChar = bytes := by
  induction chars generalizing index bytes with
  | nil =>
      cases bytes with
      | nil => rfl
      | cons a data =>
          rcases exists_spelling_of_decodeFrom h with ⟨_, _, _, _, _, _, hchars, _⟩
          contradiction
  | cons char chars ih =>
      cases bytes with
      | nil => simp [decodeFrom] at h
      | cons a data =>
          rcases exists_spelling_of_decodeFrom h with
            ⟨char', field, rest, chars', hspelling, hbytes, hchars, hrest⟩
          injection hchars with hchar hchars
          subst hchar hchars
          rw [List.flatMap_cons, ih hrest, ← hspelling.eq_encode, hbytes]

/-- Text is decoded from its bytes. -/
theorem decode_encode (text : String) : decode (encode text) = .ok text := by
  rw [decode, encode, decodeFrom_flatMap]
  exact congrArg Except.ok String.ofList_toList

/-- Bytes are encoded from their text. -/
theorem encode_of_decode {bytes : Bytes} {text : String} (h : decode bytes = .ok text) :
    encode text = bytes := by
  rcases map_eq_ok_iff.mp h with ⟨chars, hchars, rfl⟩
  rw [encode, String.toList_ofList, flatMap_of_decodeFrom hchars]

end Utf8

end KlvMetadata
