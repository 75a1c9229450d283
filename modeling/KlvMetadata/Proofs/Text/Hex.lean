import KlvMetadata.Proofs.Text.Utf8
import KlvMetadata.Text.Hex

/-!
# Hexadecimal Digits

A byte has two halves, and each of these is the value of a digit. So a text spells bytes if
its characters are digits, in either case, whose values are the halves of the bytes one after
the other.

What is asked of a codec for digits is what anyone would promise of it: bytes are written as
two digits each, pairs of digits are read, and an odd count and all that is no digit are
refused. That nothing else is read follows, since digits that are even in number are in
pairs. For what reason something is refused is left open, and the codec that is in use keeps
these laws.

A codec does not see characters. It is handed the bytes in which a text is encoded, and
takes them in pairs, whatever they are part of. That makes no difference: a digit is encoded
in one byte, and the first byte of a character of several bytes is no digit, so a text with
such a character is refused.

## Main definitions

* `Bytes.halves`: The halves of all bytes.
* `HexCodec.Lawful`: What is asked of a codec for digits.
* `Hex.IsDigit`, `Hex.value?`: Digits in either case, and their values.
* `Hex.Spells`: Characters that are digits for the halves of bytes.

## Theorems

* `Bytes.exists_halves`: Small numbers are the halves of bytes, if their count is even.
* `Hex.decode_eq_ok_iff_of_lawful`: A lawful codec puts halves together.
* `Hex.lawful_codec`: The codec that is in use is lawful.
* `Hex.map_digit?_iff`: Bytes of a text are digits if its characters are.
* `Hex.decode_encode_eq_ok_iff`: A text is decoded to the bytes it spells.
* `Hex.exists_values_iff`, `Hex.exists_spells_iff`: Which characters spell bytes.
* `Hex.spells_iff_lower`: The case of letters does not matter.
* `Bytes.spells_byteDigits`: The digits that are shown for bytes spell them.
-/

namespace KlvMetadata

/-- What is found for all of a list is a list again. -/
theorem exists_map_some_iff {α β : Type} (f : α → Option β) (xs : List α) :
    (∃ ys : List β, xs.map f = ys.map some) ↔ ∀ x ∈ xs, f x ≠ none := by
  induction xs with
  | nil => exact iff_of_true ⟨[], rfl⟩ (fun x hx => absurd hx List.not_mem_nil)
  | cons x xs ih =>
      rw [List.forall_mem_cons, ← ih, Option.ne_none_iff_exists']
      constructor
      · rintro ⟨ys, h⟩
        cases ys with
        | nil => contradiction
        | cons y ys =>
            rw [List.map_cons, List.map_cons, List.cons.injEq] at h
            exact ⟨⟨y, h.1⟩, ys, h.2⟩
      · rintro ⟨⟨y, hy⟩, ys, hys⟩
        exact ⟨y :: ys, by rw [List.map_cons, List.map_cons, hy, hys]⟩

/-- What holds of all that can be found holds of what was found. -/
theorem forall_of_map_some {α β : Type} {f : α → Option β} {xs : List α} {ys : List β}
    {P : β → Prop} (h : xs.map f = ys.map some) (hf : ∀ x y, f x = some y → P y) :
    ∀ y ∈ ys, P y := by
  intro y hy
  have hmem : some y ∈ xs.map f := by
    rw [h]
    exact List.mem_map_of_mem hy
  obtain ⟨x, _, hx⟩ := List.mem_map.mp hmem
  exact hf x y hx

/-- Capital letters become small, and all other characters stay. -/
theorem toNat_toLower (c : Char) :
    c.toLower.toNat = if 65 ≤ c.toNat ∧ c.toNat ≤ 90 then c.toNat + 32 else c.toNat := by
  have hcapital : (c.val ≥ 'A'.val ∧ c.val ≤ 'Z'.val) ↔ (65 ≤ c.toNat ∧ c.toNat ≤ 90) := by
    rw [ge_iff_le, UInt32.le_iff_toNat_le, UInt32.le_iff_toNat_le]
    rfl
  unfold Char.toLower
  by_cases h : 65 ≤ c.toNat ∧ c.toNat ≤ 90
  · rw [dif_pos (hcapital.mpr h), if_pos h]
    change (c.toNat + 32) % 4294967296 = c.toNat + 32
    omega
  · rw [dif_neg (fun hc => h (hcapital.mp hc)), if_neg h]

namespace Bytes

/-- The halves of the bytes, the upper one of each byte first. -/
def halves (bytes : Bytes) : List Nat := bytes.flatMap fun b => [b.toNat / 16, b.toNat % 16]

@[simp]
theorem halves_nil : halves [] = [] := by
  rfl

@[simp]
theorem halves_cons (b : UInt8) (bytes : Bytes) :
    halves (b :: bytes) = b.toNat / 16 :: b.toNat % 16 :: halves bytes := by
  rfl

theorem length_halves (bytes : Bytes) : (halves bytes).length = 2 * bytes.length := by
  induction bytes with
  | nil => rfl
  | cons b bytes ih =>
      rw [halves_cons, List.length_cons, List.length_cons, ih, List.length_cons]
      omega

theorem lt_of_mem_halves {n : Nat} {bytes : Bytes} (h : n ∈ halves bytes) : n < 16 := by
  obtain ⟨b, _, hn⟩ := List.mem_flatMap.mp h
  have hlt := b.toNat_lt
  simp only [List.mem_cons, List.not_mem_nil, or_false] at hn
  omega

/-- A byte is known from its halves. -/
theorem ofNat_eq_iff {b : UInt8} {high low : Nat} (hhigh : high < 16) (hlow : low < 16) :
    UInt8.ofNat (16 * high + low) = b ↔ high = b.toNat / 16 ∧ low = b.toNat % 16 := by
  have hbyte : (UInt8.ofNat (16 * high + low)).toNat = 16 * high + low :=
    UInt8.toNat_ofNat_of_lt' (by change 16 * high + low < 256; omega)
  rw [← UInt8.toNat_inj, hbyte]
  omega

/-- Numbers below sixteen are the halves of bytes if there are twice as many. -/
theorem exists_halves {count : Nat} {numbers : List Nat} (hlength : numbers.length = 2 * count)
    (hlt : ∀ n ∈ numbers, n < 16) :
    ∃ bytes : Bytes, bytes.length = count ∧ halves bytes = numbers := by
  induction count generalizing numbers with
  | zero => exact ⟨[], rfl, (List.eq_nil_of_length_eq_zero hlength).symm⟩
  | succ count ih =>
      match numbers, hlength, hlt with
      | high :: low :: rest, hlength, hlt =>
          rw [List.forall_mem_cons, List.forall_mem_cons] at hlt
          rcases hlt with ⟨hhigh, hlow, hrest⟩
          rw [List.length_cons, List.length_cons] at hlength
          obtain ⟨bytes, hbytes, hhalves⟩ := ih (by omega) hrest
          obtain ⟨hupper, hlower⟩ := (ofNat_eq_iff hhigh hlow).mp rfl
          refine ⟨UInt8.ofNat (16 * high + low) :: bytes, by rw [List.length_cons, hbytes], ?_⟩
          rw [halves_cons, hhalves, ← hupper, ← hlower]

end Bytes

/-- What is asked of a codec for digits. A byte is written as two of them, in upper case. Two
    digits of either case are read as a byte. A digit without another one and a character
    that is no digit are refused, with some wording. -/
structure HexCodec.Lawful (hex : HexCodec) : Prop where
  toList_encodeUpper : ∀ bytes, (hex.encodeUpper bytes).toList = bytes.flatMap Bytes.byteDigits
  decode_pairs : ∀ digits bytes : Bytes,
    digits.map Hex.digit? = bytes.halves.map some → hex.decode digits = .ok bytes
  decode_odd : ∀ digits : Bytes, digits.length % 2 = 1 →
    ∃ reason, hex.decode digits = .error reason
  decode_foreign : ∀ digits : Bytes, (∃ d ∈ digits, Hex.digit? d = none) →
    ∃ reason, hex.decode digits = .error reason

namespace Hex

/-- The digits in the order of their values. Letters may also be capitals. -/
def digits : List Char :=
  ['0', '1', '2', '3', '4', '5', '6', '7', '8', '9', 'a', 'b', 'c', 'd', 'e', 'f']

/-- A digit in either case. -/
def IsDigit (c : Char) : Prop := c.toLower ∈ digits

instance : DecidablePred IsDigit := fun c => inferInstanceAs (Decidable (c.toLower ∈ digits))

/-- The value of a digit in either case. -/
def value? (c : Char) : Option Nat := digits.idxOf? c.toLower

/-- The characters are digits for the halves of the bytes. -/
def Spells (chars : List Char) (bytes : Bytes) : Prop :=
  chars.map value? = bytes.halves.map some

theorem isDigit_iff (c : Char) : IsDigit c ↔ ∃ n, value? c = some n := by
  rw [← Option.ne_none_iff_exists', ne_eq, value?, List.idxOf?_eq_none_iff, Classical.not_not,
    IsDigit]

theorem value?_eq_some_iff (c : Char) (n : Nat) :
    value? c = some n ↔ n < 16 ∧ c.toLower = Nat.digitChar n := by
  have hdigits : ∀ n, (h : n < 16) → digits[n] = Nat.digitChar n := by decide
  have hplaces : ∀ n < 16, digits.idxOf? (Nat.digitChar n) = some n := by decide
  constructor
  · intro h
    obtain ⟨hlt, heq, _⟩ := List.idxOf?_eq_some_iff.mp h
    exact ⟨hlt, by rw [← heq, hdigits n hlt]⟩
  · rintro ⟨hlt, heq⟩
    rw [value?, heq, hplaces n hlt]

theorem value?_large {c : Char} (h : 128 ≤ c.toNat) : value? c = none := by
  have hsmall : ∀ n < 16, (Nat.digitChar n).toNat < 128 := by decide
  cases hvalue : value? c with
  | none => rfl
  | some n =>
      obtain ⟨hlt, hdigit⟩ := (value?_eq_some_iff c n).mp hvalue
      have hlower := hsmall n hlt
      rw [← hdigit, toNat_toLower] at hlower
      split at hlower <;> omega

/-- The decoder knows the same digits. -/
theorem digit?_small : ∀ n < 128, digit? (UInt8.ofNat n) = value? (Char.ofNat n) := by
  decide

theorem digit?_large {b : UInt8} (h : 128 ≤ b.toNat) : digit? b = none := by
  simp only [digit?, Bool.and_eq_true, decide_eq_true_eq, UInt8.le_iff_toNat_le,
    UInt8.reduceToNat]
  rw [if_neg (by omega), if_neg (by omega), if_neg (by omega)]

theorem digit?_lt {b : UInt8} {n : Nat} (h : digit? b = some n) : n < 16 := by
  by_cases hsmall : b.toNat < 128
  · have hvalue := digit?_small b.toNat hsmall
    rw [UInt8.ofNat_toNat, h] at hvalue
    exact ((value?_eq_some_iff _ n).mp hvalue.symm).1
  · rw [digit?_large (Nat.not_lt.mp hsmall)] at h
    contradiction

/-- A lawful codec reads bytes from digits whose values are their halves, and reads nothing
    else. -/
theorem decode_eq_ok_iff_of_lawful {hex : HexCodec} (h : hex.Lawful) (digits bytes : Bytes) :
    hex.decode digits = .ok bytes ↔ digits.map digit? = bytes.halves.map some := by
  refine ⟨fun hok => ?_, h.decode_pairs digits bytes⟩
  have heven : digits.length % 2 ≠ 1 := by
    intro hodd
    obtain ⟨reason, herror⟩ := h.decode_odd digits hodd
    rw [hok] at herror
    contradiction
  have hdigits : ∀ d ∈ digits, digit? d ≠ none := by
    intro d hd hnone
    obtain ⟨reason, herror⟩ := h.decode_foreign digits ⟨d, hd, hnone⟩
    rw [hok] at herror
    contradiction
  -- Digits that are even in number are those of some bytes, and these are read.
  obtain ⟨numbers, hnumbers⟩ := (exists_map_some_iff digit? digits).mpr hdigits
  have hcount := congrArg List.length hnumbers
  rw [List.length_map, List.length_map] at hcount
  have hhalf : numbers.length = 2 * (digits.length / 2) := by omega
  have hlt := forall_of_map_some hnumbers fun d n hd => digit?_lt hd
  obtain ⟨bytes', _, hhalves⟩ := Bytes.exists_halves hhalf hlt
  rw [← hhalves] at hnumbers
  obtain rfl := Except.ok.inj (hok.symm.trans (h.decode_pairs digits bytes' hnumbers))
  exact hnumbers

/-- Bytes are decoded from pairs of digits whose values are their halves. -/
theorem decodeFrom_eq_ok_iff (position : Nat) (digits bytes : Bytes) :
    decodeFrom position digits = .ok bytes ↔ digits.map digit? = bytes.halves.map some := by
  -- A byte has two halves, so the bytes come apart as the digits do.
  fun_induction decodeFrom position digits generalizing bytes with
  | case1 position => cases bytes <;> simp
  | case2 position digit => cases bytes <;> simp
  | case3 position high low rest hhigh => cases bytes <;> simp [hhigh]
  | case4 position high low rest hlow hhigh => cases bytes <;> simp [hlow]
  | case5 position high low rest upper lower hlow hhigh ih =>
      rw [Utf8.map_eq_ok_iff]
      cases bytes with
      | nil => simp
      | cons b bytes =>
          have hbyte := Bytes.ofNat_eq_iff (b := b) (digit?_lt hhigh) (digit?_lt hlow)
          simp only [List.map_cons, Bytes.halves_cons, hhigh, hlow, List.cons.injEq,
            Option.some.injEq, ih, hbyte]
          rw [exists_eq_right_right, and_comm, and_assoc]

/-- Bytes are decoded from digits whose values are their halves. -/
theorem decode_eq_ok_iff (digits bytes : Bytes) :
    decode digits = .ok bytes ↔ digits.map digit? = bytes.halves.map some := by
  rw [decode]
  by_cases hodd : digits.length % 2 = 1
  · -- There is an even number of halves.
    rw [if_pos hodd]
    refine iff_of_false (by simp) fun h => ?_
    have hlength := congrArg List.length h
    rw [List.length_map, List.length_map, Bytes.length_halves] at hlength
    omega
  · rw [if_neg hodd]
    exact decodeFrom_eq_ok_iff 0 digits bytes

/-- The codec that is in use is lawful. -/
theorem lawful_codec : codec.Lawful where
  toList_encodeUpper _ := String.toList_ofList
  decode_pairs digits bytes h := by
    change (decode digits).mapError Fault.message = _
    rw [(decode_eq_ok_iff digits bytes).mpr h]
    rfl
  decode_odd digits hodd := by
    refine ⟨Fault.message .oddLength, ?_⟩
    change (decode digits).mapError Fault.message = _
    rw [decode, if_pos hodd]
    rfl
  decode_foreign digits hforeign := by
    change ∃ reason, (decode digits).mapError Fault.message = _
    cases hdecode : decode digits with
    | error fault => exact ⟨fault.message, rfl⟩
    | ok bytes =>
        have hvalues := (exists_map_some_iff _ _).mp ⟨_, (decode_eq_ok_iff _ _).mp hdecode⟩
        obtain ⟨d, hd, hnone⟩ := hforeign
        exact absurd hnone (hvalues d hd)

/-- A character is one byte with its value as a digit, or it is no digit and neither is the
    first of its bytes. -/
theorem digit?_encodeChar (c : Char) :
    (∃ b, String.utf8EncodeChar c = [b] ∧ digit? b = value? c) ∨
    (value? c = none ∧ ∃ b rest, String.utf8EncodeChar c = b :: rest ∧ digit? b = none) := by
  have hchar : Char.ofNat c.val.toNat = c := Char.ofNat_toNat c
  have hfirst {n : Nat} (hlow : 128 ≤ n) (hhigh : n < 256) : digit? (UInt8.ofNat n) = none :=
    digit?_large (by rwa [UInt8.toNat_ofNat_of_lt' hhigh])
  by_cases hascii : c.val.toNat ≤ 127
  · refine Or.inl ⟨UInt8.ofNat c.val.toNat, ?_, ?_⟩
    · unfold String.utf8EncodeChar
      rw [if_pos hascii]
    · rw [digit?_small c.val.toNat (by omega), hchar]
  · -- The first of several bytes tells how many there are, in bits no digit has.
    have hlarge : 128 ≤ c.toNat := Nat.not_le.mp hascii
    refine Or.inr ⟨value?_large hlarge, ?_⟩
    unfold String.utf8EncodeChar
    dsimp only
    rw [if_neg hascii]
    split
    · exact ⟨_, _, rfl, hfirst (by omega) (by omega)⟩
    split
    · exact ⟨_, _, rfl, hfirst (by omega) (by omega)⟩
    · exact ⟨_, _, rfl, hfirst (by omega) (by omega)⟩

/-- The bytes of a text are digits of some values if its characters are. -/
theorem map_digit?_iff (chars : List Char) (numbers : List Nat) :
    (chars.flatMap String.utf8EncodeChar).map digit? = numbers.map some ↔
      chars.map value? = numbers.map some := by
  induction chars generalizing numbers with
  | nil => rfl
  | cons c chars ih =>
      rw [List.flatMap_cons, List.map_append, List.map_cons]
      rcases digit?_encodeChar c with ⟨b, hbytes, hdigit⟩ | ⟨hvalue, b, rest, hbytes, hdigit⟩
      · rw [hbytes, List.map_singleton, hdigit]
        cases numbers with
        | nil => simp
        | cons n numbers => simp [ih]
      · -- Both lists start with something that has no value, and all numbers are values.
        rw [hbytes, List.map_cons, hdigit, hvalue]
        cases numbers with
        | nil => simp
        | cons n numbers => simp

/-- A text is decoded to the bytes that it spells. -/
theorem decode_encode_eq_ok_iff {hex : HexCodec} (h : hex.Lawful) (chars : List Char)
    (bytes : Bytes) :
    hex.decode (chars.flatMap String.utf8EncodeChar) = .ok bytes ↔ Spells chars bytes := by
  rw [decode_eq_ok_iff_of_lawful h, map_digit?_iff, Spells]

/-- The characters that have values are the digits. -/
theorem exists_values_iff (chars : List Char) :
    (∃ numbers : List Nat, chars.map value? = numbers.map some) ↔ ∀ c ∈ chars, IsDigit c := by
  simp only [exists_map_some_iff, Option.ne_none_iff_exists', ← isDigit_iff]

/-- Two digits for each byte spell some bytes, and nothing else does. -/
theorem exists_spells_iff (chars : List Char) (count : Nat) :
    (∃ bytes, bytes.length = count ∧ Spells chars bytes) ↔
      chars.length = 2 * count ∧ ∀ c ∈ chars, IsDigit c := by
  rw [← exists_values_iff]
  constructor
  · rintro ⟨bytes, rfl, hspells⟩
    refine ⟨?_, bytes.halves, hspells⟩
    have hlength := congrArg List.length hspells
    rwa [List.length_map, List.length_map, Bytes.length_halves] at hlength
  · rintro ⟨hlength, numbers, hnumbers⟩
    -- There are as many values as digits, and they are small enough to be halves.
    have hcount := congrArg List.length hnumbers
    rw [List.length_map, List.length_map, hlength] at hcount
    have hlt := forall_of_map_some hnumbers fun c n hc => ((value?_eq_some_iff c n).mp hc).1
    obtain ⟨bytes, hbytes, hhalves⟩ := Bytes.exists_halves hcount.symm hlt
    exact ⟨bytes, hbytes, by rw [Spells, hhalves, hnumbers]⟩

/-- Characters spell bytes if in small letters they are the digits of the halves. -/
theorem spells_iff_lower (chars : List Char) (bytes : Bytes) :
    Spells chars bytes ↔ chars.map Char.toLower = bytes.halves.map Nat.digitChar := by
  have hlt : ∀ n ∈ bytes.halves, n < 16 := fun n hn => Bytes.lt_of_mem_halves hn
  rw [Spells]
  generalize bytes.halves = numbers at hlt
  induction chars generalizing numbers with
  | nil => simp
  | cons c chars ih =>
      cases numbers with
      | nil => simp
      | cons n numbers =>
          rw [List.forall_mem_cons] at hlt
          simp only [List.map_cons, List.cons.injEq, value?_eq_some_iff, ih numbers hlt.2,
            and_iff_right hlt.1]

end Hex

namespace Bytes

/-- The digits that are shown for bytes spell them. -/
theorem spells_byteDigits (bytes : Bytes) : Hex.Spells (bytes.flatMap byteDigits) bytes := by
  have hlower : ∀ n < 16, (Nat.digitChar n).toUpper.toLower = Nat.digitChar n := by decide
  rw [Hex.spells_iff_lower]
  induction bytes with
  | nil => rfl
  | cons b bytes ih =>
      have hlt := b.toNat_lt
      rw [List.flatMap_cons, List.map_append, ih, halves_cons, byteDigits]
      simp only [List.map_cons, List.map_nil, List.cons_append, List.nil_append]
      rw [hlower _ (by omega), hlower _ (by omega)]

end Bytes

end KlvMetadata
