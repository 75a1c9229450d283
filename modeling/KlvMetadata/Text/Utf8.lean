import KlvMetadata.Bytes

/-!
# UTF-8

Text in fields is UTF-8. A decoder that refuses bytes says where and how: the
length of the valid text before the fault, and how many bytes from there on
cannot be part of any character. When the bytes end inside a character that
is right so far, there is no such count.

## Main definitions

* `Utf8.encode`: The bytes of a text.
* `Utf8.decode`: The text of some bytes, or the first fault in them.
* `Utf8.Fault`: Position and extent of a fault.
-/

namespace KlvMetadata

namespace Utf8

/-- The first place where bytes stop being UTF-8. -/
structure Fault where
  /-- Length of the valid text before it. -/
  index : Nat
  /-- Bytes that cannot be part of a character, or nothing when the input ends
      inside one. -/
  extent : Option Nat
  deriving DecidableEq, Repr

def Fault.message (f : Fault) : String :=
  match f.extent with
  | some n => s!"invalid utf-8 sequence of {n} bytes from index {f.index}"
  | none => s!"incomplete utf-8 byte sequence from index {f.index}"

/-- The bytes of a text. -/
def encode (text : String) : Bytes := text.toList.flatMap String.utf8EncodeChar

/-- A byte that continues a character. -/
def isTail (b : UInt8) : Bool := 0x80 ≤ b && b ≤ 0xBF

/-- Whether `b` may come second after the first byte `a` of a character of three
    bytes; this leaves out overlong spellings and surrogates. -/
def isSecondOfThree (a b : UInt8) : Bool :=
  if a = 0xE0 then 0xA0 ≤ b && b ≤ 0xBF
  else if a = 0xED then 0x80 ≤ b && b ≤ 0x9F
  else isTail b

/-- Whether `b` may come second after the first byte `a` of a character of four
    bytes; this leaves out overlong spellings and numbers past the last code
    point. -/
def isSecondOfFour (a b : UInt8) : Bool :=
  if a = 0xF0 then 0x90 ≤ b && b ≤ 0xBF
  else if a = 0xF4 then 0x80 ≤ b && b ≤ 0x8F
  else isTail b

/-- The six payload bits of a continuing byte. -/
def tailBits (b : UInt8) : Nat := b.toNat % 64

/-- Decode bytes that follow `index` bytes of valid text. -/
def decodeFrom (index : Nat) : Bytes → Except Fault (List Char)
  | [] => .ok []
  | a :: rest =>
    if a < 0x80 then (Char.ofNat a.toNat :: ·) <$> decodeFrom (index + 1) rest
    else if 0xC2 ≤ a && a ≤ 0xDF then
      match rest with
      | [] => .error ⟨index, none⟩
      | b :: rest =>
        if !isTail b then .error ⟨index, some 1⟩
        else
          let c := Char.ofNat (a.toNat % 32 * 64 + tailBits b)
          (c :: ·) <$> decodeFrom (index + 2) rest
    else if 0xE0 ≤ a && a ≤ 0xEF then
      match rest with
      | [] => .error ⟨index, none⟩
      | b :: rest =>
        if !isSecondOfThree a b then .error ⟨index, some 1⟩
        else
          match rest with
          | [] => .error ⟨index, none⟩
          | c :: rest =>
            if !isTail c then .error ⟨index, some 2⟩
            else
              let c := Char.ofNat (a.toNat % 16 * 4096 + tailBits b * 64 + tailBits c)
              (c :: ·) <$> decodeFrom (index + 3) rest
    else if 0xF0 ≤ a && a ≤ 0xF4 then
      match rest with
      | [] => .error ⟨index, none⟩
      | b :: rest =>
        if !isSecondOfFour a b then .error ⟨index, some 1⟩
        else
          match rest with
          | [] => .error ⟨index, none⟩
          | c :: rest =>
            if !isTail c then .error ⟨index, some 2⟩
            else
              match rest with
              | [] => .error ⟨index, none⟩
              | d :: rest =>
                if !isTail d then .error ⟨index, some 3⟩
                else
                  let c := Char.ofNat
                    (a.toNat % 8 * 262144 + tailBits b * 4096 + tailBits c * 64 + tailBits d)
                  (c :: ·) <$> decodeFrom (index + 4) rest
    else .error ⟨index, some 1⟩

/-- The text that the bytes spell, or the first fault in them. -/
def decode (bytes : Bytes) : Except Fault String := String.ofList <$> decodeFrom 0 bytes

end Utf8

end KlvMetadata
