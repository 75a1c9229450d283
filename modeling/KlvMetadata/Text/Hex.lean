import KlvMetadata.Bytes

/-!
# Hexadecimal Text

Keys and byte strings are shown in hexadecimal digits, and keys are read back
from them. How this is done is a matter of its own, so what shows or reads
digits is handed a codec for them. `Hex.codec` is the one that is in use. It
takes digits of either case in pairs, and refuses an odd count of them before
it looks at any.

## Main definitions

* `HexCodec`: Writing bytes in digits, and reading them back.
* `Bytes.spacedHexText`: Byte strings as they are shown.
* `Hex.decode`: The bytes that pairs of digits spell.
* `Hex.codec`: The codec that is in use.
-/

namespace KlvMetadata

/-- Writing bytes in hexadecimal digits, and reading them back. -/
structure HexCodec where
  /-- The bytes that digits spell, or the wording of why they spell none. The digits are
      bytes themselves, those of some text. -/
  decode : Bytes → Except String Bytes
  /-- Two upper-case digits for each byte, with nothing between. -/
  encodeUpper : Bytes → String

/-- Two upper-case digits for each byte, with spaces between. -/
def Bytes.spacedHexText (hex : HexCodec) (bytes : Bytes) : String :=
  " ".intercalate (bytes.map fun b => hex.encodeUpper [b])

namespace Hex

/-- Why a run of characters spells no bytes. -/
inductive Fault where
  | oddLength
  | badDigit (character : UInt8) (position : Nat)
  deriving DecidableEq, Repr

def Fault.message : Fault → String
  | .oddLength => "Odd number of digits"
  | .badDigit character position =>
    s!"Invalid character '{Char.ofNat character.toNat}' at position {position}"

/-- Value of a digit in either case, given as its character code. -/
def digit? (c : UInt8) : Option Nat :=
  if 0x30 ≤ c && c ≤ 0x39 then some (c.toNat - 0x30)
  else if 0x41 ≤ c && c ≤ 0x46 then some (c.toNat - 0x41 + 10)
  else if 0x61 ≤ c && c ≤ 0x66 then some (c.toNat - 0x61 + 10)
  else none

/-- Decode pairs of digits, the first of which stands at `position`. -/
def decodeFrom (position : Nat) : Bytes → Except Fault Bytes
  | [] => .ok []
  | [_] => .error .oddLength
  | high :: low :: rest =>
    match digit? high, digit? low with
    | none, _ => .error (.badDigit high position)
    | _, none => .error (.badDigit low (position + 1))
    | some h, some l => (UInt8.ofNat (16 * h + l) :: ·) <$> decodeFrom (position + 2) rest

/-- The bytes spelled by pairs of digits. An odd count is reported before any
    digit is looked at. -/
def decode (digits : Bytes) : Except Fault Bytes :=
  if digits.length % 2 = 1 then .error .oddLength else decodeFrom 0 digits

/-- The codec that is in use. -/
def codec : HexCodec where
  decode digits := (decode digits).mapError Fault.message
  encodeUpper := Bytes.hexText

end Hex

end KlvMetadata
