import KlvMetadata.Text.Hex
import KlvMetadata.Text.Utf8

/-!
# Universal Keys

A packet, and every entry of a universal set, starts with a key of sixteen
bytes. Registered keys share their first four bytes, which is what a reader of
a damaged stream looks for. The text of a key is its hexadecimal digits in
groups of four bytes with dots between the groups; when a text is read, dots
carry no meaning and may stand anywhere.

## Main definitions

* `UniversalKey`: Sixteen bytes.
* `UniversalKey.smpteStart`: The bytes all registered keys begin with.
* `UniversalKey.text`, `UniversalKey.ofText`: The text form, and reading it.
-/

namespace KlvMetadata

/-- A key of sixteen bytes. -/
structure UniversalKey where
  bytes : Bytes
  length_bytes : bytes.length = 16
  deriving DecidableEq, Repr

namespace UniversalKey

/-- Bytes in every key. -/
def size : Nat := 16

/-- The bytes that all registered keys begin with. -/
def smpteStart : Bytes := [0x06, 0x0E, 0x2B, 0x34]

/-- The key made of these bytes, if there are sixteen. -/
def ofBytes? (bytes : Bytes) : Option UniversalKey :=
  if h : bytes.length = 16 then some ⟨bytes, h⟩ else none

/-- The key made of two words, each with its most significant byte first. -/
def ofHalves (high low : UInt64) : UniversalKey where
  bytes := Bytes.ofNat 8 high.toNat ++ Bytes.ofNat 8 low.toNat
  length_bytes := by simp

instance : Inhabited UniversalKey := ⟨ofHalves 0 0⟩

/-- True if the key is a registered one by its first bytes. -/
def isSmpte (key : UniversalKey) : Bool := smpteStart.isPrefixOf key.bytes

/-- Groups of four bytes in upper-case digits with dots between. -/
def text (hex : HexCodec) (key : UniversalKey) : String :=
  ".".intercalate ((Bytes.quads key.bytes).map hex.encodeUpper)

/-- Why a text is not a key. -/
inductive TextFault where
  | digits (reason : String)
  | length
  deriving DecidableEq, Repr

/-- The key that a text spells; dots are left out first. -/
def ofText (hex : HexCodec) (text : String) : Except TextFault UniversalKey :=
  let digits := text.toList.filter (· ≠ '.')
  match hex.decode (digits.flatMap String.utf8EncodeChar) with
  | .error reason => .error (.digits reason)
  | .ok bytes =>
    match ofBytes? bytes with
    | some key => .ok key
    | none => .error .length

end UniversalKey

end KlvMetadata
