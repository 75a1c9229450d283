import KlvMetadata.Wire.Basic

/-!
# Integers in Fields

Integers are stored with the most significant byte first, in any number of
bytes from one up. Values are words of 64 bits. A field may be longer than
eight bytes as long as the bytes in front of the last eight only extend the
value: zeros before an unsigned one, copies of the sign before a signed one.

## Main definitions

* `Unsigned.read`, `Unsigned.write`, `Unsigned.minLength`.
* `Signed.read`, `Signed.write`, `Signed.minLength`.
-/

namespace KlvMetadata

/-- Number of binary digits, none for zero. -/
def bitLength (n : Nat) : Nat := if n = 0 then 0 else n.log2 + 1

namespace Unsigned

/-- Fewest bytes that hold the value. -/
def minLength (value : UInt64) : Nat := max 1 ((bitLength value.toNat + 7) / 8)

/-- An unsigned integer of `length` bytes. -/
def read (length : Nat) : Reader UInt64 := do
  if length = 0 then Reader.fail .emptyInteger
  let bytes ← Reader.take length
  let surplus := bytes.take (length - 8)
  if surplus.any (· ≠ 0) then Reader.fail (.unsignedOverflow length)
  return UInt64.ofNat (Bytes.toNat (bytes.drop (length - 8)))

/-- The value in exactly `length` bytes. -/
def write (value : UInt64) (length : Nat) : Writer := do
  if length < minLength value then throw (.value (.unsignedWidth value length))
  Writer.emit (Bytes.ofNat length value.toNat)

end Unsigned

namespace Signed

/-- Fewest bytes that hold the value; one bit is taken by the sign. -/
def minLength (value : Int64) : Nat :=
  let n := value.toInt
  let magnitude := if n < 0 then (-n - 1).toNat else n.toNat
  (bitLength magnitude + 1 + 7) / 8

/-- True if the bytes spell a negative number. -/
def isNegative : Bytes → Bool
  | first :: _ => 0x80 ≤ first
  | [] => false

/-- The number that the bytes spell in two's complement. -/
def value (bytes : Bytes) : Int :=
  if isNegative bytes then Bytes.toNat bytes - Bytes.capacity bytes.length
  else Bytes.toNat bytes

/-- A signed integer of `length` bytes. -/
def read (length : Nat) : Reader Int64 := do
  if length = 0 then Reader.fail .emptyInteger
  let bytes ← Reader.take length
  let surplus := bytes.take (length - 8)
  let significant := bytes.drop (length - 8)
  let sign : UInt8 := if isNegative significant then 0xFF else 0x00
  if surplus.any (· ≠ sign) then Reader.fail (.signedOverflow length)
  return Int64.ofInt (value significant)

/-- The value in exactly `length` bytes. -/
def write (value : Int64) (length : Nat) : Writer := do
  if length < minLength value then throw (.value (.signedWidth value length))
  Writer.emit (Bytes.ofNat length (value.toInt % Bytes.capacity length).toNat)

end Signed

end KlvMetadata
