import KlvMetadata.Wire.Integer

/-!
# Lengths and Tags

Two codes for unsigned integers that tell where they end. The first, used for
lengths, is one byte for values below 128; from there on the first byte says
how many bytes of the value follow. The second, used for tags, cuts the value
into groups of seven bits and marks every byte but the last.

Both read from a window: the bytes up to a given length, or all that is left
if that is less. A failed read takes nothing.

## Main definitions

* `Ber.read`, `Ber.write`, `Ber.length`: The code for lengths.
* `BerOid.read`, `BerOid.write`, `BerOid.length`: The code for tags.
-/

namespace KlvMetadata

namespace Ber

/-- Bytes in the shortest spelling. -/
def length (value : UInt64) : Nat :=
  if value < 128 then 1 else 1 + Unsigned.minLength value

/-- The shortest spelling. -/
def encode (value : UInt64) : Bytes :=
  if value < 128 then [value.toUInt8]
  else
    let count := Unsigned.minLength value
    UInt8.ofNat (128 + count) :: Bytes.ofNat count value.toNat

/-- Read a value from at most `window` bytes. -/
def read (window : Nat) : Reader UInt64 := fun data =>
  match data.take window with
  | [] => .error (.parse .berMissing) data
  | first :: rest =>
    if first < 128 then .ok first.toUInt64 (data.drop 1)
    else
      let count := first.toNat % 128
      if count = 0 then .error (.parse .berIndefinite) data
      else if rest.length < count then
        .error (.parse (.berTruncated count rest.length)) data
      else
        match Unsigned.read count rest with
        | .ok value _ => .ok value (data.drop (count + 1))
        | .error e _ => .error e data

/-- Write the shortest spelling into at most `space` bytes. -/
def write (value : UInt64) (space : Nat) : Writer := do
  Writer.checkSpace (length value) space
  Writer.emit (encode value)

end Ber

namespace BerOid

/-- Bytes in the shortest spelling. -/
def length (value : UInt64) : Nat := max 1 ((bitLength value.toNat + 6) / 7)

/-- The low `count` groups of seven bits, all but the last marked. -/
def groups : (count : Nat) → Nat → Bytes
  | 0, _ => []
  | count + 1, n =>
    let group := (n >>> (7 * count)) % 128
    UInt8.ofNat (if count = 0 then group else group + 128) :: groups count n

/-- The shortest spelling. -/
def encode (value : UInt64) : Bytes := groups (length value) value.toNat

/-- Value and number of bytes up to the first unmarked one, after groups that
    make up `value` in `consumed` bytes. Nothing may be shifted out of 64 bits. -/
def decode (value consumed : Nat) : Bytes → Except ParseFault (UInt64 × Nat)
  | [] => .error .berOidTruncated
  | byte :: rest =>
    if UInt64.size / 128 ≤ value then .error .berOidOverflow
    else
      let value := value * 128 + byte.toNat % 128
      if byte < 128 then .ok (UInt64.ofNat value, consumed + 1)
      else decode value (consumed + 1) rest

/-- Read a value from at most `window` bytes. -/
def read (window : Nat) : Reader UInt64 := fun data =>
  match decode 0 0 (data.take window) with
  | .ok (value, consumed) => .ok value (data.drop consumed)
  | .error fault => .error (.parse fault) data

/-- Write the shortest spelling into at most `space` bytes. -/
def write (value : UInt64) (space : Nat) : Writer := do
  Writer.checkSpace (length value) space
  Writer.emit (encode value)

end BerOid

end KlvMetadata
