/-!
# Byte Strings

Fields, packets and streams are lists of bytes. Numbers occupy a run of bytes
with the most significant first, and bytes are shown as pairs of upper-case
hexadecimal digits.

## Main definitions

* `Bytes`: A run of bytes.
* `Bytes.toNat`, `Bytes.ofNat`: The number a run spells, and back.
* `Bytes.capacity`: How many numbers a run of some length can spell.
* `Bytes.hexText`: Two digits for each byte.
* `Bytes.quads`: Pieces of four bytes.
-/

namespace KlvMetadata

/-- A run of bytes. -/
abbrev Bytes := List UInt8

namespace Bytes

/-- The number that the bytes spell, most significant first. -/
def toNat (bytes : Bytes) : Nat := bytes.foldl (fun n b => n * 256 + b.toNat) 0

/-- The low `count` bytes of `n`, most significant first. -/
def ofNat : (count : Nat) → Nat → Bytes
  | 0, _ => []
  | count + 1, n => UInt8.ofNat (n >>> (8 * count)) :: ofNat count n

/-- How many numbers `count` bytes can spell. -/
def capacity (count : Nat) : Nat := 1 <<< (8 * count)

@[simp]
theorem length_ofNat (count n : Nat) : (ofNat count n).length = count := by
  induction count with
  | zero => rfl
  | succ count ih => simp [ofNat, ih]

/-- The upper-case digits of one byte. -/
def byteDigits (b : UInt8) : List Char :=
  [Nat.digitChar (b.toNat / 16), Nat.digitChar (b.toNat % 16)].map Char.toUpper

/-- Two upper-case digits for each byte, with nothing between. -/
def hexText (bytes : Bytes) : String := String.ofList (bytes.flatMap byteDigits)

/-- Cut into pieces of four bytes; the last may be shorter. -/
def quads : Bytes → List Bytes
  | a :: b :: c :: d :: rest => [a, b, c, d] :: quads rest
  | [] => []
  | rest => [rest]

end Bytes

end KlvMetadata
