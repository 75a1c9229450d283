import KlvMetadata.Bytes

/-!
# Running Checksum

The checksum of a packet adds its bytes as words of sixteen bits: bytes at
even offsets count 256 times, bytes at odd offsets once, and the sum wraps.
The sum remembers its offset, so data that lies in several pieces can be added
piece by piece.

## Main definitions

* `RunningSum`: A sum and the number of bytes in it.
* `RunningSum.add`: Adding more bytes.
* `checksum`: The sum over one run of bytes.
-/

namespace KlvMetadata

/-- A checksum of the bytes seen so far. -/
structure RunningSum where
  sum : UInt16
  offset : Nat
  deriving DecidableEq, Repr

namespace RunningSum

/-- The sum of no bytes. -/
def empty : RunningSum := ⟨0, 0⟩

/-- What a byte contributes at an offset. -/
def weight (offset : Nat) (byte : UInt8) : UInt16 :=
  if offset % 2 = 0 then byte.toUInt16 <<< 8 else byte.toUInt16

/-- Add one byte. -/
def push (s : RunningSum) (byte : UInt8) : RunningSum :=
  ⟨s.sum + weight s.offset byte, s.offset + 1⟩

/-- Add bytes that follow those already added. -/
def add (s : RunningSum) (bytes : Bytes) : RunningSum := bytes.foldl push s

end RunningSum

/-- The checksum of one run of bytes. -/
def checksum (bytes : Bytes) : UInt16 := (RunningSum.empty.add bytes).sum

end KlvMetadata
