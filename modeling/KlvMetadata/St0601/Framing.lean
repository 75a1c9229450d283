import KlvMetadata.Checksum
import KlvMetadata.Set.Codec

/-!
# Framing of the UAS Datalink Set

The payload of a UAS datalink packet is a local set with two rules. Its first
entry is the precision timestamp, in eight bytes, and its last is the checksum
of the packet up to the sum itself, its own tag and length included.

The checksum is not an entry like the others: it can only be calculated when
everything else has been written. So the layout of the set deals with the
timestamp alone. It puts it first when writing, and leaves checksums out. The
trailer is added and removed by whoever handles the packet as a whole, through
the functions below.

## Main definitions

* `St0601.ordered`: Entries in the order of writing.
* `Layout.st0601`: The layout of the set without its trailer.
* `Trailer.checksum`, `Trailer.read`, `Trailer.write`: The trailer.
-/

namespace KlvMetadata

namespace St0601

def checksumTag : UInt64 := 1

def timestampTag : UInt64 := 2

/-- Bytes of the leading timestamp entry. -/
def timestampEntryLength : Nat := 10

/-- The entries in the order of writing: timestamps first, checksums dropped. -/
def ordered (entries : Entries UInt64) : Except Error (Entries UInt64) :=
  if entries.has timestampTag then
    .ok (entries.filter (fun e => e.1 = timestampTag) ++
      entries.filter (fun e => e.1 ≠ timestampTag && e.1 ≠ checksumTag))
  else .error (.framing .setWithoutTimestamp)

/-- Fail unless the next bytes are tag and length of the timestamp. -/
def requireTimestamp : Reader Unit := fun data =>
  match data with
  | 0x02 :: 0x08 :: _ => .ok () data
  | _ => .error (.framing .timestampNotFirst) data

end St0601

/-- A local set that starts with its timestamp. -/
def Layout.st0601 (schema : Schema Codec) : Layout (Entries UInt64) where
  read length := do
    if length < St0601.timestampEntryLength then throw (.framing .timestampMissing)
    St0601.requireTimestamp
    SetCodec.readEntries schema
  write entries length := do
    let entries ← MonadExcept.ofExcept (St0601.ordered entries)
    SetCodec.writeEntries schema entries length
  lengthOf entries _ := do
    let entries ← St0601.ordered entries
    SetCodec.entriesLength schema entries
  text := SetCodec.text schema

namespace Trailer

/-- Tag and length of the checksum entry. -/
def header : Bytes := [0x01, 0x02]

/-- Bytes of the whole trailer. -/
def length : Nat := 4

/-- The sum over the bytes before the trailer and over its own header. -/
def checksum (covered : Bytes) : UInt16 := ((RunningSum.empty.add covered).add header).sum

/-- The sum that the trailer at the end of the data carries. -/
def read (data : Bytes) : Except Error UInt16 :=
  if data.length < length then .error (.framing .checksumMissing)
  else
    let trailer := data.drop (data.length - length)
    if trailer.take header.length ≠ header then .error (.framing .checksumHeaderMissing)
    else .ok (UInt16.ofNat (Bytes.toNat (trailer.drop header.length)))

/-- Write a trailer into at most `space` bytes. -/
def write (sum : UInt16) (space : Nat) : Writer := do
  Writer.checkSpace length space
  Writer.emit (header ++ Bytes.ofNat 2 sum.toNat)

end Trailer

end KlvMetadata
