import KlvMetadata.Wire.Field

/-!
# Packets

A packet is a universal key, a length and a payload. Lengths have several
spellings and checksums cover the one that was sent, so a packet keeps its
length field byte for byte.

## Main definitions

* `Packet`: Key, length field and payload.
* `Packet.ofPayload`: A packet with the shortest length field.
* `Packet.encode`: The bytes of a packet.
-/

namespace KlvMetadata

/-- A packet as it is sent. -/
structure Packet where
  key : UniversalKey
  lengthField : Bytes
  payload : Bytes
  deriving DecidableEq, Repr

namespace Packet

/-- Bytes in the longest length field: a count and eight bytes of length. -/
def maxLengthField : Nat := 9

/-- The shortest length field for a payload of `length` bytes. -/
def shortestLengthField (length : Nat) : Bytes := Ber.encode (UInt64.ofNat length)

/-- The packet that carries `payload` behind the shortest length field. -/
def ofPayload (key : UniversalKey) (payload : Bytes) : Packet :=
  ⟨key, shortestLengthField payload.length, payload⟩

/-- The standard the packet belongs to. -/
def standard (p : Packet) : Standard := .ofKey p.key

/-- The bytes in front of the payload. -/
def header (p : Packet) : Bytes := p.key.bytes ++ p.lengthField

/-- All bytes of the packet. -/
def encode (p : Packet) : Bytes := p.header ++ p.payload

/-- Number of bytes in all. -/
def encodedLength (p : Packet) : Nat :=
  UniversalKey.size + p.lengthField.length + p.payload.length

/-- Key and payload size between braces. -/
def text (p : Packet) : String :=
  "\x7b Key: " ++ p.key.text Hex.codec ++ s!", Payload: {p.payload.length} bytes \x7d"

end Packet

end KlvMetadata
