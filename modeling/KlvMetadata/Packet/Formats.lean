import KlvMetadata.Packet.Stream
import KlvMetadata.St0601.Schema

/-!
# Decoding and Encoding Packets

A packet is decoded with the format that is registered for its standard; one
for which none is registered is kept as a blob. If the format has a checksum,
the sum that the packet carries is compared with the sum over everything
before it, as it was sent. A sum that does not match is reported with the
value and does not prevent decoding, because the value is still the best
account of what was sent.

Encoding needs a standard with a key and a format. The length field counts the
trailer, and the checksum covers the length field, so the packet is built in
that order.

## Main definitions

* `ChecksumStatus`: What comparing the checksums gave.
* `PacketFormats`: The formats registered for the standards.
* `PacketFormats.decode`, `PacketFormats.encode`: Decoding and encoding.
-/

namespace KlvMetadata

/-- What comparing the checksums of a packet gave. -/
inductive ChecksumStatus where
  /-- The format has no checksum. -/
  | absent
  | valid
  | mismatch (expected computed : UInt16)
  deriving DecidableEq, Repr

namespace ChecksumStatus

/-- The outcome of comparing the sum a packet carries with the computed one. -/
def ofSums (expected computed : UInt16) : ChecksumStatus :=
  if expected = computed then .valid else .mismatch expected computed

def isMismatch : ChecksumStatus → Bool
  | mismatch _ _ => true
  | absent | valid => false

/-- Fail if the sums do not match. -/
def check : ChecksumStatus → Except Error Unit
  | mismatch expected computed => .error (.checksumMismatch expected computed)
  | absent | valid => .ok ()

end ChecksumStatus

/-- A decoded payload and what became of its checksum. -/
structure Decoded where
  value : Value
  checksum : ChecksumStatus

/-- The formats registered for the standards. -/
structure PacketFormats where
  unknown : Option Format
  st0601 : Option Format

namespace PacketFormats

/-- No format for any standard. -/
def none : PacketFormats := ⟨.none, .none⟩

/-- The format registered for a standard. -/
def formatFor (formats : PacketFormats) : Standard → Option Format
  | .unknown => formats.unknown
  | .st0601 => formats.st0601

/-- Register a format for a standard, in place of an earlier one. -/
def register (formats : PacketFormats) (standard : Standard) (format : Format) : PacketFormats :=
  match standard with
  | .unknown => { formats with unknown := some format }
  | .st0601 => { formats with st0601 := some format }

/-- UAS datalink sets with a schema of their own. -/
def withSchema (schema : Schema Format) : PacketFormats :=
  none.register .st0601 (.st0601 schema)

/-- UAS datalink sets as the standard defines them. -/
def standard : PacketFormats := withSchema St0601.schema

/-- The part of a packet's payload before the trailer, and what comparing the
    checksums gave. -/
def splitTrailer (format : Format) (p : Packet) : Except Error (Bytes × ChecksumStatus) :=
  if format.trailerLength = 0 then .ok (p.payload, .absent)
  else if p.payload.length < format.trailerLength then .error (.framing .checksumMissing)
  else do
    let expected ← format.readTrailer p.payload
    let body := p.payload.take (p.payload.length - format.trailerLength)
    let computed := format.trailerChecksum (p.header ++ body)
    return (body, .ofSums expected computed)

/-- Read a value from exactly these bytes. -/
def readBody (format : Format) (body : Bytes) : Except Error Value :=
  match format.codec.read body.length body with
  | .ok v _ => .ok v
  | .error e _ => .error e

/-- Decode the payload of a packet. -/
def decode (formats : PacketFormats) (p : Packet) : Except Error Decoded :=
  match formats.formatFor p.standard with
  | .none => .ok ⟨⟨some (.blob p.payload), p.payload.length⟩, .absent⟩
  | some format => do
    let (body, status) ← splitTrailer format p
    let v ← readBody format body
    return ⟨v, status⟩

/-- The bytes that an action writes from nothing. -/
def written (write : Writer) : Except Error Bytes :=
  match write [] with
  | .ok () out => .ok out
  | .error e _ => .error e

/-- Write a packet's payload, its trailer included. -/
def writePayload (format : Format) (v : Value) (header : Bytes) (bodyLength : Nat) : Writer := do
  format.codec.write v bodyLength
  if format.trailerLength ≠ 0 then
    let body ← get
    let sum := format.trailerChecksum (header ++ body)
    format.writeTrailer sum format.trailerLength

/-- Encode a value as a packet of a standard. -/
def encode (formats : PacketFormats) (standard : Standard) (v : Value) : Except Error Packet := do
  let some key := standard.key? | .error (.framing (.standardWithoutKey standard))
  let some format := formats.formatFor standard
    | .error (.framing (.standardWithoutFormat standard))
  let bodyLength ← format.codec.lengthOf v
  let lengthField := Packet.shortestLengthField (bodyLength + format.trailerLength)
  let payload ← written (writePayload format v (key.bytes ++ lengthField) bodyLength)
  return ⟨key, lengthField, payload⟩

end PacketFormats

end KlvMetadata
