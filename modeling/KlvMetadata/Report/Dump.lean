import KlvMetadata.Packet.Formats

/-!
# Listing Packets

Every packet of a stream with what it says. A packet that cannot be decoded is
listed with the reason; a stream that breaks off is listed up to there.

## Main definitions

* `Outcome`: What a command prints and how it ends.
* `Report.dump`: The listing of a stream.
-/

namespace KlvMetadata

/-- What a command prints and how it ends. -/
structure Outcome where
  /-- Zero for success. -/
  code : UInt8
  /-- Lines for the reader of the output. -/
  output : List String
  /-- Lines for the caller. -/
  messages : List String
  deriving DecidableEq, Repr

namespace Outcome

/-- Lines and nothing to report. -/
def success (output : List String) : Outcome := ⟨0, output, []⟩

/-- Lines up to an error. -/
def failure (output : List String) (e : Error) : Outcome :=
  ⟨1, output, ["Error: " ++ e.message]⟩

end Outcome

namespace Report

/-- A checksum as four upper-case digits. -/
def sumText (sum : UInt16) : String := Bytes.hexText (Bytes.ofNat 2 sum.toNat)

/-- A line about sums that do not match, if they do not. -/
def mismatchText? : ChecksumStatus → Option String
  | .mismatch expected computed =>
    some s!"checksum mismatch: expected {sumText expected}, computed {sumText computed}"
  | .absent | .valid => none

/-- The text of a decoded packet, by the format of its standard. -/
def valueText (formats : PacketFormats) (standard : Standard) (v : Value) : String :=
  match formats.formatFor standard with
  | some format => format.codec.text v
  | none => v.text

/-- The lines about one packet. -/
def packetLines (formats : PacketFormats) (p : Packet) (number : Nat) : List String :=
  let heading :=
    s!"Packet {number}: {p.standard.name} [{p.key.text Hex.codec}], {p.payload.length} bytes"
  let rest :=
    match formats.decode p with
    | .ok decoded =>
      valueText formats p.standard decoded.value :: (mismatchText? decoded.checksum).toList
    | .error e => ["decode error: " ++ e.message]
  heading :: rest.map fun line => "  " ++ line

/-- The listing of a stream. -/
def dump (data : Bytes) : Outcome :=
  let (packets, error?) := Packet.readAll data
  let lines := packets.zipIdx.flatMap fun (p, number) =>
    packetLines .standard p number
  match error? with
  | none => .success lines
  | some e => .failure lines e

end Report

end KlvMetadata
