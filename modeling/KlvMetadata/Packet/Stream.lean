import KlvMetadata.Packet.Basic

/-!
# Packets in a Stream

A stream is bytes in which packets are found by the bytes that all registered
keys begin with. What lies before such a key is skipped. A stream that breaks
off inside a packet, or has a length that cannot be read, is at its end: what
follows cannot be trusted to start anywhere.

## Main definitions

* `Packet.skipToKey`: The data from the next key on.
* `Packet.readNext`: The next packet of a stream.
* `PacketReader`: A position in a stream that stops after an error.
* `PacketReader.toList`: All packets from there on, and the error if there is
  one.
* `Packet.readAll`, `Packet.encodeAll`: A whole stream, and back.
-/

namespace KlvMetadata

namespace Packet

/-- The data from the first registered key on, if there is one. -/
def skipToKey : Bytes → Option Bytes
  | [] => none
  | b :: rest =>
    if UniversalKey.smpteStart.isPrefixOf (b :: rest) then some (b :: rest)
    else skipToKey rest

/-- Read the packet whose key comes next. -/
def readHere : Reader Packet := do
  let key ← UniversalKey.read
  let before ← get
  let length ← Ber.read maxLengthField
  let left ← Reader.remaining
  let lengthField := before.take (before.length - left)
  let payload ← Reader.take length.toNat
  return ⟨key, lengthField, payload⟩

/-- Skip to the next key and read its packet; nothing is left when there is no
    key any more. -/
def readNext : Reader (Option Packet) := fun data =>
  match skipToKey data with
  | none => .ok none []
  | some data => (some <$> readHere) data

end Packet

/-- A position in a stream of packets. -/
structure PacketReader where
  /-- What has not been read yet. -/
  remaining : Bytes
  /-- Whether reading has failed; then there are no more packets. -/
  failed : Bool
  deriving DecidableEq, Repr

namespace PacketReader

/-- The start of a stream. -/
def start (data : Bytes) : PacketReader := ⟨data, false⟩

/-- The next packet or error, if there is any, and the position after it. -/
def next (r : PacketReader) : Option (Except Error Packet) × PacketReader :=
  if r.failed then (none, r)
  else
    match Packet.readNext r.remaining with
    | .ok none left => (none, ⟨left, false⟩)
    | .ok (some p) left => (some (.ok p), ⟨left, false⟩)
    | .error e left => (some (.error e), ⟨left, true⟩)

/-- Packets and errors from here on, at most `fuel` of them, each with the
    position after it. -/
def run : (fuel : Nat) → PacketReader → List (Except Error Packet × PacketReader)
  | 0, _ => []
  | fuel + 1, r =>
    match r.next with
    | (none, _) => []
    | (some result, after) => (result, after) :: run fuel after

/-- Packets from here on, and at last the error if reading fails. Each packet
    takes at least its key, so there are fewer of them than bytes. -/
def toList (r : PacketReader) : List (Except Error Packet) :=
  (run (r.remaining.length + 1) r).map (·.1)

end PacketReader

namespace Packet

/-- The packets of a stream, and the error at which reading stops if it does
    not get to the end. -/
def readAll (data : Bytes) : List Packet × Option Error :=
  let results := (PacketReader.start data).toList
  (results.filterMap Except.toOption, results.findSome? error?)
where
  /-- The error of a failed read. -/
  error? : Except Error Packet → Option Error
    | .ok _ => none
    | .error e => some e

/-- The bytes of packets back to back. -/
def encodeAll (packets : List Packet) : Bytes := packets.flatMap encode

/-- The packets of a file that may not exist. A file with an error in it counts
    as unreadable. -/
def ofFile (file : Except Error Bytes) : Except Error (List Packet) := do
  let data ← file
  match readAll data with
  | (packets, none) => return packets
  | (_, some e) => throw e

end Packet

end KlvMetadata
