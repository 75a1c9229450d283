import KlvMetadata.Report.Dump

/-!
# Checking a Stream

A stream is checked for problems of its packets: payloads that cannot be
decoded, checksums that do not match, and items that occur too rarely or too
often. All of them are listed and counted. A stream that breaks off is not a
problem of a packet but an error of the stream, and there is no summary then.

## Main definitions

* `Problem`: What can be wrong with a packet.
* `Report.problems`: What is wrong with one.
* `Report.check`: The check of a stream.
-/

namespace KlvMetadata

/-- What can be wrong with a packet. -/
inductive Problem where
  | undecodable (e : Error)
  | checksum (status : ChecksumStatus)
  | cardinality (v : Violation)
  deriving DecidableEq, Repr

namespace Problem

def text : Problem → String
  | undecodable e => "decode error: " ++ e.message
  | checksum status => (Report.mismatchText? status).getD ""
  | cardinality v => v.text

end Problem

namespace Report

/-- The entries of a value that is a local set. -/
def localEntries? (v : Value) : Option (Entries UInt64) :=
  match v.item with
  | some (.localSet entries) => some entries
  | _ => none

/-- Items of a decoded set that occur too rarely or too often. -/
def cardinalityProblems (v : Value) : List Problem :=
  match localEntries? v with
  | some entries => (entries.violations St0601.schema).map .cardinality
  | none => []

/-- What is wrong with a packet. -/
def problems (p : Packet) : List Problem :=
  match PacketFormats.standard.decode p with
  | .error e => [.undecodable e]
  | .ok decoded =>
    (if decoded.checksum.isMismatch then [.checksum decoded.checksum] else []) ++
      cardinalityProblems decoded.value

/-- The check of a stream: zero without problems, two with some, one for a
    stream that breaks off. -/
def check (data : Bytes) : Outcome :=
  let (packets, error?) := Packet.readAll data
  let lines := packets.zipIdx.flatMap fun (p, number) =>
    (problems p).map fun problem => s!"Packet {number}: {problem.text}"
  match error? with
  | some e => .failure lines e
  | none =>
    let summary := ["", s!"Packets:  {packets.length}", s!"Problems: {lines.length}"]
    ⟨if lines.isEmpty then 0 else 2, lines ++ summary, []⟩

end Report

end KlvMetadata
