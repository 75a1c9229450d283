import KlvMetadata.Report.Dump
import KlvMetadata.Text.Json
import KlvMetadata.Timeline.Demuxer

/-!
# Printing a Timeline

What a stream says over time, for other programs. All packets are recorded on
one timeline, those that fail are passed over, and the tracks are printed with
their entries in order of time.

## Main definitions

* `Report.trackJson`: A track as data.
* `Report.tracks`: The tracks of a stream.
-/

namespace KlvMetadata

namespace Report

/-- Name of what a track records, and the text of its values. -/
def trackTerms (key : TrackKey) : String × (Value → String) :=
  match key.standard with
  | .st0601 =>
    let e := St0601.schema.byTag key.tag
    (e.name, e.format.codec.text)
  | .unknown => ("Unknown", Value.text)

/-- An entry of a track as data. -/
def entryJson (text : Value → String) (entry : Interval × Value) : JsonValue :=
  .object
    [("end", .number entry.1.upper.toNat),
     ("start", .number entry.1.lower.toNat),
     ("value", .text (text entry.2))]

/-- A track as data. -/
def trackJson (key : TrackKey) (track : IntervalMap Value) : JsonValue :=
  let (name, text) := trackTerms key
  .object
    [("entries", .list (track.entries.map (entryJson text))),
     ("index", .number key.index.toNat),
     ("name", .text name),
     ("standard", .text key.standard.name),
     ("tag", .number key.tag.toNat)]

/-- Record packets in order and pass over those that fail. -/
def recordAll (packets : List Packet) : Demuxer :=
  packets.foldl
    (fun d p =>
      match Demuxer.demux p d with
      | .ok _ d => d
      | .error _ d => d)
    (.start .empty .standard)

/-- The tracks of a stream. -/
def tracks (data : Bytes) : Outcome :=
  let (packets, error?) := Packet.readAll data
  match error? with
  | some e => .failure [] e
  | none =>
    let recorded := (recordAll packets).timeline.tracks
    .success [(JsonValue.list (recorded.map fun (key, track) => trackJson key track)).render]

end Report

end KlvMetadata
