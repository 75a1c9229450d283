import KlvMetadata.Packet.Formats
import KlvMetadata.Table
import KlvMetadata.Timeline.Basic

/-!
# Filling a Timeline

A demuxer takes packets one by one and records what they say. Every entry of a
UAS datalink set, apart from timestamps and checksums, is known from the
packet's timestamp until the next entry that is already known on its track, or
to the end of time. A packet of another standard is recorded as a whole, at
the time of the packet before it, on a track that belongs to its key alone.
Packets may come in any order; what is recorded for later times stays.

A packet that cannot be decoded, or is not the set it should be, fails and
changes nothing. Nothing takes changes back; they only begin when nothing can
fail any more.

## Main definitions

* `Demuxer`: A timeline with the state of its recording.
* `Demuxer.demux`: Recording a packet.
* `Demuxer.seek`: Moving the time at which packets without one are recorded.
-/

namespace KlvMetadata

/-- A timeline with the state of its recording. -/
structure Demuxer where
  timeline : Timeline
  formats : PacketFormats
  /-- The time of the last packet that had one. -/
  lastTimestamp : Time
  /-- Keys of packets that were recorded whole, with the numbers of their tracks. -/
  unknownKeys : Table UniversalKey UInt64

namespace Demuxer

/-- Record into a timeline what the formats can decode. -/
def start (timeline : Timeline) (formats : PacketFormats) : Demuxer :=
  ⟨timeline, formats, 0, .empty⟩

/-- Continue at another time. -/
def seek (d : Demuxer) (time : Time) : Demuxer := { d with lastTimestamp := time }

/-- Record a value on a track from a time on, up to the next entry. -/
def recordOn (key : TrackKey) (time : Time) (v : Value) (t : Timeline) : Timeline :=
  t.alter key fun track =>
    track.set (.between time ((track.nextStart? time).getD Time.last)) v

/-- Record the entries of a set. The index of an entry is the number of
    earlier entries with its tag, `seen` being the tags before these entries. -/
def recordEntries (time : Time) : (seen : List UInt64) → Entries UInt64 → Timeline → Timeline
  | _, [], t => t
  | seen, (tag, v) :: entries, t =>
    if tag = St0601.timestampTag ∨ tag = St0601.checksumTag then
      recordEntries time seen entries t
    else
      let index := UInt64.ofNat (seen.count tag)
      recordEntries time (tag :: seen) entries (recordOn ⟨.st0601, tag, index⟩ time v t)

/-- The time that a set carries. -/
def timestamp? (entries : Entries UInt64) : Option Time :=
  match (entries.find? St0601.timestampTag).bind (·.item) with
  | some (.u64 time) => some time
  | _ => none

/-- Record a packet whole, on the track of its key. A key that is new gets the next
    number. -/
def demuxWhole (d : Demuxer) (p : Packet) : Demuxer :=
  let next := UInt64.ofNat d.unknownKeys.size
  let entry := d.unknownKeys.findOrInsert p.key next
  { d with
    timeline :=
      recordOn ⟨.unknown, 0, entry.1⟩ d.lastTimestamp (.ofItem (.packet p)) d.timeline
    unknownKeys := entry.2 }

/-- An action on a demuxer. Like a reader's position, its state outlives a
    failure. -/
abbrev Recording (α : Type) := EStateM Error Demuxer α

/-- Record a UAS datalink set. -/
def demuxSet (v : Value) : Recording Unit :=
  match v.item with
  | some (.localSet entries) =>
    match timestamp? entries with
    | some time => modify fun d =>
      { d with
        timeline := recordEntries time [] entries d.timeline
        lastTimestamp := time }
    | none => throw (.framing .packetWithoutTimestamp)
  | _ => throw (.framing .packetWithoutSet)

/-- Record a packet. -/
def demux (p : Packet) : Recording ChecksumStatus := do
  let d ← get
  if (d.formats.formatFor p.standard).isNone then
    modify fun d => d.demuxWhole p
    return .absent
  let decoded ← MonadExcept.ofExcept (d.formats.decode p)
  match p.standard with
  | .st0601 => demuxSet decoded.value
  | .unknown => modify fun d => d.demuxWhole p
  return decoded.checksum

end Demuxer

end KlvMetadata
