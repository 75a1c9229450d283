import KlvMetadata.Timeline.IntervalMap
import KlvMetadata.Value.Item

/-!
# Timelines

A timeline holds what a stream says over time, one track for each thing it
speaks of. A track is named by a standard, a tag and an index that tells the
occurrences of a tag in one set apart. Tracks are kept in order of their
names, so the occurrences of a tag lie next to each other.

## Main definitions

* `TrackKey`: The name of a track.
* `Timeline`: Tracks in order of their names.
* `Timeline.alter`: Changing a track, which is made if it is missing.
* `Timeline.track?`, `range`, `tracksOf`, `at?`, `allAt`, `query`: Looking things up.
-/

namespace KlvMetadata

/-- The name of a track. -/
structure TrackKey where
  standard : Standard
  tag : UInt64
  /-- Which of several occurrences of the tag in one set. -/
  index : UInt64
  deriving DecidableEq, Repr

namespace TrackKey

/-- The greatest index there is. -/
def lastIndex : UInt64 := 0xFFFFFFFFFFFFFFFF

/-- By standard, then by tag, then by index. -/
def compare (a b : TrackKey) : Ordering :=
  (Ord.compare a.standard.rank b.standard.rank).then <|
    (Ord.compare a.tag b.tag).then (Ord.compare a.index b.index)

def text (k : TrackKey) : String := s!"{k.standard.name} / {k.tag} / {k.index}"

end TrackKey

/-- The tracks of a stream, in order of their names. -/
structure Timeline where
  tracks : List (TrackKey × IntervalMap Value)

namespace Timeline

/-- No tracks. -/
def empty : Timeline := ⟨[]⟩

/-- Change the track of a name, starting from an empty one if there is none. -/
def alterTracks (key : TrackKey) (change : IntervalMap Value → IntervalMap Value) :
    List (TrackKey × IntervalMap Value) → List (TrackKey × IntervalMap Value)
  | [] => [(key, change .empty)]
  | (k, track) :: rest =>
    match key.compare k with
    | .lt => (key, change .empty) :: (k, track) :: rest
    | .eq => (k, change track) :: rest
    | .gt => (k, track) :: alterTracks key change rest

/-- Change the track of a name, starting from an empty one if there is none. -/
def alter (key : TrackKey) (change : IntervalMap Value → IntervalMap Value) (t : Timeline) :
    Timeline :=
  ⟨alterTracks key change t.tracks⟩

/-- The track of a name. -/
def track? (t : Timeline) (key : TrackKey) : Option (IntervalMap Value) :=
  (t.tracks.find? (·.1 = key)).map (·.2)

/-- The tracks with names from one to another, both included. -/
def range (t : Timeline) (first last : TrackKey) : List (TrackKey × IntervalMap Value) :=
  t.tracks.filter fun (k, _) => (first.compare k).isLE && (k.compare last).isLE

/-- The tracks of a tag, in order of their index. -/
def tracksOf (t : Timeline) (standard : Standard) (tag : UInt64) :
    List (TrackKey × IntervalMap Value) :=
  t.range ⟨standard, tag, 0⟩ ⟨standard, tag, TrackKey.lastIndex⟩

/-- The value of a tag at a time, from the first of its tracks that has one. -/
def at? (t : Timeline) (standard : Standard) (tag : UInt64) (time : Time) : Option Value :=
  (t.tracksOf standard tag).findSome? fun (_, track) => track.at? time

/-- Every value at a time, in order of the tracks. -/
def allAt (t : Timeline) (time : Time) : List (TrackKey × Value) :=
  t.tracks.filterMap fun (k, track) => (track.at? time).map fun v => (k, v)

/-- The entries of a tag that share a time with an interval, track by track. -/
def query (t : Timeline) (standard : Standard) (tag : UInt64) (i : Interval) :
    List (TrackKey × Interval × Value) :=
  (t.tracksOf standard tag).flatMap fun (k, track) =>
    (track.overlapping i).map fun e => (k, e)

end Timeline

end KlvMetadata
