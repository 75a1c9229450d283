/-!
# Intervals of Time

Times are microseconds in a word of 64 bits. An interval holds its lower end
and not its upper one, so intervals that meet share no time and cover the
times between their outer ends. An interval whose ends agree is empty.

## Main definitions

* `Interval`: Two ends in order.
* `Interval.between`, `startingAt`, `instant`: Intervals from times.
* `Interval.contains`, `overlaps`, `intersection?`: Relations.
* `Interval.before`, `Interval.after`: The parts below a time and from it on.
-/

namespace KlvMetadata

/-- Microseconds since the epoch. -/
abbrev Time := UInt64

/-- The greatest time, which no interval contains. -/
def Time.last : Time := 0xFFFFFFFFFFFFFFFF

/-- The times from `lower` up to but not including `upper`. -/
structure Interval where
  lower : Time
  upper : Time
  lower_le_upper : lower ≤ upper
  deriving DecidableEq, Repr

namespace Interval

/-- The interval between two times, or the empty one at the first if the second
    lies below it. -/
def between (lower upper : Time) : Interval :=
  if h : lower ≤ upper then ⟨lower, upper, h⟩ else ⟨lower, lower, UInt64.le_refl lower⟩

/-- The interval from a time to the end of time. -/
def startingAt (lower : Time) : Interval := between lower Time.last

/-- The interval of a single time. -/
def instant (time : Time) : Interval :=
  between time (if time = Time.last then time else time + 1)

def isEmpty (i : Interval) : Bool := i.lower = i.upper

def contains (i : Interval) (time : Time) : Bool := i.lower ≤ time && time < i.upper

/-- True if some time lies in both. -/
def overlaps (i j : Interval) : Bool :=
  !i.isEmpty && !j.isEmpty && i.lower < j.upper && j.lower < i.upper

/-- The times in both, if there are any. -/
def intersection? (i j : Interval) : Option Interval :=
  if i.overlaps j then
    some (between (if i.lower < j.lower then j.lower else i.lower)
      (if i.upper < j.upper then i.upper else j.upper))
  else none

/-- The part below a time. -/
def before (i : Interval) (time : Time) : Interval :=
  between i.lower (if i.upper < time then i.upper else time)

/-- The part from a time on. -/
def after (i : Interval) (time : Time) : Interval :=
  between (if i.lower < time then time else i.lower) i.upper

/-- Intervals in order of their lower ends, then of their upper ones. -/
def compare (i j : Interval) : Ordering :=
  (Ord.compare i.lower j.lower).then (Ord.compare i.upper j.upper)

def text (i : Interval) : String := s!"[{i.lower}, {i.upper})"

end Interval

end KlvMetadata
