import KlvMetadata.Timeline.Interval

/-!
# Maps from Intervals to Values

What is known over time: intervals that do not overlap, each with a value. To
learn something about an interval is to forget what was known there and to put
the new value in its place. Forgetting keeps, of every entry, the part before
the interval and the part after it, as far as these are not empty. An entry
around the lower end of the interval keeps its head, and its tail as well if it
goes beyond the upper end; an entry that starts inside keeps its tail at most.

Entries are kept in order of time, and the lower end of an entry is the key
under which it is found, replaced and taken out. None is empty and none
overlap, so the order of the lower ends is the order of everything, and the
only entry that can contain a time is the last one that starts no later.

## Main definitions

* `Spans`: Entries under their lower ends.
* `Spans.put`, `Spans.without`: Changing the entry under a lower end.
* `Spans.lastBefore?`, `Spans.lastUpTo?`, `Spans.startingIn`: Finding entries.
* `IntervalMap`: What is known over time.
* `IntervalMap.erase`, `IntervalMap.set`: Forgetting and learning.
* `IntervalMap.at?`, `IntervalMap.entryAt?`: What is known at a time.
* `IntervalMap.overlapping`: Entries that share a time with an interval.
* `IntervalMap.nextStart?`: The next time at which an entry starts.
-/

namespace KlvMetadata

/-- Values over intervals, in order of the lower ends. -/
abbrev Spans (V : Type) := List (Interval × V)

namespace Spans

variable {V : Type}

/-- Put an entry in its place, where it replaces one with the same lower end. -/
def put (entry : Interval × V) : Spans V → Spans V
  | [] => [entry]
  | e :: spans =>
    if entry.1.lower < e.1.lower then entry :: e :: spans
    else if e.1.lower < entry.1.lower then e :: put entry spans
    else entry :: spans

/-- Take out the entry with a lower end. -/
def without (lower : Time) (spans : Spans V) : Spans V :=
  spans.filter fun e => e.1.lower ≠ lower

/-- The last entry that starts before a time. -/
def lastBefore? (time : Time) (spans : Spans V) : Option (Interval × V) :=
  (spans.filter fun e => e.1.lower < time).getLast?

/-- The last entry that starts at a time or before it. -/
def lastUpTo? (time : Time) (spans : Spans V) : Option (Interval × V) :=
  (spans.filter fun e => e.1.lower ≤ time).getLast?

/-- The entries that start in an interval, in order. -/
def startingIn (i : Interval) (spans : Spans V) : Spans V :=
  spans.filter fun e => i.contains e.1.lower

/-- The entry that starts before a time and goes on beyond it. -/
def around? (time : Time) (spans : Spans V) : Option (Interval × V) :=
  (lastBefore? time spans).filter fun e => time < e.1.upper

/-- Put back the part of an entry behind an interval, if there is one. -/
def keepTail (i : Interval) (entry : Interval × V) (spans : Spans V) : Spans V :=
  if i.upper < entry.1.upper then put (entry.1.after i.upper, entry.2) spans else spans

/-- Cut an interval out of the entry around its lower end. -/
def cutAround (i : Interval) (spans : Spans V) : Spans V :=
  match around? i.lower spans with
  | none => spans
  | some e => put (e.1.before i.lower, e.2) (keepTail i e (without e.1.lower spans))

/-- Cut an interval out of the entries that start in it. -/
def cutInside (i : Interval) (spans : Spans V) : Spans V :=
  (startingIn i spans).foldl (fun kept e => keepTail i e (without e.1.lower kept)) spans

end Spans

/-- Values over time, in order. -/
structure IntervalMap (V : Type) where
  entries : Spans V
  deriving DecidableEq

namespace IntervalMap

variable {V : Type}

/-- Nothing known at any time. -/
def empty : IntervalMap V := ⟨[]⟩

/-- Forget what is known in an interval. -/
def erase (i : Interval) (m : IntervalMap V) : IntervalMap V :=
  if i.isEmpty then m else ⟨Spans.cutInside i (Spans.cutAround i m.entries)⟩

/-- Learn a value for an interval; an empty one teaches nothing. -/
def set (i : Interval) (v : V) (m : IntervalMap V) : IntervalMap V :=
  if i.isEmpty then m else ⟨Spans.put (i, v) (m.erase i).entries⟩

/-- The entry that contains a time. -/
def entryAt? (m : IntervalMap V) (time : Time) : Option (Interval × V) :=
  (Spans.lastUpTo? time m.entries).filter fun e => time < e.1.upper

/-- The value at a time. -/
def at? (m : IntervalMap V) (time : Time) : Option V := (m.entryAt? time).map (·.2)

/-- The entries that share a time with an interval, in order. -/
def overlapping (m : IntervalMap V) (i : Interval) : List (Interval × V) :=
  ((Spans.around? i.lower m.entries).toList ++ Spans.startingIn i m.entries).filter
    fun e => e.1.overlaps i

/-- The lower end of the first entry that starts after a time. -/
def nextStart? (m : IntervalMap V) (time : Time) : Option Time :=
  (m.entries.find? fun e => time < e.1.lower).map (·.1.lower)

end IntervalMap

end KlvMetadata
