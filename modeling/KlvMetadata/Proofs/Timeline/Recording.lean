import KlvMetadata.Proofs.Timeline.Tiling
import KlvMetadata.Proofs.Timeline.Tracks
import KlvMetadata.Timeline.Demuxer

/-!
# What Records Leave

A record is a value on a track from a time on. Recording one looks up the next
start on its track and writes up to there, so what it does depends on what was
recorded before. What is left in the end does not: a track is determined by the
last value recorded at each time, and the value at a time is that of the record
with the greatest time until then.

`Holds records t` is the invariant behind this. It names no intervals, so it
can be said of a list of records alone, and since it determines the timeline,
two lists of records with the same last values leave the same timeline.

## Main definitions

* `Record`: A value on a track from a time on.
* `Record.lastAt`: The value last recorded on a track at a time.
* `Record.Governs`: The value that holds on a track at a time.
* `Timeline.ofRecords`: The timeline that records leave.
* `Timeline.Holds`: A timeline with the last values of records.

## Theorems

* `Holds.record`: Recording keeps the timeline and the records in step.
* `holds_ofRecords`: Records leave a timeline with their last values.
* `valueAt?_ofRecords`, `valueAt?_ofRecords_eq_none`: The value at a time.
* `ofRecords_congr`: The last values determine the timeline.
-/

namespace KlvMetadata

/-- A value on a track from a time on. -/
structure Record where
  track : TrackKey
  time : Time
  value : Value

namespace Record

/-- The value last recorded on a track at exactly this time. -/
def lastAt (key : TrackKey) (time : Time) : List Record → Option Value
  | [] => none
  | r :: records =>
    (lastAt key time records).or (if r.track = key ∧ r.time = time then some r.value else none)

/-- A value holds on a track at a time if some record with it is the latest on
    the track until then, and the last made among those of its time. -/
def Governs (records : List Record) (key : TrackKey) (time : Time) (v : Value) : Prop :=
  ∃ before r after,
    records = before ++ r :: after ∧ r.track = key ∧ r.time ≤ time ∧ r.value = v ∧
    (∀ q ∈ before, q.track = key → q.time ≤ time → q.time ≤ r.time) ∧
    ∀ q ∈ after, q.track = key → q.time ≤ time → q.time < r.time

variable {records : List Record} {key : TrackKey} {time : Time} {v : Value}

theorem lastAt_append (records more : List Record) :
    lastAt key time (records ++ more) = (lastAt key time more).or (lastAt key time records) := by
  induction records with
  | nil => rw [List.nil_append, lastAt, Option.or_none]
  | cons r records ih => rw [List.cons_append, lastAt, ih, lastAt, Option.or_assoc]

theorem lastAt_eq_none_iff :
    lastAt key time records = none ↔ ∀ r ∈ records, r.track = key → r.time ≠ time := by
  induction records with
  | nil => simp only [lastAt, List.not_mem_nil, false_implies, implies_true]
  | cons r records ih =>
      have hhead : (if r.track = key ∧ r.time = time then some r.value else none) = none ↔
          (r.track = key → r.time ≠ time) := by
        simp only [ite_eq_right_iff, reduceCtorEq, imp_false, not_and, ne_eq]
      rw [lastAt, Option.or_eq_none_iff, ih, List.forall_mem_cons, hhead]
      exact and_comm

/-- The last value at a time stands in a record that no other of its track and
    time follows. -/
theorem lastAt_eq_some_iff :
    lastAt key time records = some v ↔
      ∃ before r after, records = before ++ r :: after ∧ r.track = key ∧ r.time = time ∧
        r.value = v ∧ ∀ q ∈ after, q.track = key → q.time ≠ time := by
  induction records with
  | nil => simp only [lastAt, reduceCtorEq, List.nil_eq, List.append_eq_nil_iff, and_false,
      false_and, exists_false]
  | cons p records ih =>
      rw [lastAt, Option.or_eq_some_iff, ih, lastAt_eq_none_iff]
      constructor
      · intro hlast
        rcases hlast with ⟨before, r, after, rfl, hr⟩ | ⟨hlater, hp⟩
        · exact ⟨p :: before, r, after, rfl, hr⟩
        · have hkey : p.track = key ∧ p.time = time := by
            by_contra hother
            rw [if_neg hother] at hp
            contradiction
          rw [if_pos hkey, Option.some.injEq] at hp
          exact ⟨[], p, records, rfl, hkey.1, hkey.2, hp, hlater⟩
      · intro hlast
        rcases hlast with ⟨before, r, after, hsplit, hkey, htime, hval, hlater⟩
        cases before with
        | nil =>
            rw [List.nil_append, List.cons.injEq] at hsplit
            obtain ⟨rfl, rfl⟩ := hsplit
            exact Or.inr ⟨hlater, by rw [if_pos ⟨hkey, htime⟩, hval]⟩
        | cons q before =>
            rw [List.cons_append, List.cons.injEq] at hsplit
            exact Or.inl ⟨before, r, after, hsplit.2, hkey, htime, hval, hlater⟩

/-- The value that holds is the last one of the greatest time with a value. -/
theorem governs_iff :
    Governs records key time v ↔
      ∃ s ≤ time, lastAt key s records = some v ∧
        ∀ later ≤ time, s < later → lastAt key later records = none := by
  simp only [lastAt_eq_some_iff, lastAt_eq_none_iff]
  constructor
  · -- The record that governs is the last of its time, and its time is the greatest.
    intro hgov
    rcases hgov with ⟨before, r, after, rfl, hkey, hle, hval, hbefore, hafter⟩
    refine ⟨r.time, hle, ⟨before, r, after, rfl, hkey, rfl, hval, fun q hq hqkey heq => ?_⟩, ?_⟩
    · have hqtime : q.time ≤ time := by rwa [heq]
      exact UInt64.ne_of_lt (hafter q hq hqkey hqtime) heq
    · rintro _ hlater hlt q hq hqkey rfl
      -- No record of the track is later, wherever it stands.
      have hle : q.time ≤ r.time := by
        rcases List.mem_append.mp hq with hq | hq
        · exact hbefore q hq hqkey hlater
        · rcases List.mem_cons.mp hq with rfl | hq
          · exact UInt64.le_rfl
          · exact UInt64.le_of_lt (hafter q hq hqkey hlater)
      exact absurd hlt (UInt64.not_lt.mpr hle)
  · -- A later record of the track would give its own time a last value.
    intro hlast
    rcases hlast with ⟨_, hle, ⟨before, r, after, rfl, hkey, rfl, hval, hafter⟩, hlatest⟩
    refine ⟨before, r, after, rfl, hkey, hle, hval, fun q hq hqkey hqtime => ?_,
      fun q hq hqkey hqtime => ?_⟩
    · refine UInt64.not_lt.mp fun hlt => ?_
      exact hlatest q.time hqtime hlt q (List.mem_append_left _ hq) hqkey rfl
    · rcases UInt64.lt_or_lt_of_ne (hafter q hq hqkey) with hlt | hlt
      · exact hlt
      · have hmem : q ∈ before ++ r :: after :=
          List.mem_append_right before (List.mem_cons_of_mem r hq)
        exact absurd rfl (hlatest q.time hqtime hlt q hmem hqkey)

/-- The last value at a time does not depend on the order of groups of records
    if no two groups have a value at that time. -/
theorem lastAt_flatMap_perm {α : Type} {group : α → List Record} {xs ys : List α}
    (h : xs.Perm ys)
    (halone : xs.Pairwise fun x y =>
      lastAt key time (group x) = none ∨ lastAt key time (group y) = none) :
    lastAt key time (xs.flatMap group) = lastAt key time (ys.flatMap group) := by
  induction h with
  | nil => rfl
  | cons x hperm ih =>
      rw [List.flatMap_cons, List.flatMap_cons, lastAt_append, lastAt_append,
        ih (List.pairwise_cons.mp halone).2]
  | swap x y xs =>
      -- One of the two groups says nothing about this time, so either may come last.
      simp only [List.flatMap_cons, lastAt_append]
      rcases (List.pairwise_cons.mp halone).1 x List.mem_cons_self with hnone | hnone
      · rw [hnone, Option.or_none, Option.or_none]
      · rw [hnone, Option.or_none, Option.or_none]
  | trans hxy _ ihxy ihyz =>
      rw [ihxy halone]
      exact ihyz (hxy.pairwise halone fun hor => hor.symm)

end Record

namespace Timeline

/-- The timeline after a record. -/
def record (t : Timeline) (r : Record) : Timeline := Demuxer.recordOn r.track r.time r.value t

/-- The timeline that records leave, the first record first. -/
def ofRecords (records : List Record) : Timeline := records.foldl record empty

/-- A timeline has a track for each name among the records, and each track
    knows the last values of its records. -/
structure Holds (records : List Record) (t : Timeline) : Prop where
  sorted : t.Sorted
  tiles : ∀ key track, t.track? key = some track → track.Tiles (Record.lastAt key · records)
  tracks : ∀ key, t.track? key = none ↔ ∀ r ∈ records, r.track ≠ key

theorem holds_empty : Holds [] empty where
  sorted := sorted_empty
  tiles key track h := by
    rw [track?_empty] at h
    contradiction
  tracks key := by
    simp only [track?_empty, List.not_mem_nil, false_implies, implies_true]

/-- The track of a name, or the empty one that recording starts from, knows the
    last values of its records. -/
theorem Holds.tiles_getD {records : List Record} {t : Timeline} (h : Holds records t)
    (key : TrackKey) : ((t.track? key).getD .empty).Tiles (Record.lastAt key · records) := by
  cases htrack : t.track? key with
  | none =>
      have hnone : (Record.lastAt key · records) = fun _ => none := by
        funext time
        rw [Record.lastAt_eq_none_iff]
        intro r hr hkey
        exact absurd hkey ((h.tracks key).mp htrack r hr)
      rw [hnone]
      exact IntervalMap.tiles_empty
  | some track => exact h.tiles key track htrack

/-- A record changes its own track, at its own time. -/
theorem Holds.record {records : List Record} {t : Timeline} (h : Holds records t) (r : Record) :
    Holds (records ++ [r]) (t.record r) := by
  have htrack (key : TrackKey) : (t.record r).track? key =
      if key = r.track then some (((t.track? r.track).getD .empty).record r.time r.value)
      else t.track? key := track?_alter h.sorted key
  have hlast (key : TrackKey) (time : Time) : Record.lastAt key time (records ++ [r]) =
      if r.track = key ∧ r.time = time then some r.value
      else Record.lastAt key time records := by
    rw [Record.lastAt_append, Record.lastAt, Record.lastAt, Option.none_or]
    split <;> rfl
  refine ⟨sorted_alter h.sorted, fun key track hkey => ?_, fun key => ?_⟩
  · rw [htrack] at hkey
    by_cases hr : key = r.track
    · -- The track of the record, which starts empty if it is new.
      subst hr
      rw [if_pos rfl, Option.some.injEq] at hkey
      subst hkey
      have hknown : (Record.lastAt r.track · (records ++ [r])) = fun s =>
          if s = r.time then some r.value else Record.lastAt r.track s records := by
        funext s
        rw [hlast]
        simp only [true_and, eq_comm (a := r.time)]
      rw [hknown]
      exact (h.tiles_getD r.track).record r.time r.value
    · -- No other track hears of it.
      rw [if_neg hr] at hkey
      have hknown : (Record.lastAt key · (records ++ [r])) = (Record.lastAt key · records) := by
        funext s
        rw [hlast, if_neg (fun hs => hr hs.1.symm)]
      rw [hknown]
      exact h.tiles key track hkey
  · rw [htrack, List.forall_mem_append, List.forall_mem_singleton]
    by_cases hr : key = r.track
    · rw [if_pos hr]
      simp only [reduceCtorEq, hr, ne_eq, not_true_eq_false, and_false]
    · rw [if_neg hr, h.tracks]
      exact ⟨fun hall => ⟨hall, fun heq => hr heq.symm⟩, fun hall => hall.1⟩

/-- Recording more records keeps a timeline in step with them. -/
theorem Holds.foldl {records : List Record} {t : Timeline} (h : Holds records t)
    (more : List Record) : Holds (records ++ more) (more.foldl Timeline.record t) := by
  induction more generalizing records t with
  | nil => rwa [List.append_nil]
  | cons r more ih =>
      rw [List.append_cons]
      exact ih (h.record r)

theorem holds_ofRecords (records : List Record) : Holds records (ofRecords records) :=
  holds_empty.foldl records

/-- A missing track has as many values as an empty one. -/
theorem valueAt?_eq (t : Timeline) (key : TrackKey) (time : Time) :
    t.valueAt? key time = ((t.track? key).getD .empty).at? time := by
  rw [valueAt?]
  cases t.track? key with
  | none => rfl
  | some track => rfl

/-- The value at a time is the one that governs it. -/
theorem valueAt?_ofRecords (records : List Record) (key : TrackKey) {time : Time}
    (htime : time < Time.last) (v : Value) :
    (ofRecords records).valueAt? key time = some v ↔ Record.Governs records key time v := by
  rw [Record.governs_iff, valueAt?_eq]
  exact ((holds_ofRecords records).tiles_getD key).at?_eq_some_iff htime

/-- There is no value before the first record of a track. -/
theorem valueAt?_ofRecords_eq_none (records : List Record) (key : TrackKey) {time : Time}
    (htime : time < Time.last) :
    (ofRecords records).valueAt? key time = none ↔
      ∀ r ∈ records, r.track = key → time < r.time := by
  have h := (holds_ofRecords records).tiles_getD key
  rw [valueAt?_eq]
  constructor
  · -- A record until then would leave some value, if not its own.
    intro hnone r hr hkey
    refine UInt64.not_le.mp fun hle => ?_
    cases hlast : Record.lastAt key r.time records with
    | none => exact Record.lastAt_eq_none_iff.mp hlast r hr hkey rfl
    | some v =>
        rcases h.exists_at? htime hle hlast with ⟨w, hw⟩
        rw [hnone] at hw
        contradiction
  · intro hlater
    rw [Option.eq_none_iff_forall_ne_some]
    intro v hv
    rcases (h.at?_eq_some_iff htime).mp hv with ⟨s, hle, hs, _⟩
    rcases Record.lastAt_eq_some_iff.mp hs with ⟨before, r, after, rfl, hkey, rfl, _⟩
    have hlt := hlater r (List.mem_append_right before List.mem_cons_self) hkey
    exact absurd hle (UInt64.not_le.mpr hlt)

/-- The last values determine the timeline. -/
theorem ofRecords_congr {records records' : List Record}
    (h : ∀ key time, Record.lastAt key time records = Record.lastAt key time records') :
    ofRecords records = ofRecords records' := by
  have hr := holds_ofRecords records
  have hr' := holds_ofRecords records'
  -- The last values also tell which tracks there are.
  have hmissing (rs : List Record) (key : TrackKey) :
      (∀ r ∈ rs, r.track ≠ key) ↔ ∀ time, Record.lastAt key time rs = none := by
    simp only [Record.lastAt_eq_none_iff]
    exact ⟨fun hall _ r hr hkey => absurd hkey (hall r hr),
      fun hall r hr hkey => hall r.time r hr hkey rfl⟩
  refine track?_ext hr.sorted hr'.sorted fun key => ?_
  have hnone : (ofRecords records).track? key = none ↔ (ofRecords records').track? key = none := by
    rw [hr.tracks, hr'.tracks, hmissing, hmissing]
    simp only [h]
  cases htrack : (ofRecords records).track? key with
  | none => exact (hnone.mp htrack).symm
  | some track =>
      cases htrack' : (ofRecords records').track? key with
      | none =>
          rw [hnone.mpr htrack'] at htrack
          contradiction
      | some track' =>
          have htiles := hr.tiles key track htrack
          simp only [h] at htiles
          rw [htiles.unique (hr'.tiles key track' htrack')]

end Timeline

end KlvMetadata
