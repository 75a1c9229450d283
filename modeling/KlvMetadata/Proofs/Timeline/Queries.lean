import KlvMetadata.Proofs.Timeline.Changes

/-!
# Queries of a Timeline

A timeline is asked in three ways: for the entries of a tag in an interval, for the
value of a tag at a time, and for all values at a time. The answers are found on
different paths. A time is looked up as the last entry that starts no later. An
interval is looked up in two parts, the entry that reaches into it from below and the
entries that start inside, and both are checked once more before they are given out.

On well-formed tracks all paths lead to one place. The two parts together are the
entries that share a time with the interval, in order and each once
(`overlapping_eq_filter`), and for the interval of a single time these are the entry
that is found by looking that time up (`overlapping_instant`). From there the three
questions differ only in how they go through the tracks.

The last time there is belongs to no interval, and its own interval is empty. So both
ways find nothing there, and no exception has to be made for it.

## Main definitions

* `TrackKey.IsOf`: The name of a track of a tag.

## Theorems

* `TrackKey.between_iff`: The names between the first and the last of a tag are its own.
* `Interval.overlaps_iff`: Overlapping is to share a time.
* `IntervalMap.overlapping_eq_filter`: The entries found for an interval.
* `IntervalMap.overlapping_instant`: For one time it is the entry at that time.
* `Timeline.mem_query`, `pairwise_query`: What a query gives, and in which order.
* `Timeline.at?_eq_head?_query`, `at?_eq_find?_allAt`: A value at a time is the first
  that the other questions give.
* `Timeline.queries_agree`: All questions are about the same entries.
-/

namespace KlvMetadata

namespace Interval

variable {i j : Interval} {time : Time}

/-- Two intervals overlap if some time lies in both. -/
theorem overlaps_iff : i.overlaps j = true ↔ ∃ time, i.contains time ∧ j.contains time := by
  simp only [contains_iff, overlaps, isEmpty, Bool.and_eq_true, Bool.not_eq_true',
    decide_eq_false_iff_not, decide_eq_true_eq]
  constructor
  · intro h
    rcases h with ⟨⟨⟨hi, hj⟩, hij⟩, hji⟩
    have hi' := (UInt64.lt_or_eq_of_le i.lower_le_upper).resolve_right hi
    have hj' := (UInt64.lt_or_eq_of_le j.lower_le_upper).resolve_right hj
    -- The later of the two starts lies in both.
    by_cases hle : i.lower ≤ j.lower
    · exact ⟨j.lower, ⟨hle, hji⟩, UInt64.le_refl _, hj'⟩
    · have hge := UInt64.le_of_lt (UInt64.not_le.mp hle)
      exact ⟨i.lower, ⟨UInt64.le_refl _, hi'⟩, hge, hij⟩
  · intro h
    rcases h with ⟨time, ⟨hil, hiu⟩, hjl, hju⟩
    have hi := UInt64.lt_of_le_of_lt hil hiu
    have hj := UInt64.lt_of_le_of_lt hjl hju
    exact ⟨⟨⟨UInt64.ne_of_lt hi, UInt64.ne_of_lt hj⟩, UInt64.lt_of_le_of_lt hil hju⟩,
      UInt64.lt_of_le_of_lt hjl hiu⟩

theorem not_contains_last (i : Interval) : ¬ i.contains Time.last := by
  rw [contains_iff]
  intro h
  exact absurd h.2 (UInt64.not_lt.mpr (Time.le_last i.upper))

/-- The interval of a time holds that time and no other; that of the last time holds
    nothing. -/
theorem contains_instant {t : Time} :
    (instant time).contains t ↔ t = time ∧ time ≠ Time.last := by
  by_cases hlast : time = Time.last
  · have hempty : (instant time).isEmpty := by
      rw [isEmpty, instant, if_pos hlast, between_lower, between_upper (UInt64.le_refl _),
        decide_eq_true rfl]
    refine iff_of_false (IntervalMap.not_contains_of_isEmpty hempty t) ?_
    exact fun h => h.2 hlast
  · have hlt : time.toNat < Time.last.toNat :=
      UInt64.lt_iff_toNat_lt.mp ((UInt64.lt_or_eq_of_le (Time.le_last time)).resolve_right hlast)
    have hnext : (time + 1).toNat = time.toNat + 1 := by
      rw [UInt64.toNat_add]
      exact Nat.mod_eq_of_lt (Nat.lt_of_le_of_lt hlt Time.last.toNat_lt)
    rw [contains_iff, instant, if_neg hlast, between_lower,
      between_upper (UInt64.le_iff_toNat_le.mpr (by omega)), UInt64.le_iff_toNat_le,
      UInt64.lt_iff_toNat_lt, hnext, ← UInt64.toNat_inj]
    constructor
    · intro h
      exact ⟨by omega, hlast⟩
    · intro h
      omega

end Interval

namespace IntervalMap

variable {V : Type} {m : IntervalMap V}

/-- The entries found in two parts are those that share a time with the interval. -/
theorem overlapping_eq_filter (h : m.WellFormed) (i : Interval) :
    m.overlapping i = m.entries.filter fun e => e.1.overlaps i := by
  have hirrefl : Std.Irrefl fun a b : Interval × V => a.1.lower < b.1.lower :=
    ⟨fun _ => UInt64.lt_irrefl _⟩
  have hasymm : Std.Antisymm fun a b : Interval × V => a.1.lower < b.1.lower :=
    ⟨fun a b hab hba => absurd hab (UInt64.lt_asymm hba)⟩
  have hhead (e : Interval × V) : e ∈ (Spans.around? i.lower m.entries).toList ↔
      e ∈ m.entries ∧ e.1.lower < i.lower ∧ i.lower < e.1.upper := by
    rw [Option.mem_toList, Spans.around?_eq_some_iff h]
  -- Lists in order are the same if they have the same members.
  refine List.Pairwise.eq_of_mem_iff ?_ (h.sorted.filter _) fun e => ?_
  · refine List.Pairwise.filter _ (List.pairwise_append.mpr ⟨?_, h.sorted.filter _, ?_⟩)
    · cases Spans.around? i.lower m.entries with
      | none => exact List.Pairwise.nil
      | some e => exact List.pairwise_singleton _ _
    · intro a ha b hb
      have hin := (Interval.contains_iff _ _).mp (List.mem_filter.mp hb).2
      exact UInt64.lt_of_lt_of_le ((hhead a).mp ha).2.1 hin.1
  · rw [overlapping, List.mem_filter, List.mem_filter, List.mem_append, hhead,
      Spans.startingIn, List.mem_filter, Interval.contains_iff]
    refine ⟨fun he => ⟨he.1.elim (·.1) (·.1), he.2⟩, fun he => ⟨?_, he.2⟩⟩
    -- What overlaps the interval starts below it and reaches into it, or starts inside.
    rcases Interval.overlaps_iff.mp he.2 with ⟨time, hin, hin'⟩
    rw [Interval.contains_iff] at hin hin'
    by_cases hlow : e.1.lower < i.lower
    · exact Or.inl ⟨he.1, hlow, UInt64.lt_of_le_of_lt hin'.1 hin.2⟩
    · exact Or.inr ⟨he.1, UInt64.not_lt.mp hlow, UInt64.lt_of_le_of_lt hin.1 hin'.2⟩

theorem mem_overlapping (h : m.WellFormed) {i : Interval} {e : Interval × V} :
    e ∈ m.overlapping i ↔ e ∈ m.entries ∧ ∃ time, e.1.contains time ∧ i.contains time := by
  rw [overlapping_eq_filter h, List.mem_filter, Interval.overlaps_iff]

theorem sorted_overlapping (h : m.WellFormed) (i : Interval) :
    Spans.Sorted (m.overlapping i) := by
  rw [overlapping_eq_filter h]
  exact h.sorted.filter _

/-- The entry found for a single time is the one found by looking the time up. -/
theorem overlapping_instant (h : m.WellFormed) (time : Time) :
    m.overlapping (.instant time) = (m.entryAt? time).toList := by
  have hmem (e : Interval × V) :
      e ∈ m.overlapping (.instant time) ↔ m.entryAt? time = some e := by
    rw [mem_overlapping h, entryAt?_eq_some_iff h]
    refine and_congr_right fun _ => ?_
    simp only [Interval.contains_instant]
    constructor
    · rintro ⟨t, hin, rfl, -⟩
      exact hin
    · intro hin
      exact ⟨time, hin, rfl, fun hlast => e.1.not_contains_last (hlast ▸ hin)⟩
  cases hfound : m.entryAt? time with
  | none =>
      rw [Option.toList_none, List.eq_nil_iff_forall_not_mem]
      intro e he
      rw [hmem, hfound] at he
      contradiction
  | some e =>
      -- All that is found is the one entry, and a list in order has it once.
      have hall : ∀ x ∈ m.overlapping (.instant time), x = e := by
        intro x hx
        rw [hmem, hfound] at hx
        exact (Option.some.inj hx).symm
      have he := (hmem e).mpr hfound
      have hsorted := sorted_overlapping h (.instant time)
      generalize m.overlapping (.instant time) = found at hall he hsorted
      match found with
      | [] => exact absurd he List.not_mem_nil
      | [x] => rw [hall x List.mem_cons_self, Option.toList_some]
      | x :: y :: rest =>
          have hlt := (List.pairwise_cons.mp hsorted).1 y List.mem_cons_self
          rw [hall x List.mem_cons_self, hall y (by simp only [List.mem_cons, true_or, or_true])]
            at hlt
          exact absurd hlt (UInt64.lt_irrefl _)

end IntervalMap

/-- The name is that of a track of the tag. -/
def TrackKey.IsOf (standard : Standard) (tag : UInt64) (key : TrackKey) : Prop :=
  key.standard = standard ∧ key.tag = tag

/-- Among the names of one tag the order is that of the index. -/
theorem TrackKey.compare_eq_lt_of_isOf {standard : Standard} {tag : UInt64} {a b : TrackKey}
    (ha : a.IsOf standard tag) (hb : b.IsOf standard tag) :
    a.compare b = .lt ↔ a.index < b.index := by
  rcases a with ⟨_, _, m⟩
  rcases b with ⟨_, _, n⟩
  rcases ha with ⟨rfl, rfl⟩
  rcases hb with ⟨rfl, rfl⟩
  simp only [compare, Std.ReflCmp.compare_self, Ordering.then, Std.compare_eq_lt]

/-- The names from the first index of a tag to the last are those of the tag. -/
theorem TrackKey.between_iff {standard : Standard} {tag : UInt64} {key : TrackKey} :
    ((compare ⟨standard, tag, 0⟩ key).isLE ∧ (key.compare ⟨standard, tag, lastIndex⟩).isLE) ↔
      key.IsOf standard tag := by
  rcases key with ⟨standard', tag', index⟩
  have hrank : standard.rank = standard'.rank ↔ standard' = standard := by
    cases standard <;> cases standard' <;> decide
  have hfirst : (0 : UInt64) ≤ index := UInt64.zero_le
  have hlast : index ≤ lastIndex := UInt64.le_iff_toNat_le.mpr (Nat.le_of_lt_succ index.toNat_lt)
  -- A standard or a tag that is neither before nor behind those of the bounds is the same.
  simp only [compare, Ordering.isLE_then_iff_or, Std.compare_eq_lt, Std.compare_eq_iff_eq,
    Std.isLE_compare, IsOf, hfirst, hlast, and_true, ← hrank, ← UInt64.toNat_inj,
    UInt64.lt_iff_toNat_lt]
  omega

namespace Timeline

variable {t : Timeline} {standard : Standard} {tag : UInt64} {i : Interval} {time : Time}

/-- The tracks of a tag are those with its names. -/
theorem tracksOf_eq_filter (t : Timeline) (standard : Standard) (tag : UInt64) :
    t.tracksOf standard tag =
      t.tracks.filter fun (k, _) => k.standard = standard && k.tag = tag := by
  refine List.filter_congr fun x _ => ?_
  rw [Bool.eq_iff_iff, Bool.and_eq_true, Bool.and_eq_true, decide_eq_true_eq, decide_eq_true_eq]
  exact TrackKey.between_iff

theorem WellFormed.track (ht : t.WellFormed) {key : TrackKey} {track : IntervalMap Value}
    (hmem : (key, track) ∈ t.tracks) : track.WellFormed :=
  ht.tracks key track ((track?_eq_some_iff ht.sorted).mpr hmem)

theorem mem_tracksOf {key : TrackKey} {track : IntervalMap Value} :
    (key, track) ∈ t.tracksOf standard tag ↔
      (key, track) ∈ t.tracks ∧ key.IsOf standard tag := by
  rw [tracksOf_eq_filter, List.mem_filter, Bool.and_eq_true, decide_eq_true_eq,
    decide_eq_true_eq]
  rfl

/-- A query gives the entries of the tag that share a time with the interval. -/
theorem mem_query (ht : t.WellFormed) {key : TrackKey} {e : Interval × Value} :
    (key, e) ∈ t.query standard tag i ↔
      key.IsOf standard tag ∧ ∃ track, t.track? key = some track ∧ e ∈ track.entries ∧
        ∃ time, e.1.contains time ∧ i.contains time := by
  simp only [query, List.mem_flatMap, List.mem_map, Prod.exists, mem_tracksOf,
    track?_eq_some_iff ht.sorted]
  constructor
  · rintro ⟨k, track, ⟨hmem, hof⟩, x, v, hfound, heq⟩
    obtain ⟨rfl, rfl⟩ := Prod.mk.inj heq
    exact ⟨hof, track, hmem, (IntervalMap.mem_overlapping (ht.track hmem)).mp hfound⟩
  · rintro ⟨hof, track, hmem, hfound⟩
    exact ⟨key, track, ⟨hmem, hof⟩, e.1, e.2,
      (IntervalMap.mem_overlapping (ht.track hmem)).mpr hfound, rfl⟩

/-- A query gives its entries by the index of the track, and those of one track in order
    of time. -/
theorem pairwise_query (ht : t.WellFormed) :
    (t.query standard tag i).Pairwise fun a b =>
      a.1.index < b.1.index ∨ a.1.index = b.1.index ∧ a.2.1.lower < b.2.1.lower := by
  refine List.pairwise_flatMap.mpr ⟨fun x hx => ?_, ?_⟩
  · -- Within a track the entries are in order.
    rw [List.pairwise_map]
    have hmem := (mem_tracksOf.mp hx).1
    exact (IntervalMap.sorted_overlapping (ht.track hmem) i).imp fun hlt => Or.inr ⟨rfl, hlt⟩
  · have hsorted : (t.tracksOf standard tag).Pairwise fun a b => a.1.compare b.1 = .lt :=
      List.Pairwise.filter _ ht.sorted
    refine hsorted.imp_of_mem fun {a b} ha hb hlt x hx y hy => Or.inl ?_
    rcases List.mem_map.mp hx with ⟨_, _, rfl⟩
    rcases List.mem_map.mp hy with ⟨_, _, rfl⟩
    exact (TrackKey.compare_eq_lt_of_isOf (mem_tracksOf.mp ha).2 (mem_tracksOf.mp hb).2).mp hlt

/-- The value of a tag at a time is the first that a query for that time gives. -/
theorem at?_eq_head?_query (ht : t.WellFormed) :
    t.at? standard tag time = (t.query standard tag (.instant time)).head?.map (·.2.2) := by
  have htracks : ∀ x ∈ t.tracksOf standard tag, x.2.WellFormed :=
    fun x hx => ht.track (mem_tracksOf.mp hx).1
  rw [at?, query]
  generalize t.tracksOf standard tag = tracks at htracks
  induction tracks with
  | nil => rfl
  | cons x tracks ih =>
      have hrest := ih fun y hy => htracks y (List.mem_cons_of_mem x hy)
      rcases x with ⟨key, track⟩
      have hfound := IntervalMap.overlapping_instant (htracks _ List.mem_cons_self) time
      rw [List.findSome?_cons, List.flatMap_cons]
      dsimp only
      rw [hfound, IntervalMap.at?]
      cases track.entryAt? time with
      | none => exact hrest
      | some e => rfl

/-- All values at a time are those of the entries that contain it. -/
theorem mem_allAt (ht : t.WellFormed) {key : TrackKey} {v : Value} :
    (key, v) ∈ t.allAt time ↔
      ∃ track, t.track? key = some track ∧ ∃ e ∈ track.entries, e.1.contains time ∧ e.2 = v := by
  simp only [allAt, List.mem_filterMap, Prod.exists, Option.map_eq_some_iff,
    track?_eq_some_iff ht.sorted]
  constructor
  · rintro ⟨k, track, hmem, w, hat, heq⟩
    obtain ⟨rfl, rfl⟩ := Prod.mk.inj heq
    exact ⟨track, hmem, by simpa only [Prod.exists] using
      (IntervalMap.at?_eq_some_iff (ht.track hmem)).mp hat⟩
  · rintro ⟨track, hmem, hfound⟩
    exact ⟨key, track, hmem, v, (IntervalMap.at?_eq_some_iff (ht.track hmem)).mpr
      (by simpa only [Prod.exists] using hfound), rfl⟩

/-- All values at a time are in order of the names, one for a name. -/
theorem pairwise_allAt (ht : t.WellFormed) :
    (t.allAt time).Pairwise fun a b => a.1.compare b.1 = .lt := by
  refine List.Pairwise.filterMap _ (fun a b hlt x hx y hy => ?_) ht.sorted
  rcases Option.map_eq_some_iff.mp hx with ⟨_, _, rfl⟩
  rcases Option.map_eq_some_iff.mp hy with ⟨_, _, rfl⟩
  exact hlt

/-- The value of a tag at a time is the first of its values among all. -/
theorem at?_eq_find?_allAt :
    t.at? standard tag time =
      ((t.allAt time).find? fun x => x.1.standard = standard && x.1.tag = tag).map (·.2) := by
  rcases t with ⟨tracks⟩
  simp only [at?, tracksOf_eq_filter, allAt]
  induction tracks with
  | nil => rfl
  | cons x tracks ih =>
      rw [List.filter_cons, List.filterMap_cons]
      cases hof : x.1.standard = standard && x.1.tag = tag with
      | false =>
          -- A track of another tag counts on neither side.
          rw [if_neg Bool.false_ne_true]
          cases x.2.at? time with
          | none => exact ih
          | some v => simpa only [Option.map_some, List.find?_cons, hof] using ih
      | true =>
          rw [if_pos rfl, List.findSome?_cons]
          cases x.2.at? time with
          | none => exact ih
          | some v => simp only [Option.map_some, List.find?_cons, hof]

/-- A query gives the entries of a tag that share a time with an interval, by index and
    then by time, and for an empty interval it gives none. The value of a tag at a time is
    that of the first entry which a query for that time gives. All values at a time are
    those of the entries that contain it, one for each such track in order of the names,
    and the value of a tag is the first of them that is one of the tag's. -/
theorem queries_agree (ht : t.WellFormed) (standard : Standard) (tag : UInt64) (i : Interval)
    (time : Time) :
    ((t.query standard tag i).Pairwise fun a b =>
        a.1.index < b.1.index ∨ a.1.index = b.1.index ∧ a.2.1.lower < b.2.1.lower) ∧
      (∀ key e, (key, e) ∈ t.query standard tag i ↔
        key.IsOf standard tag ∧ ∃ track, t.track? key = some track ∧ e ∈ track.entries ∧
          ∃ s, e.1.contains s ∧ i.contains s) ∧
      (i.isEmpty → t.query standard tag i = []) ∧
      t.at? standard tag time = (t.query standard tag (.instant time)).head?.map (·.2.2) ∧
      ((t.allAt time).Pairwise fun a b => a.1.compare b.1 = .lt) ∧
      (∀ key v, (key, v) ∈ t.allAt time ↔
        ∃ track, t.track? key = some track ∧
          ∃ e ∈ track.entries, e.1.contains time ∧ e.2 = v) ∧
      t.at? standard tag time =
        ((t.allAt time).find? fun x => x.1.standard = standard && x.1.tag = tag).map (·.2) := by
  refine ⟨pairwise_query ht, fun _ _ => mem_query ht, fun hempty => ?_, at?_eq_head?_query ht,
    pairwise_allAt ht, fun _ _ => mem_allAt ht, at?_eq_find?_allAt⟩
  refine List.eq_nil_iff_forall_not_mem.mpr fun ⟨key, e⟩ he => ?_
  rcases (mem_query ht).mp he with ⟨_, _, _, _, s, _, hin⟩
  exact IntervalMap.not_contains_of_isEmpty hempty s hin

/-- The first occurrence of a tag is not known at 7, where the second is, and from 6 to 8
    a query for the tag finds the second alone. At the last time nothing is known. -/
theorem queries_agree_two_tracks :
    let t := ofRecords [⟨⟨.st0601, 3, 1⟩, 5, ⟨some (.u64 1), 8⟩⟩,
      ⟨⟨.st0601, 3, 0⟩, 8, ⟨some (.u64 2), 8⟩⟩]
    t.WellFormed ∧ (t.query .st0601 3 (.between 6 8)).length = 1 ∧
      t.at? .st0601 3 7 = some ⟨some (.u64 1), 8⟩ ∧ t.at? .st0601 3 8 = some ⟨some (.u64 2), 8⟩ ∧
      t.at? .st0601 3 Time.last = none := by
  intro t
  have ht : t.WellFormed := wellFormed_empty.foldl_record _
  have hagree (time : Time) := (queries_agree ht .st0601 3 (.between 6 8) time).2.2.2.1
  refine ⟨ht, rfl, ?_, ?_, ?_⟩
  · rw [hagree]
    rfl
  · rw [hagree]
    rfl
  · rw [hagree]
    rfl

end Timeline

end KlvMetadata
