import KlvMetadata.Timeline.Basic
import Mathlib.Data.List.Sort

/-!
# Tracks by Name

A timeline is a map from names to tracks. The names are kept in order, so each
stands at most once, and the order of names is total: a search that goes past
the place of a name has seen that the name is missing. Under this invariant
changing a track is local, and a timeline is no more than what can be looked
up in it.

## Main definitions

* `Timeline.Sorted`: The names increase.
* `Timeline.valueAt?`: The value of a track at a time.

## Theorems

* `sorted_alter`: Changing a track keeps the names in order.
* `track?_eq_some_iff`: Looking up a name finds the track that is there.
* `track?_alter`: Changing a track changes that track alone.
* `track?_ext`: Timelines with the same tracks are the same.
-/

namespace KlvMetadata

namespace TrackKey

theorem compare_eq_lex :
    compare = compareLex (compareOn (·.standard.rank))
      (compareLex (compareOn (·.tag)) (compareOn (·.index))) := by
  rfl

instance : Std.TransCmp compare := by
  rw [compare_eq_lex]
  infer_instance

instance : Std.LawfulEqCmp compare where
  eq_of_compare {a b} h := by
    rcases a with ⟨s, k, n⟩
    rcases b with ⟨s', k', n'⟩
    simp only [compare, Ordering.then_eq_eq, Std.LawfulEqOrd.compare_eq_iff_eq] at h
    have hrank : s.rank = s'.rank → s = s' := by cases s <;> cases s' <;> decide
    rw [mk.injEq]
    exact ⟨hrank h.1, h.2⟩

theorem compare_self (key : TrackKey) : key.compare key = .eq := Std.ReflCmp.compare_self

end TrackKey

namespace Timeline

/-- The names increase, so no two tracks share one. -/
def Sorted (t : Timeline) : Prop := t.tracks.Pairwise fun a b => a.1.compare b.1 = .lt

/-- The value of a track at a time, if there is such a track. -/
def valueAt? (t : Timeline) (key : TrackKey) (time : Time) : Option Value :=
  (t.track? key).bind (·.at? time)

theorem sorted_empty : Sorted empty := List.Pairwise.nil

theorem track?_empty (key : TrackKey) : empty.track? key = none := by
  rfl

variable {tracks : List (TrackKey × IntervalMap Value)}
  {key : TrackKey} {change : IntervalMap Value → IntervalMap Value}

/-- The names after a change are the names before it and the changed one. -/
theorem fst_mem_alterTracks {x : TrackKey × IntervalMap Value}
    (hx : x ∈ alterTracks key change tracks) : x.1 = key ∨ ∃ y ∈ tracks, y.1 = x.1 := by
  induction tracks with
  | nil =>
      rw [alterTracks, List.mem_singleton] at hx
      exact Or.inl (by rw [hx])
  | cons y tracks ih =>
      rw [alterTracks] at hx
      cases hcmp : key.compare y.1 with
      | lt =>
          simp only [hcmp] at hx
          rcases List.mem_cons.mp hx with rfl | hx
          · exact Or.inl rfl
          · exact Or.inr ⟨x, hx, rfl⟩
      | eq =>
          simp only [hcmp] at hx
          rcases List.mem_cons.mp hx with rfl | hx
          · exact Or.inr ⟨y, List.mem_cons_self, rfl⟩
          · exact Or.inr ⟨x, List.mem_cons_of_mem y hx, rfl⟩
      | gt =>
          simp only [hcmp] at hx
          rcases List.mem_cons.mp hx with rfl | hx
          · exact Or.inr ⟨_, List.mem_cons_self, rfl⟩
          · exact (ih hx).imp id fun ⟨z, hz, heq⟩ => ⟨z, List.mem_cons_of_mem y hz, heq⟩

theorem sorted_alterTracks (h : tracks.Pairwise fun a b => a.1.compare b.1 = .lt) :
    (alterTracks key change tracks).Pairwise fun a b => a.1.compare b.1 = .lt := by
  induction tracks with
  | nil => exact List.pairwise_singleton _ _
  | cons y tracks ih =>
      have hcons := List.pairwise_cons.mp h
      rw [alterTracks]
      cases hcmp : key.compare y.1 with
      | lt =>
          simp only
          -- A name put in front comes before the first one, hence before all.
          refine List.pairwise_cons.mpr ⟨fun z hz => ?_, h⟩
          rcases List.mem_cons.mp hz with rfl | hz
          · exact hcmp
          · exact Std.TransCmp.lt_trans hcmp (hcons.1 z hz)
      | eq => exact List.pairwise_cons.mpr hcons
      | gt =>
          simp only
          refine List.pairwise_cons.mpr ⟨fun z hz => ?_, ih hcons.2⟩
          rcases fst_mem_alterTracks hz with hkey | ⟨w, hw, hwz⟩
          · rw [hkey]
            exact Std.OrientedCmp.lt_of_gt hcmp
          · rw [← hwz]
            exact hcons.1 w hw

theorem sorted_alter {t : Timeline} (h : t.Sorted) : (t.alter key change).Sorted :=
  sorted_alterTracks h

theorem track?_cons (y : TrackKey × IntervalMap Value) (k : TrackKey) :
    track? ⟨y :: tracks⟩ k = if y.1 = k then some y.2 else track? ⟨tracks⟩ k := by
  by_cases h : y.1 = k
  · simp only [track?, List.find?_cons, h, decide_true, if_true, Option.map_some]
  · simp only [track?, List.find?_cons, h, decide_false, if_false]

/-- A search that goes past the place of a name finds nothing. -/
theorem track?_eq_none_of_lt (h : ∀ y ∈ tracks, key.compare y.1 = .lt) :
    track? ⟨tracks⟩ key = none := by
  rw [track?, Option.map_eq_none_iff, List.find?_eq_none]
  intro y hy
  rw [decide_eq_true_eq]
  rintro rfl
  exact absurd (h y hy) (by rw [TrackKey.compare_self]; decide)

/-- Changing a track changes that track alone, starting from an empty one if it
    is missing. -/
theorem track?_alter {t : Timeline} (h : t.Sorted) (k : TrackKey) :
    (t.alter key change).track? k =
      if k = key then some (change ((t.track? key).getD .empty)) else t.track? k := by
  rcases t with ⟨tracks⟩
  rw [alter]
  induction tracks with
  | nil =>
      rw [alterTracks, track?_cons]
      simp only [eq_comm (a := key)]
      rfl
  | cons y tracks ih =>
      have hcons := List.pairwise_cons.mp h
      simp only [alterTracks]
      cases hcmp : key.compare y.1 with
      | lt =>
          -- The name is missing from here on, since everything comes later.
          have hmissing : track? ⟨y :: tracks⟩ key = none := by
            refine track?_eq_none_of_lt fun z hz => ?_
            rcases List.mem_cons.mp hz with rfl | hz
            · exact hcmp
            · exact Std.TransCmp.lt_trans hcmp (hcons.1 z hz)
          rw [track?_cons, hmissing]
          simp only [eq_comm (a := key)]
          rfl
      | eq =>
          obtain rfl := Std.LawfulEqCmp.eq_of_compare hcmp
          simp only [track?_cons, if_true, eq_comm (a := y.1)]
          by_cases hk : k = y.1
          · simp only [hk, if_true]
            rfl
          · simp only [hk, if_false]
      | gt =>
          have hne : y.1 ≠ key := by
            rintro rfl
            exact absurd hcmp (by rw [TrackKey.compare_self]; decide)
          simp only [track?_cons, ih hcons.2, if_neg hne]
          by_cases hk : k = key
          · rw [if_pos hk, if_pos hk, if_neg (by rwa [hk])]
          · rw [if_neg hk, if_neg hk]

theorem track?_eq_some_iff {t : Timeline} (h : t.Sorted) {track : IntervalMap Value} :
    t.track? key = some track ↔ (key, track) ∈ t.tracks := by
  rcases t with ⟨tracks⟩
  induction tracks with
  | nil => simp only [track?, List.find?_nil, Option.map_none, reduceCtorEq, List.not_mem_nil]
  | cons y tracks ih =>
      have hcons := List.pairwise_cons.mp h
      rw [track?_cons, List.mem_cons]
      by_cases hkey : y.1 = key
      · -- No later track has the name.
        have hlater : (key, track) ∉ tracks := by
          intro hmem
          have := hcons.1 _ hmem
          rw [hkey, TrackKey.compare_self] at this
          exact absurd this (by decide)
        rw [if_pos hkey, Option.some.injEq, ← hkey]
        constructor
        · rintro rfl
          exact Or.inl rfl
        · intro hmem
          rcases hmem with heq | hmem
          · rw [← heq]
          · exact absurd (hkey ▸ hmem) hlater
      · rw [if_neg hkey, ih hcons.2]
        exact ⟨Or.inr, fun hmem => hmem.resolve_left fun heq => hkey (by rw [← heq])⟩

/-- Timelines with the same tracks under the same names are the same. -/
theorem track?_ext {t u : Timeline} (ht : t.Sorted) (hu : u.Sorted)
    (h : ∀ key, t.track? key = u.track? key) : t = u := by
  have : Std.Irrefl fun a b : TrackKey × IntervalMap Value => a.1.compare b.1 = .lt :=
    ⟨fun a ha => by rw [TrackKey.compare_self] at ha; exact absurd ha (by decide)⟩
  have : Std.Antisymm fun a b : TrackKey × IntervalMap Value => a.1.compare b.1 = .lt :=
    ⟨fun a b hab hba => absurd hba (by rw [Std.OrientedCmp.gt_of_lt hab]; decide)⟩
  have heq : t.tracks = u.tracks := by
    refine List.Pairwise.eq_of_mem_iff ht hu fun ⟨key, track⟩ => ?_
    rw [← track?_eq_some_iff ht, ← track?_eq_some_iff hu, h]
  cases t
  cases u
  exact congrArg mk heq

end Timeline

end KlvMetadata
