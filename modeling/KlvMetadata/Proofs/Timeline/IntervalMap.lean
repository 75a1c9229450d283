import KlvMetadata.Proofs.Timeline.Spans

/-!
# Interval Maps as Partial Functions

An interval map stands for a partial function from times to values. Learning
overwrites the function on an interval, and forgetting makes it undefined
there; at every other time it stays as it was.

The entries say more than the function does, since two entries that meet may
hold the same value. So the view is not the whole state, and the invariant
`WellFormed` is kept beside it: it is what makes the search for the last entry
that starts no later than a time find the entry that contains it.

`run_refines` says all of this of every map that can be built, whatever was
done to it. An empty interval is allowed everywhere and changes nothing, which
agrees with the view because it contains no time.

## Main definitions

* `IntervalMap.WellFormed`: The entries are well-formed spans.
* `IntervalMap.Change`: One thing to do to a map.
* `IntervalMap.run`: The map that changes make from nothing.

## Theorems

* `mem_erase`, `mem_set`: The entries after forgetting and learning.
* `wellFormed_erase`, `wellFormed_set`: Both keep the invariant.
* `entryAt?_eq_some_iff`: The entry at a time is the one that contains it.
* `at?_eq_some_iff`: The value at a time is that of the entry containing it.
* `at?_erase`, `at?_set`: Both act pointwise on the view.
* `wellFormed_run`: Every map that can be built is well-formed.
* `run_refines`: Every such map behaves as its view does.
-/

namespace KlvMetadata

namespace IntervalMap

variable {V : Type}

/-- The entries are in order, none is empty and no two overlap. -/
def WellFormed (m : IntervalMap V) : Prop := Spans.WellFormed m.entries

theorem wellFormed_empty : WellFormed (empty : IntervalMap V) where
  sorted := List.Pairwise.nil
  nonempty _ he := absurd he List.not_mem_nil
  disjoint _ ha := absurd ha List.not_mem_nil

/-- Forgetting leaves what remains of each entry outside the interval. -/
theorem mem_erase {m : IntervalMap V} (h : m.WellFormed) {i : Interval} (hi : ¬ i.isEmpty)
    {x : Interval × V} :
    x ∈ (m.erase i).entries ↔ ∃ e ∈ m.entries, Spans.Remains i e x := by
  rw [erase, if_neg hi]
  exact Spans.mem_cut (Interval.lt_of_not_isEmpty hi) h

theorem wellFormed_erase {m : IntervalMap V} (h : m.WellFormed) (i : Interval) :
    (m.erase i).WellFormed := by
  rw [erase]
  by_cases hi : i.isEmpty
  · rw [if_pos hi]
    exact h
  · rw [if_neg hi]
    exact Spans.wellFormed_cut (Interval.lt_of_not_isEmpty hi) h

/-- Nothing that is left after forgetting meets the interval. -/
theorem erase_bounds {m : IntervalMap V} (h : m.WellFormed) {i : Interval} (hi : ¬ i.isEmpty)
    {x : Interval × V} (hx : x ∈ (m.erase i).entries) :
    x.1.lower < x.1.upper ∧ (x.1.upper ≤ i.lower ∨ i.upper ≤ x.1.lower) := by
  rcases (mem_erase h hi).mp hx with ⟨e, he, hrem⟩
  rcases hrem.bounds (h.nonempty e he) with ⟨hne, _, _, _, hmiss⟩
  exact ⟨hne, hmiss⟩

/-- Learning adds one entry to what forgetting leaves. The place of the new
    entry is free, because an entry that started there would meet the
    interval. -/
theorem mem_set {m : IntervalMap V} (h : m.WellFormed) {i : Interval} (hi : ¬ i.isEmpty) {v : V}
    {x : Interval × V} :
    x ∈ (m.set i v).entries ↔ x = (i, v) ∨ ∃ e ∈ m.entries, Spans.Remains i e x := by
  rw [set, if_neg hi, Spans.mem_put (wellFormed_erase h i).sorted, ← mem_erase h hi]
  have hlt := Interval.lt_of_not_isEmpty hi
  have hfree : x ∈ (m.erase i).entries → x.1.lower ≠ i.lower := by
    intro hx heq
    rcases erase_bounds h hi hx with ⟨hne, hbefore | hbehind⟩
    · rw [heq] at hne
      exact absurd hne (UInt64.not_lt.mpr hbefore)
    · rw [heq] at hbehind
      exact absurd hlt (UInt64.not_lt.mpr hbehind)
  exact or_congr_right ⟨fun hx => hx.1, fun hx => ⟨hx, hfree hx⟩⟩

theorem wellFormed_set {m : IntervalMap V} (h : m.WellFormed) (i : Interval) (v : V) :
    (m.set i v).WellFormed := by
  by_cases hi : i.isEmpty
  · rw [set, if_pos hi]
    exact h
  · have herase := wellFormed_erase h i
    have hlt := Interval.lt_of_not_isEmpty hi
    have hmem (x : Interval × V) :
        x ∈ (m.set i v).entries ↔ x = (i, v) ∨ x ∈ (m.erase i).entries := by
      rw [mem_set h hi, mem_erase h hi]
    refine ⟨?_, fun x hx => ?_, fun x hx y hy hxy => ?_⟩
    · rw [set, if_neg hi]
      exact Spans.sorted_put herase.sorted
    · rcases (hmem x).mp hx with rfl | hx
      · exact hlt
      · exact herase.nonempty x hx
    · -- What is left of old entries does not meet the new one, on either side.
      rcases (hmem x).mp hx with rfl | hx <;> rcases (hmem y).mp hy with rfl | hy
      · exact absurd hxy (UInt64.lt_irrefl _)
      · rcases erase_bounds h hi hy with ⟨hne, hbefore | hbehind⟩
        · exact absurd (UInt64.lt_trans hxy hne) (UInt64.not_lt.mpr hbefore)
        · exact hbehind
      · rcases erase_bounds h hi hx with ⟨_, hbefore | hbehind⟩
        · exact hbefore
        · exact absurd (UInt64.lt_trans hxy hlt) (UInt64.not_lt.mpr hbehind)
      · exact herase.disjoint x hx y hy hxy

theorem entryAt?_eq_some_iff {m : IntervalMap V} (h : m.WellFormed) {time : Time}
    {e : Interval × V} : m.entryAt? time = some e ↔ e ∈ m.entries ∧ e.1.contains time :=
  Spans.lookup_eq_some_iff h

theorem at?_eq_some_iff {m : IntervalMap V} (h : m.WellFormed) {time : Time} {v : V} :
    m.at? time = some v ↔ ∃ e ∈ m.entries, e.1.contains time ∧ e.2 = v := by
  rw [at?, Option.map_eq_some_iff]
  constructor
  · intro hv
    rcases hv with ⟨e, he, rfl⟩
    rcases (entryAt?_eq_some_iff h).mp he with ⟨hmem, hin⟩
    exact ⟨e, hmem, hin, rfl⟩
  · intro hv
    rcases hv with ⟨e, hmem, hin, rfl⟩
    exact ⟨e, (entryAt?_eq_some_iff h).mpr ⟨hmem, hin⟩, rfl⟩

theorem not_contains_of_isEmpty {i : Interval} (hi : i.isEmpty) (time : Time) :
    ¬ i.contains time := by
  have heq : i.lower = i.upper := by simpa only [Interval.isEmpty, decide_eq_true_eq] using hi
  rw [Interval.contains_iff, heq]
  intro hin
  rcases hin with ⟨hlo, hup⟩
  exact absurd hup (UInt64.not_lt.mpr hlo)

/-- What remains of an entry holds its value at the times outside the
    interval. -/
theorem exists_remains_iff {m : IntervalMap V} (h : m.WellFormed) {i : Interval} {time : Time}
    {v : V} :
    (∃ x, (∃ e ∈ m.entries, Spans.Remains i e x) ∧ x.1.contains time ∧ x.2 = v) ↔
      ¬ i.contains time ∧ m.at? time = some v := by
  rw [at?_eq_some_iff h]
  constructor
  · intro hv
    rcases hv with ⟨x, ⟨e, he, hrem⟩, hin, rfl⟩
    rcases hrem.bounds (h.nonempty e he) with ⟨_, hlo, hup, hval, hmiss⟩
    rw [Interval.contains_iff] at hin
    -- The part lies in the entry, but on one side of the interval.
    refine ⟨?_, e, he, ?_, hval.symm⟩
    · rw [Interval.contains_iff]
      intro hin
      rcases hin with ⟨hlo', hup'⟩
      rcases hmiss with hbefore | hbehind
      · exact absurd (UInt64.lt_of_lt_of_le hin.2 hbefore) (UInt64.not_lt.mpr hlo')
      · exact absurd (UInt64.lt_of_lt_of_le hup' hbehind) (UInt64.not_lt.mpr hin.1)
    · rw [Interval.contains_iff]
      exact ⟨UInt64.le_trans hlo hin.1, UInt64.lt_of_lt_of_le hin.2 hup⟩
  · intro hv
    rcases hv with ⟨hout, e, he, hin, rfl⟩
    rcases Spans.Remains.exists_contains hin hout with ⟨x, hrem, hx⟩
    exact ⟨x, ⟨e, he, hrem⟩, hx, (hrem.bounds (h.nonempty e he)).2.2.2.1⟩

/-- Forgetting makes the view undefined in the interval and leaves the rest. -/
theorem at?_erase {m : IntervalMap V} (h : m.WellFormed) (i : Interval) (time : Time) :
    (m.erase i).at? time = if i.contains time then none else m.at? time := by
  by_cases hi : i.isEmpty
  · -- An empty interval contains no time, and nothing is done for it.
    rw [if_neg (not_contains_of_isEmpty hi time), erase, if_pos hi]
  · refine Option.ext (fun v => ?_)
    rw [at?_eq_some_iff (wellFormed_erase h i)]
    simp only [mem_erase h hi]
    rw [exists_remains_iff h]
    by_cases hin : i.contains time
    · simp only [hin, not_true_eq_false, false_and, if_true, reduceCtorEq]
    · rw [if_neg hin]
      exact ⟨fun hv => hv.2, fun hv => ⟨hin, hv⟩⟩

/-- Learning overwrites the view in the interval and leaves the rest. -/
theorem at?_set {m : IntervalMap V} (h : m.WellFormed) (i : Interval) (v : V) (time : Time) :
    (m.set i v).at? time = if i.contains time then some v else m.at? time := by
  by_cases hi : i.isEmpty
  · rw [if_neg (not_contains_of_isEmpty hi time), set, if_pos hi]
  · refine Option.ext (fun w => ?_)
    rw [at?_eq_some_iff (wellFormed_set h i v)]
    simp only [mem_set h hi, or_and_right, exists_or, exists_eq_left]
    rw [exists_remains_iff h]
    by_cases hin : i.contains time
    · simp only [hin, true_and, not_true_eq_false, false_and, or_false, if_true,
        Option.some.injEq]
    · rw [if_neg hin]
      refine ⟨?_, fun hw => Or.inr ⟨hin, hw⟩⟩
      intro hw
      rcases hw with ⟨hc, _⟩ | ⟨_, hw⟩
      · exact absurd hc hin
      · exact hw

/-- One thing to do to a map. -/
inductive Change (V : Type) where
  | set (i : Interval) (v : V)
  | erase (i : Interval)

/-- The map after a change. -/
def Change.apply : Change V → IntervalMap V → IntervalMap V
  | set i v, m => m.set i v
  | erase i, m => m.erase i

/-- The map that changes make from nothing, the first change first. -/
def run (changes : List (Change V)) : IntervalMap V :=
  changes.foldl (fun m c => c.apply m) empty

theorem wellFormed_apply {m : IntervalMap V} (h : m.WellFormed) (c : Change V) :
    (c.apply m).WellFormed := by
  cases c with
  | set i v => exact wellFormed_set h i v
  | erase i => exact wellFormed_erase h i

theorem wellFormed_foldl (changes : List (Change V)) {m : IntervalMap V} (h : m.WellFormed) :
    (changes.foldl (fun m c => c.apply m) m).WellFormed := by
  induction changes generalizing m with
  | nil => exact h
  | cons c changes ih => exact ih (wellFormed_apply h c)

theorem wellFormed_run (changes : List (Change V)) : (run changes).WellFormed :=
  wellFormed_foldl changes wellFormed_empty

/-- Whatever was done to a map, its entries are in order, none is empty and
    each is over before the next starts. Learning and forgetting then act on
    the values at all times as they should, and the entry found at a time is
    the entry that contains it. -/
theorem run_refines (changes : List (Change V)) :
    (run changes).entries.Pairwise (fun a b => a.1.lower < b.1.lower) ∧
      (∀ e ∈ (run changes).entries, e.1.lower < e.1.upper) ∧
      (run changes).entries.Pairwise (fun a b => a.1.upper ≤ b.1.lower) ∧
      ∀ (i : Interval) (v : V) (time : Time),
        ((run changes).set i v).at? time
          = (if i.contains time then some v else (run changes).at? time) ∧
        ((run changes).erase i).at? time
          = (if i.contains time then none else (run changes).at? time) ∧
        ∀ e, (run changes).entryAt? time = some e ↔
          e ∈ (run changes).entries ∧ e.1.contains time := by
  have h := wellFormed_run changes
  refine ⟨h.sorted, h.nonempty, Spans.pairwise_upper_le h, fun i v time => ⟨?_, ?_, fun e => ?_⟩⟩
  · exact at?_set h i v time
  · exact at?_erase h i time
  · exact entryAt?_eq_some_iff h

end IntervalMap

end KlvMetadata
