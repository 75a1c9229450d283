import KlvMetadata.Proofs.Timeline.IntervalMap
import Mathlib.Data.List.Sort

/-!
# Tracks Without Gaps

A recorded value holds from its time up to the next one on the track, so the
entries of a track lie end to end, from the first start to the end of time.
Such a track is determined by what starts when. `Tiles known m` says that the
entries of `m` lie end to end and start at the times where `known` has a value,
with that value.

This is more than the view of an interval map, which does not show where an
entry ends if the next one holds the same value. It is also what recording
needs in order to stay local. A new entry ends where the next one starts, and
nothing before it can reach beyond that, so recording never leaves a tail.

Nothing starts at the end of time, because an interval from there is empty.

## Main definitions

* `IntervalMap.record`: A value from a time on, up to the next entry.
* `IntervalMap.Tiles`: Entries that lie end to end.

## Theorems

* `mem_record`: Recording adds an entry and cuts the one it starts in.
* `Tiles.record`: Recording at a time changes what is known at that time.
* `Tiles.at?_eq_some_iff`: The value at a time is the last known until then.
* `Tiles.exists_at?`: There is a value once one is known.
* `Tiles.unique`: What is known determines the entries.
-/

namespace KlvMetadata

theorem Time.le_last (time : Time) : time ≤ Time.last := by
  rw [UInt64.le_iff_toNat_le]
  exact Nat.le_of_lt_succ time.toNat_lt

namespace IntervalMap

variable {V : Type} {m : IntervalMap V}

/-- Learn a value from a time on, up to the next entry. -/
def record (time : Time) (v : V) (m : IntervalMap V) : IntervalMap V :=
  m.set (.between time ((m.nextStart? time).getD Time.last)) v

/-- Entries that lie end to end, up to the end of time, and start where a value
    is known. -/
structure Tiles (known : Time → Option V) (m : IntervalMap V) : Prop where
  wellFormed : m.WellFormed
  starts : ∀ time v, (∃ e ∈ m.entries, e.1.lower = time ∧ e.2 = v) ↔
    time < Time.last ∧ known time = some v
  ends : ∀ e ∈ m.entries, e.1.upper = Time.last ∨ ∃ f ∈ m.entries, f.1.lower = e.1.upper

theorem tiles_empty : Tiles (fun _ => none) (empty : IntervalMap V) where
  wellFormed := wellFormed_empty
  starts time v := by
    simp only [empty, List.not_mem_nil, false_and, exists_false, reduceCtorEq, and_false]
  ends _ he := absurd he List.not_mem_nil

/-- The next start is the least one after a time. -/
theorem nextStart?_eq_some {time next : Time} (h : m.WellFormed)
    (hnext : m.nextStart? time = some next) :
    time < next ∧ (∃ e ∈ m.entries, e.1.lower = next) ∧
      ∀ e ∈ m.entries, time < e.1.lower → next ≤ e.1.lower := by
  rcases Option.map_eq_some_iff.mp hnext with ⟨e, he, rfl⟩
  rcases List.find?_eq_some_iff_append.mp he with ⟨hlt, before, after, hsplit, hbefore⟩
  have hmem : e ∈ m.entries := List.mem_of_find?_eq_some he
  refine ⟨by simpa only [decide_eq_true_eq] using hlt, ⟨e, hmem, rfl⟩, fun f hf hlater => ?_⟩
  have hsorted := h.sorted
  rw [Spans.Sorted, hsplit, List.pairwise_append, List.pairwise_cons] at hsorted
  rw [hsplit] at hf
  -- The search passed over the entries before it, and those after it start later.
  rcases List.mem_append.mp hf with hf | hf
  · have := hbefore f hf
    simp only [Bool.not_eq_true', decide_eq_false_iff_not] at this
    exact absurd hlater this
  · rcases List.mem_cons.mp hf with rfl | hf
    · exact UInt64.le_refl _
    · exact UInt64.le_of_lt (hsorted.2.1.1 f hf)

theorem nextStart?_eq_none {time : Time} (hnext : m.nextStart? time = none)
    {e : Interval × V} (he : e ∈ m.entries) : e.1.lower ≤ time := by
  rw [nextStart?, Option.map_eq_none_iff, List.find?_eq_none] at hnext
  have := hnext e he
  simp only [decide_eq_true_eq] at this
  exact UInt64.not_lt.mp this

/-- The interval that recording writes: nothing starts inside it, and it ends
    at the end of time or where another entry starts. -/
theorem next_bounds {time : Time} (h : m.WellFormed) (htime : time < Time.last) :
    let next := (m.nextStart? time).getD Time.last
    time < next ∧ (∀ e ∈ m.entries, time < e.1.lower → next ≤ e.1.lower) ∧
      (next = Time.last ∨ ∃ e ∈ m.entries, e.1.lower = next) := by
  cases hnext : m.nextStart? time with
  | none =>
      refine ⟨htime, fun e he hlater => ?_, Or.inl rfl⟩
      exact absurd hlater (UInt64.not_lt.mpr (nextStart?_eq_none hnext he))
  | some next =>
      rcases nextStart?_eq_some h hnext with ⟨hlt, hstart, hleast⟩
      exact ⟨hlt, hleast, Or.inr hstart⟩

/-- Recording adds an entry, takes out the one with the same start and cuts the
    one around the start. No entry has a part beyond the new one, because it
    would have to reach over the start of the next. -/
theorem mem_record (h : m.WellFormed) {time : Time} (htime : time < Time.last) {v : V}
    {x : Interval × V} :
    x ∈ (m.record time v).entries ↔
      x = (.between time ((m.nextStart? time).getD Time.last), v) ∨
      (x ∈ m.entries ∧ (x.1.upper ≤ time ∨ time < x.1.lower)) ∨
      ∃ e ∈ m.entries, (e.1.lower < time ∧ time < e.1.upper) ∧ x = (e.1.before time, e.2) := by
  rcases next_bounds h htime with ⟨hlt, hleast, hends⟩
  rw [record]
  set next := (m.nextStart? time).getD Time.last
  have hlower := Interval.between_lower time next
  have hupper := Interval.between_upper (UInt64.le_of_lt hlt)
  have hempty : ¬ (Interval.between time next).isEmpty := by
    rw [Interval.isEmpty, hlower, hupper, decide_eq_true_eq]
    exact UInt64.ne_of_lt hlt
  -- An entry that starts no later is over when the next one starts.
  have hover : ∀ e ∈ m.entries, e.1.lower ≤ time → e.1.upper ≤ next := by
    intro e he hlo
    rcases hends with hlast | ⟨f, hf, hnext⟩
    · rw [hlast]
      exact Time.le_last _
    · have hef : e.1.lower < f.1.lower := by
        rw [hnext]
        exact UInt64.lt_of_le_of_lt hlo hlt
      rw [← hnext]
      exact h.disjoint e he f hf hef
  rw [mem_set h hempty]
  refine or_congr_right ⟨?_, ?_⟩
  · intro hx
    rcases hx with ⟨e, he, ⟨rfl, hmiss⟩ | ⟨rfl, hlo, hup⟩ | ⟨rfl, hlo, hup⟩⟩
    · rw [hlower, hupper] at hmiss
      exact Or.inl ⟨he, hmiss.imp id (UInt64.lt_of_lt_of_le hlt)⟩
    · rw [hlower] at hlo hup
      exact Or.inr ⟨e, he, ⟨hlo, hup⟩, by rw [Spans.head, hlower]⟩
    · -- There is no tail: an entry that ends later does not start earlier.
      rw [hupper] at hlo hup
      by_cases hlater : time < e.1.lower
      · exact absurd hlo (UInt64.not_lt.mpr (hleast e he hlater))
      · exact absurd hup (UInt64.not_lt.mpr (hover e he (UInt64.not_lt.mp hlater)))
  · intro hx
    rcases hx with ⟨hx, hmiss⟩ | ⟨e, he, ⟨hlo, hup⟩, rfl⟩
    · refine ⟨x, hx, Or.inl ⟨rfl, ?_⟩⟩
      rw [hlower, hupper]
      exact hmiss.imp id (hleast x hx)
    · exact ⟨e, he, Or.inr (Or.inl ⟨by rw [Spans.head, hlower], by rwa [hlower], by rwa [hlower]⟩)⟩

/-- At the end of time there is nothing to record. -/
theorem record_last (m : IntervalMap V) (v : V) : m.record Time.last v = m := by
  have hnone : m.nextStart? Time.last = none := by
    rw [nextStart?, Option.map_eq_none_iff, List.find?_eq_none]
    intro e _
    rw [decide_eq_true_eq, UInt64.not_lt]
    exact Time.le_last e.1.lower
  rw [record, hnone, set, if_pos (by decide)]

/-- The starts after recording are the ones before it and the recorded one. -/
theorem exists_mem_record (h : m.WellFormed) {time : Time} (htime : time < Time.last) {v : V}
    {s : Time} {w : V} :
    (∃ x ∈ (m.record time v).entries, x.1.lower = s ∧ x.2 = w) ↔
      if s = time then w = v else ∃ e ∈ m.entries, e.1.lower = s ∧ e.2 = w := by
  simp only [mem_record h htime]
  constructor
  · intro hx
    rcases hx with ⟨x, rfl | ⟨hx, hmiss⟩ | ⟨e, he, ⟨hlo, _⟩, rfl⟩, rfl, rfl⟩
    · rw [if_pos (Interval.between_lower _ _)]
    · have hne : x.1.lower ≠ time := by
        rintro rfl
        rcases hmiss with hbefore | hbehind
        · exact absurd (h.nonempty x hx) (UInt64.not_lt.mpr hbefore)
        · exact absurd hbehind (UInt64.lt_irrefl _)
      rw [if_neg hne]
      exact ⟨x, hx, rfl, rfl⟩
    · rw [Interval.before_lower, if_neg (UInt64.ne_of_lt hlo)]
      exact ⟨e, he, rfl, rfl⟩
  · by_cases hs : s = time
    · rw [if_pos hs]
      rintro rfl
      exact ⟨_, Or.inl rfl, by rw [hs, Interval.between_lower], rfl⟩
    · rw [if_neg hs]
      intro he
      rcases he with ⟨e, he, rfl, rfl⟩
      by_cases hcut : e.1.lower < time ∧ time < e.1.upper
      · exact ⟨_, Or.inr (Or.inr ⟨e, he, hcut, rfl⟩), Interval.before_lower _ _, rfl⟩
      · -- An entry that is not cut is over by then or starts later.
        have hmiss : e.1.upper ≤ time ∨ time < e.1.lower := by
          rcases UInt64.lt_or_lt_of_ne hs with hlo | hlater
          · exact Or.inl (UInt64.not_lt.mp fun hup => hcut ⟨hlo, hup⟩)
          · exact Or.inr hlater
        exact ⟨e, Or.inr (Or.inl ⟨he, hmiss⟩), rfl, rfl⟩

/-- Recording leaves no gap: the new entry ends where the old one or the next
    one did, and a cut entry ends at the new one. -/
theorem record_ends {known : Time → Option V} (h : m.Tiles known) {time : Time}
    (htime : time < Time.last) {v : V} {x : Interval × V} (hx : x ∈ (m.record time v).entries) :
    x.1.upper = Time.last ∨ ∃ y ∈ (m.record time v).entries, y.1.lower = x.1.upper := by
  have hstart : ∀ s, (s = time ∨ ∃ e ∈ m.entries, e.1.lower = s) →
      ∃ y ∈ (m.record time v).entries, y.1.lower = s := by
    intro s hs
    -- A start that is recorded over has the new value, any other its old one.
    have hiff (w : V) := exists_mem_record h.wellFormed htime (v := v) (s := s) (w := w)
    by_cases hst : s = time
    · rcases (hiff v).mpr (by rw [if_pos hst]) with ⟨y, hy, hlow, _⟩
      exact ⟨y, hy, hlow⟩
    · rcases hs.resolve_left hst with ⟨e, he, hlow⟩
      rcases (hiff e.2).mpr (by rw [if_neg hst]; exact ⟨e, he, hlow, rfl⟩) with ⟨y, hy, hylow, _⟩
      exact ⟨y, hy, hylow⟩
  rcases (mem_record h.wellFormed htime).mp hx with rfl | ⟨hx, _⟩ | ⟨e, he, ⟨hlo, hup⟩, rfl⟩
  · rcases next_bounds h.wellFormed htime with ⟨hlt, _, hends⟩
    rw [Interval.between_upper (UInt64.le_of_lt hlt)]
    exact hends.imp id (fun hnext => hstart _ (Or.inr hnext))
  · exact (h.ends x hx).imp id (fun hnext => hstart _ (Or.inr hnext))
  · rw [Interval.before_upper (UInt64.le_of_lt hlo) (UInt64.le_of_lt hup)]
    exact Or.inr (hstart time (Or.inl rfl))

/-- Recording at a time changes what is known at that time. -/
theorem Tiles.record {known : Time → Option V} (h : m.Tiles known) (time : Time) (v : V) :
    (m.record time v).Tiles (fun s => if s = time then some v else known s) := by
  rcases UInt64.lt_or_eq_of_le (Time.le_last time) with htime | rfl
  · refine ⟨wellFormed_set h.wellFormed _ v, fun s w => ?_, fun x hx => record_ends h htime hx⟩
    rw [exists_mem_record h.wellFormed htime, h.starts]
    by_cases hs : s = time
    · rw [if_pos hs, if_pos hs, hs, Option.some.injEq]
      exact ⟨fun hw => ⟨htime, hw.symm⟩, fun hw => hw.2.symm⟩
    · rw [if_neg hs, if_neg hs]
  · -- What is known at the end of time is not asked for.
    rw [record_last]
    refine ⟨h.wellFormed, fun s w => ?_, h.ends⟩
    rw [h.starts]
    refine and_congr_right fun hs => ?_
    rw [if_neg (UInt64.ne_of_lt hs)]

/-- The value at a time is the last one known until then. -/
theorem Tiles.at?_eq_some_iff {known : Time → Option V} (h : m.Tiles known) {time : Time}
    (htime : time < Time.last) {v : V} :
    m.at? time = some v ↔
      ∃ s ≤ time, known s = some v ∧ ∀ later ≤ time, s < later → known later = none := by
  rw [IntervalMap.at?_eq_some_iff h.wellFormed]
  constructor
  · intro hv
    rcases hv with ⟨e, he, hin, rfl⟩
    rw [Interval.contains_iff] at hin
    have hknown := ((h.starts _ _).mp ⟨e, he, rfl, rfl⟩).2
    refine ⟨e.1.lower, hin.1, hknown, fun later hle hlater => ?_⟩
    cases hw : known later with
    | none => rfl
    | some w =>
        -- An entry would start there, and this one would be over.
        have hlast := UInt64.lt_of_le_of_lt hle htime
        rcases (h.starts later w).mpr ⟨hlast, hw⟩ with ⟨f, hf, rfl, _⟩
        have hover := h.wellFormed.disjoint e he f hf hlater
        exact absurd hin.2 (UInt64.not_lt.mpr (UInt64.le_trans hover hle))
  · intro hknown
    rcases hknown with ⟨s, hle, hknown, hlatest⟩
    have hlast := UInt64.lt_of_le_of_lt hle htime
    rcases (h.starts s v).mpr ⟨hlast, hknown⟩ with ⟨e, he, rfl, rfl⟩
    refine ⟨e, he, (Interval.contains_iff _ _).mpr ⟨hle, ?_⟩, rfl⟩
    have hne := h.wellFormed.nonempty e he
    rcases h.ends e he with hlast | ⟨f, hf, hnext⟩
    · rwa [hlast]
    · -- The entry that starts where this one ends would know better.
      have hf' := ((h.starts _ _).mp ⟨f, hf, rfl, rfl⟩).2
      rw [hnext] at hf'
      refine UInt64.not_le.mp fun hup => ?_
      rw [hlatest e.1.upper hup hne] at hf'
      contradiction

/-- No value is lost: where one is known at a time or before it, there is one. -/
theorem Tiles.exists_at? {known : Time → Option V} (h : m.Tiles known) {time : Time}
    (htime : time < Time.last) {s : Time} (hle : s ≤ time) {v : V} (hs : known s = some v) :
    ∃ w, m.at? time = some w := by
  -- Go on to later times at which a value is known, until there are none.
  induction hgap : time.toNat - s.toNat using Nat.strongRecOn generalizing s v with
  | ind gap ih =>
      by_cases hlater : ∃ later ≤ time, s < later ∧ ∃ w, known later = some w
      · rcases hlater with ⟨later, hle', hlt, w, hw⟩
        rw [UInt64.le_iff_toNat_le] at hle'
        rw [UInt64.lt_iff_toNat_lt] at hlt
        exact ih _ (by omega) (UInt64.le_iff_toNat_le.mpr hle') hw rfl
      · refine ⟨v, (h.at?_eq_some_iff htime).mpr ⟨s, hle, hs, fun later hle' hlt => ?_⟩⟩
        rw [Option.eq_none_iff_forall_ne_some]
        exact fun w hw => hlater ⟨later, hle', hlt, w, hw⟩

/-- An entry of one of two maps that know the same is an entry of the other. -/
theorem Tiles.mem_of_mem {known : Time → Option V} {n : IntervalMap V} (hm : m.Tiles known)
    (hn : n.Tiles known) {e : Interval × V} (he : e ∈ m.entries) : e ∈ n.entries := by
  have starts {a b : IntervalMap V} (ha : a.Tiles known) (hb : b.Tiles known)
      {x : Interval × V} (hx : x ∈ a.entries) :
      ∃ y ∈ b.entries, y.1.lower = x.1.lower ∧ y.2 = x.2 :=
    (hb.starts _ _).mpr ((ha.starts _ _).mp ⟨x, hx, rfl, rfl⟩)
  -- An entry ends where the next one starts, and the next starts are the same.
  have ends {a b : IntervalMap V} (ha : a.Tiles known) (hb : b.Tiles known)
      {x y : Interval × V} (hx : x ∈ a.entries) (hy : y ∈ b.entries)
      (hxy : y.1.lower = x.1.lower) : y.1.upper ≤ x.1.upper := by
    rcases ha.ends x hx with hlast | ⟨f, hf, hnext⟩
    · rw [hlast]
      exact Time.le_last _
    · rcases starts ha hb hf with ⟨g, hg, hlow, _⟩
      have hne := ha.wellFormed.nonempty x hx
      have hyg : y.1.lower < g.1.lower := by
        rw [hxy, hlow, hnext]
        exact hne
      rw [← hnext, ← hlow]
      exact hb.wellFormed.disjoint y hy g hg hyg
  rcases starts hm hn he with ⟨y, hy, hlow, hval⟩
  have hup : y.1.upper = e.1.upper :=
    UInt64.le_antisymm (ends hm hn he hy hlow) (ends hn hm hy he hlow.symm)
  have hey : e = y := by
    rcases e with ⟨⟨_, _, _⟩, _⟩
    rcases y with ⟨⟨_, _, _⟩, _⟩
    simp_all only
  rwa [hey]

/-- What is known determines the entries. -/
theorem Tiles.unique {known : Time → Option V} {n : IntervalMap V} (hm : m.Tiles known)
    (hn : n.Tiles known) : m = n := by
  have : Std.Irrefl fun a b : Interval × V => a.1.lower < b.1.lower := ⟨fun _ => UInt64.lt_irrefl _⟩
  have : Std.Antisymm fun a b : Interval × V => a.1.lower < b.1.lower :=
    ⟨fun _ _ hab hba => absurd hba (UInt64.lt_asymm hab)⟩
  have heq : m.entries = n.entries :=
    hm.wellFormed.sorted.eq_of_mem_iff hn.wellFormed.sorted
      fun _ => ⟨hm.mem_of_mem hn, hn.mem_of_mem hm⟩
  cases m
  cases n
  exact congrArg IntervalMap.mk heq

end IntervalMap

end KlvMetadata
