import KlvMetadata.Timeline.IntervalMap

/-!
# Spans Under Their Lower Ends

What the operations on spans do to the entries, said by membership. A list of
spans is a map keyed by the lower end, so a write can do damage in two ways. It
can land on a key that is already taken and replace an entry nobody meant to
touch, or it can leave out the rest of an entry that reaches beyond the written
part. Membership shows both: an entry lost or a part lost is a missing member.

`WellFormed` is what rules the damage out. Two entries that do not overlap
cannot both reach beyond the upper end of an interval, so at most one tail is
put back, and nothing can start where that tail starts. Cutting keeps it,
because parts of entries stay as far apart as the entries are.

Cutting an interval out takes two passes, one over the entry around the lower
end and one over the entries that start inside. The first pass leaves nothing
that reaches into the interval from below, which is what the second relies on.
`mem_cut` puts the passes together, and from there on nobody looks at them
again.

## Main definitions

* `Spans.Sorted`: The lower ends increase.
* `Spans.WellFormed`: Sorted, none empty, and no two overlap.
* `Spans.RemainsAround`: What the first pass leaves of an entry.
* `Spans.Remains`: One entry is a part of another outside an interval.

## Theorems

* `mem_put`: Putting an entry in place replaces the one under its key.
* `around?_eq_some_iff`: Finding the entry that goes on beyond a time.
* `lookup_eq_some_iff`: Finding the entry that contains a time.
* `lower_ne_upper`: Nothing starts where a tail does.
* `wellFormed_of_parts`: Parts of well-formed entries.
* `mem_cutAround`, `cutInside_spec`: What each pass of cutting leaves.
* `mem_cut`: Cutting leaves the parts outside the interval.
* `wellFormed_cut`: Cutting keeps spans well-formed.
-/

namespace KlvMetadata

namespace Interval

theorem lt_of_not_isEmpty {i : Interval} (h : ¬ i.isEmpty) : i.lower < i.upper := by
  rw [isEmpty, decide_eq_true_eq] at h
  exact (UInt64.lt_or_eq_of_le i.lower_le_upper).resolve_right h

@[simp]
theorem contains_iff (i : Interval) (time : Time) :
    i.contains time = true ↔ i.lower ≤ time ∧ time < i.upper := by
  simp only [contains, Bool.and_eq_true, decide_eq_true_eq]

theorem between_lower (lower upper : Time) : (between lower upper).lower = lower := by
  rw [between]
  split <;> rfl

theorem between_upper {lower upper : Time} (h : lower ≤ upper) :
    (between lower upper).upper = upper := by
  rw [between, dif_pos h]

theorem before_lower (i : Interval) (time : Time) : (i.before time).lower = i.lower :=
  between_lower _ _

theorem before_upper {i : Interval} {time : Time} (hl : i.lower ≤ time) (hu : time ≤ i.upper) :
    (i.before time).upper = time := by
  rw [before, if_neg (UInt64.not_lt.mpr hu), between_upper hl]

theorem after_lower {i : Interval} {time : Time} (hl : i.lower ≤ time) :
    (i.after time).lower = time := by
  rw [after, between_lower]
  by_cases hlt : i.lower < time
  · rw [if_pos hlt]
  · rw [if_neg hlt]
    exact UInt64.le_antisymm hl (UInt64.not_lt.mp hlt)

theorem after_upper {i : Interval} {time : Time} (hu : time ≤ i.upper) :
    (i.after time).upper = i.upper := by
  rw [after, between_upper]
  split
  · exact hu
  · exact i.lower_le_upper

end Interval

namespace Spans

variable {V : Type}

/-- The lower ends increase, so no two entries share one. -/
def Sorted (spans : Spans V) : Prop :=
  spans.Pairwise fun a b => a.1.lower < b.1.lower

/-- In order, none empty, and each over before a later one starts. -/
structure WellFormed (spans : Spans V) : Prop where
  sorted : Sorted spans
  nonempty : ∀ e ∈ spans, e.1.lower < e.1.upper
  disjoint : ∀ a ∈ spans, ∀ b ∈ spans, a.1.lower < b.1.lower → a.1.upper ≤ b.1.lower

theorem eq_of_lower_eq {spans : Spans V} (h : Sorted spans) {a b : Interval × V}
    (ha : a ∈ spans) (hb : b ∈ spans) (heq : a.1.lower = b.1.lower) : a = b := by
  induction spans with
  | nil => exact absurd ha List.not_mem_nil
  | cons e spans ih =>
      rw [Sorted, List.pairwise_cons] at h
      rcases List.mem_cons.mp ha with rfl | ha' <;> rcases List.mem_cons.mp hb with rfl | hb'
      · rfl
      · exact absurd heq (UInt64.ne_of_lt (h.1 b hb'))
      · exact absurd heq.symm (UInt64.ne_of_lt (h.1 a ha'))
      · exact ih h.2 ha' hb'

/-- An entry that goes on beyond a time starts no earlier than any other that
    starts before that time. -/
theorem WellFormed.lower_le {spans : Spans V} (h : WellFormed spans) {a e : Interval × V}
    {time : Time} (ha : a ∈ spans) (he : e ∈ spans) (hlo : a.1.lower ≤ time)
    (hup : time < e.1.upper) : a.1.lower ≤ e.1.lower := by
  refine UInt64.not_lt.mp fun hlt => ?_
  -- If `a` started later, `e` would be over by then.
  have hover := h.disjoint e he a ha hlt
  exact UInt64.lt_irrefl time (UInt64.lt_of_lt_of_le hup (UInt64.le_trans hover hlo))

/-- Entries that share a time are the same. -/
theorem WellFormed.eq_of_contains {spans : Spans V} (h : WellFormed spans) {a b : Interval × V}
    {time : Time} (ha : a ∈ spans) (hb : b ∈ spans) (hat : a.1.lower ≤ time ∧ time < a.1.upper)
    (hbt : b.1.lower ≤ time ∧ time < b.1.upper) : a = b :=
  eq_of_lower_eq h.sorted ha hb
    (UInt64.le_antisymm (h.lower_le ha hb hat.1 hbt.2) (h.lower_le hb ha hbt.1 hat.2))

/-- Putting an entry in place replaces the one under its key and no other. -/
theorem mem_put {entry x : Interval × V} {spans : Spans V} (h : Sorted spans) :
    x ∈ put entry spans ↔ x = entry ∨ (x ∈ spans ∧ x.1.lower ≠ entry.1.lower) := by
  induction spans with
  | nil => simp only [put, List.mem_singleton, List.not_mem_nil, false_and, or_false]
  | cons e spans ih =>
      rw [Sorted, List.pairwise_cons] at h
      simp only [put]
      by_cases hlt : entry.1.lower < e.1.lower
      · -- Everything from here on starts later, so nothing is replaced.
        have hlater : ∀ y ∈ e :: spans, y.1.lower ≠ entry.1.lower := by
          intro y hy heq
          rcases List.mem_cons.mp hy with rfl | hy'
          · exact UInt64.ne_of_lt hlt heq.symm
          · exact UInt64.ne_of_lt (UInt64.lt_trans hlt (h.1 y hy')) heq.symm
        rw [if_pos hlt, List.mem_cons]
        exact or_congr_right ⟨fun hx => ⟨hx, hlater x hx⟩, fun hx => hx.1⟩
      · rw [if_neg hlt]
        by_cases hgt : e.1.lower < entry.1.lower
        · -- The head stays, and the rest is as the induction says.
          rw [if_pos hgt, List.mem_cons, ih h.2, List.mem_cons]
          constructor
          · intro hx
            rcases hx with rfl | rfl | ⟨hx, hne⟩
            · exact Or.inr ⟨Or.inl rfl, UInt64.ne_of_lt hgt⟩
            · exact Or.inl rfl
            · exact Or.inr ⟨Or.inr hx, hne⟩
          · intro hx
            rcases hx with rfl | ⟨rfl | hx, hne⟩
            · exact Or.inr (Or.inl rfl)
            · exact Or.inl rfl
            · exact Or.inr (Or.inr ⟨hx, hne⟩)
        · -- The head has the key, and nothing behind it does.
          have hkey : e.1.lower = entry.1.lower :=
            UInt64.le_antisymm (UInt64.not_lt.mp hlt) (UInt64.not_lt.mp hgt)
          rw [if_neg hgt, List.mem_cons, List.mem_cons]
          refine or_congr_right ⟨fun hx => ⟨Or.inr hx, fun heq => ?_⟩, fun ⟨hx, hne⟩ => ?_⟩
          · exact UInt64.ne_of_lt (h.1 x hx) (hkey.trans heq.symm)
          · rcases hx with rfl | hx
            · exact absurd hkey hne
            · exact hx

theorem sorted_put {entry : Interval × V} {spans : Spans V} (h : Sorted spans) :
    Sorted (put entry spans) := by
  induction spans with
  | nil => exact List.pairwise_singleton _ _
  | cons e spans ih =>
      have hcons := h
      rw [Sorted, List.pairwise_cons] at hcons
      simp only [put]
      by_cases hlt : entry.1.lower < e.1.lower
      · rw [if_pos hlt, Sorted, List.pairwise_cons]
        refine ⟨fun y hy => ?_, h⟩
        rcases List.mem_cons.mp hy with rfl | hy'
        · exact hlt
        · exact UInt64.lt_trans hlt (hcons.1 y hy')
      · rw [if_neg hlt]
        by_cases hgt : e.1.lower < entry.1.lower
        · rw [if_pos hgt, Sorted, List.pairwise_cons]
          refine ⟨fun y hy => ?_, ih hcons.2⟩
          rcases (mem_put hcons.2).mp hy with rfl | ⟨hy', _⟩
          · exact hgt
          · exact hcons.1 y hy'
        · have hkey : e.1.lower = entry.1.lower :=
            UInt64.le_antisymm (UInt64.not_lt.mp hlt) (UInt64.not_lt.mp hgt)
          rw [if_neg hgt, Sorted, List.pairwise_cons, ← hkey]
          exact hcons

@[simp]
theorem mem_without {lower : Time} {x : Interval × V} {spans : Spans V} :
    x ∈ without lower spans ↔ x ∈ spans ∧ x.1.lower ≠ lower := by
  simp only [without, List.mem_filter, decide_eq_true_eq]

theorem sorted_without {lower : Time} {spans : Spans V} (h : Sorted spans) :
    Sorted (without lower spans) :=
  List.Pairwise.filter _ h

/-- The last entry with a property is the one with the greatest lower end. -/
theorem getLast?_filter_eq_some_iff {p : Interval × V → Bool} {spans : Spans V} (h : Sorted spans)
    {e : Interval × V} :
    (spans.filter p).getLast? = some e ↔
      e ∈ spans ∧ p e ∧ ∀ x ∈ spans, p x → x.1.lower ≤ e.1.lower := by
  have hsorted : Sorted (spans.filter p) := List.Pairwise.filter _ h
  constructor
  · intro hlast
    rcases List.getLast?_eq_some_iff.mp hlast with ⟨ys, hys⟩
    have he : e ∈ spans.filter p := by
      rw [hys]
      exact List.mem_append_right _ List.mem_cons_self
    refine ⟨(List.mem_filter.mp he).1, (List.mem_filter.mp he).2, fun x hx hpx => ?_⟩
    have hx' : x ∈ ys ++ [e] := by
      rw [← hys]
      exact List.mem_filter.mpr ⟨hx, hpx⟩
    -- The last entry stands behind all others, so it starts after them.
    rw [hys, Sorted, List.pairwise_append] at hsorted
    rcases List.mem_append.mp hx' with hys' | hlast'
    · exact UInt64.le_of_lt (hsorted.2.2 x hys' e List.mem_cons_self)
    · rw [List.mem_singleton.mp hlast']
      exact UInt64.le_refl _
  · intro he
    rcases he with ⟨he, hpe, hmax⟩
    have he' : e ∈ spans.filter p := List.mem_filter.mpr ⟨he, hpe⟩
    cases hlast : (spans.filter p).getLast? with
    | none =>
        rw [List.getLast?_eq_none_iff.mp hlast] at he'
        exact absurd he' List.not_mem_nil
    | some l =>
        have hl := List.mem_filter.mp (List.mem_of_getLast? hlast)
        have hle := hmax l hl.1 hl.2
        rcases List.getLast?_eq_some_iff.mp hlast with ⟨ys, hys⟩
        rw [hys, List.mem_append] at he'
        rw [hys, Sorted, List.pairwise_append] at hsorted
        rcases he' with hys' | hlast'
        · -- Then the last entry would start after the greatest start.
          have hlt := hsorted.2.2 e hys' l List.mem_cons_self
          exact absurd hle (UInt64.not_le.mpr hlt)
        · rw [List.mem_singleton.mp hlast']

theorem around?_eq_some_iff {time : Time} {spans : Spans V} (h : WellFormed spans)
    {e : Interval × V} :
    around? time spans = some e ↔ e ∈ spans ∧ e.1.lower < time ∧ time < e.1.upper := by
  rw [around?, Option.filter_eq_some_iff, lastBefore?, getLast?_filter_eq_some_iff h.sorted]
  simp only [decide_eq_true_eq]
  constructor
  · intro he
    rcases he with ⟨⟨hmem, hlt, _⟩, hup⟩
    exact ⟨hmem, hlt, hup⟩
  · intro he
    rcases he with ⟨hmem, hlt, hup⟩
    exact ⟨⟨hmem, hlt, fun x hx hxlt => h.lower_le hx hmem (UInt64.le_of_lt hxlt) hup⟩, hup⟩

theorem lookup_eq_some_iff {time : Time} {spans : Spans V} (h : WellFormed spans)
    {e : Interval × V} :
    ((lastUpTo? time spans).filter fun e => time < e.1.upper) = some e ↔
      e ∈ spans ∧ e.1.contains time := by
  rw [Option.filter_eq_some_iff, lastUpTo?, getLast?_filter_eq_some_iff h.sorted]
  simp only [decide_eq_true_eq, Interval.contains_iff]
  constructor
  · intro he
    rcases he with ⟨⟨hmem, hle, _⟩, hup⟩
    exact ⟨hmem, hle, hup⟩
  · intro he
    rcases he with ⟨hmem, hle, hup⟩
    exact ⟨⟨hmem, hle, fun x hx hxle => h.lower_le hx hmem hxle hup⟩, hup⟩

/-- The part of an entry behind an interval. -/
def tail (i : Interval) (e : Interval × V) : Interval × V := (e.1.after i.upper, e.2)

/-- The part of an entry before an interval. -/
def head (i : Interval) (e : Interval × V) : Interval × V := (e.1.before i.lower, e.2)

theorem head_bounds {i : Interval} {e : Interval × V} (hlo : e.1.lower < i.lower)
    (hup : i.lower < e.1.upper) :
    (head i e).1.lower = e.1.lower ∧ (head i e).1.upper = i.lower :=
  ⟨Interval.before_lower _ _, Interval.before_upper (UInt64.le_of_lt hlo) (UInt64.le_of_lt hup)⟩

theorem tail_bounds {i : Interval} {e : Interval × V} (hlo : e.1.lower < i.upper)
    (hlong : i.upper < e.1.upper) :
    (tail i e).1.lower = i.upper ∧ (tail i e).1.upper = e.1.upper :=
  ⟨Interval.after_lower (UInt64.le_of_lt hlo), Interval.after_upper (UInt64.le_of_lt hlong)⟩

/-- Nothing starts where a tail does: it would start inside the entry with the
    tail. -/
theorem WellFormed.lower_ne_upper {spans : Spans V} (h : WellFormed spans) {i : Interval}
    {e y : Interval × V} (he : e ∈ spans) (hlo : e.1.lower < i.upper)
    (hlong : i.upper < e.1.upper) (hy : y ∈ spans) : y.1.lower ≠ i.upper := by
  intro heq
  have hle := h.lower_le hy he (UInt64.le_of_eq heq) hlong
  rw [heq] at hle
  exact absurd hlo (UInt64.not_lt.mpr hle)

theorem sorted_keepTail {i : Interval} {e : Interval × V} {spans : Spans V} (h : Sorted spans) :
    Sorted (keepTail i e spans) := by
  rw [keepTail]
  split
  · exact sorted_put h
  · exact h

/-- Putting a tail back adds it, provided that nothing starts where it does. -/
theorem mem_keepTail {i : Interval} {e x : Interval × V} {spans : Spans V} (h : Sorted spans)
    (hlo : e.1.lower < i.upper)
    (hfree : i.upper < e.1.upper → ∀ y ∈ spans, y.1.lower ≠ i.upper) :
    x ∈ keepTail i e spans ↔ x ∈ spans ∨ (i.upper < e.1.upper ∧ x = tail i e) := by
  rw [keepTail]
  by_cases hlong : i.upper < e.1.upper
  · rw [if_pos hlong, mem_put h, Interval.after_lower (UInt64.le_of_lt hlo), ← tail]
    constructor
    · intro hx
      rcases hx with hx | ⟨hx, _⟩
      · exact Or.inr ⟨hlong, hx⟩
      · exact Or.inl hx
    · intro hx
      rcases hx with hx | ⟨_, hx⟩
      · exact Or.inr ⟨hx, hfree hlong x hx⟩
      · exact Or.inl hx
  · rw [if_neg hlong]
    exact ⟨Or.inl, fun hx => hx.elim id fun htail => absurd htail.1 hlong⟩

/-- Parts of well-formed entries are well-formed as soon as the parts of each
    entry are. -/
theorem wellFormed_of_parts {Part : Interval × V → Interval × V → Prop} {spans parts : Spans V}
    (h : WellFormed spans) (hsorted : Sorted parts)
    (hparts : ∀ x ∈ parts, ∃ e ∈ spans, Part e x)
    (hbounds : ∀ e ∈ spans, ∀ x, Part e x →
      x.1.lower < x.1.upper ∧ e.1.lower ≤ x.1.lower ∧ x.1.upper ≤ e.1.upper)
    (hsame : ∀ e ∈ spans, ∀ x y, Part e x → Part e y → x.1.lower < y.1.lower →
      x.1.upper ≤ y.1.lower) :
    WellFormed parts := by
  refine ⟨hsorted, fun x hx => ?_, fun x hx y hy hlt => ?_⟩
  · rcases hparts x hx with ⟨e, he, hpart⟩
    exact (hbounds e he x hpart).1
  · rcases hparts x hx with ⟨a, ha, hxa⟩
    rcases hparts y hy with ⟨b, hb, hyb⟩
    rcases hbounds a ha x hxa with ⟨_, hxlo, hxup⟩
    rcases hbounds b hb y hyb with ⟨hy, hylo, hyup⟩
    by_cases hab : a.1.lower < b.1.lower
    · -- Parts of two entries stay as far apart as these.
      exact UInt64.le_trans hxup (UInt64.le_trans (h.disjoint a ha b hb hab) hylo)
    · by_cases hba : b.1.lower < a.1.lower
      · -- Then `y` would be over before `x` starts.
        have hyx := UInt64.le_trans hyup (UInt64.le_trans (h.disjoint b hb a ha hba) hxlo)
        exact absurd (UInt64.lt_trans hlt hy) (UInt64.not_lt.mpr hyx)
      · have hkey := UInt64.le_antisymm (UInt64.not_lt.mp hba) (UInt64.not_lt.mp hab)
        rw [← eq_of_lower_eq h.sorted ha hb hkey] at hyb
        exact hsame a ha x y hxa hyb hlt

/-- What the pass over the lower end leaves of an entry: its head and its tail
    if it reaches into the interval from below, else the entry itself. -/
def RemainsAround (i : Interval) (e x : Interval × V) : Prop :=
  (x = e ∧ ¬ (e.1.lower < i.lower ∧ i.lower < e.1.upper)) ∨
    ((e.1.lower < i.lower ∧ i.lower < e.1.upper) ∧
      (x = head i e ∨ (i.upper < e.1.upper ∧ x = tail i e)))

/-- Cutting out of the entry around the lower end leaves what remains of each,
    and nothing else. -/
theorem mem_cutAround {i : Interval} (hi : i.lower < i.upper) {spans : Spans V}
    (h : WellFormed spans) {x : Interval × V} :
    x ∈ cutAround i spans ↔ ∃ e ∈ spans, RemainsAround i e x := by
  rw [cutAround]
  cases hfind : around? i.lower spans with
  | none =>
      have hnone : ∀ e ∈ spans, ¬ (e.1.lower < i.lower ∧ i.lower < e.1.upper) := by
        intro e he hin
        rw [(around?_eq_some_iff h).mpr ⟨he, hin⟩] at hfind
        contradiction
      constructor
      · intro hx
        exact ⟨x, hx, Or.inl ⟨rfl, hnone x hx⟩⟩
      · intro hx
        rcases hx with ⟨e, he, ⟨rfl, _⟩ | ⟨hin, _⟩⟩
        · exact he
        · exact absurd hin (hnone e he)
  | some e =>
      rcases (around?_eq_some_iff h).mp hfind with ⟨he, hlo, hup⟩
      have hlow : e.1.lower < i.upper := UInt64.lt_trans hlo hi
      have hwithout : Sorted (without e.1.lower spans) := sorted_without h.sorted
      have hfree (hlong : i.upper < e.1.upper) (y : Interval × V)
          (hy : y ∈ without e.1.lower spans) : y.1.lower ≠ i.upper :=
        h.lower_ne_upper he hlow hlong (mem_without.mp hy).1
      -- No other entry reaches into the interval from below.
      have honly (y : Interval × V) (hy : y ∈ spans)
          (hin : y.1.lower < i.lower ∧ i.lower < y.1.upper) : y = e :=
        h.eq_of_contains hy he ⟨UInt64.le_of_lt hin.1, hin.2⟩ ⟨UInt64.le_of_lt hlo, hup⟩
      simp only []
      rw [mem_put (sorted_keepTail hwithout), Interval.before_lower, ← head,
        mem_keepTail hwithout hlow hfree, mem_without]
      constructor
      · intro hx
        rcases hx with hx | ⟨⟨hx, hne⟩ | hx, _⟩
        · exact ⟨e, he, Or.inr ⟨⟨hlo, hup⟩, Or.inl hx⟩⟩
        · exact ⟨x, hx, Or.inl ⟨rfl, fun hin => hne (by rw [honly x hx hin])⟩⟩
        · exact ⟨e, he, Or.inr ⟨⟨hlo, hup⟩, Or.inr hx⟩⟩
      · intro hx
        rcases hx with ⟨y, hy, ⟨rfl, hout⟩ | ⟨hin, hpart⟩⟩
        · have hne : x.1.lower ≠ e.1.lower := by
            intro heq
            rw [eq_of_lower_eq h.sorted hy he heq] at hout
            exact hout ⟨hlo, hup⟩
          exact Or.inr ⟨Or.inl ⟨hy, hne⟩, hne⟩
        · obtain rfl := honly y hy hin
          rcases hpart with hx | ⟨hlong, hx⟩
          · exact Or.inl hx
          · have hne : x.1.lower ≠ y.1.lower := by
              rw [hx, (tail_bounds hlow hlong).1]
              exact (UInt64.ne_of_lt hlow).symm
            exact Or.inr ⟨Or.inr ⟨hlong, hx⟩, hne⟩

theorem sorted_cutAround {i : Interval} {spans : Spans V} (h : Sorted spans) :
    Sorted (cutAround i spans) := by
  rw [cutAround]
  split
  · exact h
  · exact sorted_put (sorted_keepTail (sorted_without h))

theorem RemainsAround.bounds {i : Interval} (hi : i.lower < i.upper) {e x : Interval × V}
    (he : e.1.lower < e.1.upper) (h : RemainsAround i e x) :
    x.1.lower < x.1.upper ∧ e.1.lower ≤ x.1.lower ∧ x.1.upper ≤ e.1.upper := by
  rcases h with ⟨rfl, _⟩ | ⟨⟨hlo, hup⟩, rfl | ⟨hlong, rfl⟩⟩
  · exact ⟨he, UInt64.le_rfl, UInt64.le_rfl⟩
  · rw [(head_bounds hlo hup).1, (head_bounds hlo hup).2]
    exact ⟨hlo, UInt64.le_rfl, UInt64.le_of_lt hup⟩
  · have hlow := UInt64.lt_trans hlo hi
    rw [(tail_bounds hlow hlong).1, (tail_bounds hlow hlong).2]
    exact ⟨hlong, UInt64.le_of_lt hlow, UInt64.le_rfl⟩

/-- Only a head stands before another part of its entry, the tail. -/
theorem RemainsAround.upper_le {i : Interval} (hi : i.lower < i.upper) {e x y : Interval × V}
    (hx : RemainsAround i e x) (hy : RemainsAround i e y) (hlt : x.1.lower < y.1.lower) :
    x.1.upper ≤ y.1.lower := by
  rcases hx with ⟨rfl, hout⟩ | ⟨hin, hx⟩
  · rcases hy with ⟨rfl, _⟩ | ⟨hin, _⟩
    · exact absurd hlt (UInt64.lt_irrefl _)
    · exact absurd hin hout
  · rcases hy with ⟨_, hout⟩ | ⟨_, hy⟩
    · exact absurd hin hout
    · have hhead := head_bounds hin.1 hin.2
      have htail := tail_bounds (e := e) (UInt64.lt_trans hin.1 hi)
      rcases hx with rfl | ⟨hlong, rfl⟩
      · rcases hy with rfl | ⟨hlong, rfl⟩
        · exact absurd hlt (UInt64.lt_irrefl _)
        · rw [hhead.2, (htail hlong).1]
          exact UInt64.le_of_lt hi
      · rcases hy with rfl | ⟨_, rfl⟩
        · rw [hhead.1, (htail hlong).1] at hlt
          exact absurd hlt (UInt64.lt_asymm (UInt64.lt_trans hin.1 hi))
        · exact absurd hlt (UInt64.lt_irrefl _)

theorem wellFormed_cutAround {i : Interval} (hi : i.lower < i.upper) {spans : Spans V}
    (h : WellFormed spans) : WellFormed (cutAround i spans) :=
  wellFormed_of_parts h (sorted_cutAround h.sorted) (fun _ hx => (mem_cutAround hi h).mp hx)
    (fun e he _ hx => hx.bounds hi (h.nonempty e he)) (fun _ _ _ _ hx hy => hx.upper_le hi hy)

/-- The pass over the entries that start inside, by induction on those that are
    still to come. Only the last of them can reach beyond the interval: another
    one after it would have to start behind the upper end. -/
theorem mem_foldl_keepTail {i : Interval} (inside : Spans V) :
    ∀ kept : Spans V, Sorted kept →
      inside.Pairwise (fun a b => a.1.upper ≤ b.1.lower) →
      (∀ e ∈ inside, i.contains e.1.lower) →
      (∀ e ∈ inside, i.upper < e.1.upper → ∀ y ∈ kept, y.1.lower ≠ i.upper) →
      Sorted (inside.foldl (fun kept e => keepTail i e (without e.1.lower kept)) kept) ∧
      ∀ x, x ∈ inside.foldl (fun kept e => keepTail i e (without e.1.lower kept)) kept ↔
        (x ∈ kept ∧ ∀ e ∈ inside, x.1.lower ≠ e.1.lower) ∨
          ∃ e ∈ inside, i.upper < e.1.upper ∧ x = tail i e := by
  induction inside with
  | nil =>
      intro kept hsorted _ _ _
      refine ⟨hsorted, fun x => ?_⟩
      simp only [List.foldl_nil, List.not_mem_nil, false_implies, implies_true, and_true,
        false_and, exists_false, or_false]
  | cons e rest ih =>
      intro kept hsorted hpair hin hfree
      rw [List.pairwise_cons] at hpair
      have hstart := (Interval.contains_iff _ _).mp (hin e List.mem_cons_self)
      rw [List.foldl_cons]
      by_cases hlong : i.upper < e.1.upper
      · -- An entry that goes on beyond the interval is the last one.
        have hrest : rest = [] := by
          refine List.eq_nil_iff_forall_not_mem.mpr (fun b hb => ?_)
          have hstart' := (Interval.contains_iff _ _).mp (hin b (List.mem_cons_of_mem _ hb))
          have hbehind := UInt64.lt_of_lt_of_le hlong (hpair.1 b hb)
          exact UInt64.lt_asymm hbehind hstart'.2
        subst hrest
        refine ⟨sorted_keepTail (sorted_without hsorted), fun x => ?_⟩
        rw [List.foldl_nil, mem_keepTail (sorted_without hsorted) hstart.2
          (fun _ y hy => hfree e List.mem_cons_self hlong y (mem_without.mp hy).1), mem_without]
        simp only [List.mem_singleton, forall_eq, exists_eq_left]
      · -- Nothing is put back, so the others find fewer entries and no new one.
        have hkept : keepTail i e (without e.1.lower kept) = without e.1.lower kept := by
          rw [keepTail, if_neg hlong]
        rw [hkept]
        rcases ih (without e.1.lower kept) (sorted_without hsorted) hpair.2
          (fun b hb => hin b (List.mem_cons_of_mem _ hb))
          (fun b hb hblong y hy =>
            hfree b (List.mem_cons_of_mem _ hb) hblong y (mem_without.mp hy).1) with
          ⟨hsorted', hmem⟩
        refine ⟨hsorted', fun x => ?_⟩
        rw [hmem x, mem_without]
        simp only [List.mem_cons, forall_eq_or_imp, exists_eq_or_imp, hlong, false_and, false_or,
          and_assoc]

theorem pairwise_upper_le {spans : Spans V} (h : WellFormed spans) :
    spans.Pairwise (fun a b => a.1.upper ≤ b.1.lower) :=
  List.Pairwise.imp_of_mem (fun ha hb hlt => h.disjoint _ ha _ hb hlt) h.sorted

/-- What cutting out of the entries that start inside leaves: the entries that
    start elsewhere, and the tail of one that goes on beyond the interval. -/
theorem cutInside_spec {i : Interval} {spans : Spans V} (h : WellFormed spans) :
    Sorted (cutInside i spans) ∧
      ∀ x, x ∈ cutInside i spans ↔
        (x ∈ spans ∧ ¬ i.contains x.1.lower) ∨
          ∃ e ∈ spans, i.contains e.1.lower ∧ i.upper < e.1.upper ∧ x = tail i e := by
  have hmem_inside (e : Interval × V) :
      e ∈ startingIn i spans ↔ e ∈ spans ∧ i.contains e.1.lower := by
    rw [startingIn, List.mem_filter]
  rcases mem_foldl_keepTail (i := i) (startingIn i spans) spans h.sorted
    (List.Pairwise.filter _ (pairwise_upper_le h))
    (fun e he => ((hmem_inside e).mp he).2)
    (fun e he hlong y hy =>
      h.lower_ne_upper ((hmem_inside e).mp he).1
        ((Interval.contains_iff _ _).mp ((hmem_inside e).mp he).2).2 hlong hy) with
    ⟨hsorted, hmem⟩
  refine ⟨hsorted, fun x => ?_⟩
  rw [cutInside, hmem x]
  constructor
  · intro hx
    rcases hx with ⟨hx, hne⟩ | ⟨e, he, hlong, rfl⟩
    · exact Or.inl ⟨hx, fun hc => hne x ((hmem_inside x).mpr ⟨hx, hc⟩) rfl⟩
    · exact Or.inr ⟨e, ((hmem_inside e).mp he).1, ((hmem_inside e).mp he).2, hlong, rfl⟩
  · intro hx
    rcases hx with ⟨hx, hc⟩ | ⟨e, he, hc, hlong, rfl⟩
    · refine Or.inl ⟨hx, fun e he heq => hc ?_⟩
      rw [heq]
      exact ((hmem_inside e).mp he).2
    · exact Or.inr ⟨e, (hmem_inside e).mpr ⟨he, hc⟩, hlong, rfl⟩

/-- An entry is what remains of another outside an interval: the other itself
    if the two do not meet, else its head or its tail. -/
def Remains (i : Interval) (e x : Interval × V) : Prop :=
  (x = e ∧ (e.1.upper ≤ i.lower ∨ i.upper ≤ e.1.lower)) ∨
    (x = head i e ∧ e.1.lower < i.lower ∧ i.lower < e.1.upper) ∨
    (x = tail i e ∧ e.1.lower < i.upper ∧ i.upper < e.1.upper)

/-- Both passes together leave what remains of each entry, and nothing else. -/
theorem mem_cut {i : Interval} (hi : i.lower < i.upper) {spans : Spans V} (h : WellFormed spans)
    {x : Interval × V} :
    x ∈ cutInside i (cutAround i spans) ↔ ∃ e ∈ spans, Remains i e x := by
  rw [(cutInside_spec (wellFormed_cutAround hi h)).2 x, Interval.contains_iff]
  constructor
  · intro hx
    rcases hx with ⟨hx, hout⟩ | ⟨y, hy, hin, hlong, rfl⟩
    · rcases (mem_cutAround hi h).mp hx with
        ⟨e, he, ⟨rfl, hnot⟩ | ⟨⟨hlo, hup⟩, rfl | ⟨hlong, rfl⟩⟩⟩
      · -- An entry that neither pass cuts is over before the interval or starts behind it.
        refine ⟨x, he, Or.inl ⟨rfl, ?_⟩⟩
        by_cases hlo : x.1.lower < i.lower
        · exact Or.inl (UInt64.not_lt.mp fun hup => hnot ⟨hlo, hup⟩)
        · exact Or.inr (UInt64.not_lt.mp fun hup => hout ⟨UInt64.not_lt.mp hlo, hup⟩)
      · exact ⟨e, he, Or.inr (Or.inl ⟨rfl, hlo, hup⟩)⟩
      · exact ⟨e, he, Or.inr (Or.inr ⟨rfl, UInt64.lt_trans hlo hi, hlong⟩)⟩
    · rw [Interval.contains_iff] at hin
      rcases (mem_cutAround hi h).mp hy with
        ⟨e, he, ⟨rfl, _⟩ | ⟨⟨hlo, hup⟩, rfl | ⟨hlong', rfl⟩⟩⟩
      · exact ⟨y, he, Or.inr (Or.inr ⟨rfl, hin.2, hlong⟩)⟩
      · -- The head of the entry around the lower end starts before the interval.
        rw [(head_bounds hlo hup).1] at hin
        exact absurd hlo (UInt64.not_lt.mpr hin.1)
      · -- Its tail starts behind.
        rw [(tail_bounds (UInt64.lt_trans hlo hi) hlong').1] at hin
        exact absurd hin.2 (UInt64.lt_irrefl _)
  · intro hx
    rcases hx with ⟨e, he, ⟨rfl, hmiss⟩ | ⟨rfl, hlo, hup⟩ | ⟨rfl, hlo, hlong⟩⟩
    · have hne := h.nonempty x he
      have hnot : ¬ (x.1.lower < i.lower ∧ i.lower < x.1.upper) := by
        intro hin
        rcases hin with ⟨hlo, hup⟩
        rcases hmiss with hbefore | hbehind
        · exact absurd hup (UInt64.not_lt.mpr hbefore)
        · exact absurd (UInt64.lt_trans hlo hi) (UInt64.not_lt.mpr hbehind)
      have hout : ¬ (i.lower ≤ x.1.lower ∧ x.1.lower < i.upper) := by
        intro hin
        rcases hin with ⟨hlo, hup⟩
        rcases hmiss with hbefore | hbehind
        · exact absurd hne (UInt64.not_lt.mpr (UInt64.le_trans hbefore hlo))
        · exact absurd hup (UInt64.not_lt.mpr hbehind)
      exact Or.inl ⟨(mem_cutAround hi h).mpr ⟨x, he, Or.inl ⟨rfl, hnot⟩⟩, hout⟩
    · refine Or.inl ⟨(mem_cutAround hi h).mpr ⟨e, he, Or.inr ⟨⟨hlo, hup⟩, Or.inl rfl⟩⟩, ?_⟩
      rw [(head_bounds hlo hup).1]
      exact fun hin => absurd hlo (UInt64.not_lt.mpr hin.1)
    · -- Which pass leaves the tail depends on where the entry starts.
      by_cases haround : e.1.lower < i.lower
      · have hin := And.intro haround (UInt64.lt_trans hi hlong)
        refine Or.inl ⟨(mem_cutAround hi h).mpr ⟨e, he, Or.inr ⟨hin, Or.inr ⟨hlong, rfl⟩⟩⟩, ?_⟩
        rw [(tail_bounds hlo hlong).1]
        exact fun hin => UInt64.lt_irrefl _ hin.2
      · have hnot : ¬ (e.1.lower < i.lower ∧ i.lower < e.1.upper) := fun hin => haround hin.1
        refine Or.inr ⟨e, (mem_cutAround hi h).mpr ⟨e, he, Or.inl ⟨rfl, hnot⟩⟩, ?_, hlong, rfl⟩
        rw [Interval.contains_iff]
        exact ⟨UInt64.not_lt.mp haround, hlo⟩

/-- What remains of an entry lies in it and does not meet the interval. -/
theorem Remains.bounds {i : Interval} {e x : Interval × V} (he : e.1.lower < e.1.upper)
    (h : Remains i e x) :
    x.1.lower < x.1.upper ∧ e.1.lower ≤ x.1.lower ∧ x.1.upper ≤ e.1.upper ∧ x.2 = e.2 ∧
      (x.1.upper ≤ i.lower ∨ i.upper ≤ x.1.lower) := by
  rcases h with ⟨rfl, hmiss⟩ | ⟨rfl, hlo, hup⟩ | ⟨rfl, hlo, hlong⟩
  · exact ⟨he, UInt64.le_rfl, UInt64.le_rfl, rfl, hmiss⟩
  · rw [(head_bounds hlo hup).1, (head_bounds hlo hup).2]
    exact ⟨hlo, UInt64.le_rfl, UInt64.le_of_lt hup, rfl, Or.inl UInt64.le_rfl⟩
  · rw [(tail_bounds hlo hlong).1, (tail_bounds hlo hlong).2]
    exact ⟨hlong, UInt64.le_of_lt hlo, UInt64.le_rfl, rfl, Or.inr UInt64.le_rfl⟩

/-- What remains covers every time of the entry outside the interval. -/
theorem Remains.exists_contains {i : Interval} {e : Interval × V} {time : Time}
    (hin : e.1.contains time) (hout : ¬ i.contains time) :
    ∃ x, Remains i e x ∧ x.1.contains time := by
  simp only [Interval.contains_iff] at hin hout ⊢
  by_cases hmiss : e.1.upper ≤ i.lower ∨ i.upper ≤ e.1.lower
  · exact ⟨e, Or.inl ⟨rfl, hmiss⟩, hin⟩
  · rw [not_or, UInt64.not_le, UInt64.not_le] at hmiss
    -- The time lies before the interval, in the head, or behind it, in the tail.
    by_cases hlt : time < i.lower
    · have hlo : e.1.lower < i.lower := UInt64.lt_of_le_of_lt hin.1 hlt
      refine ⟨head i e, Or.inr (Or.inl ⟨rfl, hlo, hmiss.1⟩), ?_⟩
      rw [(head_bounds hlo hmiss.1).1, (head_bounds hlo hmiss.1).2]
      exact ⟨hin.1, hlt⟩
    · have hge : i.upper ≤ time := UInt64.not_lt.mp fun hup => hout ⟨UInt64.not_lt.mp hlt, hup⟩
      have hlong : i.upper < e.1.upper := UInt64.lt_of_le_of_lt hge hin.2
      refine ⟨tail i e, Or.inr (Or.inr ⟨rfl, hmiss.2, hlong⟩), ?_⟩
      rw [(tail_bounds hmiss.2 hlong).1, (tail_bounds hmiss.2 hlong).2]
      exact ⟨hge, hin.2⟩

/-- Two parts of one entry follow each other: the earlier is its head and the
    later its tail. -/
theorem Remains.upper_le {i : Interval} (hi : i.lower < i.upper) {e x y : Interval × V}
    (he : e.1.lower < e.1.upper) (hx : Remains i e x) (hy : Remains i e y)
    (hlt : x.1.lower < y.1.lower) : x.1.upper ≤ y.1.lower := by
  rcases hx.bounds he with ⟨_, hxlo, _, _, hmiss⟩
  -- Every other part starts with the entry, and nothing stands before that.
  rcases hy with ⟨rfl, _⟩ | ⟨rfl, hlo, hup⟩ | ⟨rfl, hlo, hlong⟩
  · exact absurd hlt (UInt64.not_lt.mpr hxlo)
  · rw [(head_bounds hlo hup).1] at hlt
    exact absurd hlt (UInt64.not_lt.mpr hxlo)
  · rw [(tail_bounds hlo hlong).1] at hlt ⊢
    rcases hmiss with hbefore | hbehind
    · exact UInt64.le_trans hbefore (UInt64.le_of_lt hi)
    · exact absurd hlt (UInt64.not_lt.mpr hbehind)

theorem wellFormed_cut {i : Interval} (hi : i.lower < i.upper) {spans : Spans V}
    (h : WellFormed spans) : WellFormed (cutInside i (cutAround i spans)) := by
  refine wellFormed_of_parts h (cutInside_spec (wellFormed_cutAround hi h)).1
    (fun _ hx => (mem_cut hi h).mp hx) (fun e he x hx => ?_)
    (fun e he _ _ hx hy => hx.upper_le hi (h.nonempty e he) hy)
  rcases hx.bounds (h.nonempty e he) with ⟨hne, hlo, hup, _⟩
  exact ⟨hne, hlo, hup⟩

end Spans

end KlvMetadata
