import KlvMetadata.Proofs.Schema.Building
import KlvMetadata.Proofs.St0601.Schema
import KlvMetadata.Set.Entries

/-!
# Counting What a Schema Wants

A schema says how often each of its entries may occur in a set. Whoever asks it about a
set is told which of them occur too rarely or too often. An entry is counted by its key,
and one that has no key in sets of this kind is not counted at all. All others are, also
those that do not occur.

Nothing but these counts is looked at. So it does not matter in which order a set is,
what its values are, or what else there is in it.

## Main definitions

* `Cardinality.Misses`: A count lies outside the bounds.
* `Entry.violation?`: What becomes of an entry that was counted.
* `Schema.Knows`: The key is that of an entry.

## Theorems

* `Schema.mem_violations_iff`, `Schema.violations_sorted`: What is told, and in which order.
* `Entries.violations_congr`: Only the counts of known keys matter.
* `Entries.violations_tell_counts`: Both of these for sets of either kind.
-/

namespace KlvMetadata

variable {F : Type}

/-- The count is below the minimum, or above the maximum if there is one. -/
def Cardinality.Misses (c : Cardinality) (count : Nat) : Prop :=
  count < c.min ∨ ∃ max, c.max = some max ∧ max < count

theorem Cardinality.not_contains_iff {c : Cardinality} {count : Nat} :
    ¬ c.contains count ↔ c.Misses count := by
  rcases c with ⟨min, max⟩
  cases max with
  | none => simp [contains, Misses]
  | some max =>
      simp only [contains, Misses, Bool.and_eq_true, decide_eq_true_iff, Option.some.injEq,
        exists_eq_left']
      omega

/-- The violation of an entry that was counted, if its cardinality does not allow the count. -/
def Entry.violation? (e : Entry F) : Option Nat → Option Violation
  | none => none
  | some count =>
    if e.cardinality.contains count then none else some ⟨e.tag, e.name, count, e.cardinality⟩

theorem Entry.violation?_eq_some_iff {e : Entry F} {counted : Option Nat} {x : Violation} :
    e.violation? counted = some x ↔ ∃ count, counted = some count ∧
      e.cardinality.Misses count ∧ x = ⟨e.tag, e.name, count, e.cardinality⟩ := by
  cases counted with
  | none => simp [violation?]
  | some count =>
      have hmisses : ¬ e.cardinality.contains count ↔ e.cardinality.Misses count :=
        Cardinality.not_contains_iff
      by_cases hin : e.cardinality.contains count
      · simp [violation?, hin, ← hmisses]
      · simp [violation?, hin, hmisses.mp hin, eq_comm]

namespace Schema

variable {s : Schema F} {countOf countOf' : Entry F → Option Nat}

/-- The key is that of an entry of the schema. -/
def Knows {κ : Type} [SetKey κ] (s : Schema F) (key : κ) : Prop :=
  ∃ e ∈ s.entries, SetKey.ofEntry? e = some key

instance {κ : Type} [DecidableEq κ] [SetKey κ] (s : Schema F) (key : κ) :
    Decidable (s.Knows key) :=
  inferInstanceAs (Decidable (∃ e ∈ s.entries, SetKey.ofEntry? e = some key))

/-- Each entry makes a violation or none. -/
theorem violations_eq_filterMap (s : Schema F) (countOf : Entry F → Option Nat) :
    s.violations countOf = s.entries.filterMap fun e => e.violation? (countOf e) := by
  rfl

/-- There is a violation for each entry with a count that its cardinality does not allow,
    and no other. -/
theorem mem_violations_iff {x : Violation} :
    x ∈ s.violations countOf ↔ ∃ e ∈ s.entries, ∃ count, countOf e = some count ∧
      e.cardinality.Misses count ∧ x = ⟨e.tag, e.name, count, e.cardinality⟩ := by
  simp only [violations_eq_filterMap, List.mem_filterMap, Entry.violation?_eq_some_iff]

/-- Violations come in the order of the entries. -/
theorem violations_sorted (h : s.entries.Pairwise fun a b => a.tag < b.tag) :
    (s.violations countOf).Pairwise fun x y => x.tag < y.tag := by
  refine List.Pairwise.filterMap _ (fun a b hlt x hx y hy => ?_) h
  obtain ⟨_, _, _, rfl⟩ := Entry.violation?_eq_some_iff.mp hx
  obtain ⟨_, _, _, rfl⟩ := Entry.violation?_eq_some_iff.mp hy
  exact hlt

theorem violations_congr (h : ∀ e ∈ s.entries, countOf e = countOf' e) :
    s.violations countOf = s.violations countOf' :=
  List.filterMap_congr fun e he => by rw [h e he]

end Schema

namespace Entries

variable {κ : Type} [DecidableEq κ] {entries other : Entries κ}

theorem count_eq_count_map (key : κ) :
    count key entries = (entries.map (·.1)).count key := by
  rw [count, all, List.length_map, ← List.countP_eq_length_filter, List.count, List.countP_map]
  rfl

variable [SetKey κ] {schema : Schema F}

/-- A key that the schema knows is counted as before if only such keys are kept. -/
theorem count_filter_knows {key : κ} (h : schema.Knows key) (entries : Entries κ) :
    count key (entries.filter fun e => schema.Knows e.1) = count key entries := by
  -- Whether an entry is kept is a matter of its key, so the keys are filtered.
  have hmap : (entries.filter fun e => schema.Knows e.1).map (·.1) =
      (entries.map (·.1)).filter fun key => schema.Knows key := by
    rw [List.filter_map]
    rfl
  rw [count_eq_count_map, count_eq_count_map, hmap]
  exact List.count_filter (decide_eq_true h)

/-- Only the counts of keys that the schema knows matter. -/
theorem violations_congr (h : ∀ key, schema.Knows key → count key other = count key entries) :
    other.violations schema = entries.violations schema := by
  refine Schema.violations_congr fun e he => ?_
  cases hkey : (SetKey.ofEntry? e : Option κ) with
  | none => rfl
  | some key => exact congrArg some (h key ⟨e, he, hkey⟩)

/-- There is a violation for each entry whose key occurs too rarely or too often. -/
theorem mem_violations_iff {x : Violation} :
    x ∈ entries.violations schema ↔ ∃ e ∈ schema.entries, ∃ key : κ,
      SetKey.ofEntry? e = some key ∧ e.cardinality.Misses ((entries.map (·.1)).count key) ∧
        x = ⟨e.tag, e.name, (entries.map (·.1)).count key, e.cardinality⟩ := by
  rw [violations, Schema.mem_violations_iff]
  simp only [Option.map_eq_some_iff, count_eq_count_map]
  constructor
  · rintro ⟨e, he, _, ⟨key, hkey, rfl⟩, hmisses, rfl⟩
    exact ⟨e, he, key, hkey, hmisses, rfl⟩
  · rintro ⟨e, he, key, hkey, hmisses, rfl⟩
    exact ⟨e, he, _, ⟨key, hkey, rfl⟩, hmisses, rfl⟩

/-- A schema that was built tells of a set of either kind, in order of tags and each once,
    which of its entries have a key that occurs too rarely or too often, and how often it
    does. It tells the same of a set in another order, of one with other values, and of
    one that differs only in keys which the schema does not know. -/
theorem violations_tell_counts {fallback : Entry F} {listed : List (Entry F)}
    (h : Schema.ofEntries fallback listed = .ok schema) (entries : Entries κ) :
    ((entries.violations schema).Pairwise fun x y => x.tag < y.tag) ∧
    (∀ x, x ∈ entries.violations schema ↔ ∃ e ∈ schema.entries, ∃ key : κ,
      SetKey.ofEntry? e = some key ∧ e.cardinality.Misses ((entries.map (·.1)).count key) ∧
        x = ⟨e.tag, e.name, (entries.map (·.1)).count key, e.cardinality⟩) ∧
    (∀ other : Entries κ, other.Perm entries →
      other.violations schema = entries.violations schema) ∧
    (∀ other : Entries κ, other.map (·.1) = entries.map (·.1) →
      other.violations schema = entries.violations schema) ∧
    ∀ other : Entries κ,
      (other.filter fun e => schema.Knows e.1) = (entries.filter fun e => schema.Knows e.1) →
      other.violations schema = entries.violations schema := by
  -- Each change of the set leaves the counts of known keys as they were.
  refine ⟨Schema.violations_sorted (Schema.builtFrom_of_ofEntries h).sorted,
    fun x => mem_violations_iff, fun other hperm => ?_, fun other hkeys => ?_,
    fun other hknown => ?_⟩
  · refine violations_congr fun key _ => ?_
    rw [count_eq_count_map, count_eq_count_map]
    exact (hperm.map _).count_eq key
  · refine violations_congr fun key _ => ?_
    rw [count_eq_count_map, count_eq_count_map, hkeys]
  · refine violations_congr fun key hkey => ?_
    rw [← count_filter_knows hkey other, hknown, count_filter_knows hkey]

/-- The schema of the standard told of a set that has two timestamps, no version number, and
    something under a tag that the standard does not know. -/
theorem violations_tell_counts_standard :
    let entries : Entries UInt64 := [(2, .empty), (200, .empty), (2, .empty)]
    Schema.ofEntries .unlisted St0601.schema.entries = .ok St0601.schema ∧
    (∃ x ∈ entries.violations St0601.schema, x.tag = 2 ∧ x.count = 2) ∧
    (∃ x ∈ entries.violations St0601.schema, x.tag = 65 ∧ x.count = 0) ∧
    violations St0601.schema [((2 : UInt64), .empty), (2, .empty)] =
      entries.violations St0601.schema := by
  intro entries
  have hbuilt : Schema.ofEntries .unlisted St0601.schema.entries = .ok St0601.schema :=
    St0601.ofFormats_schema
  obtain ⟨_, htold, _, _, hunknown⟩ := violations_tell_counts hbuilt entries
  have hlisted : (∃ e ∈ St0601.schema.entries, e.tag = 2 ∧ e.cardinality = .exactly 1) ∧
      ∃ e ∈ St0601.schema.entries, e.tag = 65 ∧ e.cardinality = .exactly 1 := by
    decide +kernel
  obtain ⟨⟨e, he, htag, hcardinality⟩, e', he', htag', hcardinality'⟩ := hlisted
  -- One of the two occurs too often, the other too rarely.
  refine ⟨hbuilt, ⟨_, (htold _).mpr ⟨e, he, 2, ?_, ?_, rfl⟩, htag, rfl⟩,
    ⟨_, (htold _).mpr ⟨e', he', 65, ?_, ?_, rfl⟩, htag', rfl⟩, hunknown _ ?_⟩
  · exact congrArg some htag
  · rw [hcardinality]
    exact Or.inr ⟨1, rfl, by decide⟩
  · exact congrArg some htag'
  · rw [hcardinality']
    exact Or.inl (by decide)
  · have hknows : St0601.schema.Knows (2 : UInt64) ∧ ¬ St0601.schema.Knows (200 : UInt64) := by
      decide +kernel
    simp [entries, hknows.1, hknows.2]

end Entries

end KlvMetadata
