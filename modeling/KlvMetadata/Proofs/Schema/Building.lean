import KlvMetadata.Format.Basic
import KlvMetadata.Proofs.Schema.Places
import Mathlib.Data.List.Sort

/-!
# What a Schema Is Built From

A schema is built from entries in any order, and the order should not matter. Entries
with tag zero stand for the unknown one and are set apart, the last of them being
taken. The others are listed by their tags. They clash if they share a tag or a key,
and a schema is built just if no two of them clash.

In a list without clashes at most one entry carries a tag or a key. So what is found at
the place of a tag is the first entry with it, and this is also the only one, wherever
it stood in the list, and sorting has one result. Tag zero and the keys of entries with
tag zero are not listed. They are not found, though there may be just one entry that
carries them.

## Main definitions

* `Schema.BuiltFrom`: What a schema makes of the entries it was built from.

## Theorems

* `Schema.findTag?_eq`, `Schema.findKey?_eq`: Going to a place is looking through the entries.
* `Schema.ofEntries_eq_ok_iff`: When a schema is built, and which.
* `Schema.find?_eq_some_iff`, `find?_eq_some_of_mem`: Without clashes, what is found is the
  only one, and the only one is found.
* `Schema.builtFrom_of_ofEntries`, `ofEntries_congr`: What a schema makes of its
  entries, and that their order does not count.
* `Schema.ofEntries_of_sorted`: Entries that are in order already.
* `Schema.ofFormats_registers`: All of this for schemas of formats.
* `Schema.zero_tag_is_not_found`: An entry that is the only one with its tag and is not
  found.
-/

namespace KlvMetadata

variable {F : Type}

namespace Schema

variable {fallback : Entry F} {entries other : List (Entry F)} {s : Schema F}

/-- What a schema makes of the entries it was built from: it lists those that do not have
    tag zero, in order of their tags, and its tables lead to the places where they stand
    then. An entry is found for a tag or a key if it is the only one of these that carries
    it, and for all other tags and keys there is the unknown one. That is the last entry
    with tag zero, or `fallback` if there is none. -/
structure BuiltFrom (s : Schema F) (fallback : Entry F) (entries : List (Entry F)) : Prop where
  sorted : s.entries.Pairwise fun a b => a.tag < b.tag
  perm : s.entries.Perm (listed entries)
  places : s.places.Locates s.entries
  findTag?_iff : ∀ tag e, s.findTag? tag = some e ↔ (listed entries).filter (·.tag = tag) = [e]
  findKey?_iff : ∀ key e,
    s.findKey? key = some e ↔ (listed entries).filter (·.key = some key) = [e]
  unknown : (∃ before after, entries = before ++ s.unknown :: after ∧ s.unknown.tag = 0 ∧
      ∀ e ∈ after, e.tag ≠ 0) ∨
    (s.unknown = fallback ∧ ∀ e ∈ entries, e.tag ≠ 0)
  byTag : ∀ e ∈ listed entries, s.byTag e.tag = e
  byKey : ∀ e ∈ listed entries, ∀ key, e.key = some key → s.byKey key = e
  byTag_other : ∀ tag, (∀ e ∈ listed entries, e.tag ≠ tag) → s.byTag tag = s.unknown
  byKey_other : ∀ key, (∀ e ∈ listed entries, e.key ≠ some key) → s.byKey key = s.unknown

/-- Going to the place of a tag is looking for the tag among the entries. -/
theorem findTag?_eq (h : s.places.Locates s.entries) (tag : UInt64) :
    s.findTag? tag = s.entries.find? (·.tag = tag) := by
  rw [findTag?, h.tags.bind_eq_find?]
  simp only [Option.some.injEq]

theorem findKey?_eq (h : s.places.Locates s.entries) (key : UniversalKey) :
    s.findKey? key = s.entries.find? (·.key = some key) :=
  h.keys.bind_eq_find? key

theorem ordered_perm (entries : List (Entry F)) : (ordered entries).Perm (listed entries) :=
  List.mergeSort_perm _ _

theorem consistent_perm (h : other.Perm entries) : Consistent other ↔ Consistent entries :=
  h.pairwise_iff fun hne hclash => hne hclash.symm

/-- A schema is built if no two of the entries that it is to list clash. -/
theorem ofEntries_eq_ok_iff :
    ofEntries fallback entries = .ok s ↔ Consistent (listed entries) ∧
      s = listing (ordered entries) (unknownAmong fallback entries) := by
  -- The places are set down in the order of tags, but clashes do not depend on it.
  have hadd (places : Places) : Places.addFrom 0 .empty (ordered entries) = .ok places ↔
      Consistent (listed entries) ∧ places = .putFrom 0 .empty (ordered entries) := by
    rw [← consistent_perm (ordered_perm entries)]
    exact Places.addFrom_eq_ok_iff Places.locates_nil consistent_nil
  rw [ofEntries]
  cases hplaces : Places.addFrom 0 .empty (ordered entries) with
  | error fault =>
      refine iff_of_false (by simp) fun ⟨hconsistent, _⟩ => ?_
      rw [(hadd _).mpr ⟨hconsistent, rfl⟩] at hplaces
      contradiction
  | ok places =>
      obtain ⟨hconsistent, rfl⟩ := (hadd places).mp hplaces
      rw [and_iff_right hconsistent, Except.ok.injEq, eq_comm]
      rfl

/-- Without clashes the order of tags is strict. -/
theorem ordered_sorted (h : Consistent (listed entries)) :
    (ordered entries).Pairwise fun a b => a.tag < b.tag := by
  have hle : (ordered entries).Pairwise fun a b => decide (a.tag ≤ b.tag) = true :=
    List.pairwise_mergeSort (fun a b c => by simpa using UInt64.le_trans)
      (fun a b => by simpa using UInt64.le_total a.tag b.tag) _
  have hne := (consistent_perm (ordered_perm entries)).mpr h
  -- Sorting allows equal tags, but entries with equal tags clash.
  refine hle.imp₂ (fun a b hle hne => ?_) hne
  exact UInt64.lt_of_le_of_ne (of_decide_eq_true hle) fun htag => hne (Or.inl htag)

/-- Without clashes at most one entry carries a tag or a key. -/
theorem carriers_cases (h : Consistent entries) {p : Entry F → Bool}
    (hp : ∀ a b, p a → p b → a.Clashes b) :
    entries.filter p = [] ∨ ∃ a, entries.filter p = [a] := by
  have hfilter : (entries.filter p).Pairwise fun _ _ => False :=
    List.pairwise_filter.mpr (h.imp fun hne ha hb => hne (hp _ _ ha hb))
  cases hcarry : entries.filter p with
  | nil => exact Or.inl rfl
  | cons a rest =>
      rw [hcarry, List.pairwise_cons] at hfilter
      -- A second one would clash with the first.
      have hrest : rest = [] := List.eq_nil_iff_forall_not_mem.mpr hfilter.1
      exact Or.inr ⟨a, by rw [hrest]⟩

/-- Without clashes, what is found for a tag or a key is the only entry that carries it. -/
theorem find?_eq_some_iff (h : Consistent entries) {p : Entry F → Bool}
    (hp : ∀ a b, p a → p b → a.Clashes b) {e : Entry F} :
    entries.find? p = some e ↔ entries.filter p = [e] := by
  rw [← List.head?_filter]
  rcases carriers_cases h hp with hnone | ⟨a, hone⟩
  · simp [hnone]
  · simp [hone]

/-- Without clashes, an entry that carries a tag or a key is the one that is found. -/
theorem find?_eq_some_of_mem (h : Consistent entries) {p : Entry F → Bool}
    (hp : ∀ a b, p a → p b → a.Clashes b) {e : Entry F} (he : e ∈ entries) (hcarry : p e) :
    entries.find? p = some e := by
  have hmem : e ∈ entries.filter p := List.mem_filter.mpr ⟨he, hcarry⟩
  rw [find?_eq_some_iff h hp]
  rcases carriers_cases h hp with hnone | ⟨a, hone⟩
  · exact absurd (hnone ▸ hmem) List.not_mem_nil
  · rw [hone, List.mem_singleton] at hmem
    rw [hone, hmem]

/-- The order in which a list stands does not count for what is the only one in it. -/
theorem filter_eq_singleton_iff {α : Type} {xs ys : List α} (h : xs.Perm ys) {p : α → Bool}
    {a : α} : xs.filter p = [a] ↔ ys.filter p = [a] := by
  rw [← List.perm_singleton, ← List.perm_singleton]
  exact ⟨(h.filter p).symm.trans, (h.filter p).trans⟩

theorem clashes_of_tag {tag : UInt64} (a b : Entry F) (ha : decide (a.tag = tag))
    (hb : decide (b.tag = tag)) : a.Clashes b :=
  Or.inl ((of_decide_eq_true ha).trans (of_decide_eq_true hb).symm)

theorem clashes_of_key {key : UniversalKey} (a b : Entry F) (ha : decide (a.key = some key))
    (hb : decide (b.key = some key)) : a.Clashes b :=
  Or.inr ⟨key, of_decide_eq_true ha, of_decide_eq_true hb⟩

/-- The unknown entry is the last one with tag zero, or the one to fall back to. -/
theorem unknownAmong_cases (fallback : Entry F) (entries : List (Entry F)) :
    (∃ before after, entries = before ++ unknownAmong fallback entries :: after ∧
        (unknownAmong fallback entries).tag = 0 ∧ ∀ e ∈ after, e.tag ≠ 0) ∨
      (unknownAmong fallback entries = fallback ∧ ∀ e ∈ entries, e.tag ≠ 0) := by
  rw [unknownAmong, List.getLast?_filter]
  -- The last entry with tag zero is the first one from behind.
  cases hlast : entries.reverse.find? (·.tag = 0) with
  | none =>
      refine Or.inr ⟨rfl, fun e he htag => ?_⟩
      have hnone := List.find?_eq_none.mp hlast e (List.mem_reverse.mpr he)
      exact hnone (decide_eq_true htag)
  | some e =>
      obtain ⟨htag, behind, before, hreverse, hbehind⟩ := List.find?_eq_some_iff_append.mp hlast
      refine Or.inl ⟨before.reverse, behind.reverse, ?_, of_decide_eq_true htag, fun x hx => ?_⟩
      · rw [← List.reverse_reverse entries, hreverse]
        simp
      · simpa using hbehind x (List.mem_reverse.mp hx)

/-- What a schema makes of the entries it was built from. -/
theorem builtFrom_of_ofEntries (h : ofEntries fallback entries = .ok s) :
    s.BuiltFrom fallback entries := by
  obtain ⟨hconsistent, rfl⟩ := ofEntries_eq_ok_iff.mp h
  -- Lookups go through the ordered entries, which are the listed ones in another order.
  have hperm := ordered_perm entries
  have hordered := (consistent_perm hperm).mpr hconsistent
  have hplaces := locates_listing hordered (unknownAmong fallback entries)
  refine ⟨ordered_sorted hconsistent, hperm, hplaces, fun tag e => ?_, fun key e => ?_,
    unknownAmong_cases fallback entries, fun e he => ?_, fun e he key hkey => ?_,
    fun tag hnone => ?_, fun key hnone => ?_⟩
  · rw [findTag?_eq hplaces, entries_listing, find?_eq_some_iff hordered clashes_of_tag,
      filter_eq_singleton_iff hperm]
  · rw [findKey?_eq hplaces, entries_listing, find?_eq_some_iff hordered clashes_of_key,
      filter_eq_singleton_iff hperm]
  · rw [byTag, findTag?_eq hplaces, entries_listing, find?_eq_some_of_mem hordered clashes_of_tag
      (hperm.mem_iff.mpr he) (decide_eq_true rfl), Option.getD_some]
  · rw [byKey, findKey?_eq hplaces, entries_listing, find?_eq_some_of_mem hordered clashes_of_key
      (hperm.mem_iff.mpr he) (decide_eq_true hkey), Option.getD_some]
  · have hfind : (ordered entries).find? (·.tag = tag) = none :=
      List.find?_eq_none.mpr fun e he htag =>
        hnone e (hperm.mem_iff.mp he) (of_decide_eq_true htag)
    rw [byTag, findTag?_eq hplaces, entries_listing, hfind, Option.getD_none]
  · have hfind : (ordered entries).find? (·.key = some key) = none :=
      List.find?_eq_none.mpr fun e he hkey =>
        hnone e (hperm.mem_iff.mp he) (of_decide_eq_true hkey)
    rw [byKey, findKey?_eq hplaces, entries_listing, hfind, Option.getD_none]

/-- A list without clashes can be put in order in one way only. -/
theorem ordered_congr (h : Consistent (listed entries))
    (hperm : (listed other).Perm (listed entries)) : ordered other = ordered entries := by
  have hother := (consistent_perm hperm).mpr h
  -- Both are strictly sorted, so nothing can change places.
  refine List.Perm.eq_of_pairwise (fun a b _ _ hlt hgt => ?_) (ordered_sorted hother)
    (ordered_sorted h) ((ordered_perm other).trans (hperm.trans (ordered_perm entries).symm))
  exact absurd (UInt64.lt_trans hlt hgt) (UInt64.lt_irrefl _)

/-- In which order the listed entries stand does not count, and neither does where those
    with tag zero stand among them. -/
theorem ofEntries_congr (h : ofEntries fallback entries = .ok s)
    (hperm : (listed other).Perm (listed entries))
    (hzero : other.filter (·.tag = 0) = entries.filter (·.tag = 0)) :
    ofEntries fallback other = .ok s := by
  obtain ⟨hconsistent, rfl⟩ := ofEntries_eq_ok_iff.mp h
  refine ofEntries_eq_ok_iff.mpr ⟨(consistent_perm hperm).mpr hconsistent, ?_⟩
  rw [ordered_congr hconsistent hperm, unknownAmong, unknownAmong, hzero]

/-- A schema is built from entries without keys that are in order already. -/
theorem ofEntries_of_sorted {unknown : Entry F}
    (hsorted : entries.Pairwise fun a b => a.tag < b.tag)
    (hplain : ∀ e ∈ entries, e.tag ≠ 0 ∧ e.key = none) :
    ofEntries unknown entries = .ok (.listing entries unknown) := by
  have hlisted : listed entries = entries :=
    List.filter_eq_self.mpr fun e he => decide_eq_true (hplain e he).1
  have hzero : entries.filter (·.tag = 0) = [] :=
    List.filter_eq_nil_iff.mpr fun e he htag => (hplain e he).1 (of_decide_eq_true htag)
  have hunknown : unknownAmong unknown entries = unknown := by
    rw [unknownAmong, hzero]
    rfl
  have hordered : ordered entries = entries := by
    rw [ordered, hlisted]
    exact List.mergeSort_of_pairwise (hsorted.imp fun hlt => decide_eq_true (UInt64.le_of_lt hlt))
  refine ofEntries_eq_ok_iff.mpr ⟨?_, by rw [hordered, hunknown]⟩
  rw [hlisted]
  refine hsorted.imp_of_mem fun {a b} ha hb hlt hclash => ?_
  rcases hclash with htag | ⟨key, hkey, _⟩
  · exact UInt64.ne_of_lt hlt htag
  · rw [(hplain a ha).2] at hkey
    contradiction

/-- A schema of formats is built just if no two entries that do not have tag zero share a
    tag or a key. It then lists these entries in order of their tags, finds an entry if it
    is the only one of them that carries a tag or key, and takes all else for the last
    entry with tag zero or for the common one. Entries in another order give the same. -/
theorem ofFormats_registers (entries : List (Entry Format)) :
    ((∃ s, ofFormats entries = .ok s) ↔ Consistent (listed entries)) ∧
    ∀ s, ofFormats entries = .ok s → s.BuiltFrom .unlisted entries ∧
      ∀ other : List (Entry Format), (listed other).Perm (listed entries) →
        other.filter (·.tag = 0) = entries.filter (·.tag = 0) → ofFormats other = .ok s := by
  refine ⟨?_, fun s h => ⟨builtFrom_of_ofEntries h, fun other => ofEntries_congr h⟩⟩
  constructor
  · rintro ⟨s, h⟩
    exact (ofEntries_eq_ok_iff.mp h).1
  · intro h
    exact ⟨_, ofEntries_eq_ok_iff.mpr ⟨h, rfl⟩⟩

/-- A key that two of the entries below have. -/
def sharedKey : UniversalKey := .ofHalves 0x060E2B3401010101 0x0101010100000000

/-- An entry that takes the place of the unknown one, and has a key. -/
def keyedUnknown : Entry Format := ⟨0, some sharedKey, .blob none, "Other", "", .any⟩

/-- An entry with the same key that is listed. -/
def keyedCount : Entry Format := ⟨1, some sharedKey, .unsigned none, "Count", "", .any⟩

/-- An entry without a key. -/
def plainRate : Entry Format := ⟨7, none, .frameRate, "Rate", "", .any⟩

/-- Three entries, one of them for the unknown ones, in two orders. -/
theorem ofFormats_registers_sample :
    ∃ s, ofFormats [plainRate, keyedUnknown, keyedCount] = .ok s ∧
      s.byTag 1 = keyedCount ∧ s.byKey sharedKey = keyedCount ∧ s.byTag 7 = plainRate ∧
      s.byTag 0 = s.unknown ∧ ofFormats [keyedCount, plainRate, keyedUnknown] = .ok s := by
  have hlisted : listed [plainRate, keyedUnknown, keyedCount] = [plainRate, keyedCount] := rfl
  have hconsistent : Consistent (listed [plainRate, keyedUnknown, keyedCount]) := by
    rw [hlisted]
    refine List.pairwise_pair.mpr ?_
    rintro (htag | ⟨_, hkey, _⟩) <;> contradiction
  obtain ⟨s, h⟩ := (ofFormats_registers _).1.mpr hconsistent
  obtain ⟨hbuilt, hother⟩ := (ofFormats_registers _).2 s h
  have hcount : keyedCount ∈ listed [plainRate, keyedUnknown, keyedCount] := by simp [hlisted]
  have hrate : plainRate ∈ listed [plainRate, keyedUnknown, keyedCount] := by simp [hlisted]
  refine ⟨s, h, hbuilt.byTag _ hcount, hbuilt.byKey _ hcount _ rfl, hbuilt.byTag _ hrate,
    hbuilt.byTag_other 0 fun e he => ?_, hother _ (List.Perm.swap _ _ _) rfl⟩
  exact of_decide_eq_true (List.mem_filter.mp he).2

/-- The entry is the only one with tag zero and is not found for it. It also shares its key,
    and still the other entry is found for that. -/
theorem zero_tag_is_not_found :
    let entries := [keyedUnknown, keyedCount]
    ∃ s, ofFormats entries = .ok s ∧
      entries.filter (·.tag = 0) = [keyedUnknown] ∧ s.findTag? 0 = none ∧
      entries.filter (·.key = some sharedKey) = [keyedUnknown, keyedCount] ∧
      s.findKey? sharedKey = some keyedCount := by
  have hordered : ordered [keyedUnknown, keyedCount] = [keyedCount] := List.mergeSort_singleton _
  refine ⟨.listing [keyedCount] keyedUnknown, ?_, rfl, rfl, rfl, rfl⟩
  refine ofEntries_eq_ok_iff.mpr ⟨List.pairwise_singleton _ _, ?_⟩
  rw [hordered]
  rfl

end Schema

end KlvMetadata
