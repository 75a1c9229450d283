import KlvMetadata.Proofs.Value.Order

/-!
# Values Without Their Hints

A value remembers how many bytes it was read from, and so does every value
inside a set. Reading back a value changes these hints and should change
nothing else. To say so, hints are taken out at every depth: values that are
the same without their hints have the same contents, with the entries of sets
in the same order. That is more than being equal as values, for which the order
of entries does not count.

## Main definitions

* `Value.unhinted`: The value with no hints in it.

## Theorems

* `Value.sortKey_unhinted`: Comparisons do not see hints.
* `Value.beq_of_unhinted`: Values that are the same but for hints are equal.
-/

namespace KlvMetadata

mutual

/-- The value with no hints in it. -/
def Value.unhinted : Value → Value
  | ⟨none, _⟩ => ⟨none, 0⟩
  | ⟨some item, _⟩ => ⟨some item.unhinted, 0⟩

/-- The item with no hints in it. -/
def Item.unhinted : Item → Item
  | .localSet entries => .localSet (localUnhinted entries)
  | .universalSet entries => .universalSet (universalUnhinted entries)
  | item => item

/-- The entries of a local set with no hints in them. -/
def localUnhinted : List (UInt64 × Value) → List (UInt64 × Value)
  | [] => []
  | (tag, v) :: entries => (tag, v.unhinted) :: localUnhinted entries

/-- The entries of a universal set with no hints in them. -/
def universalUnhinted : List (UniversalKey × Value) → List (UniversalKey × Value)
  | [] => []
  | (key, v) :: entries => (key, v.unhinted) :: universalUnhinted entries

end

theorem localUnhinted_eq_map (entries : List (UInt64 × Value)) :
    localUnhinted entries = entries.map fun e => (e.1, e.2.unhinted) := by
  induction entries with
  | nil => simp [localUnhinted]
  | cons e entries ih => simp [localUnhinted, ih]

theorem universalUnhinted_eq_map (entries : List (UniversalKey × Value)) :
    universalUnhinted entries = entries.map fun e => (e.1, e.2.unhinted) := by
  induction entries with
  | nil => simp [universalUnhinted]
  | cons e entries ih => simp [universalUnhinted, ih]

mutual

/-- Comparisons do not see hints. -/
theorem Value.sortKey_unhinted : (v : Value) → v.unhinted.sortKey = v.sortKey
  | ⟨none, _⟩ => by simp [Value.unhinted, Value.sortKey]
  | ⟨some item, _⟩ => by
      have hkind : item.unhinted.kind = item.kind := by
        cases item <;> simp [Item.unhinted, Item.kind]
      simp only [Value.unhinted, Value.sortKey, hkind, Item.sortKey_unhinted item]

theorem Item.sortKey_unhinted : (item : Item) → item.unhinted.sortKey = item.sortKey
  | .localSet entries => by
      simp only [Item.unhinted, Item.sortKey, localSortKeys_unhinted entries]
  | .universalSet entries => by
      simp only [Item.unhinted, Item.sortKey, universalSortKeys_unhinted entries]
  | .u8 _ | .u16 _ | .u32 _ | .u64 _ | .i8 _ | .i16 _ | .i32 _ | .i64 _ | .bool _ | .text _
  | .f64 _ | .f32 _ | .blob _ | .key _ | .command _ | .frameRate _ | .code _ _ | .packet _ => by
      simp only [Item.unhinted]

theorem localSortKeys_unhinted : (entries : List (UInt64 × Value)) →
    localSortKeys (localUnhinted entries) = localSortKeys entries
  | [] => by simp only [localUnhinted]
  | (tag, v) :: entries => by
      simp only [localUnhinted, localSortKeys, Value.sortKey_unhinted v,
        localSortKeys_unhinted entries]

theorem universalSortKeys_unhinted : (entries : List (UniversalKey × Value)) →
    universalSortKeys (universalUnhinted entries) = universalSortKeys entries
  | [] => by simp only [universalUnhinted]
  | (key, v) :: entries => by
      simp only [universalUnhinted, universalSortKeys, Value.sortKey_unhinted v,
        universalSortKeys_unhinted entries]

end

/-- Values that are the same but for hints are equal. -/
theorem Value.beq_of_unhinted {v w : Value} (h : v.unhinted = w.unhinted) : (v == w) = true := by
  rw [Value.beq_iff, ← Value.sortKey_unhinted v, ← Value.sortKey_unhinted w, h]

end KlvMetadata
