import KlvMetadata.Value.Order

/-!
# The Order of Sort Keys

Sort keys are compared from the left, at every depth. This is a linear order,
which takes three facts: only equal keys compare as equal, swapping the keys
swaps the outcome, and what comes before a key comes before everything behind
it. Keys nest in lists and lists in keys, so each fact is proved of both at
once.

Sorting by a linear order forgets where everything stood. So two sets with the
same entries in different places have the same key.

## Theorems

* `SortKey.compare_eq_iff`, `compare_swap`, `compare_trans`: A linear order.
* `SortKey.ofUnordered_perm`: The key of a collection forgets its order.
* `Value.beq_iff`: Values are equal when their sort keys are.
* `Value.localSet_beq`: Sets are equal if their entries are, in some order.
-/

namespace KlvMetadata

namespace SortKey

mutual

/-- Only equal keys compare as equal. -/
theorem compare_eq_iff : (x y : SortKey) → (compare x y = .eq ↔ x = y)
  | .number m, .number n => by
      unfold compare
      rw [Std.LawfulEqOrd.compare_eq_iff_eq, number.injEq]
  | .number m, .sequence ys => by simp [compare]
  | .sequence xs, .number n => by simp [compare]
  | .sequence xs, .sequence ys => by
      unfold compare
      rw [compareAll_eq_iff xs ys, sequence.injEq]

theorem compareAll_eq_iff : (xs ys : List SortKey) → (compareAll xs ys = .eq ↔ xs = ys)
  | [], [] => by simp [compareAll]
  | [], y :: ys => by simp [compareAll]
  | x :: xs, [] => by simp [compareAll]
  | x :: xs, y :: ys => by
      unfold compareAll
      rw [Ordering.then_eq_eq, compare_eq_iff x y, compareAll_eq_iff xs ys, List.cons.injEq]

end

mutual

/-- Swapping the keys swaps the outcome. -/
theorem compare_swap : (x y : SortKey) → (compare x y).swap = compare y x
  | .number m, .number n => by
      unfold compare
      exact Int.compare_swap m n
  | .number m, .sequence ys => by simp [compare]
  | .sequence xs, .number n => by simp [compare]
  | .sequence xs, .sequence ys => by
      unfold compare
      exact compareAll_swap xs ys

theorem compareAll_swap : (xs ys : List SortKey) → (compareAll xs ys).swap = compareAll ys xs
  | [], [] => by simp [compareAll]
  | [], y :: ys => by simp [compareAll]
  | x :: xs, [] => by simp [compareAll]
  | x :: xs, y :: ys => by
      unfold compareAll
      rw [Ordering.swap_then, compare_swap x y, compareAll_swap xs ys]

end

mutual

/-- What comes before a key comes before everything behind it. -/
theorem compare_trans : (x y z : SortKey) → compare x y = .lt → compare y z = .lt →
    compare x z = .lt
  | .number m, .number n, .number k, hxy, hyz => by
      unfold compare at *
      exact Std.TransCmp.lt_trans hxy hyz
  | .number m, .number n, .sequence zs, _, _ => by simp [compare]
  | .number m, .sequence ys, .sequence zs, _, _ => by simp [compare]
  | .sequence xs, .sequence ys, .sequence zs, hxy, hyz => by
      unfold compare at *
      exact compareAll_trans xs ys zs hxy hyz
  | _, .sequence _, .number _, _, hyz => by simp [compare] at hyz
  | .sequence _, .number _, _, hxy, _ => by simp [compare] at hxy

theorem compareAll_trans : (xs ys zs : List SortKey) → compareAll xs ys = .lt →
    compareAll ys zs = .lt → compareAll xs zs = .lt
  | [], _ :: _, _ :: _, _, _ => by simp [compareAll]
  | x :: xs, y :: ys, z :: zs, hxy, hyz => by
      unfold compareAll at *
      rw [Ordering.then_eq_lt] at *
      -- The first places decide unless they agree; equal places are the same key.
      rcases hxy with hxy | ⟨hxy, hxys⟩
      · rcases hyz with hyz | ⟨hyz, _⟩
        · exact Or.inl (compare_trans x y z hxy hyz)
        · rw [compare_eq_iff] at hyz
          exact Or.inl (hyz ▸ hxy)
      · rw [compare_eq_iff] at hxy
        subst hxy
        rcases hyz with hyz | ⟨hyz, hyzs⟩
        · exact Or.inl hyz
        · exact Or.inr ⟨hyz, compareAll_trans xs ys zs hxys hyzs⟩
  | [], [], _, hxy, _ => by simp [compareAll] at hxy
  | _ :: _, [], _, hxy, _ => by simp [compareAll] at hxy
  | _, _ :: _, [], _, hyz => by simp [compareAll] at hyz

end

theorem precedes_iff (x y : SortKey) : precedes x y = true ↔ compare x y = .lt ∨ x = y := by
  unfold precedes
  rw [← compare_eq_iff]
  cases compare x y <;> simp

theorem precedes_total (x y : SortKey) : (precedes x y || precedes y x) = true := by
  unfold precedes
  rw [← compare_swap x y]
  cases compare x y <;> simp

theorem precedes_trans (x y z : SortKey) (hxy : precedes x y = true) (hyz : precedes y z = true) :
    precedes x z = true := by
  rw [precedes_iff] at *
  rcases hxy with hxy | rfl
  · rcases hyz with hyz | rfl
    · exact Or.inl (compare_trans x y z hxy hyz)
    · exact Or.inl hxy
  · exact hyz

theorem precedes_antisymm {x y : SortKey} (hxy : precedes x y = true)
    (hyx : precedes y x = true) : x = y := by
  rw [precedes_iff] at *
  rcases hxy with hxy | rfl
  · rcases hyx with hyx | rfl
    · -- Both cannot come first.
      rw [← compare_swap, hxy] at hyx
      contradiction
    · rfl
  · rfl

/-- The key of a collection forgets its order. -/
theorem ofUnordered_perm {keys keys' : List SortKey} (h : keys.Perm keys') :
    ofUnordered keys = ofUnordered keys' := by
  -- A linear order has one way only to sort the same keys.
  have hsorted (l : List SortKey) : (l.mergeSort precedes).Pairwise fun a b => precedes a b :=
    List.pairwise_mergeSort precedes_trans precedes_total l
  have hperm : (keys.mergeSort precedes).Perm (keys'.mergeSort precedes) :=
    ((List.mergeSort_perm keys precedes).trans h).trans (List.mergeSort_perm keys' precedes).symm
  unfold ofUnordered
  rw [List.Perm.eq_of_pairwise (fun _ _ _ _ => precedes_antisymm) (hsorted keys) (hsorted keys')
    hperm]

end SortKey

namespace Value

/-- Values are equal when their sort keys are. -/
theorem beq_iff (v w : Value) : (v == w) = true ↔ v.sortKey = w.sortKey := by
  rw [← SortKey.compare_eq_iff]
  change (v.sortKey.compare w.sortKey == .eq) = true ↔ _
  rw [beq_iff_eq]

theorem localSortKeys_eq_map (entries : List (UInt64 × Value)) :
    localSortKeys entries =
      entries.map fun e => .sequence [.ofNat e.1.toNat, e.2.sortKey] := by
  induction entries with
  | nil => simp [localSortKeys]
  | cons e entries ih => simp [localSortKeys, ih]

/-- Sets are equal if their entries are, in some order. -/
theorem localSet_beq {entries entries' : List (UInt64 × Value)} (hint hint' : Nat)
    (h : (localSortKeys entries).Perm (localSortKeys entries')) :
    ((⟨some (.localSet entries), hint⟩ : Value) == ⟨some (.localSet entries'), hint'⟩) = true := by
  rw [beq_iff]
  simp only [sortKey, Item.sortKey, Item.kind, SortKey.ofUnordered_perm h]

end Value

end KlvMetadata
