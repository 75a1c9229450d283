import Mathlib.Data.List.Perm.Basic
import KlvMetadata.Proofs.Value.Order

/-!
# Collections Compared Without Their Order

Two collections whose order does not count are compared by sorting both and comparing
the results from the left. Sorting uses the order that the members have, and this may
hold members for equal that are not the same. Those stay as they were, so equal
collections need not be the same when they are sorted.

It does not matter. If the order of members is that of a key, it is the order of the
sorted keys, and keys that are equal are the same. So comparing collections can be
moved from members to keys, where sorting has one outcome only.

## Main definitions

* `compareUnordered`: Comparing sorted collections from the left.

## Theorems

* `compareUnordered_map`: Comparing by a key is comparing the keys.
* `SortKey.compare_ofUnordered`: What the keys of collections compare.
* `compareUnordered_eq_iff`: Collections are equal if their members are, in some order.
-/

namespace KlvMetadata

/-- Sort both collections and compare from the left: the first difference decides, and a
    collection comes before its continuations. -/
def compareUnordered {α : Type} (cmp : α → α → Ordering) (xs ys : List α) : Ordering :=
  List.compareLex cmp (xs.mergeSort fun a b => (cmp a b).isLE)
    (ys.mergeSort fun a b => (cmp a b).isLE)

section Keys

variable {α β : Type} {cmp : β → β → Ordering}

theorem compareLex_map (f : α → β) (xs ys : List α) :
    List.compareLex cmp (xs.map f) (ys.map f) =
      List.compareLex (fun a b => cmp (f a) (f b)) xs ys := by
  induction xs generalizing ys with
  | nil => cases ys <;> rfl
  | cons x xs ih =>
      cases ys with
      | nil => rfl
      | cons y ys =>
          rw [List.map_cons, List.map_cons, List.compareLex_cons_cons, List.compareLex_cons_cons,
            ih]

/-- Comparing by a key is comparing the keys. Members with the same key may stand in any
    order, since their keys do not show it. -/
theorem compareUnordered_map (f : α → β) (xs ys : List α) :
    compareUnordered cmp (xs.map f) (ys.map f) =
      compareUnordered (fun a b => cmp (f a) (f b)) xs ys := by
  have hsorted (l : List α) : (l.map f).mergeSort (fun a b => (cmp a b).isLE) =
      (l.mergeSort fun a b => (cmp (f a) (f b)).isLE).map f :=
    (List.map_mergeSort fun _ _ _ _ => by rfl).symm
  rw [compareUnordered, compareUnordered, hsorted, hsorted, compareLex_map]

end Keys

namespace SortKey

theorem precedes_eq_isLE (x y : SortKey) : precedes x y = (compare x y).isLE := by
  rw [precedes]
  cases compare x y <;> rfl

instance : Std.TransCmp compare where
  eq_swap := (compare_swap _ _).symm
  isLE_trans {x y z} hxy hyz := by
    rw [← precedes_eq_isLE] at *
    exact precedes_trans x y z hxy hyz

instance : Std.LawfulEqCmp compare where
  compare_self := (compare_eq_iff _ _).mpr rfl
  eq_of_compare := (compare_eq_iff _ _).mp

theorem compareAll_eq_compareLex (xs ys : List SortKey) :
    compareAll xs ys = List.compareLex compare xs ys := by
  induction xs generalizing ys with
  | nil => cases ys <;> simp [compareAll, List.compareLex]
  | cons x xs ih =>
      cases ys with
      | nil => simp [compareAll, List.compareLex]
      | cons y ys => rw [compareAll, ih, List.compareLex_cons_cons]

/-- The keys of collections compare the collections of keys. -/
theorem compare_ofUnordered (keys keys' : List SortKey) :
    (ofUnordered keys).compare (ofUnordered keys') = compareUnordered compare keys keys' := by
  have hle : precedes = fun x y => (compare x y).isLE := by
    funext x y
    exact precedes_eq_isLE x y
  rw [ofUnordered, ofUnordered, compare, compareAll_eq_compareLex, hle, compareUnordered]

/-- Collections with the same key have the same members, as often. -/
theorem ofUnordered_eq_iff {keys keys' : List SortKey} :
    ofUnordered keys = ofUnordered keys' ↔ keys.Perm keys' := by
  refine ⟨fun h => ?_, ofUnordered_perm⟩
  have hsorted := sequence.inj h
  exact (List.mergeSort_perm keys precedes).symm.trans
    (hsorted ▸ List.mergeSort_perm keys' precedes)

end SortKey

/-- Collections that are compared by a key are equal if and only if one can be put in an
    order in which its members are equal to those of the other, one by one. -/
theorem compareUnordered_eq_iff {α : Type} (key : α → SortKey) {xs ys : List α} :
    compareUnordered (fun a b => (key a).compare (key b)) xs ys = .eq ↔
      ∃ zs, xs.Perm zs ∧ List.Forall₂ (fun a b => (key a).compare (key b) = .eq) zs ys := by
  simp only [SortKey.compare_eq_iff]
  rw [← compareUnordered_map, ← SortKey.compare_ofUnordered, SortKey.compare_eq_iff,
    SortKey.ofUnordered_eq_iff]
  constructor
  · intro hperm
    have hkeys : List.Forall₂ (fun k x => k = key x) (xs.map key) xs :=
      List.forall₂_map_left_iff.mpr (List.forall₂_same.mpr fun _ _ => rfl)
    -- The order of the other's keys is made an order of the members.
    rcases List.perm_comp_forall₂ hperm.symm hkeys with ⟨zs, hzs, hmembers⟩
    refine ⟨zs, hmembers.symm, ?_⟩
    rw [List.forall₂_map_left_iff] at hzs
    exact hzs.flip.imp fun _ _ h => h.symm
  · rintro ⟨zs, hperm, hequal⟩
    have hkeys : zs.map key = ys.map key := by
      rw [← List.forall₂_eq_eq_eq, List.forall₂_map_left_iff, List.forall₂_map_right_iff]
      exact hequal
    exact (hperm.map key).trans (.of_eq hkeys)

end KlvMetadata
