import KlvMetadata.Table
import Mathlib.Data.List.Nodup

/-!
# Numbers in Order of Appearance

A table hands out numbers if a key that is not in it is set down with the count of keys
until then. Nobody looks for a number that is free, and none is needed. Since keys come to
the end of the table and stay there, the number of a key is its place, from zero on.

Numbers are words of 64 bits, so the places count only as far as these reach.

## Main definitions

* `Table.Counted`: The numbers of a table are the places of its keys.

## Theorems

* `Table.Counted.findOrInsert`: Setting a key down with the count keeps this.
* `Table.Counted.find?_eq`: The number of a key is its place among the keys.
-/

namespace KlvMetadata

namespace Table

variable {κ : Type} {t : Table κ UInt64} {key : κ}

/-- The keys have the numbers from zero on, in order of their appearance. -/
def Counted (t : Table κ UInt64) : Prop :=
  t.slots.map Prod.snd = (List.range t.size).map UInt64.ofNat

theorem counted_empty : (empty : Table κ UInt64).Counted := rfl

variable [DecidableEq κ]

/-- The next number is how many there are. -/
theorem Counted.findOrInsert (h : t.Counted) (key : κ) :
    (t.findOrInsert key (UInt64.ofNat t.size)).2.Counted := by
  unfold Counted size at h ⊢
  rw [slots_findOrInsert]
  split
  · exact h
  · rw [List.map_append, h, List.length_append, List.length_singleton, List.range_succ,
      List.map_append]
    rfl

theorem keys_findOrInsert (t : Table κ UInt64) (key : κ) (number : UInt64) :
    (t.findOrInsert key number).2.keys = if key ∈ t.keys then t.keys else t.keys ++ [key] := by
  rw [keys, slots_findOrInsert]
  split
  · rfl
  · rw [List.map_append, ← keys]
    rfl

/-- The number of a key is its place among the keys. -/
theorem Counted.find?_eq (h : t.Counted) (key : κ) :
    t.find? key = if key ∈ t.keys then some (UInt64.ofNat (t.keys.idxOf key)) else none := by
  split
  · next hmem =>
    -- The slot at the place of the key holds the key and its number.
    have hkey : (t.slots.map Prod.fst)[t.keys.idxOf key]? = some key := List.getElem?_idxOf hmem
    rw [List.getElem?_map, Option.map_eq_some_iff] at hkey
    obtain ⟨⟨key, number⟩, hslot, rfl⟩ := hkey
    have hlt : t.keys.idxOf key < t.size := (List.getElem?_eq_some_iff.mp hslot).1
    have hnumber : (t.slots.map Prod.snd)[t.keys.idxOf key]? = some number := by
      rw [List.getElem?_map, hslot]
      rfl
    rw [h, List.getElem?_map, List.getElem?_range hlt] at hnumber
    rw [find?_eq_some_iff, Option.some.inj hnumber]
    exact List.mem_of_getElem? hslot
  · next hnew => exact find?_eq_none_iff.mpr hnew

end Table

end KlvMetadata
