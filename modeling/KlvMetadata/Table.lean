/-!
# Tables

Things are set down in a table under keys, each key at most once, and looked
up by their keys. What is set down under a new key goes to the end, so the
keys also tell in which order they came.

## Main definitions

* `Table`: Keys with what is set down under them.
* `Table.find?`: What is set down under a key.
* `Table.insert`: Setting something down, whatever was there.
* `Table.findOrInsert`: Setting something down if there is nothing yet.

## Theorems

* `Table.find?_eq_some_iff`: What is found under a key is set down under it.
* `Table.find?_insert`, `find?_findOrInsert`: What is found afterwards.
* `Table.slots_findOrInsert`: What is set down afterwards.
-/

namespace KlvMetadata

/-- Keys with what is set down under them, no key twice. -/
structure Table (κ α : Type) where
  slots : List (κ × α)
  nodup : (slots.map Prod.fst).Nodup

namespace Table

variable {κ α : Type}

/-- Nothing is set down. -/
def empty : Table κ α := ⟨[], List.nodup_nil⟩

/-- The keys in order of their appearance. -/
def keys (t : Table κ α) : List κ := t.slots.map Prod.fst

/-- How many keys there are. -/
def size (t : Table κ α) : Nat := t.slots.length

variable [DecidableEq κ]

/-- What is set down under a key. -/
def find? (t : Table κ α) (key : κ) : Option α :=
  (t.slots.find? (·.1 = key)).map Prod.snd

@[simp]
theorem find?_empty (key : κ) : (empty : Table κ α).find? key = none := rfl

/-- What is found under a key is set down under it, and nothing else is. -/
theorem find?_eq_some_iff {t : Table κ α} {key : κ} {a : α} :
    t.find? key = some a ↔ (key, a) ∈ t.slots := by
  rcases t with ⟨slots, hnodup⟩
  rw [find?]
  induction slots with
  | nil => simp
  | cons slot slots ih =>
      rcases slot with ⟨key', b⟩
      rw [List.map_cons, List.nodup_cons] at hnodup
      by_cases hkey : key' = key
      · -- The key does not stand in any other slot.
        subst hkey
        have hother : (key', a) ∉ slots := fun hmem =>
          hnodup.1 (List.mem_map.mpr ⟨(key', a), hmem, rfl⟩)
        simp [hother, eq_comm]
      · rw [List.find?_cons_of_neg (by simpa using hkey), ih hnodup.2]
        simp [Ne.symm hkey]

theorem find?_isSome_iff {t : Table κ α} {key : κ} : (t.find? key).isSome ↔ key ∈ t.keys := by
  simp [Option.isSome_iff_exists, find?_eq_some_iff, keys]

theorem find?_eq_none_iff {t : Table κ α} {key : κ} : t.find? key = none ↔ key ∉ t.keys := by
  rw [← find?_isSome_iff, Option.not_isSome_iff_eq_none]

/-- Set something down in the slot of a key, or in a new one at the end. -/
def insertSlot (key : κ) (a : α) : List (κ × α) → List (κ × α)
  | [] => [(key, a)]
  | (k, b) :: slots => if k = key then (key, a) :: slots else (k, b) :: insertSlot key a slots

theorem map_fst_insertSlot (key : κ) (a : α) (slots : List (κ × α)) :
    (insertSlot key a slots).map Prod.fst =
      if key ∈ slots.map Prod.fst then slots.map Prod.fst else slots.map Prod.fst ++ [key] := by
  induction slots with
  | nil => rfl
  | cons slot slots ih =>
      rcases slot with ⟨k, b⟩
      rw [insertSlot, List.map_cons]
      by_cases hkey : k = key
      · simp [hkey]
      · rw [if_neg hkey, List.map_cons, ih]
        by_cases hmem : key ∈ slots.map Prod.fst
        · rw [if_pos hmem, if_pos (List.mem_cons_of_mem k hmem)]
        · rw [if_neg hmem, if_neg, List.cons_append]
          exact fun hcons => hmem ((List.mem_cons.mp hcons).resolve_left (Ne.symm hkey))

/-- Set something down under a key, in place of what was there. -/
def insert (t : Table κ α) (key : κ) (a : α) : Table κ α where
  slots := insertSlot key a t.slots
  nodup := by
    rw [map_fst_insertSlot]
    split
    · exact t.nodup
    · -- The new slot comes behind slots of other keys.
      next hnew =>
      refine List.nodup_append.mpr ⟨t.nodup, by simp, fun k hk k' hk' heq => ?_⟩
      rw [heq, List.mem_singleton.mp hk'] at hk
      exact hnew hk

/-- What is set down under a key. If there is nothing, something is set down first. -/
def findOrInsert (t : Table κ α) (key : κ) (a : α) : α × Table κ α :=
  match t.find? key with
  | some old => (old, t)
  | none => (a, t.insert key a)

/-- The slots of other keys stay what they were. -/
theorem find?_insertSlot (key other : κ) (a : α) (slots : List (κ × α)) :
    ((insertSlot key a slots).find? (·.1 = other)).map Prod.snd =
      if other = key then some a else (slots.find? (·.1 = other)).map Prod.snd := by
  induction slots with
  | nil => by_cases h : key = other <;> simp [insertSlot, h, eq_comm (a := other)]
  | cons slot slots ih =>
      rcases slot with ⟨k, b⟩
      rw [insertSlot]
      by_cases hkey : k = key
      · by_cases hother : key = other <;> simp [hkey, hother, eq_comm (a := other)]
      · rw [if_neg hkey]
        by_cases hother : k = other
        · simp [← hother, hkey]
        · simpa [hother] using ih

/-- What is set down under a key is found, and all else is found as before. -/
theorem find?_insert (t : Table κ α) (key other : κ) (a : α) :
    (t.insert key a).find? other = if other = key then some a else t.find? other :=
  find?_insertSlot key other a t.slots

/-- A key that is set down already keeps what it has. -/
theorem find?_findOrInsert (t : Table κ α) (key other : κ) (a : α) :
    (t.findOrInsert key a).2.find? other =
      if other = key then some ((t.find? key).getD a) else t.find? other := by
  rw [findOrInsert]
  cases h : t.find? key with
  | none => exact find?_insert t key other a
  | some old =>
      by_cases hother : other = key
      · rw [if_pos hother, hother]
        exact h
      · rw [if_neg hother]

theorem fst_findOrInsert (t : Table κ α) (key : κ) (a : α) :
    (t.findOrInsert key a).1 = (t.find? key).getD a := by
  rw [findOrInsert]
  cases t.find? key <;> rfl

theorem insertSlot_of_notMem {key : κ} {slots : List (κ × α)} (h : key ∉ slots.map Prod.fst)
    (a : α) : insertSlot key a slots = slots ++ [(key, a)] := by
  induction slots with
  | nil => rfl
  | cons slot slots ih =>
      rcases slot with ⟨k, b⟩
      rw [List.map_cons, List.mem_cons, not_or] at h
      rw [insertSlot, if_neg (Ne.symm h.1), ih h.2, List.cons_append]

/-- A new key comes to the end, and nothing else happens. -/
theorem slots_findOrInsert (t : Table κ α) (key : κ) (a : α) :
    (t.findOrInsert key a).2.slots = if key ∈ t.keys then t.slots else t.slots ++ [(key, a)] := by
  rw [findOrInsert]
  cases h : t.find? key with
  | none =>
      have hnew : key ∉ t.keys := find?_eq_none_iff.mp h
      rw [if_neg hnew]
      exact insertSlot_of_notMem hnew a
  | some old =>
      have hmem : key ∈ t.keys := find?_isSome_iff.mp (Option.isSome_iff_exists.mpr ⟨old, h⟩)
      rw [if_pos hmem]

end Table

end KlvMetadata
