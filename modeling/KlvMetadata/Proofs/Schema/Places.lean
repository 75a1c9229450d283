import KlvMetadata.Schema.Basic

/-!
# Where Entries Stand

A schema does not look through its entries. It has a table of places for tags and one
for keys, and takes the entry that stands at the place it finds. This is right as long
as the tables are those of the list as it stands: a place that was set down before the
list was sorted, or by an entry that another one displaced, would lead to an entry with
another tag.

`Table.Locates` says of a table that it has each key just with the place of an element
that has this key, so both tables of a schema are right in the same sense. The loop that
fills them goes through the entries one after the other, and what it keeps is that the
tables are right for the entries it went through. An entry that shares its tag or its key
with one of these is where it stops. Any other entry comes next, and its place is how many
there were before it.

## Main definitions

* `Table.Locates`: A table leads to the elements of a list.
* `Entry.Clashes`, `Schema.Consistent`: Entries that share a tag or a key, and lists without.
* `Places.Locates`: Both tables lead to the entries of a list.

## Theorems

* `Table.Locates.concat`: The next element is set down with its place.
* `Table.Locates.bind_eq_find?`: Looking an element up is looking for it.
* `Places.add_eq_ok_iff`, `Locates.put`: One step of the loop, and what it keeps.
* `Places.addFrom_eq_ok_iff`, `Locates.putFrom`: The loop, and what it leads to.
* `Schema.locates_listing`: A list without clashes is looked up through its places.
-/

namespace KlvMetadata

section Tables

variable {κ α : Type} [DecidableEq κ] {t : Table κ Nat} {keyOf? : α → Option κ} {xs : List α}

/-- The table has each key with the place of an element that has this key, and no other
    keys. So no two elements have one key. -/
def Table.Locates (t : Table κ Nat) (keyOf? : α → Option κ) (xs : List α) : Prop :=
  ∀ key place, t.find? key = some place ↔ ∃ x, xs[place]? = some x ∧ keyOf? x = some key

theorem Table.locates_nil (keyOf? : α → Option κ) : (empty : Table κ Nat).Locates keyOf? [] := by
  intro key place
  simp

/-- The keys of the table are those that elements have. -/
theorem Table.Locates.isSome_iff (h : t.Locates keyOf? xs) (key : κ) :
    (t.find? key).isSome ↔ ∃ x ∈ xs, keyOf? x = some key := by
  simp only [Option.isSome_iff_exists, h key, List.mem_iff_getElem?]
  constructor
  · rintro ⟨place, x, hx, hkey⟩
    exact ⟨x, ⟨place, hx⟩, hkey⟩
  · rintro ⟨x, ⟨place, hx⟩, hkey⟩
    exact ⟨place, x, hx, hkey⟩

/-- Behind a list there is one place more. -/
theorem getElem?_concat_eq_some_iff (xs : List α) (last x : α) (place : Nat) :
    (xs ++ [last])[place]? = some x ↔ xs[place]? = some x ∨ place = xs.length ∧ last = x := by
  rw [List.getElem?_append]
  by_cases hlt : place < xs.length
  · simp [hlt, Nat.ne_of_lt hlt]
  · rw [if_neg hlt, List.getElem?_eq_none (Nat.not_lt.mp hlt), List.getElem?_singleton]
    by_cases hplace : place = xs.length
    · simp [hplace]
    · rw [if_neg (by omega)]
      simp [hplace]

/-- An element without a key is not looked up. -/
theorem Table.Locates.concat_of_none (h : t.Locates keyOf? xs) {x : α} (hx : keyOf? x = none) :
    t.Locates keyOf? (xs ++ [x]) := by
  intro key place
  rw [h key place]
  simp only [getElem?_concat_eq_some_iff]
  constructor
  · rintro ⟨y, hy, hkey⟩
    exact ⟨y, Or.inl hy, hkey⟩
  · rintro ⟨y, hy | ⟨_, rfl⟩, hkey⟩
    · exact ⟨y, hy, hkey⟩
    · rw [hx] at hkey
      contradiction

/-- The next element is set down with its place, which is how many there were before. -/
theorem Table.Locates.concat (h : t.Locates keyOf? xs) {x : α} {key : κ}
    (hx : keyOf? x = some key) (hnew : ∀ y ∈ xs, keyOf? y ≠ some key) :
    (t.insert key xs.length).Locates keyOf? (xs ++ [x]) := by
  intro other place
  rw [find?_insert]
  simp only [getElem?_concat_eq_some_iff]
  by_cases hother : other = key
  · -- No element before has the key, so its place is the last one.
    subst hother
    rw [if_pos rfl, Option.some.injEq]
    constructor
    · rintro rfl
      exact ⟨x, Or.inr ⟨rfl, rfl⟩, hx⟩
    · rintro ⟨y, hy | ⟨hplace, _⟩, hkey⟩
      · exact absurd hkey (hnew y (List.mem_of_getElem? hy))
      · exact hplace.symm
  · rw [if_neg hother, h other place]
    constructor
    · rintro ⟨y, hy, hkey⟩
      exact ⟨y, Or.inl hy, hkey⟩
    · rintro ⟨y, hy | ⟨_, rfl⟩, hkey⟩
      · exact ⟨y, hy, hkey⟩
      · rw [hx] at hkey
        exact absurd (Option.some.inj hkey).symm hother

/-- Going to the place of a key is looking for the key in the list. -/
theorem Table.Locates.bind_eq_find? (h : t.Locates keyOf? xs) (key : κ) :
    (t.find? key).bind (xs[·]?) = xs.find? (keyOf? · = some key) := by
  cases hfind : xs.find? (keyOf? · = some key) with
  | none =>
      have hnone : t.find? key = none := by
        rw [← Option.not_isSome_iff_eq_none, h.isSome_iff]
        rintro ⟨x, hx, hkey⟩
        exact List.find?_eq_none.mp hfind x hx (decide_eq_true hkey)
      rw [hnone, Option.bind_none]
  | some x =>
      -- The first element with the key has some place, and this is the one in the table.
      obtain ⟨hkey, place, hlt, hx, _⟩ := List.find?_eq_some_iff_getElem.mp hfind
      have hx : xs[place]? = some x := List.getElem?_eq_some_iff.mpr ⟨hlt, hx⟩
      rw [(h key place).mpr ⟨x, hx, of_decide_eq_true hkey⟩, Option.bind_some, hx]

end Tables

variable {F : Type} {p q : Places} {seen entries : List (Entry F)} {e : Entry F}

/-- Two entries share a tag or a key. -/
def Entry.Clashes (a b : Entry F) : Prop :=
  a.tag = b.tag ∨ ∃ key, a.key = some key ∧ b.key = some key

theorem Entry.Clashes.symm {a b : Entry F} (h : a.Clashes b) : b.Clashes a :=
  h.imp Eq.symm fun ⟨key, ha, hb⟩ => ⟨key, hb, ha⟩

namespace Schema

/-- No two of the entries clash. -/
def Consistent (entries : List (Entry F)) : Prop := entries.Pairwise fun a b => ¬ a.Clashes b

theorem consistent_nil : Consistent ([] : List (Entry F)) := List.Pairwise.nil

theorem consistent_concat_iff :
    Consistent (seen ++ [e]) ↔ Consistent seen ∧ ∀ a ∈ seen, ¬ a.Clashes e := by
  rw [Consistent, List.pairwise_append, Consistent]
  simp

theorem Consistent.left (h : Consistent (seen ++ entries)) : Consistent seen :=
  (List.pairwise_append.mp h).1

end Schema

namespace Places

/-- The places are those of the entries, by their tags and by their keys. -/
structure Locates (p : Places) (entries : List (Entry F)) : Prop where
  tags : p.tags.Locates (fun e => some e.tag) entries
  keys : p.keys.Locates Entry.key entries

theorem locates_nil : empty.Locates ([] : List (Entry F)) :=
  ⟨Table.locates_nil _, Table.locates_nil _⟩

/-- An entry that clashes with none of those before it comes behind them. -/
theorem Locates.put (h : p.Locates seen) (hnew : ∀ a ∈ seen, ¬ a.Clashes e) :
    (p.put seen.length e).Locates (seen ++ [e]) where
  tags := h.tags.concat rfl fun a ha htag => hnew a ha (Or.inl (Option.some.inj htag))
  keys := by
    rw [Places.put]
    cases hkey : e.key with
    | none => exact h.keys.concat_of_none hkey
    | some key => exact h.keys.concat hkey fun a ha ha' => hnew a ha (Or.inr ⟨key, ha', hkey⟩)

/-- An entry is taken if it clashes with none of those before it. -/
theorem add_eq_ok_iff (h : p.Locates seen) :
    p.add seen.length e = .ok q ↔ (∀ a ∈ seen, ¬ a.Clashes e) ∧ q = p.put seen.length e := by
  have htags : (p.tags.find? e.tag).isSome ↔ ∃ a ∈ seen, a.tag = e.tag := by
    simpa using h.tags.isSome_iff e.tag
  rw [add]
  by_cases htag : (p.tags.find? e.tag).isSome
  · obtain ⟨a, ha, heq⟩ := htags.mp htag
    rw [if_pos htag]
    exact iff_of_false (by simp) fun hnew => hnew.1 a ha (Or.inl heq)
  -- The tag is new, so only the key can clash.
  rw [if_neg htag]
  have htag : ∀ a ∈ seen, a.tag ≠ e.tag := fun a ha heq => htag (htags.mpr ⟨a, ha, heq⟩)
  cases hkey : e.key with
  | none =>
      have hnew : ∀ a ∈ seen, ¬ a.Clashes e := by
        rintro a ha (heq | ⟨key, _, he⟩)
        · exact htag a ha heq
        · rw [hkey] at he
          contradiction
      rw [and_iff_right hnew, Except.ok.injEq, eq_comm]
  | some key =>
      have hkeys := h.keys.isSome_iff key
      by_cases hsome : (p.keys.find? key).isSome
      · obtain ⟨a, ha, heq⟩ := hkeys.mp hsome
        simp only [hsome, if_true]
        exact iff_of_false (by simp) fun hnew => hnew.1 a ha (Or.inr ⟨key, heq, hkey⟩)
      · have hnew : ∀ a ∈ seen, ¬ a.Clashes e := by
          rintro a ha (heq | ⟨key', hakey, hekey⟩)
          · exact htag a ha heq
          · obtain rfl := Option.some.inj (hkey.symm.trans hekey)
            exact hsome (hkeys.mpr ⟨a, ha, hakey⟩)
        dsimp only
        rw [if_neg hsome, and_iff_right hnew, Except.ok.injEq, eq_comm]

/-- Entries that come behind others are all taken if no two of them all clash. -/
theorem addFrom_eq_ok_iff (h : p.Locates seen) (hseen : Schema.Consistent seen) :
    addFrom seen.length p entries = .ok q ↔
      Schema.Consistent (seen ++ entries) ∧ q = putFrom seen.length p entries := by
  -- The invariant is that the places are those of the entries gone through.
  induction entries generalizing seen p with
  | nil => simp [addFrom, putFrom, hseen, eq_comm]
  | cons e entries ih =>
      rw [addFrom, putFrom, List.append_cons]
      cases hadd : p.add seen.length e with
      | error fault =>
          refine iff_of_false (by simp) fun ⟨hconsistent, _⟩ => ?_
          have hnew := (Schema.consistent_concat_iff.mp hconsistent.left).2
          rw [(add_eq_ok_iff h).mpr ⟨hnew, rfl⟩] at hadd
          contradiction
      | ok next =>
          obtain ⟨hnew, rfl⟩ := (add_eq_ok_iff h).mp hadd
          have ih := ih (h.put hnew) (Schema.consistent_concat_iff.mpr ⟨hseen, hnew⟩)
          rwa [List.length_append, List.length_singleton] at ih

/-- The places of entries that come behind others, if no two of them all clash. -/
theorem Locates.putFrom (h : p.Locates seen) (hconsistent : Schema.Consistent (seen ++ entries)) :
    (Places.putFrom seen.length p entries).Locates (seen ++ entries) := by
  induction entries generalizing seen p with
  | nil => rwa [Places.putFrom, List.append_nil]
  | cons e entries ih =>
      rw [List.append_cons] at hconsistent ⊢
      have hnew := (Schema.consistent_concat_iff.mp hconsistent.left).2
      have ih := ih (h.put hnew) hconsistent
      rwa [List.length_append, List.length_singleton] at ih

end Places

namespace Schema

/-- A list without clashes is looked up through its places. -/
theorem locates_listing (h : Consistent entries) (unknown : Entry F) :
    (listing entries unknown).places.Locates entries :=
  Places.locates_nil.putFrom h

end Schema

end KlvMetadata
