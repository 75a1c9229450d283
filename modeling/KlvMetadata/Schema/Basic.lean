import KlvMetadata.Error
import KlvMetadata.Schema.Cardinality
import KlvMetadata.Table

/-!
# Schemas

A schema lists what a standard puts into its sets: for each tag a name, a
format, how often it may occur, and sometimes the universal key under which
the same thing stands in universal sets. Tags that a schema does not list are
looked up as its unknown entry, so that nothing has to be thrown away.

What a format is does not matter here. A schema is built from entries in any
order; an entry with tag zero takes the place of the unknown one, the others
are put in order of their tags, and no tag and no key may come twice. Where
they stand after that is set down in two tables, one by tag and one by key,
and entries are looked up through these.

## Main definitions

* `Entry`: What a schema says about one tag.
* `Places`: Where the entries of a list stand, by tag and by key.
* `Places.addFrom`: Setting down where entries stand, if none repeats another.
* `Schema`: Entries in order of their tags, and the unknown one.
* `Schema.ofEntries`: A schema from entries in any order.
* `Schema.listing`: A schema that lists entries as they stand.
* `Schema.findTag?`, `Schema.findKey?`: The entry of a tag or key.
* `Schema.byTag`, `Schema.byKey`: The same with the unknown entry to fall
  back to.
* `Schema.violations`: Tags that occur too rarely or too often.
-/

namespace KlvMetadata

/-- What a schema says about one tag. -/
structure Entry (F : Type) where
  tag : UInt64
  key : Option UniversalKey
  format : F
  name : String
  description : String
  cardinality : Cardinality

/-- Under which tags and universal keys the entries of a list stand, with their places in
    the list. -/
structure Places where
  tags : Table UInt64 Nat
  keys : Table UniversalKey Nat

/-- The entries of a standard in order of their tags. -/
structure Schema (F : Type) where
  entries : List (Entry F)
  places : Places
  /-- What any other tag is taken for. -/
  unknown : Entry F

/-- A tag that occurs too rarely or too often. -/
structure Violation where
  tag : UInt64
  name : String
  count : Nat
  cardinality : Cardinality
  deriving DecidableEq, Repr

def Violation.text (v : Violation) : String :=
  s!"tag {v.tag} ({v.name}) occurs {v.count} times, allowed {v.cardinality.text}"

variable {F : Type}

namespace Places

/-- Nothing stands anywhere. -/
def empty : Places := ⟨.empty, .empty⟩

/-- Set down where an entry stands, under its tag and under its key if it has one. -/
def put (p : Places) (place : Nat) (e : Entry F) : Places where
  tags := p.tags.insert e.tag place
  keys :=
    match e.key with
    | none => p.keys
    | some key => p.keys.insert key place

/-- Set down where an entry stands, unless its tag or key is there already. The tag is
    looked at first. -/
def add (p : Places) (place : Nat) (e : Entry F) : Except ValueFault Places :=
  if (p.tags.find? e.tag).isSome then .error (.duplicateTag e.tag)
  else
    match e.key with
    | none => .ok (p.put place e)
    | some key =>
      if (p.keys.find? key).isSome then .error (.duplicateKey key) else .ok (p.put place e)

/-- Set down where entries stand, the first of them at `place`. -/
def putFrom (place : Nat) (p : Places) : List (Entry F) → Places
  | [] => p
  | e :: entries => putFrom (place + 1) (p.put place e) entries

/-- The same, unless a tag or key comes twice. -/
def addFrom (place : Nat) (p : Places) : List (Entry F) → Except ValueFault Places
  | [] => .ok p
  | e :: entries =>
    match p.add place e with
    | .error fault => .error fault
    | .ok p => addFrom (place + 1) p entries

end Places

namespace Schema

/-- A schema that lists entries as they stand, no two of which have a tag or key in
    common. -/
def listing (entries : List (Entry F)) (unknown : Entry F) : Schema F :=
  ⟨entries, .putFrom 0 .empty entries, unknown⟩

@[simp]
theorem entries_listing (entries : List (Entry F)) (unknown : Entry F) :
    (listing entries unknown).entries = entries := rfl

/-- The last entry with tag zero, or `fallback` if there is none. -/
def unknownAmong (fallback : Entry F) (entries : List (Entry F)) : Entry F :=
  ((entries.filter (·.tag = 0)).getLast?).getD fallback

/-- The entries that a schema is to list. -/
def listed (entries : List (Entry F)) : List (Entry F) := entries.filter (·.tag ≠ 0)

/-- The entries that a schema is to list, in order of their tags. -/
def ordered (entries : List (Entry F)) : List (Entry F) :=
  (listed entries).mergeSort fun a b => a.tag ≤ b.tag

/-- Build a schema from entries in any order. -/
def ofEntries (fallback : Entry F) (entries : List (Entry F)) : Except Error (Schema F) :=
  match Places.addFrom 0 .empty (ordered entries) with
  | .error fault => .error (.value fault)
  | .ok places => .ok ⟨ordered entries, places, unknownAmong fallback entries⟩

/-- The entry for a tag, if the schema lists it. -/
def findTag? (s : Schema F) (tag : UInt64) : Option (Entry F) :=
  (s.places.tags.find? tag).bind (s.entries[·]?)

/-- The entry for a universal key, if the schema lists it. -/
def findKey? (s : Schema F) (key : UniversalKey) : Option (Entry F) :=
  (s.places.keys.find? key).bind (s.entries[·]?)

/-- The entry for a tag, or the unknown one. -/
def byTag (s : Schema F) (tag : UInt64) : Entry F := (s.findTag? tag).getD s.unknown

/-- The entry for a universal key, or the unknown one. -/
def byKey (s : Schema F) (key : UniversalKey) : Entry F := (s.findKey? key).getD s.unknown

/-- Entries whose counts lie outside their cardinality, in order of their
    tags. An entry without a count is left out. -/
def violations (s : Schema F) (countOf : Entry F → Option Nat) : List Violation :=
  s.entries.filterMap fun e =>
    match countOf e with
    | none => none
    | some count =>
      if e.cardinality.contains count then none
      else some ⟨e.tag, e.name, count, e.cardinality⟩

end Schema

end KlvMetadata
