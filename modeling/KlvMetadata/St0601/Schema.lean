import KlvMetadata.St0601.Listings

/-!
# Schema of the UAS Datalink Set

The listed items as a schema, and the tags as a type. A tag outside the list
is no tag of the standard, though it may well occur in a set.

## Main definitions

* `St0601.schema`: The schema.
* `St0601.Tag`: A listed tag.
* `St0601.Tag.ofNumber?`: The tag of a number, if the number is listed.
-/

namespace KlvMetadata

namespace St0601

/-- The entries of consecutive tags, the first of which is `tag`. -/
def entriesFrom (tag : UInt64) : List Listing → List (Entry Format)
  | [] => []
  | l :: rest =>
    { tag, key := none, format := l.format, name := l.name, description := l.description,
      cardinality := l.cardinality } :: entriesFrom (tag + 1) rest

/-- The schema of the standard. -/
def schema : Schema Format := .listing (entriesFrom 1 listings) .unlisted

/-- The greatest tag of the standard. -/
def lastTag : UInt64 := 142

/-- A listed tag. -/
structure Tag where
  number : UInt64
  positive : 0 < number
  le_last : number ≤ lastTag
  deriving DecidableEq

namespace Tag

/-- The tag of a number, if the number is listed. -/
def ofNumber? (number : UInt64) : Option Tag :=
  if h : 0 < number ∧ number ≤ lastTag then some ⟨number, h.1, h.2⟩ else none

/-- The name as the schema has it. -/
def name (tag : Tag) : String := (schema.byTag tag.number).name

/-- The name as one word. -/
def identifier (tag : Tag) : String :=
  match listings[tag.number.toNat - 1]? with
  | some l => l.identifier
  | none => ""

end Tag

end St0601

end KlvMetadata
