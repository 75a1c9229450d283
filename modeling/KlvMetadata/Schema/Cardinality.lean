/-!
# Cardinalities

How often a tag may occur in one set: at least some number of times, and
possibly at most another. A tag that may not occur at all has both at zero.

## Main definitions

* `Cardinality`: The bounds.
* `Cardinality.contains`: Whether a count lies within them.
* `Cardinality.text`: One number if both bounds agree, else the two with dots
  between, or a star for no bound.
-/

namespace KlvMetadata

/-- Bounds on the number of occurrences; no `max` means no upper bound. -/
structure Cardinality where
  min : Nat
  max : Option Nat
  deriving DecidableEq, Repr

namespace Cardinality

def exactly (count : Nat) : Cardinality := ⟨count, some count⟩

/-- Zero or one. -/
def optional : Cardinality := ⟨0, some 1⟩

/-- Zero or more. -/
def any : Cardinality := ⟨0, none⟩

/-- True if a count lies within the bounds. -/
def contains (c : Cardinality) (count : Nat) : Bool :=
  c.min ≤ count &&
    match c.max with
    | some max => count ≤ max
    | none => true

def text (c : Cardinality) : String :=
  match c.max with
  | some max => if max = c.min then toString max else s!"{c.min}..{max}"
  | none => s!"{c.min}..*"

/-- Both bounds with their names, as a description shows them. -/
def description (c : Cardinality) : String :=
  let max := match c.max with
    | some max => s!"Some({max})"
    | none => "None"
  "Cardinality \x7b min: " ++ toString c.min ++ ", max: " ++ max ++ " \x7d"

end Cardinality

end KlvMetadata
