import KlvMetadata.Floating.Decimal

/-!
# Frame Rates

Frames per second as a ratio of two whole numbers. A ratio over zero is kept,
but it is no rate.

## Main definitions

* `FrameRate`: The ratio.
* `FrameRate.rate?`: Frames per second.
* `FrameRate.text`: The rate with three decimals, or the whole number over one.
-/

namespace KlvMetadata

/-- Frames per second as a ratio. -/
structure FrameRate where
  numerator : UInt32
  denominator : UInt32
  deriving DecidableEq, Repr

namespace FrameRate

/-- No frames at all. -/
def still : FrameRate := ⟨0, 1⟩

/-- Frames per second, if the denominator is not zero. -/
def rate? (r : FrameRate) : Option Binary64 :=
  if r.denominator = 0 then none
  else some (Binary64.ofInt r.numerator.toNat / Binary64.ofInt r.denominator.toNat)

def text (r : FrameRate) : String :=
  if r.denominator = 1 then toString r.numerator
  else
    match r.rate? with
    | some rate => rate.fixedText 3
    | none => "(invalid)"

/-- Both terms with their names, as a description shows them. -/
def description (r : FrameRate) : String :=
  "FrameRate \x7b " ++ s!"numerator: {r.numerator}, denominator: {r.denominator}" ++ " \x7d"

end FrameRate

end KlvMetadata
