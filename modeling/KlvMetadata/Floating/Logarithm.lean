import KlvMetadata.Floating.Decimal

/-!
# Whole Parts of Rounded Logarithms

Field widths and decimal counts come from the whole part of a logarithm, and
the logarithm is a floating-point number: it has been rounded before its whole
part is taken. For nearly all arguments this changes nothing. It matters when
the argument is so close to a power of the base that its logarithm rounds to
a whole number, and then the two sides of that power count as the power
itself: a step of one thousandth stored as the number just below it still
takes three decimals.

So the exact whole part is found with `floorLog`, and a second test asks
whether the logarithm rounds to a given whole number. Close to a power the
logarithm is linear to far beyond the precision in play: it differs from the
whole number by the relative distance over the natural logarithm of the base,
and it rounds there iff this is at most half the spacing of numbers on that
side.

## Main definitions

* `LogBase`: A base with the reciprocal of its natural logarithm.
* `LogBase.roundsTo`: Whether a logarithm rounds to a whole number.
* `LogBase.floor`, `LogBase.ceil`: Whole parts of the rounded logarithm.
* `Binary64.quantizedText`: Text with as many decimals as a step can resolve.
-/

namespace KlvMetadata

/-- A base of logarithms, with `1 / ln base` to far more digits than a number
    holds. -/
structure LogBase where
  base : Nat
  reciprocalLn : Rat

namespace LogBase

def two : LogBase := ⟨2, 14426950408889634074 / 10000000000000000000⟩

def ten : LogBase := ⟨10, 4342944819032518277 / 10000000000000000000⟩

/-- Half the spacing of eight-byte numbers next to `n ≠ 0`, on the side away
    from zero or toward it. Below a power of two the spacing is halved. -/
def halfSpacing (n : Nat) (towardZero : Bool) : Rat :=
  let k := n.log2
  let half : Rat := 2 ^ ((k : Int) - 53)
  if towardZero && n = 1 <<< k then half / 2 else half

/-- True if the logarithm of `q > 0`, rounded to an eight-byte number, is the
    whole number `n`. -/
def roundsTo (b : LogBase) (q : Rat) (n : Int) : Bool :=
  let power : Rat := (b.base : Rat) ^ n
  if q = power then true
  else if n = 0 then false
  else
    let above := power < q
    let distance := if above then q / power - 1 else 1 - q / power
    -- A larger logarithm lies toward zero iff the whole number is negative
    distance * b.reciprocalLn ≤ halfSpacing n.natAbs (above == (n < 0))

/-- The whole part of the rounded logarithm of `q > 0`. -/
def floor (b : LogBase) (q : Rat) : Int :=
  let n := floorLog b.base q
  if b.roundsTo q (n + 1) then n + 1 else n

/-- The least whole number not below the rounded logarithm of `q > 0`. -/
def ceil (b : LogBase) (q : Rat) : Int :=
  let n := floorLog b.base q
  if b.roundsTo q n then n else n + 1

end LogBase

namespace Binary64

/-- The value with enough decimals to show one step of a quantized range. -/
def quantizedText (step value : Binary64) : String :=
  if !value.isFinite || !zero.less step then value.plainText
  else if step.isInfinite then value.fixedText 0
  else value.fixedText (-(LogBase.ten.floor step.toRat)).toNat

end Binary64

end KlvMetadata
