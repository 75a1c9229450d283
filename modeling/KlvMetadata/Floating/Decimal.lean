import KlvMetadata.Floating.Binary

/-!
# Decimal Text of Floating-Point Numbers

Three spellings are used. The plain text of a number is the shortest decimal
that reads back as the same number, always written out in full and without a
fraction when it is whole. The literal is the same decimal with a fraction
always present, and with an exponent where writing it out would take too many
zeros. The fixed text has a given number of decimals and rounds the exact
value.

Shortest digits are found by looking rather than by an algorithm of their
own. The reals that round to a number form an interval; on the grid of
multiples of a power of ten, only the two neighbours of the number need to be
tested, because if any point of the grid lies in the interval then one of
these does. The coarsest grid with a hit has the fewest digits. Of two hits
the nearer is taken, and the upper one where they are equally near.

## Main definitions

* `Decimal`: An integer scaled by a power of ten.
* `Precision.RoundingInterval`: The reals that round to one magnitude.
* `Precision.shortest`: The shortest decimal in that interval.
* `Binary64.plainText`, `Binary64.literal`, `Binary64.fixedText`: The
  spellings, with `Binary32.plainText` and `Binary32.literal` beside them.
-/

namespace KlvMetadata

/-- The number `digits * 10 ^ exponent`. -/
structure Decimal where
  digits : Nat
  exponent : Int
  deriving DecidableEq, Repr

namespace Decimal

/-- Move trailing zeros from the digits into the exponent. -/
def stripped : (fuel : Nat) → Decimal → Decimal
  | 0, d => d
  | fuel + 1, d =>
    if d.digits ≠ 0 ∧ d.digits % 10 = 0 then stripped fuel ⟨d.digits / 10, d.exponent + 1⟩
    else d

/-- A run of zeros. -/
def zeros (n : Nat) : String := String.ofList (List.replicate n '0')

/-- A digit string with a point before its last `places` digits. -/
def withPoint (digits : String) (places : Nat) : String :=
  if places = 0 then digits
  else
    let padded := zeros (places + 1 - digits.length) ++ digits
    let cut := padded.length - places
    String.ofList (padded.toList.take cut) ++ "." ++ String.ofList (padded.toList.drop cut)

/-- The number written out in full; `keepFraction` asks for one decimal even
    when it is whole. -/
def positional (keepFraction : Bool) (d : Decimal) : String :=
  if 0 ≤ d.exponent then
    let whole := toString d.digits ++ (if d.digits = 0 then "" else zeros d.exponent.toNat)
    if keepFraction then whole ++ ".0" else whole
  else withPoint (toString d.digits) (-d.exponent).toNat

/-- The number with one digit before the point and a power of ten after `e`. -/
def scientific (d : Decimal) : String :=
  let text := toString d.digits
  let places := text.length - 1
  withPoint text places ++ "e" ++ toString (d.exponent + places)

end Decimal

namespace Precision

/-- The reals that round to one magnitude. -/
structure RoundingInterval where
  low : Rat
  high : Rat
  /-- Whether the ends belong to it, as they do when ties come here. -/
  closed : Bool

namespace RoundingInterval

def contains (i : RoundingInterval) (q : Rat) : Bool :=
  if i.closed then i.low ≤ q && q ≤ i.high else i.low < q && q < i.high

end RoundingInterval

/-- The interval of a nonzero finite magnitude. Its ends are half way to the
    neighbours; the neighbour of the largest one is the power of two it would
    be next. -/
def roundingInterval (p : Precision) (magnitude : Nat) : RoundingInterval where
  low := (p.magnitudeValue (magnitude - 1) + p.magnitudeValue magnitude) / 2
  high := (p.magnitudeValue magnitude + p.magnitudeValue (magnitude + 1)) / 2
  closed := magnitude % 2 = 0

/-- The point of the grid of multiples of `10 ^ place` that stands for `q`, if
    one of its two neighbours lies in the interval. -/
def RoundingInterval.onGrid (i : RoundingInterval) (q : Rat) (place : Int) : Option Decimal :=
  let unit : Rat := 10 ^ place
  let below := (q / unit).floor.toNat
  let hitBelow := i.contains (below * unit)
  let hitAbove := i.contains ((below + 1) * unit)
  if hitBelow && (!hitAbove || 2 * (q - below * unit) < unit) then some ⟨below, place⟩
  else if hitAbove then some ⟨below + 1, place⟩
  else none

/-- Digits that always suffice to tell the format's numbers apart. -/
def maxDigits (p : Precision) : Nat := (p.fractionBits + 1) * 30103 / 100000 + 2

/-- The shortest decimal that rounds to a nonzero finite magnitude. -/
def shortest (p : Precision) (magnitude : Nat) : Decimal :=
  let q := p.magnitudeValue magnitude
  let interval := p.roundingInterval magnitude
  let top := floorLog 10 q
  let found := (List.range p.maxDigits).findSome? fun (n : Nat) => interval.onGrid q (top - n)
  (found.getD ⟨0, 0⟩).stripped p.maxDigits

/-- Text of a word: `finite` spells its shortest decimal, and a sign goes in
    front of everything but a NaN. -/
def text (p : Precision) (finite : Decimal → String) (word : Nat) : String :=
  let magnitude := p.magnitude word
  let sign := if p.isNegative word then "-" else ""
  if p.infinity < magnitude then "NaN"
  else if magnitude = p.infinity then sign ++ "inf"
  else sign ++ finite (if magnitude = 0 then ⟨0, 0⟩ else p.shortest magnitude)

/-- Literals have an exponent from 10¹⁶ up and below 10⁻⁴. -/
def literalText (d : Decimal) : String :=
  let leading := d.exponent + (toString d.digits).length - 1
  if d.digits ≠ 0 ∧ (16 ≤ leading ∨ leading < -4) then d.scientific else d.positional true

end Precision

namespace Binary64

/-- The shortest decimal that reads back, written out in full. -/
def plainText (x : Binary64) : String := Precision.double.text (·.positional false) x.word

/-- The shortest decimal that reads back, with a fraction or an exponent. -/
def literal (x : Binary64) : String := Precision.double.text Precision.literalText x.word

/-- The exact value of a finite number rounded to `places` decimals, a tie
    going to the even digit. -/
def fixedText (places : Nat) (x : Binary64) : String :=
  if x.isFinite then
    let scaled := nearestEven (Precision.double.magnitudeValue x.magnitude * 10 ^ places)
    (if x.isNegative then "-" else "") ++ Decimal.withPoint (toString scaled.toNat) places
  else x.plainText

end Binary64

namespace Binary32

/-- The shortest decimal that reads back in four bytes, written out in full. -/
def plainText (x : Binary32) : String := Precision.single.text (·.positional false) x.word

/-- The shortest decimal that reads back in four bytes, with a fraction or an
    exponent. -/
def literal (x : Binary32) : String := Precision.single.text Precision.literalText x.word

end Binary32

end KlvMetadata
