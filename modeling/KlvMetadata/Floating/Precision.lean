/-!
# Binary Floating-Point Formats

A floating-point number travels as a word of bits: a sign, a biased exponent
and a fraction. The word is what a field holds and what a comparison has to
respect, down to the payload of a NaN, so words are kept as they are and every
calculation goes through the exact rational value a word stands for. An
operation is then exact arithmetic followed by one rounding, which is the
definition the standard gives and the only form a proof can use.

Without its sign a word is a number that grows with the value it stands for:
one step up in the word is one step up among the representable values, and
the word after the largest finite one is infinity. Rounding leans on this. It
finds the significand at the right exponent and adds the two as numbers, so
that a significand that rounds up to the next power of two carries into the
exponent by itself.

## Main definitions

* `Precision`: The widths of a format's fields.
* `Precision.value`: The rational number a finite word stands for.
* `Precision.nearest`: The word, less its sign, nearest to a rational number.
* `nearestEven`: The integer nearest to a rational number.
* `floorLog`: The integer part of a logarithm.
-/

namespace KlvMetadata

/-- The integer nearest to `q`, the even one of two equally near. -/
def nearestEven (q : Rat) : Int :=
  let below := q.floor
  let rest := q - below
  if rest < 1 / 2 then below
  else if 1 / 2 < rest then below + 1
  else if below % 2 = 0 then below
  else below + 1

/-- The greatest `e` with `b ^ e ≤ n`, for `n > 0`; the fuel bounds the answer. -/
def floorLogNat (b : Nat) : (fuel n : Nat) → Nat
  | 0, _ => 0
  | fuel + 1, n => if n < b then 0 else floorLogNat b fuel (n / b) + 1

/-- The greatest `e` with `b ^ e ≤ q`, for a base `b ≥ 2` and `q > 0`. -/
def floorLog (b : Nat) (q : Rat) : Int :=
  if 1 ≤ q then
    let n := q.floor.toNat
    floorLogNat b (n.log2 + 1) n
  else
    -- The least `k` with `1 / q ≤ b ^ k` is one more than the logarithm of what
    -- stays below
    let n := (1 / q).ceil.toNat - 1
    Int.negSucc (floorLogNat b (n.log2 + 1) n)

/-- Widths of the fields of a binary floating-point format, below the sign bit. -/
structure Precision where
  fractionBits : Nat
  exponentBits : Nat
  deriving DecidableEq, Repr

namespace Precision

/-- The four-byte format. -/
def single : Precision := ⟨23, 8⟩

/-- The eight-byte format. -/
def double : Precision := ⟨52, 11⟩

/-- Place value of the sign bit. -/
def signWeight (p : Precision) : Nat := 1 <<< (p.fractionBits + p.exponentBits)

/-- The bit in front of the fraction, which words leave out of a significand.
    In a word its place is that of the exponent's lowest bit. -/
def leadingBit (p : Precision) : Nat := 1 <<< p.fractionBits

/-- The word of positive infinity; larger ones below the sign bit are NaNs. -/
def infinity (p : Precision) : Nat := (1 <<< p.exponentBits - 1) * p.leadingBit

/-- The fraction bit that is set in quiet NaNs and clear in signalling ones. -/
def quietBit (p : Precision) : Nat := 1 <<< (p.fractionBits - 1)

/-- Exponent of the least positive value. -/
def leastExponent (p : Precision) : Int :=
  2 - (1 <<< (p.exponentBits - 1) : Nat) - p.fractionBits

/-- The word without its sign. -/
def magnitude (p : Precision) (word : Nat) : Nat := word % p.signWeight

/-- True if the sign bit is set. -/
def isNegative (p : Precision) (word : Nat) : Bool := p.signWeight ≤ word

/-- The integer that a finite magnitude scales by a power of two. -/
def significand (p : Precision) (magnitude : Nat) : Nat :=
  if magnitude < p.leadingBit then magnitude
  else p.leadingBit + magnitude % p.leadingBit

/-- The power of two that scales a finite magnitude's significand. -/
def exponent (p : Precision) (magnitude : Nat) : Int :=
  p.leastExponent + (magnitude / p.leadingBit - 1 : Nat)

/-- The rational number a finite magnitude stands for. -/
def magnitudeValue (p : Precision) (magnitude : Nat) : Rat :=
  p.significand magnitude * 2 ^ p.exponent magnitude

/-- The rational number a finite word stands for. -/
def value (p : Precision) (word : Nat) : Rat :=
  if p.isNegative word then -p.magnitudeValue (p.magnitude word)
  else p.magnitudeValue (p.magnitude word)

/-- The magnitude nearest to `q ≥ 0`, the even one of two equally near.

    The significand may round up to the next power of two; added to the exponent's
    place it then carries, which is the next magnitude's own spelling. -/
def nearest (p : Precision) (q : Rat) : Nat :=
  if q ≤ 0 then 0
  else
    let e := max p.leastExponent (floorLog 2 q - p.fractionBits)
    let significand := (nearestEven (q / 2 ^ e)).toNat
    min p.infinity ((e - p.leastExponent).toNat * p.leadingBit + significand)

/-- The word nearest to `q`; a result of zero takes the sign `negativeZero`. -/
def nearestWord (p : Precision) (negativeZero : Bool) (q : Rat) : Nat :=
  if q < 0 then p.signWeight + p.nearest (-q)
  else if q = 0 && negativeZero then p.signWeight
  else p.nearest q

end Precision

end KlvMetadata
