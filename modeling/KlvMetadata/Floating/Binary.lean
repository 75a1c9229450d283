import KlvMetadata.Floating.Precision

/-!
# Floating-Point Numbers

The two number formats that occur in fields, as words of their width, and the
arithmetic of the eight-byte one. An invalid operation gives `invalidResult`,
a NaN with its sign bit set; an operation on a NaN hands that NaN on, made
quiet. Conversions to integers stop at the ends of the target range and take
a NaN to zero.

## Main definitions

* `Binary64`, `Binary32`: Numbers as bit patterns.
* `Binary64.toRat`, `Binary64.ofRat`: The exact value, and rounding to one.
* `Binary64.add`, `sub`, `mul`, `div`: Arithmetic, rounded once.
* `Binary64.floor`, `Binary64.round`: Rounding to whole numbers.
* `Binary64.toUInt64`, `Binary64.toInt64`: Saturating conversions.
* `Binary64.narrow`, `Binary32.widen`: Change of width.
-/

namespace KlvMetadata

/-- An eight-byte floating-point number. -/
structure Binary64 where
  bits : UInt64
  deriving DecidableEq, Repr

/-- A four-byte floating-point number. -/
structure Binary32 where
  bits : UInt32
  deriving DecidableEq, Repr

namespace Binary64

/-- The number whose word is `word`. -/
def ofWord (word : Nat) : Binary64 := ⟨UInt64.ofNat word⟩

/-- The word as a natural number. -/
def word (x : Binary64) : Nat := x.bits.toNat

/-- The word without its sign. -/
def magnitude (x : Binary64) : Nat := Precision.double.magnitude x.word

/-- True if the sign bit is set, on zeros and NaNs as well. -/
def isNegative (x : Binary64) : Bool := Precision.double.isNegative x.word

def isNaN (x : Binary64) : Bool := Precision.double.infinity < x.magnitude

def isInfinite (x : Binary64) : Bool := x.magnitude = Precision.double.infinity

def isFinite (x : Binary64) : Bool := x.magnitude < Precision.double.infinity

/-- True for a zero of either sign. -/
def isZero (x : Binary64) : Bool := x.magnitude = 0

/-- True if the quiet bit is set; it tells the two classes of NaN apart. -/
def isQuiet (x : Binary64) : Bool :=
  x.magnitude / Precision.double.quietBit % 2 = 1

/-- The exact value of a finite number. -/
def toRat (x : Binary64) : Rat := Precision.double.value x.word

/-- The number nearest to `q`; a result of zero takes the sign `negativeZero`. -/
def ofRat (q : Rat) (negativeZero : Bool) : Binary64 :=
  ofWord (Precision.double.nearestWord negativeZero q)

/-- The number nearest to a whole number. -/
def ofInt (n : Int) : Binary64 := ofRat n false

/-- The infinity of the given sign. -/
def infinity (negative : Bool) : Binary64 :=
  ofWord (if negative then Precision.double.signWeight + Precision.double.infinity
    else Precision.double.infinity)

def zero : Binary64 := ofInt 0

def one : Binary64 := ofInt 1

def two : Binary64 := ofInt 2

/-- The plain quiet NaN. -/
def nan : Binary64 := ⟨0x7FF8000000000000⟩

/-- The NaN that an operation without a defined result gives. -/
def invalidResult : Binary64 := ⟨0xFFF8000000000000⟩

/-- The number with its sign bit flipped. -/
def neg (x : Binary64) : Binary64 := ⟨x.bits ^^^ 0x8000000000000000⟩

/-- A NaN with its quiet bit set. -/
def quieted (x : Binary64) : Binary64 := ⟨x.bits ||| 0x0008000000000000⟩

/-- Hand on the first NaN among two operands, or compute. -/
def onNumbers (x y : Binary64) (result : Binary64) : Binary64 :=
  if x.isNaN then x.quieted
  else if y.isNaN then y.quieted
  else result

def add (x y : Binary64) : Binary64 :=
  onNumbers x y <|
    if x.isInfinite then
      if y.isInfinite && x.isNegative != y.isNegative then invalidResult else x
    else if y.isInfinite then y
    else ofRat (x.toRat + y.toRat) (x.isNegative && y.isNegative)

def sub (x y : Binary64) : Binary64 := onNumbers x y (add x y.neg)

def mul (x y : Binary64) : Binary64 :=
  let negative := x.isNegative != y.isNegative
  onNumbers x y <|
    if x.isInfinite || y.isInfinite then
      if x.isZero || y.isZero then invalidResult else infinity negative
    else ofRat (x.toRat * y.toRat) negative

def div (x y : Binary64) : Binary64 :=
  let negative := x.isNegative != y.isNegative
  onNumbers x y <|
    if x.isInfinite then
      if y.isInfinite then invalidResult else infinity negative
    else if y.isInfinite then ofRat 0 negative
    else if y.isZero then
      if x.isZero then invalidResult else infinity negative
    else ofRat (x.toRat / y.toRat) negative

instance : Add Binary64 := ⟨add⟩
instance : Sub Binary64 := ⟨sub⟩
instance : Mul Binary64 := ⟨mul⟩
instance : Div Binary64 := ⟨div⟩
instance : Neg Binary64 := ⟨neg⟩

/-- A number's place among the non-NaN ones; both zeros share one. -/
def rank (x : Binary64) : Int :=
  if x.isNegative then -(x.magnitude : Int) else x.magnitude

/-- The order of the numbers, false whenever a NaN takes part. -/
def less (x y : Binary64) : Bool := !x.isNaN && !y.isNaN && x.rank < y.rank

/-- A number's place in the order of all words: negative NaNs, negative
    numbers, positive numbers, positive NaNs, with the negative zero first. -/
def totalRank (x : Binary64) : Int :=
  if x.isNegative then -(x.magnitude : Int) - 1 else x.magnitude

/-- The magnitude with a clear sign bit. -/
def abs (x : Binary64) : Binary64 := ofWord x.magnitude

/-- Round a finite number by a rule for rationals, keeping the sign of zero. -/
def mapWhole (rule : Rat → Int) (x : Binary64) : Binary64 :=
  if x.isNaN then x.quieted
  else if x.isInfinite then x
  else ofRat (rule x.toRat) x.isNegative

/-- The greatest whole number that is not above. -/
def floor : Binary64 → Binary64 := mapWhole Rat.floor

/-- The integer nearest to `q`, the one farther from zero of two equally near. -/
def nearestAway (q : Rat) : Int :=
  if q < 0 then -(-q + 1 / 2).floor else (q + 1 / 2).floor

/-- The nearest whole number, the one farther from zero of two equally near. -/
def round : Binary64 → Binary64 := mapWhole nearestAway

/-- The whole part, dropping the fraction toward zero. -/
def truncate (q : Rat) : Int := if q < 0 then -(-q).floor else q.floor

/-- The whole part brought into `[low, high]`; a NaN gives zero. -/
def clampWhole (low high : Int) (x : Binary64) : Int :=
  if x.isNaN then 0
  else if x.isInfinite then (if x.isNegative then low else high)
  else max low (min high (truncate x.toRat))

/-- The whole part as an unsigned word, stopping at the ends of the range. -/
def toUInt64 (x : Binary64) : UInt64 :=
  UInt64.ofNat (x.clampWhole 0 0xFFFFFFFFFFFFFFFF).toNat

/-- The whole part as a signed word, stopping at the ends of the range. -/
def toInt64 (x : Binary64) : Int64 :=
  Int64.ofInt (x.clampWhole (-0x8000000000000000) 0x7FFFFFFFFFFFFFFF)

/-- A power of two. Past the largest one it is infinite, and a reciprocal of
    such a power is zero. -/
def exp2 (n : Int) : Binary64 :=
  if 1024 ≤ n then infinity false
  else if n ≤ -1024 then zero
  else ofRat (2 ^ n) false

/-- Bits of a fraction that four bytes have no room for. -/
def widthGap : Nat := Precision.double.fractionBits - Precision.single.fractionBits

/-- The nearest four-byte number. A NaN stays one: it keeps its sign and the
    leading bits of its payload, and becomes quiet. -/
def narrow (x : Binary64) : Binary32 :=
  let sign := if x.isNegative then Precision.single.signWeight else 0
  if x.isNaN then
    let payload := (x.magnitude >>> widthGap) % Precision.single.quietBit
    ⟨UInt32.ofNat (sign + Precision.single.infinity + Precision.single.quietBit + payload)⟩
  else if x.isInfinite then ⟨UInt32.ofNat (sign + Precision.single.infinity)⟩
  else ⟨UInt32.ofNat (Precision.single.nearestWord x.isNegative x.toRat)⟩

end Binary64

namespace Binary32

def word (x : Binary32) : Nat := x.bits.toNat

def magnitude (x : Binary32) : Nat := Precision.single.magnitude x.word

def isNegative (x : Binary32) : Bool := Precision.single.isNegative x.word

/-- A number's place in the order of all words. -/
def totalRank (x : Binary32) : Int :=
  if x.isNegative then -(x.magnitude : Int) - 1 else x.magnitude

/-- The same value in eight bytes. A NaN keeps its sign and payload, and
    becomes quiet. -/
def widen (x : Binary32) : Binary64 :=
  let sign := if x.isNegative then Precision.double.signWeight else 0
  if Precision.single.infinity < x.magnitude then
    let payload := (x.magnitude % Precision.single.quietBit) <<< Binary64.widthGap
    .ofWord (sign + Precision.double.infinity + Precision.double.quietBit + payload)
  else if x.magnitude = Precision.single.infinity then .infinity x.isNegative
  else .ofRat (Precision.single.value x.word) x.isNegative

end Binary32

end KlvMetadata
