import KlvMetadata.Format.Quantized

/-!
# Integer Mapping With Power-of-Two Scales

Another way to send a real number of a known range as an unsigned integer.
Here a step is always a power of two: as many bits as the range needs, rounded
up, are shifted to fill all bits of the field but the top one. The scales are
then exact, and a field may have any length from one byte to eight. If zero
lies inside the range, an offset of less than a step makes it a multiple of
the step.

Encoding rounds down, except that a number within a millionth of a step of the
next integer is taken for that integer. The top bit marks special patterns, of
which the first byte is read: the two infinities and four NaNs, by sign and by
class. A marked pattern that is none of these reads as a plain NaN.

## Main definitions

* `Imap.Scale`: The scales for one range and length.
* `Imap.decode`, `Imap.encode`: The mapping.
* `Imap.lengthFor`: Bytes that resolve a given precision.
* `Layout.imap`: The layout.
-/

namespace KlvMetadata

namespace Imap

/-- The least `n` with the extent of the range at most `2 ^ n`, as the rounded
    logarithm says. One past every power of two stands for an infinite extent. -/
def extentBits (r : Range) : Int :=
  if r.extent.isInfinite then 2147483647 else LogBase.two.ceil r.extent.toRat

/-- Bits of a field of `length` bytes below the top one. -/
def fieldBits (length : Nat) : Nat := 8 * length - 1

/-- Scales for one range and length. -/
structure Scale where
  forward : Binary64
  reverse : Binary64
  zeroOffset : Binary64
  deriving DecidableEq, Repr

/-- The scales of a range for fields of `length` bytes. -/
def scale (r : Range) (length : Nat) : Scale :=
  let shift := fieldBits length - extentBits r
  let forward := Binary64.exp2 shift
  let lowest := forward * r.minimum
  { forward
    reverse := Binary64.exp2 (-shift)
    zeroOffset :=
      if r.minimum.less .zero && Binary64.zero.less r.maximum then lowest - lowest.floor
      else .zero }

/-- Greatest integer that stands for a number in the range. -/
def limit (length : Nat) : Nat := 1 <<< fieldBits length - 1

-- The first bytes of the special patterns
def plusInfinity : UInt8 := 0xC8
def minusInfinity : UInt8 := 0xE8
def plusQuiet : UInt8 := 0xD0
def minusQuiet : UInt8 := 0xF0
def plusSignalling : UInt8 := 0xD8
def minusSignalling : UInt8 := 0xF8

/-- What a first byte with its top bit set stands for. -/
def special (first : UInt8) : Binary64 :=
  if first = plusInfinity then .infinity false
  else if first = minusInfinity then .infinity true
  else if first = minusQuiet then Binary64.nan.neg
  else if first = plusSignalling then ⟨0x7FF4000000000000⟩
  else if first = minusSignalling then ⟨0xFFF4000000000000⟩
  else .nan

/-- The first byte of a NaN, by its sign and class. -/
def nanByte (value : Binary64) : UInt8 :=
  match value.isNegative, value.isQuiet with
  | false, true => plusQuiet
  | true, true => minusQuiet
  | false, false => plusSignalling
  | true, false => minusSignalling

/-- The integer whose first byte is `first` and whose others are zero. -/
def leading (first : UInt8) (length : Nat) : UInt64 :=
  UInt64.ofNat (first.toNat <<< (8 * (length - 1)))

/-- Fields have one to eight bytes. -/
def checkLength (length : Nat) : Except Error Unit :=
  if 1 ≤ length ∧ length ≤ 8 then .ok () else .error (.parse (.imapLength length))

/-- The number that an integer of `length` bytes stands for. -/
def decode (r : Range) (raw : UInt64) (length : Nat) : Except Error Binary64 := do
  checkLength length
  let first := UInt8.ofNat (raw.toNat >>> (8 * (length - 1)))
  if 0x80 ≤ first then return special first
  let s := scale r length
  return s.reverse * (Binary64.ofInt raw.toNat - s.zeroOffset) + r.minimum

/-- How close to an integer a number has to be to count as it: a millionth. -/
def snapDistance : Binary64 := .ofRat (1 / 1000000) false

/-- The integer for a scaled number: the one below, or the nearest if that is
    close enough. -/
def quantize (scaled : Binary64) : Binary64 :=
  let nearest := scaled.round
  let distance := (scaled - nearest).abs
  if distance.isNaN || snapDistance.less distance then scaled.floor else nearest

/-- The integer of `length` bytes that stands for a number. -/
def encode (r : Range) (value : Binary64) (length : Nat) : Except Error UInt64 := do
  checkLength length
  if value.isNaN then return leading (nanByte value) length
  if value.isInfinite then
    return leading (if value.isNegative then minusInfinity else plusInfinity) length
  let s := scale r length
  if r.excludes (s.reverse / .two) value then
    throw (.value (.outsideRange "IMAP" value r.minimum r.maximum))
  let raw := quantize (s.forward * (value - r.minimum) + s.zeroOffset)
  return min raw.toUInt64 (UInt64.ofNat (limit length))

/-- The fewest bytes, from one to eight, that resolve steps of `precision`; no
    precision at all takes eight. -/
def lengthFor (r : Range) (precision : Binary64) : Nat :=
  if precision.isZero then 8
  else if precision.isInfinite then 1
  else
    let bits := extentBits r - LogBase.two.floor precision.toRat + 1
    (max 1 (min 8 ((bits + 7) / 8))).toNat

end Imap

namespace Layout

/-- A mapped number. It keeps the length it was read with. -/
def imap (r : Range) (defaultLength : Nat) : Layout Binary64 where
  read length := do
    MonadExcept.ofExcept (Imap.checkLength length)
    let raw ← Unsigned.read length
    MonadExcept.ofExcept (Imap.decode r raw length)
  write value length := do
    let raw ← MonadExcept.ofExcept (Imap.encode r value length)
    Unsigned.write raw length
  lengthOf _ hint := .ok (if 1 ≤ hint ∧ hint ≤ 8 then hint else defaultLength)
  text value := Binary64.quantizedText (Imap.scale r defaultLength).reverse value

end Layout

end KlvMetadata
