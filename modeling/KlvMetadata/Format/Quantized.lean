import KlvMetadata.Floating.Logarithm
import KlvMetadata.Format.Layout

/-!
# Quantized Ranges

A real number in a known range can be sent as an integer: the range is cut
into equal steps and the number of the step is sent. The unsigned form counts
steps from the lower end. The signed form counts them from the middle, the
same number to either side, which leaves over the most negative integer; it
stands for an error and reads as a NaN.

Everything is calculated in floating point, in the order written here. A
number may lie outside the range by up to half a step, which still rounds to
an end of it.

## Main definitions

* `Range`: The ends of a range.
* `UnsignedSteps.decode`, `UnsignedSteps.encode`: Counting from the lower end.
* `SignedSteps.decode`, `SignedSteps.encode`: Counting from the middle.
* `Layout.unsignedSteps`, `Layout.signedSteps`: The layouts.
-/

namespace KlvMetadata

/-- The ends of a range of real numbers. -/
structure Range where
  minimum : Binary64
  maximum : Binary64
  deriving DecidableEq, Repr

namespace Range

/-- Distance between the ends. -/
def extent (r : Range) : Binary64 := r.maximum - r.minimum

/-- True if a number lies outside the range by more than `slack`. -/
def excludes (r : Range) (slack value : Binary64) : Bool :=
  value.less (r.minimum - slack) || (r.maximum + slack).less value

/-- The ends between square brackets. -/
def text (r : Range) : String := s!"[{r.minimum.plainText}, {r.maximum.plainText}]"

end Range

namespace UnsignedSteps

/-- Greatest integer of `length` bytes. -/
def limit (length : Nat) : Nat := Bytes.capacity length - 1

/-- What one step amounts to. -/
def step (r : Range) (length : Nat) : Binary64 :=
  r.extent / Binary64.ofInt (limit length)

def decode (r : Range) (length : Nat) (raw : UInt64) : Binary64 :=
  r.minimum + Binary64.ofInt raw.toNat * step r length

def encode (r : Range) (length : Nat) (value : Binary64) : Except Error UInt64 :=
  let step := step r length
  if value.isNaN || r.excludes (step / .two) value then
    .error (.value (.outsideRange "uflint" value r.minimum r.maximum))
  else
    let raw := ((value - r.minimum) / step).round.toUInt64
    .ok (min raw (UInt64.ofNat (limit length)))

end UnsignedSteps

namespace SignedSteps

/-- Greatest number of steps to either side. -/
def limit (length : Nat) : Int := (Bytes.capacity length / 2 - 1 : Nat)

/-- The integer that stands for an error. -/
def errorIndicator (length : Nat) : Int := -limit length - 1

def middle (r : Range) : Binary64 := (r.minimum + r.maximum) / .two

/-- What one step amounts to. -/
def step (r : Range) (length : Nat) : Binary64 :=
  r.extent / (.two * Binary64.ofInt (limit length))

def decode (r : Range) (length : Nat) (raw : Int64) : Binary64 :=
  if raw.toInt = errorIndicator length then .nan
  else middle r + Binary64.ofInt raw.toInt * step r length

def encode (r : Range) (length : Nat) (value : Binary64) : Except Error Int64 :=
  let step := step r length
  if value.isNaN then .ok (Int64.ofInt (errorIndicator length))
  else if r.excludes (step / .two) value then
    .error (.value (.outsideRange "sflint" value r.minimum r.maximum))
  else
    let raw := ((value - middle r) / step).round.toInt64.toInt
    .ok (Int64.ofInt (max (-limit length) (min (limit length) raw)))

end SignedSteps

namespace Layout

/-- Unsigned steps in a field of fixed length. -/
def unsignedSteps (r : Range) (length : Nat) : Layout Binary64 where
  read n := do return UnsignedSteps.decode r length (← Unsigned.read n)
  write value n := do
    let raw ← MonadExcept.ofExcept (UnsignedSteps.encode r length value)
    Unsigned.write raw n
  lengthOf _ _ := .ok length
  text value := Binary64.quantizedText (UnsignedSteps.step r length) value

/-- Signed steps in a field of fixed length. -/
def signedSteps (r : Range) (length : Nat) : Layout Binary64 where
  read n := do return SignedSteps.decode r length (← Signed.read n)
  write value n := do
    let raw ← MonadExcept.ofExcept (SignedSteps.encode r length value)
    Signed.write raw n
  lengthOf _ _ := .ok length
  text value := Binary64.quantizedText (SignedSteps.step r length) value

end Layout

end KlvMetadata
