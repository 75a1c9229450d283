import KlvMetadata.Wire.Ber

/-!
# Numbers, Text and Keys in Fields

The remaining contents of a field that need no schema: floating-point numbers
of four or eight bytes, text, and universal keys. Keys are also read from their
text, which no field holds.

## Main definitions

* `FloatField.read`, `FloatField.write`: Numbers of four or eight bytes.
* `TextField.read`, `TextField.write`: UTF-8 text.
* `UniversalKey.read`, `UniversalKey.write`: Keys.
* `UniversalKey.parse`: Keys from their text.
-/

namespace KlvMetadata

namespace FloatField

/-- A number of `length` bytes; shorter ones are widened. -/
def read (length : Nat) : Reader Binary64 := do
  let bytes ← Reader.take length
  if length = 4 then return Binary32.widen ⟨UInt32.ofNat (Bytes.toNat bytes)⟩
  if length = 8 then return ⟨UInt64.ofNat (Bytes.toNat bytes)⟩
  Reader.fail (.floatLength length)

/-- The number in `length` bytes, rounded if they are four. -/
def write (value : Binary64) (length : Nat) : Writer :=
  if length = 4 then Writer.emit (Bytes.ofNat 4 value.narrow.word)
  else if length = 8 then Writer.emit (Bytes.ofNat 8 value.word)
  else throw (.value (.floatLength length))

end FloatField

namespace TextField

/-- The next `length` bytes as text. -/
def read (length : Nat) : Reader String := do
  let bytes ← Reader.take length
  match Utf8.decode bytes with
  | .ok text => return text
  | .error fault => Reader.fail (.invalidText fault)

/-- Bytes in a text. -/
def length (text : String) : Nat := (Utf8.encode text).length

/-- The bytes of a text, if they are at most `space`. -/
def write (text : String) (space : Nat) : Writer := do
  Writer.checkSpace (length text) space
  Writer.emit (Utf8.encode text)

end TextField

namespace UniversalKey

/-- The next key. -/
def read : Reader UniversalKey := fun data =>
  if h : data.length < size then .error (.parse (.underflow size data.length)) data
  else .ok ⟨data.take size, by simp [size] at h ⊢; omega⟩ (data.drop size)

/-- Write the key into at most `space` bytes. -/
def write (key : UniversalKey) (space : Nat) : Writer := do
  Writer.checkSpace size space
  Writer.emit key.bytes

/-- The key that a text spells. -/
def parse (hex : HexCodec) (text : String) : Except Error UniversalKey :=
  match ofText hex text with
  | .ok key => .ok key
  | .error fault => .error (.parse (.keyText text fault))

end UniversalKey

end KlvMetadata
