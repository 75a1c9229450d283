import KlvMetadata.Format.Layout

/-!
# Layouts of Numbers, Text and Bytes

The encodings that need nothing beyond a length. Integers of variable length
keep the length they were read with as long as the value fits, so a value
that is passed on does not change its size.

## Main definitions

* `Layout.unsigned`, `Layout.signed`: Integers.
* `Layout.code`: Codes of a table.
* `Layout.ber`, `Layout.berOid`: Integers that tell where they end.
* `Layout.blob`, `Layout.string`: Bytes and text.
* `Layout.float`: Floating-point numbers.
-/

namespace KlvMetadata

namespace Layout

/-- The length of an integer: fixed, or as hinted unless it needs more. -/
def integerLength (fixed : Option Nat) (minimal hint : Nat) : Nat :=
  match fixed with
  | some length => length
  | none => max minimal hint

def unsigned (fixed : Option Nat) : Layout UInt64 where
  read := Unsigned.read
  write := Unsigned.write
  lengthOf n hint := .ok (integerLength fixed (Unsigned.minLength n) hint)
  text n := toString n

def signed (fixed : Option Nat) : Layout Int64 where
  read := Signed.read
  write := Signed.write
  lengthOf n hint := .ok (integerLength fixed (Signed.minLength n) hint)
  text n := toString n

/-- Codes as unsigned integers of a fixed length. -/
def code (table : CodeTable) (length : Nat) : Layout UInt8 where
  read length := do return CodeTable.codeOf (← Unsigned.read length)
  write c := Unsigned.write c.toUInt64
  lengthOf _ _ := .ok length
  text c := table.text c

def ber : Layout UInt64 where
  read := Ber.read
  write := Ber.write
  lengthOf n _ := .ok (Ber.length n)
  text n := toString n

def berOid : Layout UInt64 where
  read := BerOid.read
  write := BerOid.write
  lengthOf n _ := .ok (BerOid.length n)
  text n := toString n

def blob : Layout Bytes where
  read := Reader.take
  write bytes _ := Writer.emit bytes
  lengthOf bytes _ := .ok bytes.length
  text bytes := bytes.spacedHexText Hex.codec

/-- Text. In a field of fixed length it is filled up with zero bytes; one that
    is too long for it keeps its own length. -/
def string (fixed : Option Nat) : Layout String where
  read := TextField.read
  write s length := do
    TextField.write s length
    Writer.emit (List.replicate (length - TextField.length s) 0)
  lengthOf s _ := .ok <|
    match fixed with
    | some length => max length (TextField.length s)
    | none => TextField.length s
  text s := "\"" ++ s ++ "\""

/-- Numbers of a fixed length, or of the length they were read with; eight
    bytes if that says nothing. -/
def float (fixed : Option Nat) : Layout Binary64 where
  read := FloatField.read
  write := FloatField.write
  lengthOf _ hint := .ok <|
    match fixed with
    | some length => length
    | none => if hint = 4 then 4 else 8
  text x := x.plainText

end Layout

end KlvMetadata
