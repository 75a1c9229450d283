import KlvMetadata.Packet.Basic
import KlvMetadata.Value.ControlCommand
import KlvMetadata.Value.FrameRate

/-!
# Items and Values

An item is one decoded thing of some kind; sets hold further values, so items
nest. A value holds an item or nothing. It also remembers how many bytes the
item was read from. The number is a hint and no part of the value: encodings
that could use several widths use it to keep the width they were given, and
comparisons do not see it.

## Main definitions

* `Item`: Contents of any kind.
* `Value`: An item or nothing, with a length hint.
* `Item.kind`, `Value.kind?`: Kind of the contents.
* `Value.get`: The item, if it has the expected kind.
-/

namespace KlvMetadata

mutual

/-- An item or nothing, with the number of bytes it was read from. -/
structure Value where
  item : Option Item
  hint : Nat

/-- One decoded thing. -/
inductive Item where
  | u8 (n : UInt8)
  | u16 (n : UInt16)
  | u32 (n : UInt32)
  | u64 (n : UInt64)
  | i8 (n : Int8)
  | i16 (n : Int16)
  | i32 (n : Int32)
  | i64 (n : Int64)
  | bool (b : Bool)
  | text (s : String)
  | f64 (x : Binary64)
  | f32 (x : Binary32)
  | blob (bytes : Bytes)
  | key (k : UniversalKey)
  | command (c : ControlCommand)
  | frameRate (r : FrameRate)
  | code (table : CodeTable) (code : UInt8)
  | localSet (entries : List (UInt64 × Value))
  | universalSet (entries : List (UniversalKey × Value))
  | packet (p : Packet)

end

/-- Kind of an item. -/
def Item.kind : Item → Kind
  | .u8 _ => .u8
  | .u16 _ => .u16
  | .u32 _ => .u32
  | .u64 _ => .u64
  | .i8 _ => .i8
  | .i16 _ => .i16
  | .i32 _ => .i32
  | .i64 _ => .i64
  | .bool _ => .bool
  | .text _ => .text
  | .f64 _ => .f64
  | .f32 _ => .f32
  | .blob _ => .blob
  | .key _ => .key
  | .command _ => .command
  | .frameRate _ => .frameRate
  | .code table _ => .code table
  | .localSet _ => .localSet
  | .universalSet _ => .universalSet
  | .packet _ => .packet

namespace Value

/-- A value that holds nothing. -/
def empty : Value := ⟨none, 0⟩

/-- A value made of an item, with no hint. -/
def ofItem (item : Item) : Value := ⟨some item, 0⟩

instance : Inhabited Value := ⟨empty⟩

def isEmpty (v : Value) : Bool := v.item.isNone

/-- Kind of the contents, if there are any. -/
def kind? (v : Value) : Option Kind := v.item.map Item.kind

/-- True if there are contents and an encoding made sense of them. -/
def isValid (v : Value) : Bool := v.kind?.isSome && v.kind? ≠ some .blob

/-- Name of the kind of the contents. -/
def typeName (v : Value) : String := Kind.nameOf v.kind?

/-- The item, if it is of the expected kind. -/
def get (kind : Kind) (v : Value) : Except Error Item :=
  match v.item with
  | some item => if item.kind = kind then .ok item else .error (.typeMismatch kind v.kind?)
  | none => .error (.typeMismatch kind none)

/-- Other contents under the same hint. -/
def set (item : Item) (v : Value) : Value := ⟨some item, v.hint⟩

/-- No contents under the same hint. -/
def clear (v : Value) : Value := ⟨none, v.hint⟩

end Value

end KlvMetadata
