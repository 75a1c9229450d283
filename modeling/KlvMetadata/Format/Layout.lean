import KlvMetadata.Value.Text
import KlvMetadata.Wire.Field

/-!
# Layouts and Codecs

A layout says how things of one type lie in the bytes of a field. It knows
nothing of empty fields, of values of other kinds or of the room in a buffer,
because the rules for these are the same for every encoding:

* a field of length zero is an empty value, and an empty value writes nothing;
* a field longer than what is left cannot be read, a field of the wrong length
  for an encoding with a fixed one neither, and a field has to be used up;
* a blob is written as it is, whatever the encoding, so that a field which was
  never understood can be handed on;
* a value of another kind is refused, and a write that fails leaves the buffer
  as it was.

A codec is a layout under these rules. It reads and writes values of any kind,
so codecs of different layouts can stand in one schema.

## Main definitions

* `ItemView`: One kind of item seen as a type.
* `Layout`: How things of a type lie in a field.
* `Codec`: Reading, measuring, writing and printing of values.
* `Layout.codec`: A layout under the common rules.
-/

namespace KlvMetadata

/-- One kind of item seen as a type: making an item, and looking into one. -/
structure ItemView (α : Type) where
  kind : Kind
  toItem : α → Item
  ofItem? : Item → Option α
  kind_toItem : ∀ a, (toItem a).kind = kind
  ofItem?_eq_some : ∀ i a, ofItem? i = some a ↔ i = toItem a

namespace ItemView

def u64 : ItemView UInt64 where
  kind := .u64
  toItem := .u64
  ofItem? | .u64 n => some n | _ => none
  kind_toItem _ := rfl
  ofItem?_eq_some i a := by cases i <;> simp

def i64 : ItemView Int64 where
  kind := .i64
  toItem := .i64
  ofItem? | .i64 n => some n | _ => none
  kind_toItem _ := rfl
  ofItem?_eq_some i a := by cases i <;> simp

def f64 : ItemView Binary64 where
  kind := .f64
  toItem := .f64
  ofItem? | .f64 x => some x | _ => none
  kind_toItem _ := rfl
  ofItem?_eq_some i a := by cases i <;> simp

def blob : ItemView Bytes where
  kind := .blob
  toItem := .blob
  ofItem? | .blob bytes => some bytes | _ => none
  kind_toItem _ := rfl
  ofItem?_eq_some i a := by cases i <;> simp

def text : ItemView String where
  kind := .text
  toItem := .text
  ofItem? | .text s => some s | _ => none
  kind_toItem _ := rfl
  ofItem?_eq_some i a := by cases i <;> simp

def command : ItemView ControlCommand where
  kind := .command
  toItem := .command
  ofItem? | .command c => some c | _ => none
  kind_toItem _ := rfl
  ofItem?_eq_some i a := by cases i <;> simp

def frameRate : ItemView FrameRate where
  kind := .frameRate
  toItem := .frameRate
  ofItem? | .frameRate r => some r | _ => none
  kind_toItem _ := rfl
  ofItem?_eq_some i a := by cases i <;> simp

/-- Codes of one table; codes of another are of another kind. -/
def code (table : CodeTable) : ItemView UInt8 where
  kind := .code table
  toItem := .code table
  ofItem? | .code t c => if t = table then some c else none | _ => none
  kind_toItem _ := rfl
  ofItem?_eq_some i a := by
    cases i <;> simp

def localSet : ItemView (List (UInt64 × Value)) where
  kind := .localSet
  toItem := .localSet
  ofItem? | .localSet entries => some entries | _ => none
  kind_toItem _ := rfl
  ofItem?_eq_some i a := by cases i <;> simp

def universalSet : ItemView (List (UniversalKey × Value)) where
  kind := .universalSet
  toItem := .universalSet
  ofItem? | .universalSet entries => some entries | _ => none
  kind_toItem _ := rfl
  ofItem?_eq_some i a := by cases i <;> simp

end ItemView

/-- How things of one type lie in the bytes of a field. -/
structure Layout (α : Type) where
  /-- Read from a field of the given length, which is all there is to read. -/
  read : (length : Nat) → Reader α
  /-- Write in the length that `lengthOf` gave. -/
  write : α → (length : Nat) → Writer
  /-- Bytes needed, given a hint what the length was before. -/
  lengthOf : α → (hint : Nat) → Except Error Nat
  text : α → String

/-- An encoding of values. -/
structure Codec where
  /-- Read a value from exactly the given number of bytes. -/
  read : (length : Nat) → Reader Value
  /-- Write a value into at most the given number of bytes. -/
  write : Value → (space : Nat) → Writer
  /-- Bytes that writing takes. -/
  lengthOf : Value → Except Error Nat
  text : Value → String

namespace Layout

variable {α : Type}

/-- What the common rules need to know of an encoding. -/
structure Terms where
  /-- The encoding's description, for messages. -/
  description : Unit → String
  /-- The only length it accepts, if there is just one. -/
  fixedLength : Option Nat

/-- Read a field of the given length. A failed read takes nothing. -/
def readField (layout : Layout α) (view : ItemView α) (terms : Terms) (length : Nat) :
    Reader Value := do
  if length = 0 then return .empty
  let left ← Reader.remaining
  if left < length then Reader.fail (.underflow length left)
  if let some required := terms.fixedLength then
    if required ≠ length then
      Reader.fail (.fieldLength (terms.description ()) required length)
  let unread (left : Nat) : Error := .parse (.unreadBytes (terms.description ()) left length)
  let a ← Reader.within length unread (layout.read length)
  return ⟨some (view.toItem a), length⟩

/-- Bytes that the field of a value takes. -/
def lengthOfField (layout : Layout α) (view : ItemView α) (v : Value) : Except Error Nat :=
  match v.item with
  | none => .ok 0
  | some (.blob bytes) => .ok bytes.length
  | some item =>
    match view.ofItem? item with
    | none => .error (.typeMismatch view.kind (some item.kind))
    | some a => layout.lengthOf a v.hint

/-- Write the field of a value. A failed write leaves nothing. -/
def writeField (layout : Layout α) (view : ItemView α) (v : Value) (space : Nat) : Writer := do
  match v.item with
  | none => return
  | some (.blob bytes) =>
    Writer.checkSpace bytes.length space
    Writer.emit bytes
  | some item =>
    match view.ofItem? item with
    | none => throw (.typeMismatch view.kind (some item.kind))
    | some a =>
      let length ← MonadExcept.ofExcept (layout.lengthOf a v.hint)
      Writer.checkSpace length space
      Writer.whole (layout.write a length)

/-- The text of a value: in the layout's way if it is of the right kind. -/
def fieldText (layout : Layout α) (view : ItemView α) (v : Value) : String :=
  match v.item.bind view.ofItem? with
  | some a => layout.text a
  | none => v.text

/-- The layout under the common rules. -/
def codec (layout : Layout α) (view : ItemView α) (terms : Terms) : Codec where
  read := layout.readField view terms
  write := layout.writeField view
  lengthOf := layout.lengthOfField view
  text := layout.fieldText view

end Layout

end KlvMetadata
