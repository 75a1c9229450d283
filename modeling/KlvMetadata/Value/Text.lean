import KlvMetadata.Value.Item

/-!
# Text of Values

A value has two texts. The plain one is for readers of a stream: texts stand
as they are, bytes in hexadecimal, numbers in their shortest form. The
description is for readers of a program: it names the kind where the plain
text would be ambiguous, quotes texts and lists bytes as numbers.

## Main definitions

* `Value.text`, `Item.toText`: The plain text.
* `Value.description`, `Item.description`: The description.
-/

namespace KlvMetadata

/-- The entries of a set between braces. -/
def setText (entries : List String) : String := "\x7b " ++ ", ".intercalate entries ++ " \x7d"

/-- A list between square brackets. -/
def listDescription (elements : List String) : String := "[" ++ ", ".intercalate elements ++ "]"

/-- Bytes as a list of numbers. -/
def bytesDescription (bytes : Bytes) : String := listDescription (bytes.map toString)

/-- A key under the name of its kind. -/
def UniversalKey.description (key : UniversalKey) : String := s!"UdsKey({key.text Hex.codec})"

/-- The three parts of a packet with their names. -/
def Packet.description (p : Packet) : String :=
  "Packet \x7b key: " ++ p.key.description ++ ", length_field: " ++
    bytesDescription p.lengthField ++ ", payload: " ++ bytesDescription p.payload ++ " \x7d"

mutual

/-- The plain text of a value. -/
def Value.text : Value → String
  | ⟨none, _⟩ => "(empty)"
  | ⟨some item, _⟩ => item.toText

/-- The plain text of an item. -/
def Item.toText : Item → String
  | .u8 n => toString n
  | .u16 n => toString n
  | .u32 n => toString n
  | .u64 n => toString n
  | .i8 n => toString n
  | .i16 n => toString n
  | .i32 n => toString n
  | .i64 n => toString n
  | .bool b => toString b
  | .text s => s
  | .f64 x => x.plainText
  | .f32 x => x.plainText
  | .blob bytes => bytes.spacedHexText Hex.codec
  | .key k => k.text Hex.codec
  | .command c => c.text
  | .frameRate r => r.text
  | .code table code => table.text code
  | .localSet entries => setText (localEntryTexts entries)
  | .universalSet entries => setText (universalEntryTexts entries)
  | .packet p => p.text

/-- Tag and value of each entry. -/
def localEntryTexts : List (UInt64 × Value) → List String
  | [] => []
  | (tag, v) :: entries => s!"{tag}: {v.text}" :: localEntryTexts entries

/-- Key and value of each entry. -/
def universalEntryTexts : List (UniversalKey × Value) → List String
  | [] => []
  | (key, v) :: entries => s!"{key.text Hex.codec}: {v.text}" :: universalEntryTexts entries

end

mutual

/-- The description of a value. -/
def Value.description : Value → String
  | ⟨none, _⟩ => "Value(empty)"
  | ⟨some item, _⟩ => "Value(" ++ item.description ++ ")"

/-- The description of an item. -/
def Item.description : Item → String
  | .text s => Text.quoted s
  | .f64 x => x.literal
  | .f32 x => x.literal
  | .blob bytes => "Blob(" ++ bytesDescription bytes ++ ")"
  | .key k => k.description
  | .command c => c.description
  | .frameRate r => r.description
  | .code table code => table.identifier code
  | .localSet entries => listDescription (localEntryDescriptions entries)
  | .universalSet entries => listDescription (universalEntryDescriptions entries)
  | .packet p => p.description
  | .u8 n => toString n
  | .u16 n => toString n
  | .u32 n => toString n
  | .u64 n => toString n
  | .i8 n => toString n
  | .i16 n => toString n
  | .i32 n => toString n
  | .i64 n => toString n
  | .bool b => toString b

/-- Tag and value of each entry as a pair. -/
def localEntryDescriptions : List (UInt64 × Value) → List String
  | [] => []
  | (tag, v) :: entries => s!"({tag}, {v.description})" :: localEntryDescriptions entries

/-- Key and value of each entry as a pair. -/
def universalEntryDescriptions : List (UniversalKey × Value) → List String
  | [] => []
  | (key, v) :: entries =>
    s!"({key.description}, {v.description})" :: universalEntryDescriptions entries

end

end KlvMetadata
