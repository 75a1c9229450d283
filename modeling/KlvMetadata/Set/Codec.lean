import KlvMetadata.Format.Layout
import KlvMetadata.Set.Entries

/-!
# Encoding of Sets

A set is written as its entries one after the other, each a key, the length of
its value and the value. The codec of a value is the one its schema lists
under the key. Reading goes on until nothing is left, so a set needs no mark at
its end and a set that is cut between two entries is a shorter set.

The functions take a schema of codecs; where these come from is not their
business. This is what makes sets nest: a schema of formats becomes a schema
of codecs by turning each of its formats into a codec.

Writing entries directly may fail half way, and what was written before stays.
Only the layout, which is under the common rules, takes it back.

## Main definitions

* `SetCodec.readEntry`, `SetCodec.readEntries`: Reading.
* `SetCodec.entryLength`, `SetCodec.writeEntry`, `SetCodec.writeEntries`:
  Measuring and writing.
* `SetCodec.text`: Entries under the names their schema gives them.
* `Layout.entries`: The layout of a set.
-/

namespace KlvMetadata

namespace SetCodec

variable {κ : Type} [DecidableEq κ] [SetKey κ]

/-- The codec for the value under a key. -/
def codecFor (schema : Schema Codec) (key : κ) : Codec := (SetKey.lookup schema key).format

/-- Read one entry. -/
def readEntry (schema : Schema Codec) : Reader (κ × Value) := do
  let key : κ ← SetKey.read
  let length ← Ber.read (← Reader.remaining)
  let left ← Reader.remaining
  if left < length.toNat then
    Reader.fail (.entryOverrun (SetKey.text key) length.toNat left)
  let v ← (codecFor schema key).read length.toNat
  return (key, v)

/-- Read entries until nothing is left. -/
def readEntries (schema : Schema Codec) : Reader (Entries κ) := Reader.toEnd (readEntry schema)

/-- Bytes that one entry takes. -/
def entryLength (schema : Schema Codec) (key : κ) (v : Value) : Except Error Nat := do
  let length ← (codecFor schema key).lengthOf v
  return SetKey.length key + Ber.length (UInt64.ofNat length) + length

/-- Bytes that all entries take. -/
def entriesLength (schema : Schema Codec) : Entries κ → Except Error Nat
  | [] => .ok 0
  | (key, v) :: entries => do
    let first ← entryLength schema key v
    let rest ← entriesLength schema entries
    return first + rest

/-- Write one entry into at most `space` bytes. -/
def writeEntry (schema : Schema Codec) (key : κ) (v : Value) (space : Nat) : Writer := do
  let codec := codecFor schema key
  let length ← MonadExcept.ofExcept (codec.lengthOf v)
  let keyLength ← Writer.spent (SetKey.write key space)
  let lengthLength ← Writer.spent (Ber.write (UInt64.ofNat length) (space - keyLength))
  codec.write v (space - (keyLength + lengthLength))

/-- Write entries in order into at most `space` bytes. -/
def writeEntries (schema : Schema Codec) : Entries κ → (space : Nat) → Writer
  | [], _ => pure ()
  | (key, v) :: entries, space => do
    let used ← Writer.spent (writeEntry schema key v space)
    writeEntries schema entries (space - used)

/-- The name of a key: that of its entry, or its number if it has none. -/
def keyName (schema : Schema Codec) (key : κ) : String :=
  let e := SetKey.lookup schema key
  if SetKey.ofEntry? e = some key then e.name else s!"Unknown Tag ({SetKey.text key})"

/-- The entries between braces, under their names. -/
def text (schema : Schema Codec) (entries : Entries κ) : String :=
  setText <| entries.map fun (key, v) =>
    keyName schema key ++ ": " ++ (codecFor schema key).text v

end SetCodec

/-- Entries that fill a field. -/
def Layout.entries {κ : Type} [DecidableEq κ] [SetKey κ] (schema : Schema Codec) :
    Layout (Entries κ) where
  read _ := SetCodec.readEntries schema
  write entries := SetCodec.writeEntries schema entries
  lengthOf entries _ := SetCodec.entriesLength schema entries
  text := SetCodec.text schema

end KlvMetadata
