import KlvMetadata.Format.Imap
import KlvMetadata.Format.Pack
import KlvMetadata.Format.Scalar
import KlvMetadata.St0601.Framing

/-!
# Formats

A format is the name of an encoding with its parameters. It is data: it can be
compared, put into a schema, and described. What it does is its codec.

Formats of sets contain schemas and schemas contain formats, so formats nest to
any depth. A codec is made by recursion over this nesting: the schema of a set
is turned into a schema of codecs, and the functions for sets do the rest.

## Main definitions

* `Format`: The encodings.
* `Format.codec`: What a format does.
* `Format.description`: A short phrase for messages.
* `Format.parameterText`: Name and parameters.
* `Format.trailerLength`, `readTrailer`, `writeTrailer`, `trailerChecksum`: The
  checksum behind a set, if the format has one.
-/

namespace KlvMetadata

/-- The encodings. Where a length is optional, its absence means that the field
    decides. -/
inductive Format where
  | unsigned (length : Option Nat)
  | signed (length : Option Nat)
  | blob (length : Option Nat)
  | string (length : Option Nat)
  | float (length : Option Nat)
  | ber
  | berOid
  | unsignedSteps (range : Range) (length : Nat)
  | signedSteps (range : Range) (length : Nat)
  | imap (range : Range) (defaultLength : Nat)
  | code (table : CodeTable) (length : Nat)
  | command
  | frameRate
  | localSet (schema : Schema Format)
  | universalSet (schema : Schema Format)
  | st0601 (schema : Schema Format)

namespace Format

/-- An IMAP format whose default length resolves `precision`. -/
def imapWithPrecision (range : Range) (precision : Binary64) : Format :=
  .imap range (Imap.lengthFor range precision)

/-- Kind of the items that the format reads and writes. -/
def kind : Format → Kind
  | unsigned _ | ber | berOid => .u64
  | signed _ => .i64
  | blob _ => .blob
  | string _ => .text
  | float _ | unsignedSteps _ _ | signedSteps _ _ | imap _ _ => .f64
  | code table _ => .code table
  | command => .command
  | frameRate => .frameRate
  | localSet _ | st0601 _ => .localSet
  | universalSet _ => .universalSet

/-- The only length that the format accepts, if there is just one. -/
def fixedLength : Format → Option Nat
  | unsigned length | signed length | blob length | string length | float length => length
  | unsignedSteps _ length | signedSteps _ length | code _ length => some length
  | ber | berOid | imap _ _ | command | frameRate | localSet _ | universalSet _ | st0601 _ => none

/-- A phrase for a length that may be fixed. -/
def lengthPhrase : Option Nat → String
  | some length => s!"of length {length}"
  | none => "of variable length"

/-- A short phrase for the encoding. -/
def description : Format → String
  | unsigned length => "unsigned integer " ++ lengthPhrase length
  | signed length => "signed integer " ++ lengthPhrase length
  | blob length => "raw bytes " ++ lengthPhrase length
  | string length => "string " ++ lengthPhrase length
  | float length => "IEEE-754 float " ++ lengthPhrase length
  | ber => "BER-encoded unsigned integer of variable length"
  | berOid => "BER-OID-encoded unsigned integer of variable length"
  | unsignedSteps range length =>
    s!"unsigned integer of length {length} mapped to {range.text}"
  | signedSteps range length => s!"signed integer of length {length} mapped to {range.text}"
  | imap range _ => s!"IMAP-encoded range {range.text} of variable length"
  | code table length => s!"{table.name} enumeration of length {length}"
  | command => "control command of variable length"
  | frameRate => "frame rate of variable length"
  | localSet _ => "local set of variable length"
  | universalSet _ => "universal set of variable length"
  | st0601 _ => "ST 0601 local set of variable length"

/-- A name in front of fields between braces. -/
def fieldsText (name : String) (fields : List String) : String :=
  name ++ " \x7b " ++ ", ".intercalate fields ++ " \x7d"

/-- A format with one optional length. -/
def lengthText (name : String) (length : Option Nat) : String :=
  let shown := match length with
    | some length => s!"Some({length})"
    | none => "None"
  fieldsText name ["fixed_length: " ++ shown]

/-- A format with a range and a length. -/
def rangeText (name lengthName : String) (range : Range) (length : Nat) : String :=
  fieldsText name
    ["minimum: " ++ range.minimum.literal, "maximum: " ++ range.maximum.literal,
      s!"{lengthName}: {length}"]

end Format

/-- A schema as its size and the name of its unknown entry. -/
def Schema.description {F : Type} (s : Schema F) : String :=
  Format.fieldsText "TagTraitRegistry"
    [s!"len: {s.entries.length}", "unknown: " ++ Text.quoted s.unknown.name]

namespace Format

/-- A set format with its kind of key and its schema. -/
def setFormatText (keyType : String) (schema : Schema Format) : String :=
  fieldsText "KlvSetFormat" ["key: " ++ Text.quoted keyType, "traits: " ++ schema.description]

/-- Name and parameters. -/
def parameterText : Format → String
  | unsigned length => lengthText "UintFormat" length
  | signed length => lengthText "SintFormat" length
  | blob length => lengthText "BlobFormat" length
  | string length => lengthText "StringFormat" length
  | float length => lengthText "FloatFormat" length
  | ber => "BerFormat"
  | berOid => "BerOidFormat"
  | unsignedSteps range length => rangeText "UflintFormat" "length" range length
  | signedSteps range length => rangeText "SflintFormat" "length" range length
  | imap range length => rangeText "ImapFormat" "default_length" range length
  | code table length =>
    fieldsText "EnumFormat"
      ["type: " ++ Text.quoted (Kind.code table).typeName, s!"length: {length}"]
  | command => "ControlCommandFormat"
  | frameRate => "FrameRateFormat"
  | localSet schema => setFormatText (SetKey.typeName UInt64) schema
  | universalSet schema => setFormatText (SetKey.typeName UniversalKey) schema
  | st0601 schema =>
    fieldsText "St0601SetFormat" ["inner: " ++ setFormatText (SetKey.typeName UInt64) schema]

/-- What the common rules need to know of a format. -/
def terms (f : Format) : Layout.Terms where
  description _ := f.description
  fixedLength := f.fixedLength

mutual

/-- What a format does. -/
def codec : Format → Codec
  | unsigned length => (Layout.unsigned length).codec .u64 (unsigned length).terms
  | signed length => (Layout.signed length).codec .i64 (signed length).terms
  | blob length => Layout.blob.codec .blob (blob length).terms
  | string length => (Layout.string length).codec .text (string length).terms
  | float length => (Layout.float length).codec .f64 (float length).terms
  | ber => Layout.ber.codec .u64 ber.terms
  | berOid => Layout.berOid.codec .u64 berOid.terms
  | unsignedSteps range length =>
    (Layout.unsignedSteps range length).codec .f64 (unsignedSteps range length).terms
  | signedSteps range length =>
    (Layout.signedSteps range length).codec .f64 (signedSteps range length).terms
  | imap range length => (Layout.imap range length).codec .f64 (imap range length).terms
  | code table length => (Layout.code table length).codec (.code table) (code table length).terms
  | command => Layout.command.codec .command command.terms
  | frameRate => Layout.frameRate.codec .frameRate frameRate.terms
  | localSet schema =>
    (Layout.entries (schemaCodecs schema)).codec .localSet (localSet schema).terms
  | universalSet schema =>
    (Layout.entries (schemaCodecs schema)).codec .universalSet (universalSet schema).terms
  | st0601 schema => (Layout.st0601 (schemaCodecs schema)).codec .localSet (st0601 schema).terms

/-- The schema with a codec for each of its formats. -/
def schemaCodecs : Schema Format → Schema Codec
  | ⟨entries, places, unknown⟩ => ⟨entryCodecs entries, places, entryCodec unknown⟩

def entryCodecs : List (Entry Format) → List (Entry Codec)
  | [] => []
  | e :: entries => entryCodec e :: entryCodecs entries

def entryCodec : Entry Format → Entry Codec
  | ⟨tag, key, format, name, description, cardinality⟩ =>
    ⟨tag, key, format.codec, name, description, cardinality⟩

end

/-- Bytes of the checksum behind what the format writes; none for most. -/
def trailerLength : Format → Nat
  | st0601 _ => Trailer.length
  | _ => 0

/-- The checksum of the bytes before it. -/
def trailerChecksum : Format → Bytes → UInt16
  | st0601 _, covered => Trailer.checksum covered
  | _, _ => 0

/-- The checksum at the end of the data. -/
def readTrailer : Format → Bytes → Except Error UInt16
  | st0601 _, data => Trailer.read data
  | _, _ => .ok 0

/-- Add a checksum in at most `space` bytes. -/
def writeTrailer : Format → UInt16 → (space : Nat) → Writer
  | st0601 _, sum, space => Trailer.write sum space
  | _, _, _ => pure ()

end Format

/-- The entry that stands for any tag a schema does not list. -/
def Entry.unlisted : Entry Format where
  tag := 0
  key := none
  format := .blob none
  name := "Unknown Tag"
  description := "Unknown tag."
  cardinality := .any

/-- An entry with its parameters. -/
def Entry.parameterText (e : Entry Format) : String :=
  let key := match e.key with
    | some key => s!"Some({key.description})"
    | none => "None"
  Format.fieldsText "TagTraits"
    [s!"tag: {e.tag}", "uds_key: " ++ key, "name: " ++ Text.quoted e.name,
      "format: " ++ Text.quoted e.format.description,
      "cardinality: " ++ e.cardinality.description]

/-- A schema of formats from entries in any order. -/
def Schema.ofFormats (entries : List (Entry Format)) : Except Error (Schema Format) :=
  Schema.ofEntries .unlisted entries

end KlvMetadata
