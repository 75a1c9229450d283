import KlvMetadata.Schema.Basic
import KlvMetadata.Value.Order
import KlvMetadata.Value.Text

/-!
# Sets

A set is a list of values under keys, in the order they were read or added.
Keys are tags in local sets and universal keys in universal ones; a key may
occur several times. When sets are compared the order of entries does not
count, which the sort key of a set takes care of.

## Main definitions

* `SetKey`: What tags and universal keys have in common.
* `Entries`: The entries of a set.
* `Entries.find?`, `all`, `count`, `erase`, `replaceFirst`: By key.
* `Entries.violations`: Keys that a schema wants more or less often.
-/

namespace KlvMetadata

/-- Keys that entries of a set can have. -/
class SetKey (κ : Type) where
  /-- Name of the sets with such keys. -/
  setKind : String
  /-- Name of the type of the keys. -/
  typeName : String
  /-- The key under which an entry of a schema stands, if it has one. -/
  ofEntry? : {F : Type} → Entry F → Option κ
  /-- The entry of a schema for a key. -/
  lookup : {F : Type} → Schema F → κ → Entry F
  read : Reader κ
  /-- Write the key into at most the given number of bytes. -/
  write : κ → (space : Nat) → Writer
  length : κ → Nat
  text : κ → String
  description : κ → String

instance : SetKey UInt64 where
  setKind := "local"
  typeName := "u64"
  ofEntry? e := some e.tag
  lookup := Schema.byTag
  read := do BerOid.read (← Reader.remaining)
  write := BerOid.write
  length := BerOid.length
  text tag := toString tag
  description tag := toString tag

instance : SetKey UniversalKey where
  setKind := "universal"
  typeName := "klv::core::key::UdsKey"
  ofEntry? e := e.key
  lookup := Schema.byKey
  read := UniversalKey.read
  write := UniversalKey.write
  length _ := UniversalKey.size
  text := UniversalKey.text Hex.codec
  description := UniversalKey.description

/-- The entries of a set, in the order they were read or added. -/
abbrev Entries (κ : Type) := List (κ × Value)

namespace Entries

variable {κ : Type} [DecidableEq κ]

/-- The first value under a key. -/
def find? (key : κ) (entries : Entries κ) : Option Value :=
  (List.find? (fun e => e.1 = key) entries).map (·.2)

/-- Every value under a key. -/
def all (key : κ) (entries : Entries κ) : List Value :=
  (entries.filter fun e => e.1 = key).map (·.2)

/-- How many values there are under a key. -/
def count (key : κ) (entries : Entries κ) : Nat := (entries.all key).length

/-- True if there is a value under a key. -/
def has (key : κ) (entries : Entries κ) : Bool := entries.any fun e => e.1 = key

/-- The set without the values under a key. -/
def erase (key : κ) (entries : Entries κ) : Entries κ := entries.filter fun e => e.1 ≠ key

/-- The set with another first value under a key. -/
def replaceFirst (key : κ) (v : Value) : Entries κ → Entries κ
  | [] => []
  | e :: entries => if e.1 = key then (e.1, v) :: entries else e :: replaceFirst key v entries

/-- Entries of a schema that occur too rarely or too often in the set. -/
def violations {F : Type} [SetKey κ] (schema : Schema F) (entries : Entries κ) :
    List Violation :=
  schema.violations fun e => (SetKey.ofEntry? e).map fun key => entries.count key

end Entries

end KlvMetadata
