import KlvMetadata.Format.Basic
import KlvMetadata.Proofs.Wire.Spellings
import KlvMetadata.Set.Codec

/-!
# Lawful Keys

What writing and reading sets need to know of their keys. Both kinds of key
are written without looking at the output, in the length that was announced,
and are read back in front of anything. An entry that is looked up is always
one of the schema's, so what holds of all of these holds of it.

Reading sets that others have written takes more, because a key may have several
spellings. All of them tell where they end, and none is shorter than the one
that is written. And turning the formats of a schema into codecs does not change
what stands where, so the codec under a key is that of its format.

## Main definitions

* `SetKey.Lawful`: The laws of keys that writing needs, and reading back.
* `SetKey.Legible`: Those that reading needs, whoever wrote the keys.

## Theorems

* `Schema.getD_place?_mem`: Looking up falls back to the unknown entry.
* `Schema.getD_place?_map`: Looking up passes over a change of the entries.
* `SetCodec.codecFor_schemaCodecs`: The codec under a key is that of its format.
-/

namespace KlvMetadata

/-- Keys that are written in the length they announce, read back from it, and
    looked up among the entries of a schema. -/
class SetKey.Lawful (κ : Type) [SetKey κ] where
  encode : κ → Bytes
  length_encode : ∀ key : κ, (encode key).length = SetKey.length key
  appends_write : ∀ (key : κ) (space : Nat), SetKey.length key ≤ space →
    (SetKey.write key space).Appends (encode key)
  read_encode : ∀ (key : κ) (rest : Bytes), SetKey.read (encode key ++ rest) = .ok key rest
  lookup_mem : ∀ {F : Type} (schema : Schema F) (key : κ),
    SetKey.lookup schema key ∈ schema.entries ∨ SetKey.lookup schema key = schema.unknown

/-- Whatever place is looked at, there is one of the schema's entries or none. -/
theorem Schema.getD_place?_mem {F : Type} (schema : Schema F) (place? : Option Nat) :
    (place?.bind (schema.entries[·]?)).getD schema.unknown ∈ schema.entries ∨
      (place?.bind (schema.entries[·]?)).getD schema.unknown = schema.unknown := by
  cases hfound : place?.bind (schema.entries[·]?) with
  | none => exact Or.inr rfl
  | some e =>
      obtain ⟨place, _, hplace⟩ := Option.bind_eq_some_iff.mp hfound
      exact Or.inl (List.mem_of_getElem? hplace)

instance : SetKey.Lawful UInt64 where
  encode := BerOid.encode
  length_encode := BerOid.length_encode
  appends_write := BerOid.appends_write
  read_encode := BerOid.read_encode
  lookup_mem schema _ := schema.getD_place?_mem _

instance : SetKey.Lawful UniversalKey where
  encode key := key.bytes
  length_encode key := key.length_bytes
  appends_write := UniversalKey.appends_write
  read_encode := UniversalKey.read_bytes
  lookup_mem schema _ := schema.getD_place?_mem _

/-- Keys whose spellings tell where they end, the written one being the shortest.
    A change of a schema's entries is seen by looking up. -/
class SetKey.Legible (κ : Type) [SetKey κ] extends SetKey.Lawful κ where
  delimited_read : (SetKey.read : Reader κ).Delimited
  length_pos : ∀ key : κ, 1 ≤ SetKey.length key
  shortest : ∀ {key : κ} {field : Bytes}, (SetKey.read : Reader κ).Spells field key →
    SetKey.length key ≤ field.length ∧ (field.length = SetKey.length key → field = encode key)
  lookup_map : ∀ {F G : Type} (change : Entry F → Entry G) (schema : Schema F) (key : κ),
    SetKey.lookup ⟨schema.entries.map change, schema.places, change schema.unknown⟩ key =
      change (SetKey.lookup schema key)

/-- At the place of an entry there is the changed one. -/
theorem Schema.getD_place?_map {F G : Type} (change : Entry F → Entry G) (schema : Schema F)
    (place? : Option Nat) :
    (place?.bind ((schema.entries.map change)[·]?)).getD (change schema.unknown) =
      change ((place?.bind (schema.entries[·]?)).getD schema.unknown) := by
  cases place? with
  | none => rfl
  | some place =>
      rw [Option.bind_some, Option.bind_some, List.getElem?_map]
      cases schema.entries[place]? <;> rfl

instance : SetKey.Legible UInt64 where
  delimited_read := by
    intro data rest tag h
    rcases BerOid.read_eq_ok_iff.mp h with ⟨field, hspelling, _, hdata⟩
    refine ⟨field, hdata, fun rest' => hspelling.read ?_ rest'⟩
    rw [List.length_append]
    omega
  length_pos := BerOid.length_pos
  shortest := by
    intro tag field h
    rcases BerOid.read_eq_ok_iff.mp h.read_self with ⟨field', hspelling, _, hdata⟩
    rw [List.append_nil] at hdata
    rw [hdata]
    exact hspelling.shortest
  lookup_map change schema _ := schema.getD_place?_map change _

instance : SetKey.Legible UniversalKey where
  delimited_read := by
    intro data rest key h
    rcases UniversalKey.eq_append_of_read h with rfl
    exact ⟨key.bytes, rfl, key.read_bytes⟩
  length_pos _ := Nat.le_add_left 1 15
  shortest := by
    intro key field h
    have hfield : field = key.bytes := by
      have heq := UniversalKey.eq_append_of_read h.read_self
      rwa [List.append_nil] at heq
    rw [hfield]
    exact ⟨Nat.le_of_eq key.length_bytes.symm, fun _ => rfl⟩
  lookup_map change schema _ := schema.getD_place?_map change _

namespace SetCodec

theorem entryCodecs_eq_map (entries : List (Entry Format)) :
    Format.entryCodecs entries = entries.map Format.entryCodec := by
  induction entries with
  | nil => rfl
  | cons e entries ih => rw [Format.entryCodecs, ih, List.map_cons]

/-- The codec under a key is that of its format. -/
theorem codecFor_schemaCodecs {κ : Type} [SetKey κ] [SetKey.Legible κ] (schema : Schema Format)
    (key : κ) :
    codecFor (Format.schemaCodecs schema) key = (SetKey.lookup schema key).format.codec := by
  have hformat (e : Entry Format) : (Format.entryCodec e).format = e.format.codec := by
    cases e
    rfl
  have hschema : Format.schemaCodecs schema =
      ⟨schema.entries.map Format.entryCodec, schema.places, Format.entryCodec schema.unknown⟩ := by
    cases schema
    rw [Format.schemaCodecs, entryCodecs_eq_map]
  rw [codecFor, hschema, SetKey.Legible.lookup_map, hformat]

end SetCodec

end KlvMetadata
