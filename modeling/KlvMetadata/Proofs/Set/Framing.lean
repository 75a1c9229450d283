import KlvMetadata.Proofs.Set.Rewriting

/-!
# Framing Without a Schema

A schema says what the values of a set are. It has no say in where they stand: keys tell
where they end, so do lengths, and a format that reads a value uses up the bytes of the
value and looks at nothing else. So a set falls into the same segments under all schemas
that it can be read with, and what a schema changes is confined to the segments of the
keys on which it differs.

It follows that a reader without any schema can walk through a set that a reader with a
schema accepts. It finds the same keys and the same lengths, and for values the bytes
that the other reader made values of. The converse fails, since a format may refuse
bytes that are framed well.

## Main definitions

* `Schema.bare`: The schema that lists nothing.
* `Segment.raw`: The value of a segment to a reader without a schema.
* `SetCodec.Bares`: An entry and the same with its value left as bytes.
* `SetCodec.Agree`: Entries of which only the values differ, if the formats do.
* `SetFormat`: The formats of one kind of set.
* `SetFormat.value`: The value that entries make, read from some bytes.

## Theorems

* `Format.shape_of_read`: What the length of a field says of its value.
* `Segment.carries_raw`, `SetCodec.bares_raw`: Without a schema every segment is read, as
  the bytes of the value that it is read as with one.
* `SetCodec.agree_of_carries`: Two schemas agree on the segments that both can read.
* `SetFormat.exists_segments`, `SetFormat.read_segments`: A format of sets reads a set
  by its segments.
* `SetFormat.framing_ignores_schema`: What readers of the same bytes agree on.
-/

namespace KlvMetadata

/-- The schema that lists nothing. -/
def Schema.bare : Schema Format := .listing [] .unlisted

/-- A value that is read from a field of its own has the length of the field for a hint,
    and is empty if the field is. -/
theorem Format.shape_of_read (f : Format) {field left : Bytes} {v : Value}
    (h : f.codec.read field.length field = .ok v left) :
    v.hint = field.length ∧ v.isEmpty = field.isEmpty ∧ (field = [] → v = .empty) := by
  cases f
  all_goals
    rcases Layout.read_codec_eq_ok h with ⟨rfl, rfl⟩ | ⟨hne, _, a, _, rfl⟩
    · exact ⟨rfl, rfl, fun _ => rfl⟩
    · exact ⟨rfl, (List.isEmpty_eq_false_iff.mpr hne).symm, fun hnil => absurd hnil hne⟩

namespace Segment

variable {κ : Type} [SetKey κ]

/-- The value of a segment to a reader without a schema: its content as it is. -/
def raw (s : Segment κ) : Value :=
  if s.content = [] then .empty else ⟨some (.blob s.content), s.content.length⟩

/-- Without a schema every segment is read. -/
theorem carries_raw [SetKey.Lawful κ] (s : Segment κ) : s.Carries .bare (s.key, s.raw) := by
  have hlookup : SetKey.lookup Schema.bare s.key = Entry.unlisted :=
    (SetKey.Lawful.lookup_mem Schema.bare s.key).resolve_left List.not_mem_nil
  refine ⟨rfl, ?_⟩
  rw [hlookup, raw]
  by_cases hnil : s.content = []
  · rw [if_pos hnil, hnil]
    rfl
  · rw [if_neg hnil]
    exact Layout.read_field_self hnil (Layout.Terms.allow_of_free rfl _)
      (Reader.take_self s.content)

end Segment

namespace SetCodec

variable {κ : Type} [SetKey κ]

/-- An entry and the same with its value left as bytes. An empty value stays empty, and
    any other is what the format of its key reads from the bytes. -/
inductive Bares (schema : Schema Format) : κ × Value → κ × Value → Prop
  | empty (key : κ) : Bares schema (key, .empty) (key, .empty)
  | bytes {key : κ} {v : Value} {content : Bytes} : v.isEmpty = false →
      v.hint = content.length →
      (SetKey.lookup schema key).format.codec.read content.length content = .ok v [] →
      Bares schema (key, v) (key, ⟨some (.blob content), content.length⟩)

/-- Entries of the same key and the same length, which are the same entry if the schemas
    have the same format for the key. -/
structure Agree (schema schema' : Schema Format) (e e' : κ × Value) : Prop where
  key : e.1 = e'.1
  hint : e.2.hint = e'.2.hint
  isEmpty : e.2.isEmpty = e'.2.isEmpty
  value : (SetKey.lookup schema e.1).format = (SetKey.lookup schema' e.1).format → e.2 = e'.2

variable {schema schema' : Schema Format} {s : Segment κ} {e e' : κ × Value}

/-- A reader without a schema sees the bytes of the value. -/
theorem bares_raw (h : s.Carries schema e) : Bares schema e (s.key, s.raw) := by
  rcases e with ⟨key, v⟩
  rcases h with ⟨rfl, hread⟩
  rcases Format.shape_of_read _ hread with ⟨hhint, hempty, hvalue⟩
  rw [Segment.raw]
  by_cases hnil : s.content = []
  · obtain rfl : v = .empty := hvalue hnil
    rw [if_pos hnil]
    exact .empty s.key
  · rw [if_neg hnil]
    exact .bytes (hempty.trans (List.isEmpty_eq_false_iff.mpr hnil)) hhint hread

/-- Two schemas agree on what they read from the same segment. -/
theorem agree_of_carries (h : s.Carries schema e) (h' : s.Carries schema' e') :
    Agree schema schema' e e' := by
  rcases e with ⟨key, v⟩
  rcases e' with ⟨key', v'⟩
  rcases h with ⟨rfl, hread⟩
  rcases h' with ⟨rfl, hread'⟩
  rcases Format.shape_of_read _ hread with ⟨hhint, hempty, _⟩
  rcases Format.shape_of_read _ hread' with ⟨hhint', hempty', _⟩
  refine ⟨rfl, hhint.trans hhint'.symm, hempty.trans hempty'.symm, fun hformat => ?_⟩
  rw [hformat, hread'] at hread
  injection hread with hv _
  exact hv.symm

/-- What two schemas make of the same segments agrees entry by entry. -/
theorem forall₂_agree {segments : List (Segment κ)} {entries entries' : Entries κ}
    (h : List.Forall₂ (fun s e => s.Carries schema e) segments entries)
    (h' : List.Forall₂ (fun s e => s.Carries schema' e) segments entries') :
    List.Forall₂ (Agree schema schema') entries entries' := by
  induction h generalizing entries' with
  | nil =>
      cases h'
      exact .nil
  | cons hfirst _ ih =>
      cases h' with
      | cons hfirst' hrest' => exact .cons (agree_of_carries hfirst hfirst') (ih hrest')

end SetCodec

/-- The formats of one kind of set, which differ in their schemas alone. -/
structure SetFormat (κ : Type) [DecidableEq κ] [SetKey κ] where
  format : Schema Format → Format
  view : ItemView (Entries κ)
  codec_eq : ∀ schema, (format schema).codec =
    (Layout.entries (Format.schemaCodecs schema)).codec view (format schema).terms
  fixedLength_eq : ∀ schema, (format schema).fixedLength = none

namespace SetFormat

/-- Local sets, whose keys are tags. -/
def localSet : SetFormat UInt64 where
  format := .localSet
  view := .localSet
  codec_eq schema := by rw [Format.codec]
  fixedLength_eq _ := rfl

/-- Universal sets, whose keys are universal keys. -/
def universalSet : SetFormat UniversalKey where
  format := .universalSet
  view := .universalSet
  codec_eq schema := by rw [Format.codec]
  fixedLength_eq _ := rfl

variable {κ : Type} [DecidableEq κ] [SetKey κ] (f : SetFormat κ)

/-- The value that entries make when they are read from `b`. No bytes make no set. -/
def value (b : Bytes) (entries : Entries κ) : Value :=
  if b = [] then .empty else ⟨some (f.view.toItem entries), b.length⟩

variable [SetKey.Legible κ] {f} {schema schema' : Schema Format} {b : Bytes}

/-- What is read as a set was read from segments, each of which carries an entry. -/
theorem exists_segments {v : Value} {left : Bytes}
    (h : (f.format schema).codec.read b.length b = .ok v left) :
    ∃ (segments : List (Segment κ)) (entries : Entries κ),
      v = f.value b entries ∧ segments.flatMap Segment.bytes = b ∧
        List.Forall₂ (fun s e => s.Carries schema e) segments entries := by
  rw [f.codec_eq] at h
  rcases Layout.read_codec_eq_ok h with ⟨rfl, rfl⟩ | ⟨hne, _, entries, hentries, rfl⟩
  · exact ⟨[], [], rfl, rfl, .nil⟩
  · rcases SetCodec.readEntries_eq_ok_iff.mp hentries with ⟨_, segments, hbytes, hcarries⟩
    exact ⟨segments, entries, by rw [value, if_neg hne], hbytes, hcarries⟩

/-- Segments that carry entries are read as a set. -/
theorem read_segments {segments : List (Segment κ)} {entries : Entries κ}
    (hbytes : segments.flatMap Segment.bytes = b)
    (hcarries : List.Forall₂ (fun s e => s.Carries schema e) segments entries) :
    (f.format schema).codec.read b.length b = .ok (f.value b entries) [] := by
  rw [f.codec_eq, value]
  by_cases hne : b = []
  · rw [if_pos hne, hne]
    rfl
  · have hentries : (Layout.entries (Format.schemaCodecs schema)).read b.length b =
        .ok entries [] :=
      SetCodec.readEntries_eq_ok_iff.mpr ⟨rfl, segments, hbytes, hcarries⟩
    rw [if_neg hne]
    exact Layout.read_field_self hne (Layout.Terms.allow_of_free (f.fixedLength_eq schema) _)
      hentries

/-- Of bytes that are read as a set under some schema: without any schema they are read
    too, with the same keys and lengths, and with the bytes in place of each value. If
    they are read under two schemas, then with the same keys and lengths, and with the
    same values under all keys for which the schemas have the same format. -/
theorem framing_ignores_schema (f : SetFormat κ) (b : Bytes) :
    (∀ schema v left, (f.format schema).codec.read b.length b = .ok v left →
      ∃ entries plain, v = f.value b entries ∧
        (f.format .bare).codec.read b.length b = .ok (f.value b plain) [] ∧
        List.Forall₂ (SetCodec.Bares schema) entries plain) ∧
    ∀ schema schema' v v' left left',
      (f.format schema).codec.read b.length b = .ok v left →
      (f.format schema').codec.read b.length b = .ok v' left' →
      ∃ entries entries', v = f.value b entries ∧ v' = f.value b entries' ∧
        List.Forall₂ (SetCodec.Agree schema schema') entries entries' := by
  refine ⟨fun schema v left h => ?_, fun schema schema' v v' left left' h h' => ?_⟩
  · rcases exists_segments h with ⟨segments, entries, hv, hbytes, hcarries⟩
    have hraw : List.Forall₂ (fun s e => s.Carries .bare e) segments
        (segments.map fun s => (s.key, s.raw)) :=
      List.forall₂_map_right_iff.mpr (List.forall₂_same.mpr fun s _ => s.carries_raw)
    refine ⟨entries, _, hv, read_segments hbytes hraw, ?_⟩
    rw [List.forall₂_map_right_iff]
    exact (hcarries.imp fun s e hse => SetCodec.bares_raw hse).flip
  · rcases exists_segments h with ⟨segments, entries, hv, hbytes, hcarries⟩
    rcases exists_segments h' with ⟨segments', entries', hv', hbytes', hcarries'⟩
    -- There is only one way for the bytes to fall into segments.
    obtain rfl := Segment.flatMap_injective (hbytes.trans hbytes'.symm)
    exact ⟨entries, entries', hv, hv', SetCodec.forall₂_agree hcarries hcarries'⟩

/-- The loose bytes are read without a schema too. The set inside of them is left as its
    bytes, so its own keys are not found. -/
theorem framing_ignores_schema_loose :
    (Format.localSet Format.partSchema).codec.read Format.looseBytes.length Format.looseBytes =
      .ok Format.looseValue [] ∧
    ∃ plain, (Format.localSet .bare).codec.read Format.looseBytes.length Format.looseBytes =
      .ok ⟨some (.localSet plain), 14⟩ [] ∧ plain.map Prod.fst = [5, 7, 0x64] := by
  have hread : (Format.localSet Format.partSchema).codec.read Format.looseBytes.length
      Format.looseBytes = .ok Format.looseValue [] := by
    rfl
  rcases (framing_ignores_schema localSet Format.looseBytes).1 _ _ _ hread with
    ⟨entries, plain, hvalue, hplain, hbares⟩
  have hentries : Format.looseValue = ⟨some (.localSet entries), 14⟩ := hvalue
  -- The keys of the entries are known, and are left as they are.
  have hkeys : List.Forall₂ (· = ·) (entries.map Prod.fst) (plain.map Prod.fst) := by
    rw [List.forall₂_map_left_iff, List.forall₂_map_right_iff]
    exact hbares.imp fun e p h => by cases h <;> rfl
  rw [List.forall₂_eq_eq_eq] at hkeys
  injection hentries with hitem _
  injection hitem with hset
  injection hset with hset
  refine ⟨hread, plain, hplain, ?_⟩
  rw [← hkeys, ← hset]
  rfl

end SetFormat

end KlvMetadata
