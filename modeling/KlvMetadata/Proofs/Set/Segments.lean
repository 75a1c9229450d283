import KlvMetadata.Proofs.Format.Fields
import KlvMetadata.Proofs.Set.Keys

/-!
# Reading Sets Piece by Piece

A set is read from segments, each of which is a key, a length and as many bytes
as the length says. Keys and lengths may be spelled in any way that readers
accept. Each part tells where it ends, so an entry does too, and reading entries
is an instance of reading things that find their own end.

From this follows what a set loses when it is cut. The bytes fall into segments
in one way only, and a cut is an error unless it falls between two segments. An
entry takes two bytes at the least, one for its key and one for its length, so
there are no more of them than half the bytes, and the loop ends.

## Main definitions

* `Segment`: Key, length and content of one entry, as they were spelled.
* `Segment.bytes`: The bytes of a segment.
* `Segment.Carries`: A segment carries an entry.

## Theorems

* `SetCodec.readEntry_eq_ok_iff`: Reading an entry takes a segment.
* `SetCodec.delimited_readEntry`: Entries tell where they end.
* `SetCodec.two_le_length_of_spells`: And take two bytes or more.
* `SetCodec.readEntries_eq_ok_iff`: Reading entries is splitting into segments.
* `SetCodec.reading_takes_segments`: The segments of a set, and its cuts.
-/

namespace KlvMetadata

/-- The bytes of one entry: a key, a length, and as many bytes as it says. -/
structure Segment (κ : Type) [SetKey κ] where
  key : κ
  keyField : Bytes
  lengthField : Bytes
  content : Bytes
  spells_key : (SetKey.read : Reader κ).Spells keyField key
  spells_length : Ber.Spelling (UInt64.ofNat content.length) lengthField
  content_lt : content.length < UInt64.size

namespace Segment

variable {κ : Type} [SetKey κ]

/-- Key, length and content, one behind the other. -/
def bytes (s : Segment κ) : Bytes := s.keyField ++ (s.lengthField ++ s.content)

/-- It has the key of the entry, and its content is read as the value. -/
def Carries (schema : Schema Format) (s : Segment κ) (e : κ × Value) : Prop :=
  s.key = e.1 ∧
    (SetKey.lookup schema e.1).format.codec.read s.content.length s.content = .ok e.2 []

theorem toNat_length (s : Segment κ) :
    (UInt64.ofNat s.content.length).toNat = s.content.length :=
  UInt64.toNat_ofNat_of_lt' s.content_lt

end Segment

namespace SetCodec

variable {κ : Type} [SetKey κ] [SetKey.Legible κ] {schema : Schema Format}

/-- Reading an entry takes a segment, and the value is read from its content. -/
theorem readEntry_eq_ok_iff {data rest : Bytes} {e : κ × Value} :
    readEntry (Format.schemaCodecs schema) data = .ok e rest ↔
      ∃ s : Segment κ, s.key = e.1 ∧ data = s.bytes ++ rest ∧
        (SetKey.lookup schema e.1).format.codec.read s.content.length s.content = .ok e.2 [] := by
  rcases e with ⟨key, v⟩
  simp only [readEntry, Action.bind_apply, Reader.remaining, codecFor_schemaCodecs]
  constructor
  · intro h
    split at h
    · next key' behindKey hkey =>
      rcases SetKey.Legible.delimited_read hkey with ⟨keyField, rfl, hkeySpells⟩
      split at h
      · next length behindLength hlength =>
        rcases Ber.read_eq_ok_iff.mp hlength with ⟨lengthField, hlengthSpells, _, rfl⟩
        by_cases hleft : behindLength.length < length.toNat
        · simp [hleft, Reader.fail] at h
        · simp only [hleft, if_false, Action.bind_apply, Action.pure_apply] at h
          split at h
          · next w behindValue hvalue =>
            injection h with he hrest
            injection he with hkeys hvalues
            subst hkeys hvalues hrest
            rcases Format.field_of_read _ hvalue with ⟨content, hcontent, rfl, hread⟩
            have hlength' : UInt64.ofNat content.length = length := by
              rw [hcontent, UInt64.ofNat_toNat]
            have hself := hread []
            rw [List.append_nil, ← hcontent] at hself
            exact ⟨⟨key', keyField, lengthField, content, hkeySpells, hlength' ▸ hlengthSpells,
              hcontent ▸ length.toNat_lt⟩, rfl, by simp [Segment.bytes], hself⟩
          · contradiction
      · contradiction
    · contradiction
  · rintro ⟨s, rfl, rfl, hread⟩
    -- Each part is read in front of those behind it.
    have hlength : Ber.read (s.lengthField ++ (s.content ++ rest)).length
        (s.lengthField ++ (s.content ++ rest)) =
        .ok (UInt64.ofNat s.content.length) (s.content ++ rest) :=
      s.spells_length.read (by rw [List.length_append]; omega) _
    have hleft : ¬ (s.content ++ rest).length < s.content.length := by
      rw [List.length_append]
      omega
    have hvalue := Format.local_codec _ hread rest
    simp only [Segment.bytes, List.append_assoc, s.spells_key _, hlength, s.toNat_length, hleft,
      if_false, Action.bind_apply, Action.pure_apply, hvalue]

/-- Entries tell where they end. -/
theorem delimited_readEntry :
    (readEntry (Format.schemaCodecs schema) : Reader (κ × Value)).Delimited := by
  intro data rest e h
  rcases readEntry_eq_ok_iff.mp h with ⟨s, hkey, hdata, hread⟩
  exact ⟨s.bytes, hdata, fun _ => readEntry_eq_ok_iff.mpr ⟨s, hkey, rfl, hread⟩⟩

/-- An entry takes a byte for its key and one for its length. -/
theorem two_le_length_of_spells {field : Bytes} {e : κ × Value}
    (h : (readEntry (Format.schemaCodecs schema)).Spells field e) : 2 ≤ field.length := by
  rcases readEntry_eq_ok_iff.mp h.read_self with ⟨s, _, hfield, _⟩
  have hkey := (SetKey.Legible.shortest s.spells_key).1
  have hkeyPos := SetKey.Legible.length_pos s.key
  have hlengthPos := s.spells_length.length_pos
  rw [List.append_nil] at hfield
  rw [hfield, Segment.bytes, List.length_append, List.length_append]
  omega

theorem spells_bytes_iff {field : Bytes} {e : κ × Value} :
    (readEntry (Format.schemaCodecs schema)).Spells field e ↔
      ∃ s : Segment κ, field = s.bytes ∧ s.Carries schema e := by
  constructor
  · intro h
    rcases readEntry_eq_ok_iff.mp h.read_self with ⟨s, hkey, hfield, hread⟩
    rw [List.append_nil] at hfield
    exact ⟨s, hfield, hkey, hread⟩
  · rintro ⟨s, rfl, hkey, hread⟩
    exact fun rest => readEntry_eq_ok_iff.mpr ⟨s, hkey, rfl, hread⟩

/-- Fields of entries are segments that carry them. -/
theorem forall₂_spells_iff {fields : List Bytes} {entries : Entries κ} :
    List.Forall₂ (readEntry (Format.schemaCodecs schema)).Spells fields entries ↔
      ∃ segments : List (Segment κ), fields = segments.map Segment.bytes ∧
        List.Forall₂ (fun s e => s.Carries schema e) segments entries := by
  constructor
  · intro h
    induction h with
    | nil => exact ⟨[], rfl, .nil⟩
    | cons hspells _ ih =>
        rcases spells_bytes_iff.mp hspells with ⟨s, rfl, hcarries⟩
        rcases ih with ⟨segments, rfl, hrest⟩
        exact ⟨s :: segments, rfl, .cons hcarries hrest⟩
  · rintro ⟨segments, rfl, hcarries⟩
    rw [List.forall₂_map_left_iff]
    exact hcarries.imp fun s e h => spells_bytes_iff.mpr ⟨s, rfl, h⟩

theorem ne_nil_of_spells {field : Bytes} {e : κ × Value}
    (h : (readEntry (Format.schemaCodecs schema)).Spells field e) : field ≠ [] := by
  have hlength := two_le_length_of_spells h
  exact List.length_pos_iff.mp (by omega)

/-- Reading entries is splitting into segments that carry them. -/
theorem readEntries_eq_ok_iff {b left : Bytes} {entries : Entries κ} :
    readEntries (Format.schemaCodecs schema) b = .ok entries left ↔
      left = [] ∧ ∃ segments : List (Segment κ), segments.flatMap Segment.bytes = b ∧
        List.Forall₂ (fun s e => s.Carries schema e) segments entries := by
  rw [readEntries, Reader.toEnd_eq_ok_iff delimited_readEntry ne_nil_of_spells]
  simp only [forall₂_spells_iff, List.flatMap_def]
  constructor
  · rintro ⟨hleft, _, hb, segments, rfl, hcarries⟩
    exact ⟨hleft, segments, hb, hcarries⟩
  · rintro ⟨hleft, segments, hb, hcarries⟩
    exact ⟨hleft, _, hb, segments, rfl, hcarries⟩

/-- Entries that are read stand in segments that make up the bytes, each of
    which is read as its entry on its own; there is no other way to split the
    bytes into fields that are read as entries on their own; and reading the
    first `k` bytes succeeds if they end where a segment does, with the entries
    up to there. On any input the loop comes to an end, after no more entries
    than half the bytes, and reading entries does what the loop does. -/
theorem reading_takes_segments (schema : Schema Format) (b : Bytes) :
    (∀ (entries : Entries κ) (left : Bytes),
      readEntries (Format.schemaCodecs schema) b = .ok entries left →
      left = [] ∧ ∃ segments : List (Segment κ), segments.flatMap Segment.bytes = b ∧
        List.Forall₂ (fun s e => s.Carries schema e ∧
          readEntry (Format.schemaCodecs schema) s.bytes = .ok e []) segments entries ∧
        (∀ (fields : List Bytes) (entries' : Entries κ), fields.flatten = b →
          List.Forall₂ (fun field e =>
            readEntry (Format.schemaCodecs schema) field = .ok e []) fields entries' →
          fields = segments.map Segment.bytes ∧ entries' = entries) ∧
        ∀ k ≤ b.length, ∀ entries' : Entries κ,
          (∃ left, readEntries (Format.schemaCodecs schema) (b.take k) = .ok entries' left) ↔
            ∃ i ≤ segments.length, k = ((segments.take i).flatMap Segment.bytes).length ∧
              entries' = entries.take i) ∧
    ∃ (entries : Entries κ) (stop : Option (Error × Bytes)),
      Reader.Loop (readEntry (Format.schemaCodecs schema)) b entries stop ∧
      entries.length ≤ b.length / 2 ∧
      readEntries (Format.schemaCodecs schema) b = Reader.ending entries stop := by
  refine ⟨fun entries left h => ?_, ?_⟩
  · rcases readEntries_eq_ok_iff.mp h with ⟨hleft, segments, rfl, hcarries⟩
    have hspells := forall₂_spells_iff.mpr ⟨segments, rfl, hcarries⟩
    rw [List.flatMap_def]
    refine ⟨hleft, segments, rfl, ?_, ?_, fun k hk entries' => ?_⟩
    · exact hcarries.imp fun s e hse =>
        ⟨hse, (spells_bytes_iff.mpr ⟨s, rfl, hse⟩).read_self⟩
    · intro fields entries' hflatten halone
      exact Reader.fields_unique ne_nil_of_spells hspells
        (halone.imp fun _ _ => delimited_readEntry.spells) hflatten
    · have hcut := Reader.toEnd_take_iff delimited_readEntry ne_nil_of_spells hspells hk entries'
      simpa only [readEntries, List.length_map, ← List.map_take, ← List.flatMap_def] using hcut
  · have hdelimited : (readEntry (Format.schemaCodecs schema) : Reader (κ × Value)).Delimited :=
      delimited_readEntry
    rcases Reader.exists_loop hdelimited (by decide) two_le_length_of_spells b with
      ⟨entries, stop, hloop, hread, hcount⟩
    exact ⟨entries, stop, hloop, by omega, hread⟩

end SetCodec

end KlvMetadata
