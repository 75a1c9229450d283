import KlvMetadata.Proofs.Format.Definite
import KlvMetadata.Proofs.Format.Fields
import KlvMetadata.Proofs.Set.RoundTrip

/-!
# Reading Back UAS Datalink Sets

The set is written with its timestamps first and without checksums. Everything
else stays in its place, so what is read back is the set in that order. A
reader expects tag and length of a timestamp at the start, and finds them if
the first timestamp is written in eight bytes.

## Main definitions

* `St0601.arranged`: The entries in the order of writing.

## Theorems

* `St0601.codecFor_schemaCodecs`: The codec under a tag is that of its format.
* `St0601.ordered_eq`: Arranging a set with a timestamp.
* `St0601.arranged_perm`: Arranging a set drops its checksums and nothing else.
* `St0601.carries`: The set is written as its frames and read back from them.
-/

namespace KlvMetadata

namespace St0601

/-- The codec under a tag is that of its format. -/
theorem codecFor_schemaCodecs (schema : Schema Format) (tag : UInt64) :
    SetCodec.codecFor (Format.schemaCodecs schema) tag = (schema.byTag tag).format.codec :=
  SetCodec.codecFor_schemaCodecs schema tag

/-- The entries in the order of writing. -/
def arranged (entries : Entries UInt64) : Entries UInt64 :=
  entries.filter (fun e => e.1 = timestampTag) ++
    entries.filter (fun e => e.1 ≠ timestampTag && e.1 ≠ checksumTag)

/-- Arranging a set drops its checksums and nothing else. -/
theorem arranged_perm (entries : Entries UInt64) :
    (arranged entries).Perm (entries.erase checksumTag) := by
  -- Both parts can be taken from what is left without checksums, and make it up.
  have hfirst : entries.filter (fun e => e.1 = timestampTag) =
      (entries.erase checksumTag).filter (fun e => e.1 = timestampTag) := by
    rw [Entries.erase, List.filter_filter]
    refine List.filter_congr fun e _ => ?_
    by_cases h : e.1 = timestampTag
    · simp [h, timestampTag, checksumTag]
    · simp [h]
  have hothers : entries.filter (fun e => e.1 ≠ timestampTag && e.1 ≠ checksumTag) =
      (entries.erase checksumTag).filter (fun e => !decide (e.1 = timestampTag)) := by
    rw [Entries.erase, List.filter_filter]
    refine List.filter_congr fun e _ => ?_
    simp
  rw [arranged, hfirst, hothers]
  exact List.filter_append_perm _ _

theorem mem_arranged {entries : Entries UInt64} {e : UInt64 × Value} :
    e ∈ arranged entries ↔ e ∈ entries ∧ e.1 ≠ checksumTag := by
  rw [(arranged_perm entries).mem_iff, Entries.erase, List.mem_filter, decide_eq_true_eq]

/-- The first entry written is the first timestamp. -/
theorem arranged_eq_cons {entries : Entries UInt64} {v : Value}
    (h : entries.find? timestampTag = some v) :
    ∃ rest, arranged entries = (timestampTag, v) :: rest := by
  rcases Option.map_eq_some_iff.mp h with ⟨⟨tag, w⟩, hfind, rfl⟩
  have htag : tag = timestampTag := by simpa using List.find?_some hfind
  rw [← List.head?_filter] at hfind
  subst htag
  rcases List.head?_eq_some_iff.mp hfind with ⟨rest, hrest⟩
  exact ⟨_, by rw [arranged, hrest, List.cons_append]⟩

/-- A set with a timestamp is arranged. -/
theorem ordered_eq {entries : Entries UInt64} {v : Value}
    (h : entries.find? timestampTag = some v) : ordered entries = .ok (arranged entries) := by
  have hhas : entries.has timestampTag := by
    rcases Option.map_eq_some_iff.mp h with ⟨e, hfind, _⟩
    have htag := List.find?_some hfind
    exact List.any_eq_true.mpr ⟨e, List.mem_of_find?_eq_some hfind, htag⟩
  rw [ordered, if_pos hhas, arranged]

variable {schema : Schema Format} {entries : Entries UInt64} {v : Value}
  {bytes : UInt64 × Value → Bytes} {result : UInt64 × Value → Value}

/-- A set that is written starts with tag and length of its timestamp. -/
theorem frames_eq (h : entries.find? timestampTag = some v)
    (hlength : (bytes (timestampTag, v)).length = 8) :
    ∃ rest, 8 ≤ rest.length ∧
      SetCodec.frames bytes (arranged entries) = 0x02 :: 0x08 :: rest := by
  rcases arranged_eq_cons h with ⟨others, hcons⟩
  refine ⟨bytes (timestampTag, v) ++ SetCodec.frames bytes others, ?_, ?_⟩
  · rw [List.length_append]
    omega
  · have htag : SetKey.Lawful.encode timestampTag = [0x02] := by decide
    have hframing : Ber.encode (UInt64.ofNat 8) = [0x08] := by decide
    rw [hcons, SetCodec.frames, List.flatMap_cons, SetCodec.frame, hlength, htag, hframing]
    rfl

/-- The set is read back from its frames, in the order of writing. -/
theorem read_frames (h : entries.find? timestampTag = some v)
    (hlength : (bytes (timestampTag, v)).length = 8)
    (hcarries : ∀ e ∈ arranged entries,
      (schema.byTag e.1).format.codec.Carries e.2 (bytes e) (result e))
    (hfits : ∀ e ∈ arranged entries, (bytes e).length < UInt64.size) :
    (Layout.st0601 (Format.schemaCodecs schema)).read
      (SetCodec.frames bytes (arranged entries)).length (SetCodec.frames bytes (arranged entries)) =
      .ok ((arranged entries).map fun e => (e.1, result e)) [] := by
  -- The check at the start looks and takes nothing, so the entries are all still there.
  simp only [← codecFor_schemaCodecs] at hcarries
  have hread := SetCodec.readEntries_frames hcarries hfits
  rcases frames_eq h hlength with ⟨rest, hrest, hstart⟩
  rw [hstart] at hread ⊢
  have hlong : ¬ (0x02 :: 0x08 :: rest : Bytes).length < timestampEntryLength := by
    simp only [List.length_cons, timestampEntryLength]
    omega
  simp only [Layout.st0601, if_neg hlong, Action.bind_apply, requireTimestamp]
  exact hread

/-- The set is written as its frames and read back from them. -/
theorem carries (hint : Nat) (h : entries.find? timestampTag = some v)
    (hlength : (bytes (timestampTag, v)).length = 8)
    (hcarries : ∀ e ∈ arranged entries,
      (schema.byTag e.1).format.codec.Carries e.2 (bytes e) (result e))
    (hfits : ∀ e ∈ arranged entries, (bytes e).length < UInt64.size) :
    (Format.st0601 schema).codec.Carries ⟨some (.localSet entries), hint⟩
      (SetCodec.frames bytes (arranged entries))
      ⟨some (.localSet ((arranged entries).map fun e => (e.1, result e))),
        (SetCodec.frames bytes (arranged entries)).length⟩ where
  written := by
    simp only [← codecFor_schemaCodecs] at hcarries
    have hsettles := fun e he => (hcarries e he).written
    refine Layout.settles_written nofun ?_ ?_
    · simp only [Layout.st0601, ordered_eq h]
      exact SetCodec.entriesLength_frames hsettles
    · simp only [Layout.st0601, ordered_eq h, Action.ofExcept_ok_bind]
      exact SetCodec.appends_writeEntries hsettles (Nat.le_refl _)
  read := by
    refine Layout.read_field ?_ (Layout.Terms.allow_of_free rfl _) ?_
    · rcases frames_eq h hlength with ⟨rest, _, hstart⟩
      rw [hstart]
      exact List.cons_ne_nil _ _
    · exact read_frames h hlength hcarries hfits

end St0601

end KlvMetadata
