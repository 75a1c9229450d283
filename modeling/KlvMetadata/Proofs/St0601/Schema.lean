import KlvMetadata.Proofs.Format.Unwritable
import KlvMetadata.Proofs.Schema.Building
import KlvMetadata.St0601.Schema

/-!
# The Schema of the Standard

What is needed to know of the listed items, found by looking through the list. Their tags
count up and none has a key, so they make a schema. None of them is a set, and all mapped
numbers have lengths that the format can be made with.

## Theorems

* `St0601.ofFormats_schema`: The schema is built from the listed items.
* `St0601.plain_byTag`: No tag stands for a set, be it listed or not.
* `St0601.over_schema`: The schema can be written with.
* `St0601.byTag_timestampTag`: The timestamp is an integer of eight bytes.
-/

namespace KlvMetadata

namespace Format

instance : DecidablePred Resolved
  | imap _ length => inferInstanceAs (Decidable (1 ≤ length ∧ length ≤ 8))
  | unsigned _ | signed _ | blob _ | string _ | float _ | ber | berOid | unsignedSteps _ _
  | signedSteps _ _ | code _ _ | command | frameRate | localSet _ | universalSet _ | st0601 _ =>
    .isTrue trivial

end Format

namespace St0601

/-- The schema is what is built from the listed items. -/
theorem ofFormats_schema : Schema.ofFormats (entriesFrom 1 listings) = .ok schema :=
  Schema.ofEntries_of_sorted (by decide +kernel) (by decide +kernel)

theorem listings_plain : ∀ l ∈ listings, l.format.isSet = false ∧ l.format.Resolved := by
  decide +kernel

/-- Entries have the formats of the items they are made from. -/
theorem mem_entriesFrom {tag : UInt64} {items : List Listing} {e : Entry Format}
    (h : e ∈ entriesFrom tag items) : ∃ l ∈ items, e.format = l.format := by
  induction items generalizing tag with
  | nil => exact absurd h List.not_mem_nil
  | cons l items ih =>
      rw [entriesFrom] at h
      rcases List.mem_cons.mp h with rfl | h
      · exact ⟨l, List.mem_cons_self, rfl⟩
      · rcases ih h with ⟨l', hl', hformat⟩
        exact ⟨l', List.mem_cons_of_mem l hl', hformat⟩

theorem schema_plain {e : Entry Format} (h : e ∈ schema.entries) :
    e.format.isSet = false ∧ e.format.Resolved := by
  rcases mem_entriesFrom h with ⟨l, hl, hformat⟩
  rw [hformat]
  exact listings_plain l hl

/-- No tag stands for a set, be it listed or not. -/
theorem plain_byTag (tag : UInt64) : (schema.byTag tag).format.isSet = false :=
  Format.forall_lookup (P := fun f => f.isSet = false) (fun _ he => (schema_plain he).1) rfl tag

/-- The schema can be written with. -/
theorem over_schema : (Format.st0601 schema).Over Format.Resolved :=
  .st0601 (fun _ he => .plain (schema_plain he).1 (schema_plain he).2) (.plain rfl trivial)

/-- The timestamp is an integer of eight bytes. -/
theorem byTag_timestampTag : (schema.byTag timestampTag).format = .unsigned (some 8) := by
  rfl

end St0601

end KlvMetadata
