import KlvMetadata.Proofs.Format.Restoring
import KlvMetadata.Proofs.Set.RoundTrip
import KlvMetadata.Proofs.Set.Segments

/-!
# Writing Sets That Were Read

A set that is read and written again keeps its entries in their places and the
contents of its fields. What may change is the framing. Tags and lengths are
written in their shortest spelling whatever they were read in, and a set inside
a set is rewritten in the same way, so that the length around it may shrink.

Rewriting is described here without reading or writing: the bytes of a set fall
into segments, and each is replaced by the frame of its rewritten content. This
never makes a set longer, and makes it shorter unless all of its framing, at
every depth, was in its shortest form already. A length does not grow when what
it counts shrinks, which is why nothing that is saved inside is lost outside.

## Main definitions

* `Format.Verbatim`: Formats whose contents are passed on, and sets over them.
* `Format.Rewrites`: How the bytes under a format are rewritten.
* `Codec.Rewrites`: Writing what was read rewrites it in some way.
* `Segment.Shortest`, `Format.Shortest`: Framing in its shortest form.

## Theorems

* `Segment.flatMap_injective`: Bytes fall into segments in one way.
* `Format.Rewrites.length_le`: Rewriting never makes bytes longer.
* `Format.Rewrites.eq_of_shortest`: It keeps shortest framing.
* `Format.Verbatim.rewrites`: Reading and writing is rewriting.
* `Format.reading_then_writing`: What becomes of bytes that are read.
-/

namespace KlvMetadata

namespace Segment

variable {κ : Type} [SetKey κ]

/-- No other spelling of the key and none of the length is shorter. -/
def Shortest (s : Segment κ) : Prop :=
  (∀ field, (SetKey.read : Reader κ).Spells field s.key → s.keyField.length ≤ field.length) ∧
    ∀ field, Ber.Spelling (UInt64.ofNat s.content.length) field →
      s.lengthField.length ≤ field.length

theorem bytes_ne_nil (s : Segment κ) : s.bytes ≠ [] := by
  have hpos := s.spells_length.length_pos
  rw [← List.length_pos_iff, bytes, List.length_append, List.length_append]
  omega

/-- Bytes start with one segment only. -/
theorem eq_of_append {s s' : Segment κ} {rest rest' : Bytes}
    (h : s.bytes ++ rest = s'.bytes ++ rest') : s = s' ∧ rest = rest' := by
  rcases s with ⟨key, keyField, lengthField, content, hkey, hlength, hlt⟩
  rcases s' with ⟨key', keyField', lengthField', content', hkey', hlength', hlt'⟩
  simp only [bytes, List.append_assoc] at h
  rcases hkey.unique hkey' h with ⟨rfl, rfl, h⟩
  -- Both lengths are read from the same bytes, so they are the same.
  have hread := hlength.read (Nat.le_add_right _ lengthField'.length) (content ++ rest)
  have hread' := hlength'.read (Nat.le_add_left _ lengthField.length) (content' ++ rest')
  rw [h, hread'] at hread
  injection hread with hcount hbehind
  have hsame : content'.length = content.length := by
    have hnat := congrArg UInt64.toNat hcount
    rwa [UInt64.toNat_ofNat_of_lt' hlt', UInt64.toNat_ofNat_of_lt' hlt] at hnat
  rcases List.append_inj hbehind hsame with ⟨rfl, rfl⟩
  obtain rfl := List.append_cancel_right h
  exact ⟨rfl, rfl⟩

/-- Bytes fall into segments in one way. -/
theorem flatMap_injective {segments segments' : List (Segment κ)}
    (h : segments.flatMap bytes = segments'.flatMap bytes) : segments = segments' := by
  induction segments generalizing segments' with
  | nil =>
      cases segments' with
      | nil => rfl
      | cons s' segments' =>
          rw [List.flatMap_cons] at h
          exact absurd (List.append_eq_nil_iff.mp h.symm).1 s'.bytes_ne_nil
  | cons s segments ih =>
      cases segments' with
      | nil =>
          rw [List.flatMap_cons] at h
          exact absurd (List.append_eq_nil_iff.mp h).1 s.bytes_ne_nil
      | cons s' segments' =>
          rw [List.flatMap_cons, List.flatMap_cons] at h
          rcases eq_of_append h with ⟨rfl, hrest⟩
          rw [ih hrest]

/-- Segments as they stand, one behind the other. -/
def source (pieces : List (Segment κ × Bytes)) : Bytes := pieces.flatMap fun p => p.1.bytes

theorem source_eq_flatMap (pieces : List (Segment κ × Bytes)) :
    source pieces = (pieces.map Prod.fst).flatMap bytes := by
  rw [source, List.flatMap_map]

variable [SetKey.Legible κ]

/-- The shortest spellings are those that are written. -/
theorem shortest_iff (s : Segment κ) :
    s.Shortest ↔ s.keyField = SetKey.Lawful.encode s.key ∧
      s.lengthField = Ber.encode (UInt64.ofNat s.content.length) := by
  have hkey := SetKey.Legible.shortest s.spells_key
  have hlength := s.spells_length.shortest
  constructor
  · rintro ⟨hkeyLe, hlengthLe⟩
    have hencode := hkeyLe _ (SetKey.Lawful.read_encode s.key)
    have hencode' := hlengthLe _ (Ber.spelling_encode _)
    rw [SetKey.Lawful.length_encode] at hencode
    rw [Ber.length_encode] at hencode'
    exact ⟨hkey.2 (Nat.le_antisymm hencode hkey.1),
      hlength.2 (Nat.le_antisymm hencode' hlength.1)⟩
  · rintro ⟨hkeyEq, hlengthEq⟩
    refine ⟨fun field h => ?_, fun field h => ?_⟩
    · rw [hkeyEq, SetKey.Lawful.length_encode]
      exact (SetKey.Legible.shortest h).1
    · rw [hlengthEq, Ber.length_encode]
      exact h.shortest.1

/-- The frame of no longer content is no longer than a segment, and as long only if
    the framing was the shortest and the content is as long. -/
theorem length_frame_le (s : Segment κ) {out : Bytes} (h : out.length ≤ s.content.length) :
    (SetCodec.frame s.key out).length ≤ s.bytes.length ∧
      ((SetCodec.frame s.key out).length = s.bytes.length →
        s.Shortest ∧ out.length = s.content.length) := by
  have hkey := SetKey.Legible.shortest s.spells_key
  have hlength := s.spells_length.shortest
  have hcount : UInt64.ofNat out.length ≤ UInt64.ofNat s.content.length := by
    rw [UInt64.le_iff_toNat_le, s.toNat_length,
      UInt64.toNat_ofNat_of_lt' (Nat.lt_of_le_of_lt h s.content_lt)]
    exact h
  have hmono := Ber.length_mono hcount
  -- None of the three parts grows, so if the sums agree then all of them do.
  rw [SetCodec.frame, bytes, List.length_append, List.length_append, List.length_append,
    List.length_append, SetKey.Lawful.length_encode, Ber.length_encode]
  refine ⟨by omega, fun hsum => ⟨s.shortest_iff.mpr ⟨hkey.2 (by omega), hlength.2 (by omega)⟩,
    by omega⟩⟩

/-- The frames of what the segments are rewritten as. -/
def rewritten (pieces : List (Segment κ × Bytes)) : Bytes :=
  pieces.flatMap fun p => SetCodec.frame p.1.key p.2

/-- Shortest framing around content that is kept is kept. -/
theorem rewritten_eq_source {pieces : List (Segment κ × Bytes)}
    (h : ∀ p ∈ pieces, p.1.Shortest ∧ p.2 = p.1.content) : rewritten pieces = source pieces := by
  refine List.flatMap_congr fun p hp => ?_
  rcases h p hp with ⟨hshortest, hcontent⟩
  rcases p.1.shortest_iff.mp hshortest with ⟨hkey, hlength⟩
  rw [SetCodec.frame, bytes, hcontent, hkey, hlength]

/-- Segments do not grow if their contents do not, and one that shrinks is not made
    up for by another. -/
theorem length_rewritten_le {pieces : List (Segment κ × Bytes)}
    (h : ∀ p ∈ pieces, p.2.length ≤ p.1.content.length) :
    (rewritten pieces).length ≤ (source pieces).length ∧
      ((rewritten pieces).length = (source pieces).length →
        ∀ p ∈ pieces, p.1.Shortest ∧ p.2.length = p.1.content.length) := by
  induction pieces with
  | nil => exact ⟨Nat.le_refl _, fun _ p hp => absurd hp List.not_mem_nil⟩
  | cons p pieces ih =>
      rcases List.forall_mem_cons.mp h with ⟨hfirst, hrest⟩
      rcases p.1.length_frame_le hfirst with ⟨hframe, hkept⟩
      rcases ih hrest with ⟨hframes, hkeptRest⟩
      have hrewritten : (rewritten (p :: pieces)).length =
          (SetCodec.frame p.1.key p.2).length + (rewritten pieces).length := List.length_append
      have hsource : (source (p :: pieces)).length =
          p.1.bytes.length + (source pieces).length := List.length_append
      exact ⟨by omega, fun hsum =>
        List.forall_mem_cons.mpr ⟨hkept (by omega), hkeptRest (by omega)⟩⟩

/-- What holds of a rewritten set if it holds of the contents: it is no longer, and as
    long only if it is the same, with nothing to make shorter. -/
theorem rewritten_spec (short : Segment κ → Prop) {pieces : List (Segment κ × Bytes)}
    (h : ∀ p ∈ pieces, p.2.length ≤ p.1.content.length ∧
      (p.2.length = p.1.content.length → p.2 = p.1.content ∧ short p.1)) :
    (rewritten pieces).length ≤ (source pieces).length ∧
      ((rewritten pieces).length = (source pieces).length →
        rewritten pieces = source pieces ∧ (∀ s ∈ pieces.map Prod.fst, s.Shortest) ∧
          ∀ s ∈ pieces.map Prod.fst, short s) := by
  rcases length_rewritten_le fun p hp => (h p hp).1 with ⟨hle, hlengths⟩
  refine ⟨hle, fun hlength => ?_⟩
  -- A piece whose content is as long has the same content, by assumption.
  have hkept : ∀ p ∈ pieces, p.1.Shortest ∧ p.2 = p.1.content ∧ short p.1 := fun p hp =>
    ⟨(hlengths hlength p hp).1, (h p hp).2 (hlengths hlength p hp).2⟩
  refine ⟨rewritten_eq_source fun p hp => ⟨(hkept p hp).1, (hkept p hp).2.1⟩, ?_, ?_⟩
  · rw [List.forall_mem_map]
    exact fun p hp => (hkept p hp).1
  · rw [List.forall_mem_map]
    exact fun p hp => (hkept p hp).2.2

/-- A set in its shortest form is kept if the contents are. The segments that are
    rewritten are those of the shortest form, because there are no others. -/
theorem rewritten_of_shortest {pieces : List (Segment κ × Bytes)} {segments : List (Segment κ)}
    (hsource : source pieces = segments.flatMap bytes) (hshort : ∀ s ∈ segments, s.Shortest)
    (h : ∀ p ∈ pieces, p.1 ∈ segments → p.2 = p.1.content) :
    rewritten pieces = segments.flatMap bytes := by
  rw [source_eq_flatMap] at hsource
  obtain rfl := flatMap_injective hsource
  rw [← source_eq_flatMap]
  refine rewritten_eq_source fun p hp => ?_
  have hmem : p.1 ∈ pieces.map Prod.fst := List.mem_map_of_mem hp
  exact ⟨hshort p.1 hmem, h p hp hmem⟩

end Segment

namespace Format

/-- Formats of sets, whose contents are not passed on as they are. -/
def isSet : Format → Bool
  | localSet _ | universalSet _ | st0601 _ => true
  | _ => false

/-- Formats that keep the bytes they read, and sets over such formats. -/
inductive Verbatim : Format → Prop
  | unsigned (fixed : Option Nat) : Verbatim (.unsigned fixed)
  | signed (fixed : Option Nat) : Verbatim (.signed fixed)
  | blob (fixed : Option Nat) : Verbatim (.blob fixed)
  | string (fixed : Option Nat) : Verbatim (.string fixed)
  | code (table : CodeTable) : Verbatim (.code table 1)
  | localSet {schema : Schema Format} : (∀ e ∈ schema.entries, Verbatim e.format) →
      Verbatim schema.unknown.format → Verbatim (.localSet schema)
  | universalSet {schema : Schema Format} : (∀ e ∈ schema.entries, Verbatim e.format) →
      Verbatim schema.unknown.format → Verbatim (.universalSet schema)

/-- How bytes under a format are rewritten. Contents other than sets are kept. A set
    falls into segments, each of which becomes the frame of its rewritten content, with the
    key that it had and in the place that it had. -/
inductive Rewrites : Format → Bytes → Bytes → Prop
  | content {f : Format} (bytes : Bytes) : f.isSet = false → Rewrites f bytes bytes
  | localSet {schema : Schema Format} (pieces : List (Segment UInt64 × Bytes)) :
      (∀ p ∈ pieces, Rewrites (schema.byTag p.1.key).format p.1.content p.2) →
      Rewrites (.localSet schema) (Segment.source pieces) (Segment.rewritten pieces)
  | universalSet {schema : Schema Format} (pieces : List (Segment UniversalKey × Bytes)) :
      (∀ p ∈ pieces, Rewrites (schema.byKey p.1.key).format p.1.content p.2) →
      Rewrites (.universalSet schema) (Segment.source pieces) (Segment.rewritten pieces)

/-- Every key and every length in the bytes of a set is in its shortest form, also in
    the sets inside. Other contents have no framing. -/
inductive Shortest : Format → Bytes → Prop
  | content {f : Format} (bytes : Bytes) : f.isSet = false → Shortest f bytes
  | localSet {schema : Schema Format} (segments : List (Segment UInt64)) :
      (∀ s ∈ segments, s.Shortest) →
      (∀ s ∈ segments, Shortest (schema.byTag s.key).format s.content) →
      Shortest (.localSet schema) (segments.flatMap Segment.bytes)
  | universalSet {schema : Schema Format} (segments : List (Segment UniversalKey)) :
      (∀ s ∈ segments, s.Shortest) →
      (∀ s ∈ segments, Shortest (schema.byKey s.key).format s.content) →
      Shortest (.universalSet schema) (segments.flatMap Segment.bytes)

/-- Rewriting never makes bytes longer, and shorter unless it keeps them. -/
theorem Rewrites.length_le {f : Format} {b o : Bytes} (h : f.Rewrites b o) :
    o.length ≤ b.length ∧ (o.length = b.length → o = b ∧ f.Shortest b) := by
  induction h with
  | content bytes hcontent => exact ⟨Nat.le_refl _, fun _ => ⟨rfl, .content bytes hcontent⟩⟩
  | @localSet schema pieces _ ih =>
      rcases Segment.rewritten_spec (fun s => Shortest (schema.byTag s.key).format s.content) ih
        with ⟨hle, hkept⟩
      refine ⟨hle, fun hlength => ?_⟩
      rcases hkept hlength with ⟨heq, hshort, hinner⟩
      exact ⟨heq, Segment.source_eq_flatMap pieces ▸ .localSet _ hshort hinner⟩
  | @universalSet schema pieces _ ih =>
      rcases Segment.rewritten_spec (fun s => Shortest (schema.byKey s.key).format s.content) ih
        with ⟨hle, hkept⟩
      refine ⟨hle, fun hlength => ?_⟩
      rcases hkept hlength with ⟨heq, hshort, hinner⟩
      exact ⟨heq, Segment.source_eq_flatMap pieces ▸ .universalSet _ hshort hinner⟩

/-- Rewriting keeps what is in its shortest form. -/
theorem Rewrites.eq_of_shortest {f : Format} {b o : Bytes} (h : f.Rewrites b o)
    (hshort : f.Shortest b) : o = b := by
  induction h with
  | content bytes _ => rfl
  | localSet pieces _ ih =>
      -- The bytes are known as pieces, and are short as segments that may be others.
      generalize hsource : Segment.source pieces = b at hshort
      cases hshort with
      | content _ hset => contradiction
      | localSet segments hsegments hinner =>
          exact Segment.rewritten_of_shortest hsource hsegments fun p hp hmem =>
            ih p hp (hinner p.1 hmem)
  | universalSet pieces _ ih =>
      generalize hsource : Segment.source pieces = b at hshort
      cases hshort with
      | content _ hset => contradiction
      | universalSet segments hsegments hinner =>
          exact Segment.rewritten_of_shortest hsource hsegments fun p hp hmem =>
            ih p hp (hinner p.1 hmem)

end Format

/-- Writing what was read rewrites it so. -/
def Codec.Rewrites (c : Codec) (rewrites : Bytes → Bytes → Prop) : Prop :=
  ∀ ⦃b : Bytes⦄ ⦃v : Value⦄ ⦃left : Bytes⦄, c.read b.length b = .ok v left →
    ∃ o, c.Settles v (.written o) ∧ rewrites b o

namespace SetCodec

variable {κ : Type} [SetKey κ] [SetKey.Legible κ] {schema : Schema Format}
  {rewrites : Format → Bytes → Bytes → Prop}

/-- Segments are rewritten as what is written for the entries that they carry. -/
theorem exists_pieces {bytes : κ × Value → Bytes} {segments : List (Segment κ)}
    {entries : Entries κ}
    (h : List.Forall₂ (fun s e => s.Carries schema e) segments entries)
    (hcontent : ∀ (s : Segment κ) (e : κ × Value), s.Carries schema e →
      (SetKey.lookup schema e.1).format.codec.Settles e.2 (.written (bytes e)) ∧
        rewrites (SetKey.lookup schema e.1).format s.content (bytes e)) :
    (∀ e ∈ entries,
      (SetKey.lookup schema e.1).format.codec.Settles e.2 (.written (bytes e))) ∧
    ∃ pieces : List (Segment κ × Bytes), segments.flatMap Segment.bytes = Segment.source pieces ∧
      frames bytes entries = Segment.rewritten pieces ∧
      ∀ p ∈ pieces, rewrites (SetKey.lookup schema p.1.key).format p.1.content p.2 := by
  induction h with
  | nil => exact ⟨nofun, [], rfl, rfl, nofun⟩
  | @cons s e segments entries hcarries _ ih =>
      rcases hcontent s e hcarries with ⟨hfirst, hrewrites⟩
      rcases ih with ⟨hsettles, pieces, hsource, hframes, hrest⟩
      refine ⟨List.forall_mem_cons.mpr ⟨hfirst, hsettles⟩, (s, bytes e) :: pieces, ?_, ?_,
        List.forall_mem_cons.mpr ⟨hcarries.1 ▸ hrewrites, hrest⟩⟩
      · rw [List.flatMap_cons, hsource, Segment.source, Segment.source, List.flatMap_cons]
      · rw [frames, List.flatMap_cons, ← frames, hframes, Segment.rewritten, Segment.rewritten,
          List.flatMap_cons, hcarries.1]

/-- A set is rewritten piece by piece if what is in it is rewritten. -/
theorem rewrites_entries [DecidableEq κ] (view : ItemView (Entries κ)) {terms : Layout.Terms}
    (hkind : view.kind ≠ .blob)
    (hcontent : ∀ key : κ, (SetKey.lookup schema key).format.codec.Rewrites
      (rewrites (SetKey.lookup schema key).format)) :
    ((Layout.entries (Format.schemaCodecs schema)).codec view terms).Rewrites fun b o =>
      ∃ pieces : List (Segment κ × Bytes), b = Segment.source pieces ∧
        o = Segment.rewritten pieces ∧
        ∀ p ∈ pieces, rewrites (SetKey.lookup schema p.1.key).format p.1.content p.2 := by
  intro b v left hread
  rcases Layout.read_codec_eq_ok hread with ⟨rfl, rfl⟩ | ⟨_, _, entries, hentries, rfl⟩
  · exact ⟨[], Layout.settles_empty _ _ _ 0, [], rfl, rfl, nofun⟩
  · rcases readEntries_eq_ok_iff.mp hentries with ⟨_, segments, rfl, hcarries⟩
    -- What is written for an entry depends on it alone, so it is a function of it.
    choose! bytes hbytes using fun (e : κ × Value)
      (h : ∃ o, (SetKey.lookup schema e.1).format.codec.Settles e.2 (.written o)) => h
    have hpieces := exists_pieces hcarries fun s e hse => by
      rcases hcontent e.1 hse.2 with ⟨o, hsettles, ho⟩
      obtain rfl := hsettles.unique (hbytes e ⟨o, hsettles⟩)
      exact ⟨hsettles, ho⟩
    rcases hpieces with ⟨hsettles, pieces, hsource, hframes, hrewrites⟩
    simp only [← codecFor_schemaCodecs] at hsettles
    refine ⟨frames bytes entries, ?_, pieces, hsource, hframes, hrewrites⟩
    exact Layout.settles_written hkind (entriesLength_frames hsettles)
      (appends_writeEntries hsettles (Nat.le_refl _))

end SetCodec

namespace Format

/-- What holds of all formats of a schema holds of the one under a key. -/
theorem forall_lookup {κ : Type} [SetKey κ] [SetKey.Lawful κ] {P : Format → Prop}
    {schema : Schema Format} (hentries : ∀ e ∈ schema.entries, P e.format)
    (hunknown : P schema.unknown.format) (key : κ) : P (SetKey.lookup schema key).format := by
  rcases SetKey.Lawful.lookup_mem schema key with hmem | hkey
  · exact hentries _ hmem
  · exact hkey ▸ hunknown

/-- Contents that are restored are kept. -/
theorem rewrites_of_restores {f : Format} (h : f.codec.Restores) (hf : f.isSet = false) :
    f.codec.Rewrites f.Rewrites :=
  fun b _ _ hread => ⟨b, h hread, .content b hf⟩

/-- Reading and writing is rewriting. -/
theorem Verbatim.rewrites {f : Format} (h : f.Verbatim) : f.codec.Rewrites f.Rewrites := by
  induction h with
  | unsigned fixed => exact rewrites_of_restores ((Layout.restores_unsigned fixed).codec nofun) rfl
  | signed fixed => exact rewrites_of_restores ((Layout.restores_signed fixed).codec nofun) rfl
  | blob fixed => exact rewrites_of_restores (Layout.restores_blob _) rfl
  | string fixed => exact rewrites_of_restores ((Layout.restores_string fixed).codec nofun) rfl
  | code table => exact rewrites_of_restores ((Layout.restores_code table).codec nofun) rfl
  | @localSet schema _ _ ih ihUnknown =>
      -- What holds of the schema's formats holds of the one that a tag is looked up to.
      intro b v left hread
      have hcontent (key : UInt64) :=
        forall_lookup (P := fun f => f.codec.Rewrites f.Rewrites) ih ihUnknown key
      rcases SetCodec.rewrites_entries .localSet nofun hcontent hread with
        ⟨_, hsettles, pieces, rfl, rfl, hpieces⟩
      exact ⟨_, hsettles, .localSet pieces hpieces⟩
  | @universalSet schema _ _ ih ihUnknown =>
      intro b v left hread
      have hcontent (key : UniversalKey) :=
        forall_lookup (P := fun f => f.codec.Rewrites f.Rewrites) ih ihUnknown key
      rcases SetCodec.rewrites_entries .universalSet nofun hcontent hread with
        ⟨_, hsettles, pieces, rfl, rfl, hpieces⟩
      exact ⟨_, hsettles, .universalSet pieces hpieces⟩

/-- Bytes that are read under a format that keeps bytes are written again, whenever
    there is space for them, as their rewriting: a set has its keys in their places,
    and all contents but those of sets, under unlisted keys too. The bytes are never
    more than were read. They are the same if all framing was in its shortest form,
    at every depth, and fewer otherwise. -/
theorem reading_then_writing (f : Format) (hf : f.Verbatim) (b : Bytes) (v : Value)
    (left : Bytes) (hread : f.codec.read b.length b = .ok v left) :
    ∃ o, f.codec.lengthOf v = .ok o.length ∧
      (∀ space out, o.length ≤ space → f.codec.write v space out = .ok () (out ++ o)) ∧
      o.length ≤ b.length ∧ (f.Shortest b → o = b) ∧ (¬ f.Shortest b → o.length < b.length) ∧
      f.Rewrites b o := by
  rcases hf.rewrites hread with ⟨o, hsettles, hrewrites⟩
  rcases hrewrites.length_le with ⟨hle, hkept⟩
  -- As many bytes as before would mean that the framing was in its shortest form.
  refine ⟨o, hsettles.lengthOf, fun _ out hspace => hsettles.write_eq_ok hspace out, hle,
    hrewrites.eq_of_shortest, fun hlong => ?_, hrewrites⟩
  exact Nat.lt_of_le_of_ne hle fun hlength => hlong (hkept hlength).2

/-- A schema with a set under one of its tags. -/
def partSchema : Schema Format :=
  .listing [⟨5, none, .unsigned none, "Count", "", .any⟩,
    ⟨7, none, .localSet (.listing [] .unlisted), "Part", "", .any⟩] .unlisted

/-- A wide number, a set with a length in two bytes, and an unlisted tag in two. -/
def looseBytes : Bytes := [5, 2, 0, 9, 7, 4, 0x63, 0x81, 1, 0xAA, 0x80, 0x64, 1, 0xBB]

/-- What is read from them. -/
def looseValue : Value :=
  ⟨some (.localSet [(5, ⟨some (.u64 9), 2⟩),
    (7, ⟨some (.localSet [(0x63, ⟨some (.blob [0xAA]), 1⟩)]), 4⟩),
    (0x64, ⟨some (.blob [0xBB]), 1⟩)]), 14⟩

/-- The number stays as wide as it was, and the two loose spellings are tightened. -/
theorem reading_then_writing_loose :
    (localSet partSchema).Verbatim ∧
    (localSet partSchema).codec.read looseBytes.length looseBytes = .ok looseValue [] ∧
    ¬ (localSet partSchema).Shortest looseBytes ∧
    (localSet partSchema).Rewrites looseBytes [5, 2, 0, 9, 7, 3, 0x63, 1, 0xAA, 0x64, 1, 0xBB] := by
  have hpart : (localSet (.listing [] .unlisted)).Verbatim := .localSet nofun (.blob none)
  have hverbatim : (localSet partSchema).Verbatim := by
    refine .localSet (fun e he => ?_) (.blob none)
    simp only [partSchema, Schema.entries_listing, List.mem_cons, List.not_mem_nil, or_false] at he
    rcases he with rfl | rfl
    · exact .unsigned none
    · exact hpart
  have hread : (localSet partSchema).codec.read looseBytes.length looseBytes =
      .ok looseValue [] := by
    rfl
  have hlength : (localSet partSchema).codec.lengthOf looseValue = .ok 12 := by rfl
  rcases reading_then_writing _ hverbatim _ _ _ hread with
    ⟨o, hmeasured, hwrite, _, hshortest, _, hrewrites⟩
  -- Twelve bytes of fourteen are left, so not all framing can have been short.
  have hcount : o.length = 12 := Except.ok.inj (hmeasured.symm.trans hlength)
  have hwritten : (localSet partSchema).codec.write looseValue 12 [] =
      .ok () [5, 2, 0, 9, 7, 3, 0x63, 1, 0xAA, 0x64, 1, 0xBB] := by
    rfl
  rw [hwrite 12 [] (Nat.le_of_eq hcount)] at hwritten
  injection hwritten with _ hwritten
  rw [List.nil_append] at hwritten
  refine ⟨hverbatim, hread, fun hshort => ?_, hwritten ▸ hrewrites⟩
  rw [hshortest hshort] at hcount
  contradiction

/-- A schema that takes all unlisted tags for sets. -/
def unlistedSetSchema : Schema Format :=
  .listing [] ⟨0, none, .localSet (.listing [] .unlisted), "Unlisted Set", "", .any⟩

/-- What is under an unlisted tag is not kept if it is taken for a set. The bytes
    that stood under the tag are not among those that are written. -/
theorem unlisted_set_is_rewritten :
    (localSet unlistedSetSchema).Verbatim ∧ unlistedSetSchema.findTag? 0x63 = none ∧
    ∃ v, (localSet unlistedSetSchema).codec.read 6 [0x63, 4, 5, 0x81, 1, 0xAA] = .ok v [] ∧
      (localSet unlistedSetSchema).codec.write v 6 [] = .ok () [0x63, 3, 5, 1, 0xAA] ∧
      ¬ [5, 0x81, 1, 0xAA] <:+: ([0x63, 3, 5, 1, 0xAA] : Bytes) :=
  ⟨.localSet nofun (.localSet nofun (.blob none)), rfl,
    ⟨some (.localSet [(0x63, ⟨some (.localSet [(5, ⟨some (.blob [0xAA]), 1⟩)]), 4⟩)]), 6⟩,
    rfl, rfl, by decide⟩

end Format

end KlvMetadata
