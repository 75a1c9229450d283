import KlvMetadata.Proofs.Format.Contents
import KlvMetadata.Proofs.Set.RoundTrip

/-!
# Writing and Reading Back

Formats other than those for floating point lose nothing: what is written is
read back as the same value, with the entries of sets in the order they had.
Which values a format is made for is a matter of the format. An empty value can
stand in for any, and a set has to have entries, because a field without bytes
is read as an empty value.

Values nest in sets as formats nest in schemas, so the proof is an induction on
how a value comes to be one that its format is made for. Bytes are collected on
the way, whatever their number. That they are read back asks for numbers that a
word can count, and the bytes of a value are never more than those of the set
around it.

## Main definitions

* `Format.Holds`: The values that a format is made for.

## Theorems

* `SetCodec.keeps_entries`: Sets are read back if their entries are.
* `Format.Holds.keeps`: Values that a format is made for are read back.
* `Format.written_is_read_back`: What writing and reading do with such values.
-/

namespace KlvMetadata

/-- The values that a format is made for, if it is not one for floating point. The
    hints in them may be any. -/
inductive Format.Holds : Format → Value → Prop
  /-- Nothing, which every format can write. -/
  | empty (f : Format) (hint : Nat) : Holds f ⟨none, hint⟩
  /-- Any number, or one that fits the length if that is fixed. -/
  | unsigned {fixed : Option Nat} {n : UInt64} (hint : Nat) :
      (∀ length, fixed = some length → 1 ≤ length ∧ n.toNat < Bytes.capacity length) →
      Holds (.unsigned fixed) ⟨some (.u64 n), hint⟩
  | signed {fixed : Option Nat} {n : Int64} (hint : Nat) :
      (∀ length, fixed = some length → 1 ≤ length ∧ Signed.Fits n.toInt length) →
      Holds (.signed fixed) ⟨some (.i64 n), hint⟩
  /-- The code that a number stands for. -/
  | code (table : CodeTable) {length : Nat} (raw : UInt64) (hint : Nat) : 1 ≤ length →
      Holds (.code table length) ⟨some (.code table (CodeTable.codeOf raw)), hint⟩
  | ber (n : UInt64) (hint : Nat) : Holds .ber ⟨some (.u64 n), hint⟩
  | berOid (n : UInt64) (hint : Nat) : Holds .berOid ⟨some (.u64 n), hint⟩
  /-- Bytes, of the length that is fixed if one is. -/
  | blob {fixed : Option Nat} {bytes : Bytes} (hint : Nat) : bytes ≠ [] →
      (∀ length, fixed = some length → bytes.length = length) →
      Holds (.blob fixed) ⟨some (.blob bytes), hint⟩
  | string {fixed : Option Nat} {s : String} (hint : Nat) : s ≠ "" →
      (∀ length, fixed = some length → TextField.length s = length) →
      Holds (.string fixed) ⟨some (.text s), hint⟩
  | command (c : ControlCommand) (hint : Nat) : Holds .command ⟨some (.command c), hint⟩
  | frameRate (r : FrameRate) (hint : Nat) : Holds .frameRate ⟨some (.frameRate r), hint⟩
  /-- Entries whose values are ones that the format under their tag is made for. -/
  | localSet {schema : Schema Format} {entries : Entries UInt64} (hint : Nat) : entries ≠ [] →
      (∀ e ∈ entries, Holds (schema.byTag e.1).format e.2) →
      Holds (.localSet schema) ⟨some (.localSet entries), hint⟩
  | universalSet {schema : Schema Format} {entries : Entries UniversalKey} (hint : Nat) :
      entries ≠ [] → (∀ e ∈ entries, Holds (schema.byKey e.1).format e.2) →
      Holds (.universalSet schema) ⟨some (.universalSet entries), hint⟩

/-- Nothing is written and nothing is read. -/
theorem Format.keeps_empty (f : Format) (hint : Nat) : f.codec.Keeps ⟨none, hint⟩ [] where
  written := by cases f <;> exact Layout.settles_empty _ _ _ hint
  read _ := ⟨.empty, by simp only [Value.empty, Value.unhinted], fun rest => by cases f <;> rfl⟩

/-- A text that is not empty has bytes. -/
theorem Utf8.encode_ne_nil {s : String} (h : s ≠ "") : encode s ≠ [] := by
  intro hnil
  have hdecode := decode_encode s
  rw [hnil] at hdecode
  exact h (Except.ok.inj hdecode).symm

namespace SetCodec

variable {κ : Type} [DecidableEq κ] [SetKey κ] [SetKey.Legible κ] {schema : Schema Format}
  {entries : Entries κ}

/-- Sets are read back if their entries are. -/
theorem keeps_entries {view : ItemView (Entries κ)} {terms : Layout.Terms} (hint : Nat)
    (hfree : terms.fixedLength = none) (hkind : view.kind ≠ .blob)
    (hunhinted : ∀ result : κ × Value → Value,
      (∀ e ∈ entries, (result e).unhinted = e.2.unhinted) →
      (view.toItem (entries.map fun e => (e.1, result e))).unhinted =
        (view.toItem entries).unhinted)
    (hne : entries ≠ [])
    (h : ∀ e ∈ entries, ∃ bytes, (SetKey.lookup schema e.1).format.codec.Keeps e.2 bytes) :
    ∃ bytes, ((Layout.entries (Format.schemaCodecs schema)).codec view terms).Keeps
      ⟨some (view.toItem entries), hint⟩ bytes := by
  -- Each entry has its own bytes, which are collected into a function.
  choose! bytes hkeeps using h
  simp only [← codecFor_schemaCodecs] at hkeeps
  have hsettles := fun e he => (hkeeps e he).written
  refine ⟨frames bytes entries, ?_, fun hlt => ?_⟩
  · exact Layout.settles_written hkind (entriesLength_frames hsettles)
      (appends_writeEntries hsettles (Nat.le_refl _))
  · have hfits : ∀ e ∈ entries, (bytes e).length < UInt64.size := fun e he =>
      Nat.lt_of_le_of_lt (length_le_length_frames he) hlt
    choose! result hresult using fun e he => (hkeeps e he).read (hfits e he)
    have hread : readEntries (Format.schemaCodecs schema) (frames bytes entries) =
        .ok (entries.map fun e => (e.1, result e)) [] :=
      readEntries_frames (fun e he => ⟨hsettles e he, (hresult e he).2⟩) hfits
    refine ⟨_, ?_, Layout.read_field (frames_ne_nil hne) (Layout.Terms.allow_of_free hfree _) hread⟩
    simp only [Value.unhinted, hunhinted result fun e he => (hresult e he).1]

end SetCodec

/-- Values that a format is made for are read back. -/
theorem Format.Holds.keeps {f : Format} {v : Value} (h : f.Holds v) :
    ∃ bytes, f.codec.Keeps v bytes := by
  induction h with
  | empty f hint => exact ⟨[], f.keeps_empty hint⟩
  | unsigned hint hfixed =>
      refine ⟨_, (Layout.spells_unsigned hint fun length hlength => ?_).keeps nofun⟩
      exact (Unsigned.minLength_le_iff _ _).mpr
        (Bytes.capacity_eq length ▸ hfixed length hlength)
  | signed hint hfixed =>
      refine ⟨_, (Layout.spells_signed hint fun length hlength => ?_).keeps nofun⟩
      rcases hfixed length hlength with ⟨hpos, hfits⟩
      exact (Signed.minLength_le_iff _ hpos).mpr hfits
  | code table raw hint hpos =>
      exact ⟨_, (Layout.spells_code table hpos (CodeTable.codeOf raw) hint).keeps nofun⟩
  | ber n hint => exact ⟨_, (Layout.spells_ber n hint).keeps nofun⟩
  | berOid n hint => exact ⟨_, (Layout.spells_berOid n hint).keeps nofun⟩
  | blob hint hne hfixed =>
      exact ⟨_, Layout.keeps_blob hne (fun length hlength => (hfixed length hlength).symm) hint⟩
  | string hint hne hfixed =>
      exact ⟨_, (Layout.spells_string (Utf8.encode_ne_nil hne) hfixed hint).keeps nofun⟩
  | command c hint => exact ⟨_, (Layout.spells_command c hint).keeps nofun⟩
  | frameRate r hint => exact ⟨_, (Layout.spells_frameRate r hint).keeps nofun⟩
  | localSet hint hne _ ih =>
      refine SetCodec.keeps_entries hint rfl nofun (fun result hresult => ?_) hne ih
      simp only [ItemView.localSet, Item.unhinted, localUnhinted_eq_map, List.map_map]
      exact congrArg Item.localSet (List.map_congr_left fun e he => by
        rw [Function.comp_apply, hresult e he])
  | universalSet hint hne _ ih =>
      refine SetCodec.keeps_entries hint rfl nofun (fun result hresult => ?_) hne ih
      simp only [ItemView.universalSet, Item.unhinted, universalUnhinted_eq_map, List.map_map]
      exact congrArg Item.universalSet (List.map_congr_left fun e he => by
        rw [Function.comp_apply, hresult e he])

namespace Format

/-- A value that a format is made for is written whenever there is space for its
    length, as the same bytes every time. In front of anything they are read as
    the value, and what stands behind them is left. Nothing but hints differs,
    so the entries of sets come back in the order they had, and as values the
    two are equal. -/
theorem written_is_read_back (f : Format) (v : Value) (h : f.Holds v)
    (hsize : ∀ length, f.codec.lengthOf v = .ok length → length < UInt64.size) :
    ∃ bytes w, f.codec.lengthOf v = .ok bytes.length ∧
      (∀ space out, bytes.length ≤ space → f.codec.write v space out = .ok () (out ++ bytes)) ∧
      (∀ rest, f.codec.read bytes.length (bytes ++ rest) = .ok w rest) ∧
      w.unhinted = v.unhinted ∧ (w == v) = true := by
  rcases h.keeps with ⟨bytes, hwritten, hread⟩
  have hlength : f.codec.lengthOf v = .ok bytes.length := hwritten.lengthOf
  rcases hread (hsize _ hlength) with ⟨w, hunhinted, hread⟩
  exact ⟨bytes, w, hlength, fun _ out hspace => hwritten.write_eq_ok hspace out, hread, hunhinted,
    Value.beq_of_unhinted hunhinted⟩

/-- A schema with one number. -/
def levelSchema : Schema Format :=
  .listing [⟨1, none, .signed none, "Level", "", .any⟩] .unlisted

/-- A schema with a set in it, under a tag of two bytes. -/
def nestingSchema : Schema Format :=
  .listing [⟨5, none, .frameRate, "Rate", "", .any⟩,
    ⟨200, none, .localSet levelSchema, "Part", "", .any⟩] .unlisted

/-- A set with a rate over one, nothing under an unlisted tag, and a set that has a
    number with a wide hint and another unlisted tag. -/
def nestedEntries : Entries UInt64 :=
  [(5, ⟨some (.frameRate ⟨30, 1⟩), 7⟩), (9, ⟨none, 3⟩),
    (200, ⟨some (.localSet [(1, ⟨some (.i64 (-2)), 10⟩), (77, ⟨some (.blob [0xAA]), 0⟩)]), 0⟩)]

/-- The nested sets are read back. -/
theorem written_is_read_back_nested :
    (localSet nestingSchema).Holds ⟨some (.localSet nestedEntries), 0⟩ ∧
    (∀ length, (localSet nestingSchema).codec.lengthOf ⟨some (.localSet nestedEntries), 0⟩ =
      .ok length → length < UInt64.size) ∧
    ∃ bytes w, bytes.length = 23 ∧
      (localSet nestingSchema).codec.read bytes.length bytes = .ok w [] ∧
      (w == ⟨some (.localSet nestedEntries), 0⟩) = true := by
  have hinner : (localSet levelSchema).Holds
      ⟨some (.localSet [(1, ⟨some (.i64 (-2)), 10⟩), (77, ⟨some (.blob [0xAA]), 0⟩)]), 0⟩ := by
    refine .localSet 0 (List.cons_ne_nil _ _) fun e he => ?_
    simp only [List.mem_cons, List.not_mem_nil, or_false] at he
    rcases he with rfl | rfl
    · exact .signed 10 nofun
    · exact .blob 0 (List.cons_ne_nil _ _) nofun
  have hholds : (localSet nestingSchema).Holds ⟨some (.localSet nestedEntries), 0⟩ := by
    refine .localSet 0 (List.cons_ne_nil _ _) fun e he => ?_
    simp only [nestedEntries, List.mem_cons, List.not_mem_nil, or_false] at he
    rcases he with rfl | rfl | rfl
    · exact .frameRate ⟨30, 1⟩ 7
    · exact .empty _ 3
    · exact hinner
  have hlength : (localSet nestingSchema).codec.lengthOf ⟨some (.localSet nestedEntries), 0⟩ =
      .ok 23 := by
    rfl
  have hsize : ∀ length, (localSet nestingSchema).codec.lengthOf
      ⟨some (.localSet nestedEntries), 0⟩ = .ok length → length < UInt64.size := by
    intro length h
    rw [hlength] at h
    obtain rfl := Except.ok.inj h
    decide
  rcases written_is_read_back _ _ hholds hsize with ⟨bytes, w, hbytes, _, hread, _, hequal⟩
  have hself := hread []
  rw [List.append_nil] at hself
  exact ⟨hholds, hsize, bytes, w, Except.ok.inj (hbytes.symm.trans hlength), hself, hequal⟩

end Format

end KlvMetadata
