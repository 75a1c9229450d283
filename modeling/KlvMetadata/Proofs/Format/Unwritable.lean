import KlvMetadata.Proofs.Format.Contents
import KlvMetadata.Proofs.Format.Definite
import KlvMetadata.Proofs.Format.Unreadable

/-!
# Why Values Are Not Written

A format declines a value because it is of another kind or does not fit. Writing can
fail for want of space too, but not where there is the space that was asked for, since
every part of a value is left with what it was counted to need. And a mapped number
checks its length when it is written in the same words as when it is read, which would
blame the bytes for what the caller did. It never does so, because the length is one
that the format has chosen. For this the format has to be one that can be made.

As in reading, a set fails as its entries do.

## Main definitions

* `Error.OfValue`: The reasons why values are not written.
* `Codec.DeclinesOnly`: Values are declined for reasons of one class only.
* `Format.Resolved`: The length of a mapped number is one to eight bytes.

## Theorems

* `Layout.DeclinesOnly.codec`: The common rules find values of another kind.
* `Format.declinesOnly_plain`: Formats without a schema.
* `SetCodec.entriesLength_error`, `SetCodec.failsOnly_writeEntries`: Sets fail as their
  entries do.
* `Format.declinesOnly`: All formats that can be made.
-/

namespace KlvMetadata

open KlvMetadata.Action (FailsOnly failsOnly_pure failsOnly_ofExcept)

namespace Error

/-- The value is of another kind, does not fit, or lacks what its standard asks for. -/
inductive OfValue : Error → Prop
  | value (fault : ValueFault) : OfValue (.value fault)
  | typeMismatch (expected : Kind) (actual : Option Kind) : OfValue (.typeMismatch expected actual)
  | setWithoutTimestamp : OfValue (.framing .setWithoutTimestamp)

theorem IsValue.ofValue {e : Error} : e.IsValue → e.OfValue := by
  rintro ⟨fault, rfl⟩
  exact .value fault

end Error

/-- Values are declined for reasons of one class only, when they are measured or when
    they are written where there is space for them. -/
structure Codec.DeclinesOnly (P : Error → Prop) (c : Codec) : Prop where
  measuring : ∀ {v : Value} {e : Error}, c.lengthOf v = .error e → P e
  writing : ∀ {v : Value} {length space : Nat}, c.lengthOf v = .ok length → length ≤ space →
    FailsOnly P (c.write v space)

/-- The reason why there are no bytes of a value is one of them. -/
theorem Codec.DeclinesOnly.result {P : Error → Prop} {c : Codec} (h : c.DeclinesOnly P) {v : Value}
    {o : Outcome} (ho : c.Settles v o) {e : Error} (he : o.result = .error e) : P e := by
  cases o with
  | unmeasured e' =>
      obtain rfl := Except.error.inj he
      exact h.measuring ho.lengthOf
  | unwritable length e' =>
      obtain rfl := Except.error.inj he
      exact h.writing ho.lengthOf (Nat.le_refl length) (ho.write_eq_error [])
  | written bytes => contradiction

theorem UnsignedSteps.isValue_of_encode {r : Range} {length : Nat} {value : Binary64} {e : Error}
    (h : encode r length value = .error e) : e.IsValue := by
  unfold encode at h
  dsimp only at h
  split at h
  · exact ⟨_, (Except.error.inj h).symm⟩
  · contradiction

theorem SignedSteps.isValue_of_encode {r : Range} {length : Nat} {value : Binary64} {e : Error}
    (h : encode r length value = .error e) : e.IsValue := by
  unfold encode at h
  dsimp only at h
  split at h
  · contradiction
  · split at h
    · exact ⟨_, (Except.error.inj h).symm⟩
    · contradiction

/-- With the length that it asks for, a mapped number fails for its value alone. -/
theorem Imap.isValue_of_encode {r : Range} {length : Nat} {value : Binary64} {e : Error}
    (hpos : 1 ≤ length) (hle : length ≤ 8) (h : encode r value length = .error e) :
    e.IsValue := by
  rw [encode, checkLength, if_pos ⟨hpos, hle⟩] at h
  simp only [bind, Except.bind] at h
  split at h
  · contradiction
  · split at h
    · contradiction
    · split at h
      · exact ⟨_, (Except.error.inj h).symm⟩
      · contradiction

namespace Layout

variable {α : Type} {P : Error → Prop} {layout : Layout α}

/-- Things are declined for reasons of one class only. -/
structure DeclinesOnly (P : Error → Prop) (layout : Layout α) : Prop where
  measuring : ∀ {a : α} {hint : Nat} {e : Error}, layout.lengthOf a hint = .error e → P e
  writing : ∀ {a : α} {hint length : Nat}, layout.lengthOf a hint = .ok length →
    FailsOnly P (layout.write a length)

/-- The common rules find values of another kind. They never find less space than there
    was asked for. -/
theorem DeclinesOnly.codec (h : layout.DeclinesOnly P)
    (hkind : ∀ expected actual, P (.typeMismatch expected actual)) (view : ItemView α)
    (terms : Terms) : (layout.codec view terms).DeclinesOnly P where
  measuring := by
    intro v e herror
    rcases field_cases layout view terms v with
      ⟨bytes, hbytes⟩ | ⟨expected, actual, hrefused⟩ | ⟨a, hlength, _⟩
    · rw [hbytes.lengthOf] at herror
      contradiction
    · rw [hrefused.lengthOf] at herror
      exact Except.error.inj herror ▸ hkind expected actual
    · exact h.measuring (hlength.symm.trans herror)
  writing := by
    intro v length space hok hspace
    rcases field_cases layout view terms v with
      ⟨bytes, hbytes⟩ | ⟨expected, actual, hrefused⟩ | ⟨a, hlength, hwrite⟩
    · rw [hbytes.lengthOf] at hok
      obtain rfl := Except.ok.inj hok
      exact Writer.Appends.failsOnly (hbytes.write_eq_ok hspace)
    · rw [hrefused.lengthOf] at hok
      contradiction
    · have hmeasured := hlength.symm.trans hok
      change FailsOnly P (layout.writeField view v space)
      rw [hwrite, writeMeasured, hmeasured, Action.ofExcept_ok_bind, Writer.checkSpace_eq hspace]
      exact Writer.failsOnly_whole (h.writing hmeasured)

/-- What can always be measured is declined when it is written. -/
theorem DeclinesOnly.of_measured
    (h : ∀ a hint, ∃ length, layout.lengthOf a hint = .ok length ∧
      FailsOnly P (layout.write a length)) : layout.DeclinesOnly P where
  measuring := by
    intro a hint e herror
    rcases h a hint with ⟨length, hlength, _⟩
    rw [hlength] at herror
    contradiction
  writing := by
    intro a hint length hok
    rcases h a hint with ⟨length', hlength, hwrite⟩
    obtain rfl := Except.ok.inj (hlength.symm.trans hok)
    exact hwrite

/-- A mapped number asks for a length that it was read with, or for its own. -/
theorem measured_imap {r : Range} {defaultLength : Nat} (hpos : 1 ≤ defaultLength)
    (hle : defaultLength ≤ 8) (value : Binary64) (hint : Nat) :
    ∃ length, (imap r defaultLength).lengthOf value hint = .ok length ∧
      FailsOnly Error.IsValue ((imap r defaultLength).write value length) := by
  have hwrite {length : Nat} (hlow : 1 ≤ length) (hhigh : length ≤ 8) :
      FailsOnly Error.IsValue ((imap r defaultLength).write value length) :=
    (failsOnly_ofExcept fun e => Imap.isValue_of_encode hlow hhigh).bind fun _ raw _ _ =>
      Unsigned.failsOnly_write raw length
  -- Either length is one that the check of lengths lets pass.
  by_cases hread : 1 ≤ hint ∧ hint ≤ 8
  · exact ⟨hint, congrArg Except.ok (if_pos hread), hwrite hread.1 hread.2⟩
  · exact ⟨defaultLength, congrArg Except.ok (if_neg hread), hwrite hpos hle⟩

/-- A text finds the length that it has asked for. -/
theorem measured_string (fixed : Option Nat) (text : String) (hint : Nat) :
    ∃ length, (string fixed).lengthOf text hint = .ok length ∧
      FailsOnly Error.IsValue ((string fixed).write text length) := by
  have hlength : ∃ length, (string fixed).lengthOf text hint = .ok length := ⟨_, rfl⟩
  rcases hlength with ⟨length, hlength⟩
  have htext := TextField.appends_write text length (le_stringLength hlength)
  exact ⟨length, hlength, htext.failsOnly.bind fun _ _ _ _ => (Writer.appends_emit _).failsOnly⟩

/-- What is always written in some bytes is not declined. -/
theorem Spells.measured {terms : Terms} {a : α} {hint : Nat} {bytes : Bytes}
    (h : layout.Spells terms a hint bytes) :
    ∃ length, layout.lengthOf a hint = .ok length ∧ FailsOnly P (layout.write a length) :=
  ⟨_, h.lengthOf, h.appends.failsOnly⟩

end Layout

namespace Format

/-- The length of a mapped number is one that the format can be made with. -/
def Resolved : Format → Prop
  | imap _ length => 1 ≤ length ∧ length ≤ 8
  | _ => True

/-- Fields without a schema are declined for their value or for its kind. -/
theorem declinesOnly_plain {f : Format} (h : f.isSet = false) (hlength : f.Resolved) :
    f.codec.DeclinesOnly Error.OfValue := by
  -- None of these formats fails to measure a thing, so a value is declined as it is written.
  have hfield {α : Type} (layout : Layout α) (view : ItemView α) (terms : Layout.Terms)
      (hlayout : ∀ a hint, ∃ length, layout.lengthOf a hint = .ok length ∧
        FailsOnly Error.IsValue (layout.write a length)) :
      (layout.codec view terms).DeclinesOnly Error.OfValue := by
    refine Layout.DeclinesOnly.codec (.of_measured fun a hint => ?_) .typeMismatch view terms
    rcases hlayout a hint with ⟨length, hmeasured, hwrite⟩
    exact ⟨length, hmeasured, hwrite.mono fun _ => Error.IsValue.ofValue⟩
  cases f with
  | unsigned fixed =>
      exact hfield (.unsigned fixed) _ _ fun n _ => ⟨_, rfl, Unsigned.failsOnly_write n _⟩
  | signed fixed =>
      exact hfield (.signed fixed) _ _ fun n _ => ⟨_, rfl, Signed.failsOnly_write n _⟩
  | blob fixed =>
      exact hfield .blob _ _ fun bytes _ => ⟨_, rfl, (Writer.appends_emit bytes).failsOnly⟩
  | string fixed => exact hfield _ _ _ (Layout.measured_string fixed)
  | float fixed =>
      exact hfield (.float fixed) _ _ fun x _ => ⟨_, rfl, FloatField.failsOnly_write x _⟩
  | ber => exact hfield _ _ _ fun n hint => (Layout.spells_ber n hint).measured
  | berOid => exact hfield _ _ _ fun n hint => (Layout.spells_berOid n hint).measured
  | unsignedSteps r n =>
      exact hfield (.unsignedSteps r n) _ _ fun x _ => ⟨_, rfl,
        (failsOnly_ofExcept fun e => UnsignedSteps.isValue_of_encode).bind fun _ raw _ _ =>
          Unsigned.failsOnly_write raw _⟩
  | signedSteps r n =>
      exact hfield (.signedSteps r n) _ _ fun x _ => ⟨_, rfl,
        (failsOnly_ofExcept fun e => SignedSteps.isValue_of_encode).bind fun _ raw _ _ =>
          Signed.failsOnly_write raw _⟩
  | imap r n => exact hfield _ _ _ (Layout.measured_imap hlength.1 hlength.2)
  | code table n =>
      exact hfield (.code table n) _ _ fun c _ => ⟨_, rfl, Unsigned.failsOnly_write c.toUInt64 _⟩
  | command => exact hfield _ _ _ fun c hint => (Layout.spells_command c hint).measured
  | frameRate => exact hfield _ _ _ fun r hint => (Layout.spells_frameRate r hint).measured
  | localSet _ | universalSet _ | st0601 _ => contradiction

end Format

namespace SetCodec

variable {κ : Type} [SetKey κ] {P : Error → Prop} {schema : Schema Codec}

/-- An entry is declined for its value when it is measured. -/
theorem entryLength_error {key : κ} {v : Value} {e : Error}
    (hvalue : (codecFor schema key).DeclinesOnly P) (h : entryLength schema key v = .error e) :
    P e := by
  rw [entryLength] at h
  cases hlength : (codecFor schema key).lengthOf v with
  | error e' =>
      rw [hlength] at h
      obtain rfl := Except.error.inj h
      exact hvalue.measuring hlength
  | ok length =>
      rw [hlength] at h
      contradiction

/-- Entries are declined for one of them when they are measured. -/
theorem entriesLength_error (hvalue : ∀ key : κ, (codecFor schema key).DeclinesOnly P)
    {entries : Entries κ} {e : Error} (h : entriesLength schema entries = .error e) : P e := by
  induction entries with
  | nil => contradiction
  | cons entry entries ih =>
      rcases entry with ⟨key, v⟩
      -- The sum fails for the first of its terms that does.
      rw [entriesLength] at h
      cases hfirst : entryLength schema key v with
      | error e' =>
          rw [hfirst] at h
          obtain rfl := Except.error.inj h
          exact entryLength_error (hvalue key) hfirst
      | ok first =>
          cases hrest : entriesLength schema entries with
          | error e' =>
              rw [hfirst, hrest] at h
              obtain rfl := Except.error.inj h
              exact ih hrest
          | ok rest =>
              rw [hfirst, hrest] at h
              contradiction

variable [SetKey.Lawful κ]

/-- An entry is declined for its value when it is written. Key and length take what was
    counted for them, and the value is left with what it needs. -/
theorem failsOnly_writeEntry {key : κ} {v : Value} {total space : Nat}
    (hvalue : (codecFor schema key).DeclinesOnly P)
    (htotal : entryLength schema key v = .ok total) (hspace : total ≤ space) :
    FailsOnly P (writeEntry schema key v space) := by
  rcases entryLength_eq_ok htotal with ⟨length, hlength, rfl⟩
  have hkey := SetKey.Lawful.appends_write key space (by omega)
  have hframing := Ber.appends_write (UInt64.ofNat length) (space - SetKey.length key) (by omega)
  have hkeyUniform := hkey.uniform.of_eq (SetKey.Lawful.length_encode key)
  have hframingUniform := hframing.uniform.of_eq (Ber.length_encode _)
  -- Key and length are never declined, and how many bytes they spend is known.
  rw [writeEntry, hlength, Action.ofExcept_ok_bind]
  refine hkeyUniform.failsOnly_spent_bind hkey.failsOnly ?_
  refine hframingUniform.failsOnly_spent_bind hframing.failsOnly ?_
  exact hvalue.writing hlength (by omega)

/-- Each entry leaves the ones behind it what they need. -/
theorem failsOnly_writeEntries (hschema : schema.Definite)
    (hvalue : ∀ key : κ, (codecFor schema key).DeclinesOnly P) {entries : Entries κ}
    {total space : Nat} (htotal : entriesLength schema entries = .ok total)
    (hspace : total ≤ space) : FailsOnly P (writeEntries schema entries space) := by
  -- By induction on the entries, for whatever space those in front have left.
  induction entries generalizing total space with
  | nil => exact failsOnly_pure ()
  | cons entry entries ih =>
      rcases entry with ⟨key, v⟩
      rcases entriesLength_cons_eq_ok htotal with ⟨first, rest, hfirst, hrest, rfl⟩
      refine (uniform_writeEntry hschema hfirst (by omega)).failsOnly_spent_bind ?_ ?_
      · exact failsOnly_writeEntry (hvalue key) hfirst (by omega)
      · exact ih hrest (by omega)

end SetCodec

theorem St0601.ordered_error {entries : Entries UInt64} {e : Error}
    (h : ordered entries = .error e) : e = .framing .setWithoutTimestamp := by
  rw [ordered] at h
  split at h
  · contradiction
  · exact (Except.error.inj h).symm

namespace Layout

/-- A set is declined for one of its entries. -/
theorem declinesOnly_entries {κ : Type} [DecidableEq κ] [SetKey κ] [SetKey.Legible κ]
    {P : Error → Prop} {schema : Schema Codec} (hschema : schema.Definite)
    (hvalue : ∀ key : κ, (SetCodec.codecFor schema key).DeclinesOnly P) :
    (entries schema : Layout (Entries κ)).DeclinesOnly P where
  measuring h := SetCodec.entriesLength_error hvalue h
  writing h := SetCodec.failsOnly_writeEntries hschema hvalue h (Nat.le_refl _)

/-- So is a set with a leading timestamp, or because it has none. -/
theorem declinesOnly_st0601 {schema : Schema Codec} (hschema : schema.Definite)
    (hvalue : ∀ tag : UInt64, (SetCodec.codecFor schema tag).DeclinesOnly Error.OfValue) :
    (st0601 schema).DeclinesOnly Error.OfValue where
  measuring := by
    intro entries hint e h
    cases hordered : St0601.ordered entries with
    | error e' =>
        simp only [st0601, hordered] at h
        obtain rfl := Except.error.inj h
        exact St0601.ordered_error hordered ▸ .setWithoutTimestamp
    | ok ordered =>
        simp only [st0601, hordered] at h
        exact SetCodec.entriesLength_error hvalue h
  writing := by
    intro entries hint length h
    cases hordered : St0601.ordered entries with
    | error e =>
        simp only [st0601, hordered] at h
        contradiction
    | ok ordered =>
        simp only [st0601, hordered] at h ⊢
        exact SetCodec.failsOnly_writeEntries hschema hvalue h (Nat.le_refl _)

end Layout

namespace Format

/-- No format blames the data when it writes, nor finds less space than it has asked
    for. -/
theorem declinesOnly {f : Format} (h : f.Over Resolved) :
    f.codec.DeclinesOnly Error.OfValue := by
  induction h with
  | plain hf hlength => exact declinesOnly_plain hf hlength
  | localSet _ _ ih ihUnknown =>
      have hvalue (tag : UInt64) := SetCodec.forall_codecFor ih ihUnknown tag
      exact (Layout.declinesOnly_entries (definite_schemaCodecs _) hvalue).codec
        .typeMismatch _ _
  | universalSet _ _ ih ihUnknown =>
      have hvalue (key : UniversalKey) := SetCodec.forall_codecFor ih ihUnknown key
      exact (Layout.declinesOnly_entries (definite_schemaCodecs _) hvalue).codec
        .typeMismatch _ _
  | st0601 _ _ ih ihUnknown =>
      have hvalue (tag : UInt64) := SetCodec.forall_codecFor ih ihUnknown tag
      exact (Layout.declinesOnly_st0601 (definite_schemaCodecs _) hvalue).codec .typeMismatch _ _

end Format

end KlvMetadata
