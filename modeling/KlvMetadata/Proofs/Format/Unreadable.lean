import KlvMetadata.Proofs.Format.Fields
import KlvMetadata.Proofs.Set.Rewriting
import KlvMetadata.Proofs.Wire.Failures

/-!
# Why Bytes Are Not Read

A format refuses bytes because they are not of its form. That is all there is to most
formats, since they are put together from readers of integers and text that fail for no
other reason. A control command adds that its time has eight bytes, and a set that is
led by a timestamp asks for the timestamp. Both are rules of a standard, and bytes that
break one are as much to blame. In no case is it the caller who made a mistake.

A set fails as its entries do, so what is said of formats without a schema is said of
all formats by induction on how they nest.

## Main definitions

* `Error.OfField`, `Error.OfData`: The reasons of fields, and of all formats.
* `Format.Over`: What holds of all formats without a schema, at any depth.
* `Codec.RefusesOnly`: Fields are refused for reasons of one class only.

## Theorems

* `Format.over_of_plain`: What holds without a schema is at the bottom of every format.
* `Layout.RefusesOnly.codec`: The common rules find too few or too many bytes.
* `Format.refusesOnly_plain`: Formats without a schema.
* `SetCodec.failsOnly_readEntries`: Sets fail as their entries do.
* `Format.refusesOnly`: All formats.
-/

namespace KlvMetadata

open KlvMetadata.Action (FailsOnly failsOnly_pure failsOnly_throw failsOnly_ofExcept failsOnly_ite)
open Reader (failsOnly_fail failsOnly_remaining failsOnly_take)

namespace Error

/-- The bytes are not of the form that a field asks for. -/
inductive OfField : Error → Prop
  | parse (fault : ParseFault) : OfField (.parse fault)
  | commandTimestamp (left : Nat) : OfField (.framing (.commandTimestamp left))

/-- The bytes are wrong, or they break a rule of their standard. -/
inductive OfData : Error → Prop
  | parse (fault : ParseFault) : OfData (.parse fault)
  | framing (fault : FramingFault) : OfData (.framing fault)

theorem OfField.ofData {e : Error} : e.OfField → e.OfData
  | parse fault => .parse fault
  | commandTimestamp _ => .framing _

theorem OfData.isDataError {e : Error} : e.OfData → e.isDataError = true
  | parse _ => rfl
  | framing _ => rfl

end Error

namespace Format

/-- A format without a schema has the property, and a set is over such formats. -/
inductive Over (P : Format → Prop) : Format → Prop
  | plain {f : Format} : f.isSet = false → P f → Over P f
  | localSet {schema : Schema Format} : (∀ e ∈ schema.entries, Over P e.format) →
      Over P schema.unknown.format → Over P (.localSet schema)
  | universalSet {schema : Schema Format} : (∀ e ∈ schema.entries, Over P e.format) →
      Over P schema.unknown.format → Over P (.universalSet schema)
  | st0601 {schema : Schema Format} : (∀ e ∈ schema.entries, Over P e.format) →
      Over P schema.unknown.format → Over P (.st0601 schema)

mutual

/-- What holds of all formats without a schema is at the bottom of every format. -/
theorem over_of_plain {P : Format → Prop} (h : ∀ f : Format, f.isSet = false → P f) :
    (f : Format) → f.Over P
  | localSet ⟨entries, _, ⟨_, _, format, _, _, _⟩⟩ =>
      .localSet (over_entries_of_plain h entries) (over_of_plain h format)
  | universalSet ⟨entries, _, ⟨_, _, format, _, _, _⟩⟩ =>
      .universalSet (over_entries_of_plain h entries) (over_of_plain h format)
  | st0601 ⟨entries, _, ⟨_, _, format, _, _, _⟩⟩ =>
      .st0601 (over_entries_of_plain h entries) (over_of_plain h format)
  | unsigned _ | signed _ | blob _ | string _ | float _ | ber | berOid | unsignedSteps _ _
  | signedSteps _ _ | imap _ _ | code _ _ | command | frameRate => .plain rfl (h _ rfl)

theorem over_entries_of_plain {P : Format → Prop} (h : ∀ f : Format, f.isSet = false → P f) :
    (entries : List (Entry Format)) → ∀ e ∈ entries, e.format.Over P
  | [], _, he => absurd he List.not_mem_nil
  | ⟨_, _, format, _, _, _⟩ :: entries, _, he => by
      rcases List.mem_cons.mp he with rfl | he
      · exact over_of_plain h format
      · exact over_entries_of_plain h entries _ he

end

end Format

/-- Fields are refused for reasons of one class only. -/
def Codec.RefusesOnly (P : Error → Prop) (c : Codec) : Prop :=
  ∀ length, FailsOnly P (c.read length)

namespace Imap

theorem isParse_of_checkLength {length : Nat} {e : Error} (h : checkLength length = .error e) :
    e.IsParse := by
  rw [checkLength] at h
  split at h
  · contradiction
  · exact ⟨_, (Except.error.inj h).symm⟩

theorem isParse_of_decode {r : Range} {raw : UInt64} {length : Nat} {e : Error}
    (h : decode r raw length = .error e) : e.IsParse := by
  rw [decode] at h
  cases hlength : checkLength length with
  | error e' =>
      rw [hlength] at h
      obtain rfl := Except.error.inj h
      exact isParse_of_checkLength hlength
  | ok _ =>
      rw [hlength] at h
      simp only [bind, Except.bind] at h
      split at h <;> contradiction

end Imap

namespace Layout

variable {α : Type} {P : Error → Prop} {layout : Layout α}

/-- The contents of fields are refused for reasons of one class only. -/
def RefusesOnly (P : Error → Prop) (layout : Layout α) : Prop :=
  ∀ length, FailsOnly P (layout.read length)

/-- The common rules find bytes that are too few or too many. -/
theorem RefusesOnly.codec (h : layout.RefusesOnly P) (hparse : ∀ fault, P (.parse fault))
    (view : ItemView α) (terms : Terms) : (layout.codec view terms).RefusesOnly P := by
  intro length data e left herror
  change layout.readField view terms length data = .error e left at herror
  -- The checks in front of the window fail for themselves, and behind them it is the layout.
  by_cases hzero : length = 0
  · rw [hzero, readField_zero] at herror
    contradiction
  by_cases hle : length ≤ data.length
  · by_cases hallow : terms.Allow length
    · rw [readField_eq_window hzero hle hallow] at herror
      exact ((Reader.failsOnly_within (h length) fun left => hparse _).map _) herror
    · rcases Terms.required_of_not_allow hallow with ⟨required, hfixed, hne⟩
      rw [readField_refused hzero hle hfixed hne] at herror
      injection herror with he _
      exact he ▸ hparse _
  · rw [readField_underflow hzero (Nat.not_le.mp hle)] at herror
    injection herror with he _
    exact he ▸ hparse _

theorem refusesOnly_unsignedSteps (r : Range) (length : Nat) :
    (unsignedSteps r length).RefusesOnly Error.IsParse :=
  fun n => (Unsigned.failsOnly_read n).bind fun _ _ _ _ => failsOnly_pure _

theorem refusesOnly_signedSteps (r : Range) (length : Nat) :
    (signedSteps r length).RefusesOnly Error.IsParse :=
  fun n => (Signed.failsOnly_read n).bind fun _ _ _ _ => failsOnly_pure _

theorem refusesOnly_code (table : CodeTable) (length : Nat) :
    (code table length).RefusesOnly Error.IsParse :=
  fun n => (Unsigned.failsOnly_read n).bind fun _ _ _ _ => failsOnly_pure _

theorem refusesOnly_imap (r : Range) (length : Nat) :
    (imap r length).RefusesOnly Error.IsParse := by
  intro n
  refine (failsOnly_ofExcept fun e => Imap.isParse_of_checkLength).bind fun _ _ _ _ => ?_
  refine (Unsigned.failsOnly_read n).bind fun _ raw _ _ => ?_
  exact failsOnly_ofExcept fun e => Imap.isParse_of_decode

/-- A number that may be too great for what it stands for. -/
theorem failsOnly_readTerm : FailsOnly Error.IsParse readTerm := by
  rw [readTerm]
  refine failsOnly_remaining.bind fun _ left _ _ => ?_
  refine (BerOid.failsOnly_read left).bind fun _ term _ _ => ?_
  exact (failsOnly_pure _).check (failsOnly_fail _)

theorem refusesOnly_frameRate : frameRate.RefusesOnly Error.IsParse := by
  intro length
  refine failsOnly_readTerm.bind fun _ numerator _ _ => ?_
  refine failsOnly_remaining.bind fun _ left _ _ => failsOnly_ite (failsOnly_pure _) ?_
  exact failsOnly_readTerm.bind fun _ denominator _ _ => failsOnly_pure _

theorem failsOnly_readCommandId : FailsOnly Error.IsParse readCommandId := by
  rw [readCommandId]
  refine failsOnly_remaining.bind fun _ left _ _ => ?_
  refine (BerOid.failsOnly_read left).bind fun _ id _ _ => ?_
  exact (failsOnly_pure _).check (failsOnly_fail _)

theorem failsOnly_readCommandBody : FailsOnly Error.IsParse readCommandBody := by
  rw [readCommandBody]
  refine failsOnly_remaining.bind fun _ left _ _ => ?_
  refine (Ber.failsOnly_read left).bind fun _ length _ _ => ?_
  refine failsOnly_remaining.bind fun _ left _ _ => ?_
  exact (TextField.failsOnly_read _).check (failsOnly_fail _)

theorem failsOnly_readCommandTime : FailsOnly Error.OfField readCommandTime := by
  rw [readCommandTime]
  refine failsOnly_remaining.bind fun _ left _ _ => failsOnly_ite (failsOnly_pure _) ?_
  refine failsOnly_ite ?_ (failsOnly_throw (.commandTimestamp left))
  refine FailsOnly.bind ?_ fun _ t _ _ => failsOnly_pure _
  exact (Unsigned.failsOnly_read _).of_parse .parse

theorem refusesOnly_command : command.RefusesOnly Error.OfField := by
  intro length
  refine (failsOnly_readCommandId.of_parse .parse).bind fun _ id _ _ => ?_
  refine (failsOnly_readCommandBody.of_parse .parse).bind fun _ body _ _ => ?_
  exact failsOnly_readCommandTime.bind fun _ timestamp _ _ => failsOnly_pure _

end Layout

/-- Fields without a schema are refused for themselves. -/
theorem Format.refusesOnly_plain {f : Format} (h : f.isSet = false) :
    f.codec.RefusesOnly Error.OfField := by
  -- All layouts but one fail because bytes spell nothing, as the common rules do.
  have hfield {α : Type} (layout : Layout α) (hlayout : layout.RefusesOnly Error.IsParse)
      (view : ItemView α) (terms : Layout.Terms) :
      (layout.codec view terms).RefusesOnly Error.OfField :=
    Layout.RefusesOnly.codec (fun length => (hlayout length).of_parse .parse) .parse view terms
  cases f with
  | unsigned fixed => exact hfield (.unsigned fixed) Unsigned.failsOnly_read _ _
  | signed fixed => exact hfield (.signed fixed) Signed.failsOnly_read _ _
  | blob fixed => exact hfield .blob failsOnly_take _ _
  | string fixed => exact hfield (.string fixed) TextField.failsOnly_read _ _
  | float fixed => exact hfield (.float fixed) FloatField.failsOnly_read _ _
  | ber => exact hfield .ber Ber.failsOnly_read _ _
  | berOid => exact hfield .berOid BerOid.failsOnly_read _ _
  | unsignedSteps r n => exact hfield _ (Layout.refusesOnly_unsignedSteps r n) _ _
  | signedSteps r n => exact hfield _ (Layout.refusesOnly_signedSteps r n) _ _
  | imap r n => exact hfield _ (Layout.refusesOnly_imap r n) _ _
  | code table n => exact hfield _ (Layout.refusesOnly_code table n) _ _
  | command => exact Layout.refusesOnly_command.codec .parse _ _
  | frameRate => exact hfield _ Layout.refusesOnly_frameRate _ _
  | localSet _ | universalSet _ | st0601 _ => contradiction

namespace SetCodec

variable {κ : Type} [SetKey κ] {P : Error → Prop} {schema : Schema Codec}

/-- An entry is refused for its key, for its length, or as a field. -/
theorem failsOnly_readEntry (hparse : ∀ fault, P (.parse fault))
    (hkey : FailsOnly P (SetKey.read : Reader κ))
    (hvalue : ∀ key : κ, (codecFor schema key).RefusesOnly P) :
    FailsOnly P (readEntry schema : Reader (κ × Value)) := by
  rw [readEntry]
  refine hkey.bind fun _ key _ _ => failsOnly_remaining.bind fun _ window _ _ => ?_
  refine ((Ber.failsOnly_read window).of_parse hparse).bind fun _ length _ _ => ?_
  refine failsOnly_remaining.bind fun _ left _ _ => ?_
  refine FailsOnly.check ?_ (failsOnly_throw (hparse _))
  exact (hvalue key _).bind fun _ v _ _ => failsOnly_pure (key, v)

/-- Entries are refused for one of them. -/
theorem failsOnly_readEntries (hparse : ∀ fault, P (.parse fault))
    (hkey : FailsOnly P (SetKey.read : Reader κ))
    (hvalue : ∀ key : κ, (codecFor schema key).RefusesOnly P) :
    FailsOnly P (readEntries schema : Reader (Entries κ)) :=
  Reader.failsOnly_toEnd (failsOnly_readEntry hparse hkey hvalue)

/-- Tags are refused as bytes. -/
theorem failsOnly_readTag (hparse : ∀ fault, P (.parse fault)) :
    FailsOnly P (SetKey.read : Reader UInt64) :=
  failsOnly_remaining.bind fun _ window _ _ => (BerOid.failsOnly_read window).of_parse hparse

/-- So are universal keys. -/
theorem failsOnly_readKey (hparse : ∀ fault, P (.parse fault)) :
    FailsOnly P (SetKey.read : Reader UniversalKey) :=
  UniversalKey.failsOnly_read.of_parse hparse

/-- What holds of the codecs of all formats of a schema holds of the one under a key. -/
theorem forall_codecFor [SetKey.Legible κ] {P : Codec → Prop} {schema : Schema Format}
    (hentries : ∀ e ∈ schema.entries, P e.format.codec) (hunknown : P schema.unknown.format.codec)
    (key : κ) : P (codecFor (Format.schemaCodecs schema) key) := by
  rw [codecFor_schemaCodecs]
  exact Format.forall_lookup (P := fun f => P f.codec) hentries hunknown key

end SetCodec

/-- The leading timestamp adds the faults of a packet without it. -/
theorem Layout.refusesOnly_st0601 {schema : Schema Codec}
    (hvalue : ∀ tag : UInt64, (SetCodec.codecFor schema tag).RefusesOnly Error.OfData) :
    (st0601 schema).RefusesOnly Error.OfData := by
  intro length
  refine FailsOnly.check ?_ (failsOnly_throw (.framing _))
  refine FailsOnly.bind ?_ fun _ _ _ _ =>
    SetCodec.failsOnly_readEntries .parse (SetCodec.failsOnly_readTag .parse) hvalue
  -- What is left is the look at the first two bytes.
  intro data e left h
  unfold St0601.requireTimestamp at h
  split at h
  · contradiction
  · injection h with he _
    exact he ▸ .framing _

/-- No format blames the caller when it reads. -/
theorem Format.refusesOnly (f : Format) : f.codec.RefusesOnly Error.OfData := by
  -- What is asked of a format without a schema holds of all, so only the sets are left.
  have hover : f.Over fun f => f.codec.RefusesOnly Error.OfData :=
    over_of_plain (fun f hf length =>
      (refusesOnly_plain hf length).mono fun _ => Error.OfField.ofData) f
  induction hover with
  | plain _ hf => exact hf
  | localSet _ _ ih ihUnknown =>
      have hvalue (tag : UInt64) := SetCodec.forall_codecFor ih ihUnknown tag
      refine Layout.RefusesOnly.codec (fun length => ?_) .parse _ _
      exact SetCodec.failsOnly_readEntries .parse (SetCodec.failsOnly_readTag .parse) hvalue
  | universalSet _ _ ih ihUnknown =>
      have hvalue (key : UniversalKey) := SetCodec.forall_codecFor ih ihUnknown key
      refine Layout.RefusesOnly.codec (fun length => ?_) .parse _ _
      exact SetCodec.failsOnly_readEntries .parse (SetCodec.failsOnly_readKey .parse) hvalue
  | st0601 _ _ ih ihUnknown =>
      have hvalue (tag : UInt64) := SetCodec.forall_codecFor ih ihUnknown tag
      exact (Layout.refusesOnly_st0601 hvalue).codec .parse _ _

end KlvMetadata
