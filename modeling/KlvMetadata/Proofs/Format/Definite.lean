import KlvMetadata.Format.Basic
import KlvMetadata.Proofs.Format.Layouts
import KlvMetadata.Proofs.Set.Writing

/-!
# Every Format Keeps the Contract

Formats of sets contain schemas and schemas contain formats, so the codec of a
format is definite by recursion over this nesting, with one case for each kind
of format. The cases without a schema hold by their layout alone. A set needs
of its schema only that the codecs in it are definite, which is what the
recursion provides.

Nothing is asked of the parameters of a format. Parameters that no constructor
allows make formats that fail more often, and a failure keeps the contract.

## Theorems

* `Format.definite`: The codec of a format is definite.
* `Format.write_agrees_with_length`: Measuring and writing agree on every value.
-/

namespace KlvMetadata

namespace Format

mutual

/-- The codec of a format is definite. -/
theorem definite : (f : Format) → f.codec.Definite
  | unsigned length => (Layout.exact_unsigned length).definite _ _
  | signed length => (Layout.exact_signed length).definite _ _
  | blob _ => Layout.exact_blob.definite _ _
  | string length => (Layout.exact_string length).definite _ _
  | float length => (Layout.exact_float length).definite _ _
  | ber => Layout.exact_ber.definite _ _
  | berOid => Layout.exact_berOid.definite _ _
  | unsignedSteps range length => (Layout.exact_unsignedSteps range length).definite _ _
  | signedSteps range length => (Layout.exact_signedSteps range length).definite _ _
  | imap range length => (Layout.exact_imap range length).definite _ _
  | code table length => (Layout.exact_code table length).definite _ _
  | command => Layout.exact_command.definite _ _
  | frameRate => Layout.exact_frameRate.definite _ _
  | localSet schema => (Layout.exact_entries (definite_schemaCodecs schema)).definite _ _
  | universalSet schema => (Layout.exact_entries (definite_schemaCodecs schema)).definite _ _
  | st0601 schema => (Layout.exact_st0601 (definite_schemaCodecs schema)).definite _ _

theorem definite_schemaCodecs : (schema : Schema Format) → (schemaCodecs schema).Definite
  | ⟨entries, _, unknown⟩ => ⟨definite_entryCodecs entries, definite_entryCodec unknown⟩

theorem definite_entryCodecs : (entries : List (Entry Format)) →
    ∀ e ∈ entryCodecs entries, e.format.Definite
  | [], _, he => absurd he List.not_mem_nil
  | e :: entries, _, he => by
      rcases List.mem_cons.mp he with rfl | he
      · exact definite_entryCodec e
      · exact definite_entryCodecs entries _ he

theorem definite_entryCodec : (e : Entry Format) → (entryCodec e).format.Definite
  | ⟨_, _, format, _, _, _⟩ => definite format

end

/-- Whatever the format, the value, the space and the output: a value without
    a length is not written, for the same reason; one that is longer than the
    space is not written, for that reason; a failure leaves the output as it
    was; and what a success adds is the same bytes every time, as many as were
    measured and no more than there is space for. -/
theorem write_agrees_with_length (f : Format) (v : Value) :
    (∃ bytes : Bytes, ∀ space out out', f.codec.write v space out = .ok () out' →
      out' = out ++ bytes ∧ f.codec.lengthOf v = .ok bytes.length ∧ bytes.length ≤ space) ∧
    (∀ length, f.codec.lengthOf v = .ok length → ∀ space out, space < length →
      f.codec.write v space out = .error (.bufferOverflow length space) out) ∧
    (∀ e, f.codec.lengthOf v = .error e → ∀ space out,
      f.codec.write v space out = .error e out) ∧
    ∀ space out e left, f.codec.write v space out = .error e left → left = out := by
  -- Everything is a matter of the outcome of the value.
  rcases definite f v with ⟨o, hlength, hwrite⟩
  simp only [hlength, hwrite]
  refine ⟨?_, fun length h space out hspace => Codec.Outcome.write_overflow h hspace out,
    fun e h space out => Codec.Outcome.write_unmeasured h space out,
    fun space out e left h => Codec.Outcome.write_eq_error h⟩
  cases o with
  | written bytes =>
      refine ⟨bytes, fun space out out' h => ?_⟩
      rcases Codec.Outcome.write_eq_ok h with ⟨_, ⟨⟩, hout, hspace⟩
      exact ⟨hout, rfl, hspace⟩
  | unmeasured e | unwritable length e =>
      -- There is no success, so any bytes will do.
      refine ⟨[], fun space out out' h => ?_⟩
      rcases Codec.Outcome.write_eq_ok h with ⟨_, ⟨⟩, _⟩

end Format

end KlvMetadata
