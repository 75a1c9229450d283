import KlvMetadata.Proofs.Packet.Verdict
import KlvMetadata.Proofs.St0601.Schema
import KlvMetadata.Timeline.Demuxer

/-!
# Who Is to Blame

An error tells by its family whether the data is to blame or the caller, and a program
that goes through a recording relies on it: faults of the data it reports and goes on,
others it does not expect.

On the way from bytes to a timeline only data can be to blame. Reading a packet finds
bytes that spell nothing. Decoding one finds the same in its payload, or finds that a
rule of its standard is broken, and recording what was decoded finds that too. On the
way back only the value can be to blame. It is of another kind than the format, does not
fit, or has no timestamp.

## Theorems

* `Packet.failsOnly_readNext`: Reading packets.
* `PacketFormats.ofData_of_decode`, `Demuxer.failsOnly_demux`: Decoding and recording them.
* `PacketFormats.ofValue_of_encode`: Encoding values.
* `PacketFormats.errors_tell_who_is_to_blame`: The two directions.
-/

namespace KlvMetadata

open KlvMetadata.Action (FailsOnly failsOnly_pure failsOnly_throw failsOnly_get failsOnly_modify
  failsOnly_ofExcept failsOnly_ite)

namespace Packet

theorem failsOnly_readHere : FailsOnly Error.IsParse readHere := by
  rw [readHere]
  refine UniversalKey.failsOnly_read.bind fun _ key _ _ => ?_
  refine failsOnly_get.bind fun _ before _ _ => ?_
  refine (Ber.failsOnly_read maxLengthField).bind fun _ length _ _ => ?_
  refine Reader.failsOnly_remaining.bind fun _ left _ _ => ?_
  exact (Reader.failsOnly_take _).bind fun _ payload _ _ => failsOnly_pure _

/-- A packet is not read because bytes spell nothing. -/
theorem failsOnly_readNext : FailsOnly Error.IsParse readNext := by
  intro data e left h
  rw [readNext] at h
  split at h
  · contradiction
  · exact (failsOnly_readHere.map some) h

end Packet

theorem Trailer.ofData_of_read {data : Bytes} {e : Error} (h : read data = .error e) :
    e.OfData := by
  unfold read at h
  split at h
  · exact Except.error.inj h ▸ .framing _
  · dsimp only at h
    split at h
    · exact Except.error.inj h ▸ .framing _
    · contradiction

namespace PacketFormats

theorem ofData_of_splitTrailer {format : Format} {p : Packet} {e : Error}
    (h : splitTrailer format p = .error e) : e.OfData := by
  cases format with
  | st0601 schema =>
      cases hread : Trailer.read p.payload with
      | error e' =>
          rw [splitTrailer_error hread] at h
          exact Except.error.inj h ▸ Trailer.ofData_of_read hread
      | ok sum =>
          -- A payload with a trailer is split, so there would be no error.
          rcases Trailer.read_eq_ok_iff.mp hread with ⟨body, hpayload⟩
          rw [splitTrailer_append hpayload] at h
          contradiction
  | _ => contradiction

theorem ofData_of_readBody {format : Format} {body : Bytes} {e : Error}
    (h : readBody format body = .error e) : e.OfData := by
  unfold readBody at h
  split at h
  · contradiction
  · next e' left hread => exact Except.error.inj h ▸ format.refusesOnly _ hread

/-- A packet is not decoded because its payload is wrong. -/
theorem ofData_of_decode {formats : PacketFormats} {p : Packet} {e : Error}
    (h : formats.decode p = .error e) : e.OfData := by
  unfold decode at h
  split at h
  · contradiction
  · next format hformat =>
    cases hsplit : splitTrailer format p with
    | error e' =>
        rw [hsplit] at h
        exact Except.error.inj h ▸ ofData_of_splitTrailer hsplit
    | ok found =>
        cases hbody : readBody format found.1 with
        | error e' =>
            simp only [hsplit, bind, Except.bind, hbody] at h
            exact Except.error.inj h ▸ ofData_of_readBody hbody
        | ok v =>
            simp only [hsplit, bind, Except.bind, hbody] at h
            contradiction

/-- A value is not encoded because it is not one of the format. -/
theorem ofValue_of_encode {formats : PacketFormats} {schema : Schema Format} {v : Value} {e : Error}
    (hformat : formats.formatFor .st0601 = some (.st0601 schema))
    (hschema : (Format.st0601 schema).Over Format.Resolved)
    (h : formats.encode .st0601 v = .error e) : e.OfValue := by
  -- The packet fails for the reason of its value, whether that was measured or not.
  rcases Format.definite (.st0601 schema) v with ⟨o, ho⟩
  rw [encode_eq hformat ho] at h
  cases hresult : o.result with
  | error e' =>
      rw [hresult] at h
      exact Except.error.inj h ▸ (Format.declinesOnly hschema).result ho hresult
  | ok body =>
      rw [hresult] at h
      contradiction

end PacketFormats

namespace Demuxer

theorem failsOnly_demuxSet (v : Value) : FailsOnly Error.OfData (demuxSet v) := by
  unfold demuxSet
  split
  · split
    · exact failsOnly_modify _
    · exact failsOnly_throw (.framing _)
  · exact failsOnly_throw (.framing _)

/-- A packet is not recorded because it is not decoded, or to something else than a set
    with a timestamp. -/
theorem failsOnly_demux (p : Packet) : FailsOnly Error.OfData (demux p) := by
  unfold demux
  refine failsOnly_get.bind fun _ d _ _ => failsOnly_ite ?_ ?_
  · exact (failsOnly_modify _).bind fun _ _ _ _ => failsOnly_pure _
  · refine (failsOnly_ofExcept fun e => PacketFormats.ofData_of_decode).bind fun _ decoded _ _ => ?_
    cases p.standard with
    | st0601 => exact (failsOnly_demuxSet _).bind fun _ _ _ _ => failsOnly_pure _
    | unknown => exact (failsOnly_modify _).bind fun _ _ _ _ => failsOnly_pure _

end Demuxer

namespace PacketFormats

/-- On the way from bytes to a timeline the data is to blame: a packet that cannot be
    read is no packet, and one that cannot be decoded or recorded spells something wrong
    or breaks a rule. This is so for any formats and after anything that was recorded. On
    the way back, with a format that can be made, the value is to blame: it is of another
    kind, does not fit, or has no timestamp. In particular the space that was measured
    suffices. -/
theorem errors_tell_who_is_to_blame :
    (∀ (data : Bytes) (e : Error) (left : Bytes), Packet.readNext data = .error e left →
      e.IsParse ∧ e.isDataError = true) ∧
    (∀ (formats : PacketFormats) (p : Packet) (e : Error), formats.decode p = .error e →
      e.OfData ∧ e.isDataError = true) ∧
    (∀ (p : Packet) (d d' : Demuxer) (e : Error), Demuxer.demux p d = .error e d' →
      e.OfData ∧ e.isDataError = true) ∧
    ∀ (formats : PacketFormats) (schema : Schema Format) (v : Value) (e : Error),
      formats.formatFor .st0601 = some (.st0601 schema) →
      (Format.st0601 schema).Over Format.Resolved → formats.encode .st0601 v = .error e →
      e.OfValue := by
  refine ⟨fun data e left h => ?_, fun formats p e h => ?_, fun p d d' e h => ?_,
    fun formats schema v e hformat hschema h => ofValue_of_encode hformat hschema h⟩
  · rcases Packet.failsOnly_readNext h with ⟨fault, rfl⟩
    exact ⟨⟨fault, rfl⟩, rfl⟩
  · have hdata := ofData_of_decode h
    exact ⟨hdata, hdata.isDataError⟩
  · have hdata := Demuxer.failsOnly_demux p h
    exact ⟨hdata, hdata.isDataError⟩

/-- A key that breaks off, a packet without a trailer, and a set with a timestamp that is
    a text, in this order. -/
theorem errors_tell_who_is_to_blame_samples :
    let bare : Packet := .ofPayload Standard.st0601Key []
    let mistimed : Value := ⟨some (.localSet [(2, ⟨some (.text "now"), 0⟩)]), 0⟩
    (∃ e left, Packet.readNext UniversalKey.smpteStart = .error e left ∧ e.IsParse) ∧
    (∃ e, standard.decode bare = .error e ∧ e.OfData) ∧
    (∃ e d', Demuxer.demux bare (.start .empty standard) = .error e d' ∧ e.OfData) ∧
    (Format.st0601 St0601.schema).Over Format.Resolved ∧
    ∃ e, standard.encode .st0601 mistimed = .error e ∧ e.OfValue := by
  intro bare mistimed
  have hread : Packet.readNext UniversalKey.smpteStart =
      .error (.parse (.underflow 16 4)) UniversalKey.smpteStart := by rfl
  have hdecode : standard.decode bare = .error (.framing .checksumMissing) := by rfl
  have hdemux : Demuxer.demux bare (.start .empty standard) =
      .error (.framing .checksumMissing) (.start .empty standard) := by rfl
  have hencode : standard.encode .st0601 mistimed =
      .error (.typeMismatch .u64 (some .text)) := by decide +kernel
  rcases errors_tell_who_is_to_blame with ⟨blameRead, blameDecode, blameDemux, blameEncode⟩
  exact ⟨⟨_, _, hread, (blameRead _ _ _ hread).1⟩, ⟨_, hdecode, (blameDecode _ _ _ hdecode).1⟩,
    ⟨_, _, hdemux, (blameDemux _ _ _ _ hdemux).1⟩, St0601.over_schema, _, hencode,
    blameEncode standard St0601.schema mistimed _ rfl St0601.over_schema hencode⟩

end PacketFormats

end KlvMetadata
