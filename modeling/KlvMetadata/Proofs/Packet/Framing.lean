import KlvMetadata.Packet.Stream
import KlvMetadata.Proofs.Format.Definite
import KlvMetadata.Proofs.Packet.RoundTrip

/-!
# Packets and Their Length Fields

A packet keeps the length field it was read with, so its bytes are those that
were sent. What ties the field to the payload is that it spells the payload's
number of bytes, in no more bytes than a reader looks at. A packet for which
this holds is framed, and a reader that stands at its key reads it whatever
comes behind it, and nothing else.

There are three ways to come by a packet: to put a payload behind the shortest
length field, to read it from a stream, and to encode a value. All of them give
framed packets. The first and the last count a payload in memory, which has
fewer bytes than a word can count.

## Main definitions

* `Packet.Framed`: The length field spells the number of bytes in the payload.
* `Packet.Obtained`: The ways to come by a packet.

## Theorems

* `Packet.readHere_eq_ok_iff`: At a key, framed packets are what is read.
* `Packet.readNext_eq_ok_some_iff`: Elsewhere, the packet at the next key.
* `PacketFormats.lengthField_encode`: Encoding counts the trailer.
* `Packet.Obtained.framed`: All packets that can be come by are framed.
-/

namespace KlvMetadata

namespace Packet

/-- The length field spells the number of bytes in the payload, in no more bytes
    than a reader looks at. -/
structure Framed (p : Packet) : Prop where
  spells_length : Ber.Spelling (UInt64.ofNat p.payload.length) p.lengthField
  length_le : p.lengthField.length ≤ maxLengthField
  payload_lt : p.payload.length < UInt64.size

/-- At a key, framed packets are what is read, and all that is taken. -/
theorem readHere_eq_ok_iff {data rest : Bytes} {p : Packet} :
    readHere data = .ok p rest ↔ p.Framed ∧ data = p.encode ++ rest := by
  simp only [readHere, Action.bind_apply, Action.get_apply, Reader.remaining]
  constructor
  · intro h
    split at h
    · next key behindKey hkey =>
      obtain rfl := UniversalKey.eq_append_of_read hkey
      split at h
      · next length behindLength hlength =>
        rcases Ber.read_eq_ok_iff.mp hlength with ⟨field, hspells, hfield, rfl⟩
        split at h
        · next payload behindPayload hpayload =>
          rcases Reader.take_eq_ok hpayload with ⟨hcount, rfl⟩
          injection h with hp hrest
          -- What was kept is what lies in front of the payload.
          rw [List.length_append, Nat.add_sub_cancel, List.take_left] at hp
          subst hp hrest
          have hlength' : UInt64.ofNat payload.length = length := by
            rw [hcount, UInt64.ofNat_toNat]
          exact ⟨⟨hlength' ▸ hspells, hfield, hcount ▸ length.toNat_lt⟩,
            by simp [encode, header]⟩
        · contradiction
      · contradiction
    · contradiction
  · rintro ⟨⟨hspells, hfield, hcount⟩, rfl⟩
    have hlength := hspells.read hfield (p.payload ++ rest)
    have hpayload := Reader.take_append p.payload rest
    have hnat := UInt64.toNat_ofNat_of_lt' hcount
    simp only [encode, header, List.append_assoc, p.key.read_bytes, hlength, hnat, hpayload,
      Action.pure_apply]
    rw [List.length_append, Nat.add_sub_cancel, List.take_left]

/-- The shortest length field frames a payload. -/
theorem framed_of_shortest {p : Packet}
    (h : p.lengthField = shortestLengthField p.payload.length)
    (hlt : p.payload.length < UInt64.size) : p.Framed where
  spells_length := h ▸ Ber.spelling_encode _
  length_le := by
    have hmost := (Unsigned.minLength_bounds (UInt64.ofNat p.payload.length)).2
    rw [h, shortestLengthField, Ber.length_encode, Ber.length]
    unfold maxLengthField
    split <;> omega
  payload_lt := hlt

end Packet

/-- The trailer has the length that is counted for it. -/
theorem Format.uniform_writeTrailer (f : Format) (sum : UInt16) :
    (f.writeTrailer sum f.trailerLength).Uniform f.trailerLength := by
  cases f with
  | st0601 schema => exact (Trailer.appends_write sum).uniform
  | _ => exact Writer.appends_pure.uniform

namespace PacketFormats

/-- A payload is as long as the value and the trailer are. -/
theorem length_of_written {format : Format} {v : Value} {header payload : Bytes} {length : Nat}
    (hlength : format.codec.lengthOf v = .ok length)
    (h : written (writePayload format v header length) = .ok payload) :
    payload.length = length + format.trailerLength := by
  simp only [written, writePayload, Action.bind_apply] at h
  split at h
  · next out hout =>
    obtain rfl := Except.ok.inj h
    split at hout
    · next body hbody =>
      -- What was written before the trailer is what was measured.
      have hcount : body.length = length := by
        rcases Format.definite format v with ⟨o, ho⟩
        rw [ho.write] at hbody
        rcases Codec.Outcome.write_eq_ok hbody with ⟨bytes, rfl, rfl, _⟩
        rw [ho.lengthOf] at hlength
        exact Except.ok.inj hlength
      split at hout
      · rcases Format.uniform_writeTrailer format (format.trailerChecksum (header ++ body)) with
          ⟨trailer, htrailer, happ⟩ | ⟨e, hfail⟩
        · simp only [Action.get_apply, Action.bind_apply, happ body] at hout
          injection hout with _ hout
          rw [← hout, List.length_append, hcount, htrailer]
        · rcases hfail body with ⟨left, hleft⟩
          simp only [Action.get_apply, Action.bind_apply, hleft] at hout
          contradiction
      · next hnone =>
        simp only [Action.pure_apply] at hout
        injection hout with _ hout
        rw [← hout, hcount]
        omega
    · contradiction
  · contradiction

/-- The length field of an encoded packet counts the trailer. -/
theorem lengthField_encode {formats : PacketFormats} {standard : Standard} {v : Value}
    {p : Packet} (h : formats.encode standard v = .ok p) :
    p.lengthField = Packet.shortestLengthField p.payload.length := by
  unfold encode at h
  cases hkey : standard.key? with
  | none => simp [hkey] at h
  | some key =>
    cases hformat : formats.formatFor standard with
    | none => simp [hkey, hformat] at h
    | some format =>
      cases hlength : format.codec.lengthOf v with
      | error e =>
          simp [hkey, hformat, hlength, bind, Except.bind] at h
      | ok length =>
          simp only [hkey, hformat, hlength, bind, Except.bind] at h
          split at h
          · contradiction
          · next payload hpayload =>
            obtain rfl := Except.ok.inj h
            rw [length_of_written hlength hpayload]

end PacketFormats

namespace Packet

/-- The ways to come by a packet. A payload in memory has fewer bytes than a word
    counts; one that was read has as many as a word said. -/
inductive Obtained : Packet → Prop
  | made (key : UniversalKey) (payload : Bytes) : payload.length < UInt64.size →
      Obtained (.ofPayload key payload)
  | read {data left : Bytes} {p : Packet} : readNext data = .ok (some p) left → Obtained p
  | encoded {formats : PacketFormats} {standard : Standard} {v : Value} {p : Packet} :
      formats.encode standard v = .ok p → p.payload.length < UInt64.size → Obtained p

/-- A packet that is read stands behind the bytes that were skipped. -/
theorem readNext_eq_ok_some_iff {data rest : Bytes} {p : Packet} :
    readNext data = .ok (some p) rest ↔
      p.Framed ∧ skipToKey data = some (p.encode ++ rest) := by
  unfold readNext
  cases skipToKey data with
  | none => simp
  | some found =>
      simp only [Action.map_apply, Option.some.injEq]
      cases hread : readHere found with
      | error e left =>
          simp only [reduceCtorEq, ← readHere_eq_ok_iff, hread]
      | ok q left =>
          simp only [← readHere_eq_ok_iff, hread, EStateM.Result.ok.injEq, Option.some.injEq]

/-- All packets that can be come by are framed. -/
theorem Obtained.framed {p : Packet} (h : p.Obtained) : p.Framed := by
  cases h with
  | made key payload hlt => exact framed_of_shortest rfl hlt
  | read hread => exact (readNext_eq_ok_some_iff.mp hread).1
  | encoded hencode hlt => exact framed_of_shortest (PacketFormats.lengthField_encode hencode) hlt

end Packet

end KlvMetadata
