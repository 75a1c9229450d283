import KlvMetadata.Packet.Formats
import KlvMetadata.Proofs.St0601.RoundTrip
import KlvMetadata.Proofs.Value.Order
import Mathlib.Data.List.Forall2

/-!
# Reading Back Packets

A packet is encoded around the bytes of its value. The trailer carries the sum
over everything before it, the length field included, and stands at a known
distance from the end, so the reader finds the body and the same sum again.

For a set this is the last of several layers, each of which gives back what it
was given: the values in their fields, the entries in their frames, the frames
behind the leading timestamp, and the body in front of its trailer. What the
caller has to bring is a timestamp of eight bytes and values that survive on
their own. That one write and one read of a value succeed is enough, because
writing has an outcome that no space or output changes, and reading a field
never looks behind it.

## Main definitions

* `Trailer.bytes`: The trailer with a sum.
* `Packet.ofBody`: The packet around a body.
* `Codec.ReadsBack`: Some write of a value and the read after it succeed.

## Theorems

* `Trailer.read_append`: The sum is read back from behind any body.
* `PacketFormats.splitTrailer_append`, `decode_append`: Body and sum are found again.
* `PacketFormats.encode_eq`: What is written becomes a body.
* `PacketFormats.decode_encode`: A packet carries what its format carries.
* `Codec.ReadsBack.carries`: One success tells of all others.
* `PacketFormats.set_survives_packet`: A set is read back from its packet, with
  its timestamps first and without its checksums.
-/

namespace KlvMetadata

namespace Trailer

/-- The trailer with a sum. -/
def bytes (sum : UInt16) : Bytes := header ++ Bytes.ofNat 2 sum.toNat

theorem length_bytes (sum : UInt16) : (bytes sum).length = length := by
  rfl

theorem appends_write (sum : UInt16) : (write sum length).Appends (bytes sum) :=
  Writer.appends_checked (Nat.le_refl _) _

/-- The sum is read back from the end of the data. -/
theorem read_append (body : Bytes) (sum : UInt16) : read (body ++ bytes sum) = .ok sum := by
  have hshort : ¬ (body ++ bytes sum).length < length := by
    rw [List.length_append, length_bytes]
    omega
  have htrailer : (body ++ bytes sum).drop ((body ++ bytes sum).length - length) = bytes sum := by
    rw [List.length_append, length_bytes, Nat.add_sub_cancel, List.drop_left]
  have hfits : sum.toNat < 256 ^ 2 := sum.toNat_lt
  have hsum : UInt16.ofNat (Bytes.toNat (Bytes.ofNat 2 sum.toNat)) = sum := by
    rw [Bytes.toNat_ofNat, Nat.mod_eq_of_lt hfits, UInt16.ofNat_toNat]
  have htake : (bytes sum).take header.length = header := List.take_left
  have hdrop : (bytes sum).drop header.length = Bytes.ofNat 2 sum.toNat := List.drop_left
  simp only [read, if_neg hshort, htrailer, htake, hdrop, hsum, ne_eq, not_true_eq_false,
    if_false]

end Trailer

theorem ChecksumStatus.ofSums_self (sum : UInt16) : ofSums sum sum = .valid := if_pos rfl

/-- The packet around a body: behind the shortest length field, which counts the
    trailer, and with the sum over all that stands before the sum. -/
def Packet.ofBody (body : Bytes) : Packet :=
  let lengthField := shortestLengthField (body.length + Trailer.length)
  ⟨Standard.st0601Key, lengthField, body ++
    Trailer.bytes (Trailer.checksum (Standard.st0601Key.bytes ++ lengthField ++ body))⟩

namespace PacketFormats

variable {schema : Schema Format} {v w : Value} {body : Bytes}

/-- A payload is the bytes of the value and a trailer with the sum over all
    that stands before it. -/
theorem written_writePayload (h : (Format.st0601 schema).codec.Settles v (.written body))
    (header : Bytes) :
    written (writePayload (.st0601 schema) v header body.length) =
      .ok (body ++ Trailer.bytes (Trailer.checksum (header ++ body))) := by
  have hbody : (Format.st0601 schema).codec.write v body.length [] = .ok () body := by
    rw [h.write, Codec.Outcome.write, Writer.checkSpace_bind, if_neg (Nat.lt_irrefl _)]
    rfl
  have htrailer := Trailer.appends_write (Trailer.checksum (header ++ body)) body
  have hlength : (Format.st0601 schema).trailerLength ≠ 0 := Nat.succ_ne_zero 3
  simp only [written, writePayload, Action.bind_apply, hbody, if_pos hlength, Action.get_apply]
  simp only [Format.writeTrailer, Format.trailerChecksum, Format.trailerLength, htrailer]

/-- The body is found in front of the trailer, and the sum that is carried is
    compared with the sum over what stands before it. -/
theorem splitTrailer_append {p : Packet} {sum : UInt16}
    (h : p.payload = body ++ Trailer.bytes sum) :
    splitTrailer (.st0601 schema) p =
      .ok (body, .ofSums sum (Trailer.checksum (p.header ++ body))) := by
  have hlength : p.payload.length = body.length + Trailer.length := by
    rw [h, List.length_append, Trailer.length_bytes]
  have hbody : p.payload.take (p.payload.length - Trailer.length) = body := by
    rw [hlength, Nat.add_sub_cancel, h, List.take_left]
  have hzero : ¬ Trailer.length = 0 := by decide
  have hshort : ¬ p.payload.length < Trailer.length := by omega
  simp only [splitTrailer, Format.trailerLength, if_neg hzero, if_neg hshort, hbody,
    Format.readTrailer, Format.trailerChecksum]
  rw [h, Trailer.read_append]
  rfl

/-- A packet with the key of the set is split, and its body is read. -/
theorem decode_eq {p : Packet} (hkey : p.key = Standard.st0601Key) :
    (withSchema schema).decode p =
      splitTrailer (.st0601 schema) p >>= fun (body, status) =>
        (fun v => ⟨v, status⟩) <$> readBody (.st0601 schema) body := by
  have hstandard : p.standard = .st0601 := by rw [Packet.standard, Standard.ofKey, if_pos hkey]
  have hformat : (withSchema schema).formatFor .st0601 = some (.st0601 schema) := rfl
  rw [decode, hstandard, hformat]
  refine congrArg (splitTrailer (.st0601 schema) p >>= ·) (funext fun found => ?_)
  cases readBody (.st0601 schema) found.1 <;> rfl

/-- A packet is decoded by reading its body, whatever sum it carries. -/
theorem decode_append {p : Packet} {sum : UInt16} (hkey : p.key = Standard.st0601Key)
    (h : p.payload = body ++ Trailer.bytes sum) :
    (withSchema schema).decode p =
      (fun v => ⟨v, .ofSums sum (Trailer.checksum (p.header ++ body))⟩) <$>
        readBody (.st0601 schema) body := by
  rw [decode_eq hkey, splitTrailer_append h]
  rfl

/-- The packet around a body carries the sum that is computed. -/
theorem decode_ofBody (schema : Schema Format) (body : Bytes) :
    (withSchema schema).decode (.ofBody body) =
      (fun v => ⟨v, .valid⟩) <$> readBody (.st0601 schema) body := by
  rw [decode_append rfl rfl]
  exact congrArg (fun status => (fun v => Decoded.mk v status) <$> readBody (.st0601 schema) body)
    (ChecksumStatus.ofSums_self _)

/-- What becomes of a value becomes of its packet: its bytes are the body, and there is
    no packet for the same reason that there are no bytes. -/
theorem encode_eq {formats : PacketFormats} {o : Codec.Outcome}
    (hformat : formats.formatFor .st0601 = some (.st0601 schema))
    (h : (Format.st0601 schema).codec.Settles v o) :
    formats.encode .st0601 v = .ofBody <$> o.result := by
  have hlength := h.lengthOf
  cases o with
  | unmeasured e =>
      simp only [encode, Standard.key?, hformat, hlength, Codec.Outcome.lengthOf, bind, Except.bind]
      rfl
  | unwritable length e =>
      -- There is a length, so the packet gets its header before writing fails.
      have hwrite := h.write_eq_error []
      simp only [encode, Standard.key?, hformat, hlength, Codec.Outcome.lengthOf, bind, Except.bind,
        written, writePayload, EStateM.bind, hwrite]
      rfl
  | written body =>
      have hpayload := written_writePayload h (Packet.ofBody body).header
      simp only [Packet.header, Packet.ofBody] at hpayload
      simp only [encode, Standard.key?, hformat, hlength, Codec.Outcome.lengthOf, bind, Except.bind,
        Format.trailerLength, hpayload]
      rfl

/-- What is carried by the format of a set is carried by its packets. -/
theorem decode_encode (h : (Format.st0601 schema).codec.Carries v body w) :
    ∃ p, (withSchema schema).encode .st0601 v = .ok p ∧
      (withSchema schema).decode p = .ok ⟨w, .valid⟩ := by
  refine ⟨.ofBody body, encode_eq rfl h.written, ?_⟩
  have hread : readBody (.st0601 schema) body = .ok w := by
    have hbody := h.read []
    rw [List.append_nil] at hbody
    rw [readBody, hbody]
  rw [decode_ofBody, hread]
  rfl

end PacketFormats

namespace Codec

/-- Some write of a value succeeds, and the bytes are read as an equal value.
    There are fewer of them than a word can count. -/
def ReadsBack (c : Codec) (v : Value) : Prop :=
  ∃ space bytes w left, c.write v space [] = .ok () bytes ∧
    c.read bytes.length bytes = .ok w left ∧ (w == v) = true ∧ bytes.length < UInt64.size

-- A success is the outcome, since any other outcome would have failed.
theorem settles_of_write {c : Codec} (h : c.Definite) {v : Value} {space : Nat} {bytes : Bytes}
    (hwrite : c.write v space [] = .ok () bytes) : c.Settles v (.written bytes) := by
  rcases h v with ⟨o, ho⟩
  rw [ho.write] at hwrite
  rcases Outcome.write_eq_ok hwrite with ⟨bytes', rfl, rfl, _⟩
  exact ho

/-- One write and one read that succeed tell of all others. -/
theorem ReadsBack.carries {c : Codec} (hdefinite : c.Definite) (hlocal : c.Local) {v : Value}
    (h : c.ReadsBack v) :
    ∃ bytes w, c.Carries v bytes w ∧ (w == v) = true ∧ bytes.length < UInt64.size := by
  rcases h with ⟨space, bytes, w, left, hwrite, hread, heq, hfits⟩
  exact ⟨bytes, w, ⟨settles_of_write hdefinite hwrite, hlocal hread⟩, heq, hfits⟩

end Codec

namespace St0601

variable {schema : Schema Format} {entries : Entries UInt64} {v : Value}

/-- Reading back each entry as an equal one reads back the set as an equal one,
    up to its checksums. -/
theorem beq_erase {result : UInt64 × Value → Value} (hint hint' : Nat)
    (h : ∀ e ∈ arranged entries, (result e == e.2) = true) :
    ((⟨some (.localSet ((arranged entries).map fun e => (e.1, result e))), hint⟩ : Value) ==
      ⟨some (.localSet (entries.erase checksumTag)), hint'⟩) = true := by
  refine Value.localSet_beq hint hint' ?_
  have hsame : localSortKeys ((arranged entries).map fun e => (e.1, result e)) =
      localSortKeys (arranged entries) := by
    rw [Value.localSortKeys_eq_map, Value.localSortKeys_eq_map, List.map_map]
    refine List.map_congr_left fun e he => ?_
    rw [Function.comp, (Value.beq_iff _ _).mp (h e he)]
  rw [hsame, Value.localSortKeys_eq_map, Value.localSortKeys_eq_map]
  exact (arranged_perm entries).map _

end St0601

namespace PacketFormats

/-- Whatever the schema, a set is read back from its packet if its first
    timestamp takes eight bytes and each of its entries, checksums apart, is
    read back from its own bytes. What comes back has its timestamps first and
    everything else in its place, with equal values, and as a set it is the
    same but for the checksums. -/
theorem set_survives_packet (schema : Schema Format) (entries : Entries UInt64) (hint : Nat)
    (htimestamp : ∃ v space bytes, entries.find? St0601.timestampTag = some v ∧
      (schema.byTag St0601.timestampTag).format.codec.write v space [] = .ok () bytes ∧
      bytes.length = 8)
    (hentries : ∀ e ∈ entries, e.1 ≠ St0601.checksumTag →
      (schema.byTag e.1).format.codec.ReadsBack e.2) :
    ∃ p entries' hint',
      (withSchema schema).encode .st0601 ⟨some (.localSet entries), hint⟩ = .ok p ∧
      (withSchema schema).decode p = .ok ⟨⟨some (.localSet entries'), hint'⟩, .valid⟩ ∧
      List.Forall₂ (fun a b => a.1 = b.1 ∧ (a.2 == b.2) = true) entries'
        (entries.filter (fun e => e.1 = St0601.timestampTag) ++
          entries.filter (fun e => e.1 ≠ St0601.timestampTag && e.1 ≠ St0601.checksumTag)) ∧
      ((⟨some (.localSet entries'), hint'⟩ : Value) ==
        ⟨some (.localSet (entries.erase St0601.checksumTag)), hint⟩) = true := by
  -- Each entry has its own bytes and result, which are collected into functions.
  have hcarries : ∀ e ∈ St0601.arranged entries, ∃ bytes w,
      (schema.byTag e.1).format.codec.Carries e.2 bytes w ∧ (w == e.2) = true ∧
        bytes.length < UInt64.size := by
    intro e he
    rcases St0601.mem_arranged.mp he with ⟨hmem, htag⟩
    exact (hentries e hmem htag).carries (Format.definite _) (Format.local_codec _)
  choose! bytes result hcarries using hcarries
  rcases htimestamp with ⟨v, space, stamp, hfind, hwrite, hlength⟩
  -- The bytes of the first timestamp may come from another write, but are as many.
  have hfirst : (bytes (St0601.timestampTag, v)).length = 8 := by
    rcases St0601.arranged_eq_cons hfind with ⟨rest, hcons⟩
    have hmem : (St0601.timestampTag, v) ∈ St0601.arranged entries := by
      rw [hcons]
      exact List.mem_cons_self
    rw [← hlength, (hcarries _ hmem).1.written.unique
      (Codec.settles_of_write (Format.definite _) hwrite)]
  have hset := St0601.carries hint hfind hfirst (fun e he => (hcarries e he).1)
    (fun e he => (hcarries e he).2.2)
  rcases decode_encode hset with ⟨p, hencode, hdecode⟩
  -- What was read back differs from what was arranged in the values alone.
  refine ⟨p, _, _, hencode, hdecode, ?_, St0601.beq_erase _ hint fun e he => (hcarries e he).2.1⟩
  rw [List.forall₂_map_left_iff]
  exact List.forall₂_same.mpr fun e he => ⟨rfl, (hcarries e he).2.1⟩

/-- Two timestamps, a tag of two bytes that comes twice, an unlisted tag and a
    checksum, in no particular order. -/
def sampleEntries : Entries UInt64 :=
  [(200, ⟨some (.u64 300), 0⟩), (1, ⟨some (.u64 7), 0⟩), (9, ⟨some (.blob [1, 2]), 0⟩),
    (2, ⟨some (.u64 5), 0⟩), (200, ⟨some (.u64 3), 0⟩), (2, ⟨some (.u64 4), 0⟩)]

/-- A schema for such entries. -/
def sampleSchema : Schema Format :=
  .listing [⟨2, .none, .unsigned (some 8), "Time", "", .any⟩,
    ⟨200, .none, .berOid, "Count", "", .any⟩] .unlisted

/-- The sample is read back with its timestamps in front, and its checksum is gone. -/
theorem set_survives_packet_sample :
    (∃ v space bytes, sampleEntries.find? St0601.timestampTag = some v ∧
      (sampleSchema.byTag St0601.timestampTag).format.codec.write v space [] = .ok () bytes ∧
      bytes.length = 8) ∧
    (∀ e ∈ sampleEntries, e.1 ≠ St0601.checksumTag →
      (sampleSchema.byTag e.1).format.codec.ReadsBack e.2) ∧
    ∃ p entries' hint',
      (withSchema sampleSchema).encode .st0601 ⟨some (.localSet sampleEntries), 0⟩ = .ok p ∧
      (withSchema sampleSchema).decode p = .ok ⟨⟨some (.localSet entries'), hint'⟩, .valid⟩ ∧
      entries'.map Prod.fst = [2, 2, 200, 9, 200] := by
  have htimestamp : ∃ v space bytes, sampleEntries.find? St0601.timestampTag = some v ∧
      (sampleSchema.byTag St0601.timestampTag).format.codec.write v space [] = .ok () bytes ∧
      bytes.length = 8 :=
    ⟨⟨some (.u64 5), 0⟩, 8, [0, 0, 0, 0, 0, 0, 0, 5], rfl, rfl, rfl⟩
  have hentries : ∀ e ∈ sampleEntries, e.1 ≠ St0601.checksumTag →
      (sampleSchema.byTag e.1).format.codec.ReadsBack e.2 := by
    intro e he htag
    simp only [sampleEntries, List.mem_cons, List.not_mem_nil, or_false] at he
    rcases he with rfl | rfl | rfl | rfl | rfl | rfl
    · exact ⟨2, [130, 44], ⟨some (.u64 300), 2⟩, [], rfl, rfl, rfl, by decide⟩
    · exact absurd rfl htag
    · exact ⟨2, [1, 2], ⟨some (.blob [1, 2]), 2⟩, [], rfl, rfl, rfl, by decide⟩
    · exact ⟨8, [0, 0, 0, 0, 0, 0, 0, 5], ⟨some (.u64 5), 8⟩, [], rfl, rfl, rfl, by decide⟩
    · exact ⟨1, [3], ⟨some (.u64 3), 1⟩, [], rfl, rfl, rfl, by decide⟩
    · exact ⟨8, [0, 0, 0, 0, 0, 0, 0, 4], ⟨some (.u64 4), 8⟩, [], rfl, rfl, rfl, by decide⟩
  refine ⟨htimestamp, hentries, ?_⟩
  rcases set_survives_packet sampleSchema sampleEntries 0 htimestamp hentries with
    ⟨p, entries', hint', hencode, hdecode, hsame, _⟩
  refine ⟨p, entries', hint', hencode, hdecode, ?_⟩
  -- The timestamps come first, the others in their order, and the checksum is gone.
  have htags : List.Forall₂ (· = ·) (entries'.map Prod.fst) [2, 2, 200, 9, 200] := by
    have htags := (hsame.imp fun _ _ h => h.1 : List.Forall₂ (fun a b => a.1 = b.1) _ _)
    exact List.forall₂_map_left_iff.mpr (List.forall₂_map_right_iff.mpr htags)
  rw [List.forall₂_eq_eq_eq] at htags
  exact htags

end PacketFormats

end KlvMetadata
