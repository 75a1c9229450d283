import KlvMetadata.Proofs.Packet.Verdict
import KlvMetadata.Proofs.Set.Rewriting

/-!
# The Leading Timestamp

A UAS datalink set starts with its timestamp, and a reader checks that before it
reads anything else. A body that is too short for the entry, or starts in another
way, is refused whatever else is in it. A body that is not refused starts with a
segment that spells tag and length of a timestamp, and since bytes start with one
segment only, this is the first entry that is read, from the eight bytes behind.

There is one way around the check. It belongs to the layout of the set, and a field
without bytes is an empty value in all layouts, without any of them being asked. So
a packet that has a trailer and nothing in front of it is decoded, to nothing. It
has no timestamp and is not refused for that.

## Theorems

* `St0601.readBody_eq_error`: Bodies that are refused for their start.
* `St0601.readBody_eq_ok`: What reading a body has done.
* `St0601.exists_timestamp`: The first entry is the timestamp.
* `PacketFormats.timestamp_leads`: The rule for packets, and the way around it.
-/

namespace KlvMetadata

namespace St0601

open PacketFormats (readBody)

variable {schema : Schema Format} {body : Bytes}

theorem requireTimestamp_of_start (h : [0x02, 0x08] <+: body) :
    requireTimestamp body = .ok () body := by
  rcases h with ⟨rest, rfl⟩
  rfl

theorem requireTimestamp_of_other (h : ¬ [0x02, 0x08] <+: body) :
    requireTimestamp body = .error (.framing .timestampNotFirst) body := by
  unfold requireTimestamp
  split
  · next rest => exact absurd (List.prefix_append [0x02, 0x08] rest) h
  · rfl

/-- The fault of a body that does not start with a timestamp. -/
def startFault (body : Bytes) : FramingFault :=
  if body.length < timestampEntryLength then .timestampMissing else .timestampNotFirst

/-- A body that is too short for a timestamp or does not start with one is refused
    for that, unless it is empty. -/
theorem readBody_eq_error (hne : body ≠ [])
    (h : body.length < timestampEntryLength ∨ ¬ [0x02, 0x08] <+: body) :
    readBody (.st0601 schema) body = .error (.framing (startFault body)) := by
  have hread : (Layout.st0601 (Format.schemaCodecs schema)).read body.length body =
      .error (.framing (startFault body)) body := by
    by_cases hshort : body.length < timestampEntryLength
    · simp [Layout.st0601, startFault, hshort]
    · have hstart := requireTimestamp_of_other (h.resolve_left hshort)
      simp [Layout.st0601, startFault, hshort, hstart]
  have hallow : (Format.st0601 schema).terms.Allow body.length :=
    Layout.Terms.allow_of_free rfl _
  have hfield : (Format.st0601 schema).codec.read body.length (body ++ []) =
      .error (.framing (startFault body)) (body ++ []) :=
    Layout.read_field_error hne hallow hread []
  rw [List.append_nil] at hfield
  rw [readBody, hfield]

/-- What reading a body has done: it found a timestamp at the start, and read entries
    from the body as a whole. -/
theorem readBody_eq_ok {v : Value} (hne : body ≠ [])
    (h : readBody (.st0601 schema) body = .ok v) :
    timestampEntryLength ≤ body.length ∧ [0x02, 0x08] <+: body ∧
      ∃ entries : Entries UInt64, v = ⟨some (.localSet entries), body.length⟩ ∧
        SetCodec.readEntries (Format.schemaCodecs schema) body = .ok entries [] := by
  -- Otherwise the body would have been refused.
  have hstart : ¬ (body.length < timestampEntryLength ∨ ¬ [0x02, 0x08] <+: body) := by
    intro hbad
    rw [readBody_eq_error hne hbad] at h
    contradiction
  rw [not_or, Nat.not_lt, Classical.not_not] at hstart
  rcases hstart with ⟨hlong, hstart⟩
  refine ⟨hlong, hstart, ?_⟩
  unfold readBody at h
  split at h
  · next w left hread =>
    obtain rfl := Except.ok.inj h
    have hfield : (Layout.st0601 (Format.schemaCodecs schema)).readField .localSet
        (Format.st0601 schema).terms body.length body = .ok w left := hread
    rcases Layout.readField_eq_ok_iff.mp hfield with
      ⟨hzero, _⟩ | ⟨_, _, field, entries, hlength, hdata, hentries, rfl⟩
    · exact absurd (List.length_eq_zero_iff.mp hzero) hne
    · obtain ⟨rfl, _⟩ := List.append_inj ((List.append_nil body).trans hdata) hlength.symm
      refine ⟨entries, rfl, ?_⟩
      have hshort : ¬ body.length < timestampEntryLength := Nat.not_lt.mpr hlong
      simpa [Layout.st0601, hshort, requireTimestamp_of_start hstart] using hentries
  · contradiction

/-- Tag and length of a timestamp, and eight bytes. -/
def timestampSegment (content : Bytes) (h : content.length = 8) : Segment UInt64 where
  key := timestampTag
  keyField := [0x02]
  lengthField := [0x08]
  content := content
  spells_key := SetKey.Lawful.read_encode timestampTag
  spells_length := by
    rw [h]
    exact .short (by decide)
  content_lt := by
    rw [h]
    decide

/-- The first entry that is read is the timestamp, from the eight bytes behind its
    tag and length. -/
theorem exists_timestamp {entries : Entries UInt64} {left : Bytes}
    (hlong : timestampEntryLength ≤ body.length) (hstart : [0x02, 0x08] <+: body)
    (h : SetCodec.readEntries (Format.schemaCodecs schema) body = .ok entries left) :
    ∃ v others, entries = (timestampTag, v) :: others ∧ v.hint = 8 ∧
      (schema.byTag timestampTag).format.codec.read 8 ((body.drop 2).take 8) = .ok v [] := by
  rcases hstart with ⟨rest, rfl⟩
  have hcontent : (rest.take 8).length = 8 := by
    change 10 ≤ rest.length + 2 at hlong
    rw [List.length_take]
    omega
  rcases SetCodec.readEntries_eq_ok_iff.mp h with ⟨_, segments, hbytes, hcarries⟩
  cases hcarries with
  | nil => contradiction
  | @cons s e segments entries hfirst _ =>
      have hsame : s.bytes ++ segments.flatMap Segment.bytes =
          (timestampSegment (rest.take 8) hcontent).bytes ++ rest.drop 8 := by
        rw [← List.flatMap_cons, hbytes]
        simp [Segment.bytes, timestampSegment]
      obtain ⟨rfl, _⟩ := Segment.eq_of_append hsame
      rcases e with ⟨tag, v⟩
      rcases hfirst with ⟨rfl, hread⟩
      rw [timestampSegment, hcontent] at hread
      exact ⟨v, entries, rfl, Format.hint_of_read _ hread (by decide), hread⟩

end St0601

namespace PacketFormats

open St0601 (timestampTag timestampEntryLength)

/-- Of a packet with a trailer, for each way its body can be: if the body has bytes
    and is too short for a timestamp or does not start with tag and length of one, the
    packet is refused for its framing. If it has bytes and the packet is decoded, it
    starts with these, and the first entry of the set is a timestamp that was read
    from the eight bytes behind. Only a body without bytes passes unseen: the packet is
    decoded, to an empty value. -/
theorem timestamp_leads (schema : Schema Format) {p : Packet} {body x : Bytes}
    (hkey : p.key = Standard.st0601Key) (hx : x.length = 2)
    (hpayload : p.payload = body ++ ([0x01, 0x02] ++ x)) :
    (body ≠ [] → body.length < timestampEntryLength ∨ ¬ [0x02, 0x08] <+: body →
      (withSchema schema).decode p = .error (.framing (St0601.startFault body))) ∧
    (body ≠ [] → ∀ d, (withSchema schema).decode p = .ok d →
      [0x02, 0x08] <+: p.payload ∧ ∃ v others,
        d.value = ⟨some (.localSet ((timestampTag, v) :: others)), body.length⟩ ∧
        v.hint = 8 ∧
        (schema.byTag timestampTag).format.codec.read 8 ((body.drop 2).take 8) = .ok v []) ∧
    (body = [] → ∃ status, (withSchema schema).decode p = .ok ⟨.empty, status⟩) := by
  have htrailer : p.payload = body ++ Trailer.bytes (UInt16.ofNat (Bytes.toNat x)) := by
    rw [hpayload, Trailer.bytes_of_two hx]
    rfl
  rw [decode_append hkey htrailer]
  refine ⟨fun hne hbad => ?_, fun hne d hdecode => ?_, fun hempty => ?_⟩
  · rw [St0601.readBody_eq_error hne hbad]
    rfl
  · cases hread : readBody (.st0601 schema) body with
    | error e =>
        rw [hread] at hdecode
        contradiction
    | ok w =>
        rw [hread] at hdecode
        obtain rfl := Except.ok.inj hdecode
        rcases St0601.readBody_eq_ok hne hread with ⟨hlong, hstart, entries, rfl, hentries⟩
        rcases St0601.exists_timestamp hlong hstart hentries with ⟨v, others, rfl, hhint, hv⟩
        refine ⟨hpayload ▸ hstart.trans (List.prefix_append _ _), v, others, rfl, hhint, hv⟩
  · rw [hempty]
    exact ⟨_, rfl⟩

/-- A packet that has a timestamp alone is decoded to it, and one that has something
    else in front of it is refused. -/
theorem timestamp_leads_stamp :
    (∃ d v others, (withSchema sampleSchema).decode (.ofBody stamp) = .ok d ∧
      d.value = ⟨some (.localSet ((timestampTag, v) :: others)), 10⟩ ∧
      (sampleSchema.byTag timestampTag).format.codec.read 8 [0, 0, 0, 0, 0, 0, 0, 7] =
        .ok v []) ∧
    (withSchema sampleSchema).decode (.ofBody ([3, 0] ++ stamp)) =
      .error (.framing .timestampNotFirst) := by
  have htrailer (body : Bytes) : ∃ x : Bytes, x.length = 2 ∧
      (Packet.ofBody body).payload = body ++ ([0x01, 0x02] ++ x) := ⟨_, rfl, rfl⟩
  constructor
  · have hdecode : (withSchema sampleSchema).decode (.ofBody stamp) =
        .ok ⟨⟨some (.localSet [(2, ⟨some (.u64 7), 8⟩)]), 10⟩, .valid⟩ := by
      rw [decode_ofBody, readBody_stamp]
      rfl
    rcases htrailer stamp with ⟨x, hx, hpayload⟩
    rcases (timestamp_leads sampleSchema rfl hx hpayload).2.1 (by decide) _ hdecode with
      ⟨_, v, others, hvalue, _, hread⟩
    exact ⟨_, v, others, hdecode, hvalue, hread⟩
  · rcases htrailer ([3, 0] ++ stamp) with ⟨x, hx, hpayload⟩
    exact (timestamp_leads sampleSchema rfl hx hpayload).1 (by decide) (Or.inr (by decide))

/-- A packet that is nothing but its trailer does not start with a timestamp. It is
    decoded all the same, and is not refused for its framing. -/
theorem bare_trailer_is_accepted :
    (Packet.ofBody []).payload = [] ++ ([0x01, 0x02] ++ [0x4C, 0x51]) ∧
    ¬ [0x02, 0x08] <+: (Packet.ofBody []).payload ∧
    standard.decode (.ofBody []) = .ok ⟨.empty, .valid⟩ ∧
    ¬ ∃ fault, standard.decode (.ofBody []) = .error (.framing fault) := by
  have hpayload : (Packet.ofBody []).payload = [] ++ ([0x01, 0x02] ++ [0x4C, 0x51]) := by
    decide +kernel
  have hdecode : standard.decode (.ofBody []) = .ok ⟨.empty, .valid⟩ :=
    decode_ofBody St0601.schema []
  refine ⟨hpayload, ?_, hdecode, ?_⟩
  · rw [hpayload]
    decide
  · rintro ⟨fault, hfault⟩
    rw [hdecode] at hfault
    contradiction

end PacketFormats

end KlvMetadata
