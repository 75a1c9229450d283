import KlvMetadata.Proofs.Packet.Timestamp
import KlvMetadata.Proofs.St0601.Schema

/-!
# Timestamps That Are Written

A set is not written without a timestamp, and a reader asks for tag and length of one at
the start. The two do not ask for the same. The writer wants an entry under the tag of
the timestamp, and the reader wants an entry of eight bytes. Now entries can be empty,
and they can hold bytes that were never understood and are written as they are. So there
are sets that are written, with a timestamp in front that has no bytes or some other
number of them, and then refused by the reader of the same standard.

What is written tells what was in the set. The body of a packet is made of the frames of
the entries, each around the bytes that its value alone is written as, and the first of
these is the first timestamp. Its length is the second byte of the packet.

## Main definitions

* `Value.FillsTimestamp`: A time, or eight bytes in place of one.

## Theorems

* `SetCodec.exists_frames`: Entries that are written are written as frames.
* `St0601.body_eq_frames`: So are the entries of a set, timestamps first.
* `St0601.readBody_error_of_start`: Why a body with a timestamp can still be refused.
* `PacketFormats.start_of_encoded`: What the packet of a set starts with, and what the
  reader makes of that.
-/

namespace KlvMetadata

/-- The second byte of a frame tells a length of eight from all others. -/
theorem Ber.encode_eq_cons (value : UInt64) :
    ∃ first rest, encode value = first :: rest ∧ (first = 8 ↔ value = 8) := by
  unfold encode
  split
  · next hsmall =>
    refine ⟨_, [], rfl, ?_⟩
    have hlt : value.toNat < 128 := UInt64.lt_iff_toNat_lt.mp hsmall
    rw [← UInt8.toNat_inj, ← UInt64.toNat_inj, UInt64.toNat_toUInt8]
    change value.toNat % 256 = 8 ↔ value.toNat = 8
    omega
  · next hlarge =>
    -- The first byte counts those of the value, with its top bit set.
    have hcount := (Unsigned.minLength_bounds value).2
    have hlt : ¬ value.toNat < 128 := fun hlt => hlarge (UInt64.lt_iff_toNat_lt.mpr hlt)
    refine ⟨_, _, rfl, ?_⟩
    rw [← UInt8.toNat_inj, ← UInt64.toNat_inj, UInt8.toNat_ofNat']
    change (128 + Unsigned.minLength value) % 256 = 8 ↔ value.toNat = 8
    omega

namespace SetCodec

variable {κ : Type} [SetKey κ] {schema : Schema Codec}

/-- An entry is written only if its value is. -/
theorem settles_of_writeEntry {key : κ} {v : Value} {space : Nat} {out out' : Bytes}
    (hdefinite : (codecFor schema key).Definite)
    (h : writeEntry schema key v space out = .ok () out') :
    ∃ bytes, (codecFor schema key).Settles v (.written bytes) := by
  -- The value comes last, and of its outcomes only bytes let it succeed.
  rcases hdefinite v with ⟨o, ho⟩
  rw [writeEntry] at h
  rcases Action.bind_eq_ok h with ⟨length, _, _, h⟩
  rcases Action.bind_eq_ok h with ⟨keyLength, _, _, h⟩
  rcases Action.bind_eq_ok h with ⟨lengthLength, _, _, h⟩
  rw [ho.write] at h
  rcases Codec.Outcome.write_eq_ok h with ⟨bytes, rfl, _⟩
  exact ⟨bytes, ho⟩

variable [SetKey.Lawful κ]

/-- Entries are written only if each of them is. -/
theorem settles_of_writeEntries (hdefinite : schema.Definite) {entries : Entries κ} {space : Nat}
    {out out' : Bytes} (h : writeEntries schema entries space out = .ok () out') :
    ∀ e ∈ entries, ∃ bytes, (codecFor schema e.1).Settles e.2 (.written bytes) := by
  induction entries generalizing space out with
  | nil => exact fun _ he => absurd he List.not_mem_nil
  | cons entry entries ih =>
      rcases entry with ⟨key, v⟩
      rw [writeEntries] at h
      rcases Action.bind_eq_ok h with ⟨used, between, hfirst, hrest⟩
      refine List.forall_mem_cons.mpr ⟨?_, ih hrest⟩
      exact settles_of_writeEntry (definite_codecFor hdefinite key) (Writer.spent_eq_ok hfirst)

/-- Entries that are written in the length that was measured are written as their
    frames. -/
theorem exists_frames (hdefinite : schema.Definite) {entries : Entries κ} {length : Nat}
    {out out' : Bytes} (hlength : entriesLength schema entries = .ok length)
    (h : writeEntries schema entries length out = .ok () out') :
    ∃ bytes : κ × Value → Bytes,
      (∀ e ∈ entries, (codecFor schema e.1).Settles e.2 (.written (bytes e))) ∧
      out' = out ++ frames bytes entries := by
  -- Each entry has its own bytes, which are collected into a function.
  have hsettles := settles_of_writeEntries hdefinite h
  choose! bytes hbytes using hsettles
  have hspace : (frames bytes entries).length = length :=
    Except.ok.inj ((entriesLength_frames hbytes).symm.trans hlength)
  rw [appends_writeEntries hbytes (Nat.le_of_eq hspace)] at h
  injection h with _ h
  exact ⟨bytes, hbytes, h.symm⟩

end SetCodec

/-- A layout that has written a thing has measured it. -/
theorem Layout.writeMeasured_eq_ok {α : Type} {layout : Layout α} {a : α} {hint space : Nat}
    {out out' : Bytes} (h : layout.writeMeasured a hint space out = .ok () out') :
    ∃ length, layout.lengthOf a hint = .ok length ∧ layout.write a length out = .ok () out' := by
  rw [writeMeasured] at h
  cases hlength : layout.lengthOf a hint with
  | error e =>
      rw [hlength] at h
      contradiction
  | ok length =>
      rw [hlength, Action.ofExcept_ok_bind, Writer.checkSpace_bind] at h
      split at h
      · contradiction
      · refine ⟨length, rfl, ?_⟩
        unfold Writer.whole at h
        split at h
        · next written hwrite =>
          injection h with _ h
          rw [hwrite, h]
        · contradiction

namespace St0601

variable {schema : Schema Format} {entries : Entries UInt64} {body : Bytes}

/-- A set is arranged only if it has a timestamp. -/
theorem eq_of_ordered {ordering : Entries UInt64} (h : ordered entries = .ok ordering) :
    ∃ v, entries.find? timestampTag = some v ∧ ordering = arranged entries := by
  have hhas : entries.has timestampTag := by
    rw [ordered] at h
    split at h
    · assumption
    · contradiction
  rcases List.any_eq_true.mp hhas with ⟨e, he, htag⟩
  have hfind : ∃ v, entries.find? timestampTag = some v := by
    cases hfirst : List.find? (fun e => decide (e.1 = timestampTag)) entries with
    | none => exact absurd htag (List.find?_eq_none.mp hfirst e he)
    | some first => exact ⟨first.2, by rw [Entries.find?, hfirst]; rfl⟩
  rcases hfind with ⟨v, hv⟩
  exact ⟨v, hv, Except.ok.inj (h.symm.trans (ordered_eq hv))⟩

/-- A set that is written is written as the frames of its entries, timestamps first. -/
theorem body_eq_frames {hint : Nat}
    (h : (Format.st0601 schema).codec.Settles ⟨some (.localSet entries), hint⟩ (.written body)) :
    ∃ (v : Value) (bytes : UInt64 × Value → Bytes), entries.find? timestampTag = some v ∧
      (∀ e ∈ arranged entries, (schema.byTag e.1).format.codec.Settles e.2 (.written (bytes e))) ∧
      body = SetCodec.frames bytes (arranged entries) := by
  have hwrite : (Layout.st0601 (Format.schemaCodecs schema)).writeMeasured entries hint body.length
      [] = .ok () body := h.write_eq_ok (Nat.le_refl _) []
  rcases Layout.writeMeasured_eq_ok hwrite with ⟨length, hlength, hwrite⟩
  cases hordered : ordered entries with
  | error e =>
      simp only [Layout.st0601, hordered] at hlength
      contradiction
  | ok ordering =>
      rcases eq_of_ordered hordered with ⟨v, hv, rfl⟩
      simp only [Layout.st0601, hordered] at hlength hwrite
      rcases SetCodec.exists_frames (Format.definite_schemaCodecs schema) hlength hwrite with
        ⟨bytes, hbytes, hbody⟩
      simp only [codecFor_schemaCodecs] at hbytes
      exact ⟨v, bytes, hv, hbytes, hbody⟩

/-- Behind the tag of the timestamp stands the length of the first one, so the bytes that
    a reader asks for are there if it is eight. -/
theorem start_iff {v : Value} {bytes : UInt64 × Value → Bytes}
    (h : entries.find? timestampTag = some v)
    (hfits : (bytes (timestampTag, v)).length < UInt64.size) (rest : Bytes) :
    [0x02, 0x08] <+: SetCodec.frames bytes (arranged entries) ++ rest ↔
      (bytes (timestampTag, v)).length = 8 := by
  rcases arranged_eq_cons h with ⟨others, hcons⟩
  rcases Ber.encode_eq_cons (UInt64.ofNat (bytes (timestampTag, v)).length) with
    ⟨first, more, hlength, hfirst⟩
  have htag : SetKey.Lawful.encode timestampTag = [0x02] := by decide
  have hcount : UInt64.ofNat (bytes (timestampTag, v)).length = 8 ↔
      (bytes (timestampTag, v)).length = 8 := by
    rw [← UInt64.toNat_inj, UInt64.toNat_ofNat_of_lt' hfits]
    rfl
  rw [hcons, SetCodec.frames, List.flatMap_cons, SetCodec.frame, htag, hlength, ← hcount, ← hfirst]
  simp [List.cons_prefix_cons, eq_comm]

/-- Behind a timestamp, a set is read as any other, and refused for the same. -/
theorem readBody_error_of_start {P : Error → Prop} {e : Error}
    (hparse : ∀ fault, P (.parse fault))
    (hvalue : ∀ tag : UInt64, (schema.byTag tag).format.codec.RefusesOnly P)
    (hlong : timestampEntryLength ≤ body.length) (hstart : [0x02, 0x08] <+: body)
    (h : PacketFormats.readBody (.st0601 schema) body = .error e) : P e := by
  have hshort : ¬ body.length < timestampEntryLength := Nat.not_lt.mpr hlong
  have hzero : body.length ≠ 0 := by
    intro hzero
    rw [hzero] at hlong
    contradiction
  have hallow : (Format.st0601 schema).terms.Allow body.length := Layout.Terms.allow_of_free rfl _
  -- Both layouts read entries through the same window, once the check has passed.
  have hsame : (Layout.st0601 (Format.schemaCodecs schema)).readField .localSet
      (Format.st0601 schema).terms body.length body =
        (Layout.entries (Format.schemaCodecs schema)).readField .localSet
          (Format.st0601 schema).terms body.length body := by
    rw [Layout.readField_eq_window hzero (Nat.le_refl _) hallow,
      Layout.readField_eq_window hzero (Nat.le_refl _) hallow]
    simp [Reader.within, Layout.st0601, Layout.entries, hshort, requireTimestamp_of_start hstart]
  have hset : (Layout.entries (Format.schemaCodecs schema) : Layout (Entries UInt64)).RefusesOnly
      P := by
    refine fun _ => SetCodec.failsOnly_readEntries hparse (SetCodec.failsOnly_readTag hparse) ?_
    intro tag
    rw [codecFor_schemaCodecs]
    exact hvalue tag
  unfold PacketFormats.readBody at h
  split at h
  · contradiction
  · next e' left hread =>
    have hfield := hset.codec hparse .localSet (Format.st0601 schema).terms body.length
      (hsame.symm.trans hread)
    exact Except.error.inj h ▸ hfield

end St0601

/-- A time, or eight bytes in place of one. -/
def Value.FillsTimestamp (v : Value) : Prop :=
  (∃ time, v.item = some (.u64 time)) ∨ ∃ bytes, v.item = some (.blob bytes) ∧ bytes.length = 8

/-- An integer of eight bytes is written in eight bytes, and so is what fills its place. -/
theorem Value.fillsTimestamp_iff {v : Value} {bytes : Bytes}
    (h : (Format.unsigned (some 8)).codec.Settles v (.written bytes)) :
    v.FillsTimestamp ↔ bytes.length = 8 := by
  -- What was measured tells the cases apart, and leaves no others.
  have hlength := h.lengthOf
  rcases v with ⟨content, hint⟩
  cases content with
  | none =>
      obtain hzero : 0 = bytes.length := Except.ok.inj hlength
      simp [FillsTimestamp, ← hzero]
  | some item =>
      cases item with
      | u64 time =>
          obtain height : 8 = bytes.length := Except.ok.inj hlength
          simp [FillsTimestamp, ← height]
      | blob content =>
          obtain hsame : content.length = bytes.length := Except.ok.inj hlength
          simp [FillsTimestamp, hsame]
      | _ => contradiction

namespace PacketFormats

open St0601 (timestampTag timestampEntryLength)

/-- With the schema of the standard, a set that is encoded has a timestamp, and what comes
    of it is decided by the first one. If that is a time, or eight bytes in place of one,
    the packet starts with tag and length of a timestamp and is never refused for want of
    one or for its size, though one of its fields may still be refused for its own sake.
    If it is empty or has another number of bytes, the packet starts in another way and
    is refused for that, always. -/
theorem start_of_encoded {entries : Entries UInt64} {hint : Nat} {p : Packet}
    (h : standard.encode .st0601 ⟨some (.localSet entries), hint⟩ = .ok p)
    (hfits : p.payload.length < UInt64.size) :
    ∃ v, entries.find? timestampTag = some v ∧
      (v.FillsTimestamp →
        [0x02, 0x08] <+: p.payload ∧ ∀ e, standard.decode p = .error e → e.OfField) ∧
      (¬ v.FillsTimestamp →
        ¬ [0x02, 0x08] <+: p.payload ∧ standard.decode p = .error (.framing
          (if p.payload.length < 14 then .timestampMissing else .timestampNotFirst))) := by
  rcases encode_eq_ok h with ⟨body, hsettles, rfl⟩
  rcases St0601.body_eq_frames hsettles with ⟨v, bytes, hfind, hbytes, hframes⟩
  have hmem : (timestampTag, v) ∈ St0601.arranged entries := by
    rcases St0601.arranged_eq_cons hfind with ⟨others, hcons⟩
    rw [hcons]
    exact List.mem_cons_self
  have hsize : (Packet.ofBody body).payload.length = body.length + 4 := by
    change (body ++ Trailer.bytes _).length = _
    rw [List.length_append, Trailer.length_bytes]
    rfl
  have hle : (bytes (timestampTag, v)).length ≤ body.length := by
    rw [hframes]
    exact SetCodec.length_le_length_frames hmem
  have htimestamp : (Format.unsigned (some 8)).codec.Settles v
      (.written (bytes (timestampTag, v))) := by
    rw [← St0601.byTag_timestampTag]
    exact hbytes _ hmem
  -- Only a first timestamp of eight bytes makes the start that a reader asks for.
  have hstart (rest : Bytes) : [0x02, 0x08] <+: body ++ rest ↔ v.FillsTimestamp := by
    rw [hframes, St0601.start_iff hfind (by omega), Value.fillsTimestamp_iff htimestamp]
  have hbody : [0x02, 0x08] <+: body ↔ v.FillsTimestamp := by
    rw [← hstart [], List.append_nil]
  refine ⟨v, hfind, fun hfills => ⟨(hstart _).mpr hfills, fun e he => ?_⟩,
    fun hfills => ⟨fun hprefix => hfills ((hstart _).mp hprefix), ?_⟩⟩
  · have hlong : timestampEntryLength ≤ body.length := by
      rcases St0601.frames_eq hfind ((Value.fillsTimestamp_iff htimestamp).mp hfills) with
        ⟨rest, hrest, hcons⟩
      rw [hframes, hcons, List.length_cons, List.length_cons]
      exact Nat.add_le_add_right hrest 2
    have hvalue (tag : UInt64) := Format.refusesOnly_plain (St0601.plain_byTag tag)
    have hread : readBody (.st0601 St0601.schema) body = .error e := by
      rw [standard, decode_ofBody] at he
      cases hread : readBody (.st0601 St0601.schema) body with
      | error e' =>
          rw [hread] at he
          exact congrArg Except.error (Except.error.inj he)
      | ok w =>
          rw [hread] at he
          contradiction
    exact St0601.readBody_error_of_start .parse hvalue hlong (hbody.mpr hfills) hread
  · have hne : body ≠ [] := by
      rw [hframes]
      exact SetCodec.frames_ne_nil (List.ne_nil_of_mem hmem)
    have hother : ¬ [0x02, 0x08] <+: body := fun hprefix => hfills (hbody.mp hprefix)
    have hfault : St0601.startFault body =
        if (Packet.ofBody body).payload.length < 14 then .timestampMissing
        else .timestampNotFirst := by
      rw [hsize, St0601.startFault]
      exact ite_congr (propext (by rw [timestampEntryLength]; omega)) (fun _ => rfl) fun _ => rfl
    rw [standard, decode_ofBody, St0601.readBody_eq_error hne (Or.inr hother), hfault]
    rfl

/-- A set with nine bytes in place of a timestamp. -/
def misstampedEntries : Entries UInt64 := [(2, .ofItem (.blob [0, 0, 0, 0, 0, 0, 0, 0, 7]))]

/-- A set with a timestamp alone is encoded, and the packet starts with it. One with nine
    bytes in its place is encoded and refused. -/
theorem start_of_encoded_stamp :
    standard.encode .st0601 ⟨some (.localSet [(2, .ofItem (.u64 7))]), 0⟩ = .ok (.ofBody stamp) ∧
    (Packet.ofBody stamp).payload.length < UInt64.size ∧
    [0x02, 0x08] <+: (Packet.ofBody stamp).payload ∧
    ∃ p, standard.encode .st0601 ⟨some (.localSet misstampedEntries), 0⟩ = .ok p ∧
      p.payload.length < UInt64.size ∧
      standard.decode p = .error (.framing .timestampNotFirst) := by
  have hencode : standard.encode .st0601 ⟨some (.localSet [(2, .ofItem (.u64 7))]), 0⟩ =
      .ok (.ofBody stamp) := by decide +kernel
  have hfits : (Packet.ofBody stamp).payload.length < UInt64.size := by decide
  have hother : ∃ p, standard.encode .st0601 ⟨some (.localSet misstampedEntries), 0⟩ = .ok p ∧
      p.payload.length = 15 :=
    ⟨.ofBody [2, 9, 0, 0, 0, 0, 0, 0, 0, 0, 7], by decide +kernel, rfl⟩
  rcases start_of_encoded hencode hfits with ⟨v, hfind, hfills, _⟩
  obtain rfl := Option.some.inj hfind
  refine ⟨hencode, hfits, (hfills (Or.inl ⟨7, rfl⟩)).1, ?_⟩
  rcases hother with ⟨p, hencode, hlength⟩
  have hfits : p.payload.length < UInt64.size := by
    rw [hlength]
    decide
  rcases start_of_encoded hencode hfits with ⟨v, hfind, _, hmisses⟩
  obtain rfl := Option.some.inj hfind
  refine ⟨p, hencode, hfits, ?_⟩
  have hrefused := (hmisses (by rintro (⟨_, ⟨⟩⟩ | ⟨_, ⟨⟩, ⟨⟩⟩))).2
  rwa [hlength] at hrefused

/-- A set whose timestamp is empty is encoded too. Its packet does not start with tag and
    length of a timestamp, and is refused for want of one. -/
theorem empty_timestamp_is_encoded :
    standard.encode .st0601 ⟨some (.localSet [(2, .empty)]), 0⟩ = .ok (.ofBody [2, 0]) ∧
    ¬ [0x02, 0x08] <+: (Packet.ofBody [2, 0]).payload ∧
    standard.decode (.ofBody [2, 0]) = .error (.framing .timestampMissing) := by
  exact ⟨by decide +kernel, by decide, rfl⟩

end PacketFormats

end KlvMetadata
