import KlvMetadata.Proofs.Format.Restoring
import KlvMetadata.Proofs.Packet.Timestamp
import KlvMetadata.Proofs.Timeline.Runs

/-!
# What One Packet Changes

A set is recorded entry by entry, and each recording may change the track that the
next one looks at. They do not get in each other's way, because no two entries of a
set have the same track: entries of one tag are told apart by their numbers. So a
track is changed once at most, and what is written there is decided by the track as
it was before the packet came.

Nothing is asked of the tracks but that they are well-formed. They may have gaps, the
time of the packet may lie inside an entry or at its start, and seeks do not matter,
since a set brings its own time.

Numbers of entries are words of 64 bits. A packet whose size is one too has fewer
entries than there are numbers, because an entry takes more than one byte.

## Main definitions

* `IntervalMap.StartsNext`: The first start behind a time.
* `Timeline.WellFormed`: Names in order, and well-formed tracks.
* `Demuxer.occurrence?`: The value that a set has for a track.

## Theorems

* `IntervalMap.at?_record`: Recording overwrites the view up to the next start.
* `Timeline.track?_foldl_record`: Records of different tracks act on their own.
* `Demuxer.find?_setRecords`, `pairwise_setRecords`: A set has one record for each
  track for which it has a value.
* `Demuxer.wellFormed_withSet`, `track?_withSet`: A timeline after a set.
* `Demuxer.set_changes_promised_spans`: What a packet that is accepted changes.
-/

namespace KlvMetadata

namespace IntervalMap

variable {V : Type} {m : IntervalMap V} {time next : Time}

/-- The first start behind a time, or the end of time if nothing starts behind it. -/
def StartsNext (m : IntervalMap V) (time next : Time) : Prop :=
  (∀ e ∈ m.entries, time < e.1.lower → next ≤ e.1.lower) ∧
    ((time < next ∧ ∃ e ∈ m.entries, e.1.lower = next) ∨
      (next = Time.last ∧ ∀ e ∈ m.entries, e.1.lower ≤ time))

/-- There is one first start. -/
theorem StartsNext.unique {next' : Time} (h : m.StartsNext time next)
    (h' : m.StartsNext time next') : next = next' := by
  rcases h with ⟨hleast, ⟨hlt, e, he, rfl⟩ | ⟨rfl, hearlier⟩⟩ <;>
    rcases h' with ⟨hleast', ⟨hlt', e', he', rfl⟩ | ⟨rfl, hearlier'⟩⟩
  · exact UInt64.le_antisymm (hleast e' he' hlt') (hleast' e he hlt)
  · exact absurd hlt (UInt64.not_lt.mpr (hearlier' e he))
  · exact absurd hlt' (UInt64.not_lt.mpr (hearlier e' he'))
  · rfl

theorem startsNext_nextStart? (h : m.WellFormed) (time : Time) :
    m.StartsNext time ((m.nextStart? time).getD Time.last) := by
  cases hnext : m.nextStart? time with
  | none =>
      have hearlier : ∀ e ∈ m.entries, e.1.lower ≤ time :=
        fun e he => nextStart?_eq_none hnext he
      exact ⟨fun e he hlater => absurd hlater (UInt64.not_lt.mpr (hearlier e he)),
        Or.inr ⟨rfl, hearlier⟩⟩
  | some next =>
      rcases nextStart?_eq_some h hnext with ⟨hlt, hstart, hleast⟩
      exact ⟨hleast, Or.inl ⟨hlt, hstart⟩⟩

/-- Recording overwrites the view from a time up to the next start. -/
theorem at?_record (h : m.WellFormed) (time : Time) (v : V) (t : Time) :
    (m.record time v).at? t =
      if time ≤ t ∧ t < (m.nextStart? time).getD Time.last then some v else m.at? t := by
  have hle : time ≤ (m.nextStart? time).getD Time.last := by
    rcases (startsNext_nextStart? h time).2 with ⟨hlt, _⟩ | ⟨hlast, _⟩
    · exact UInt64.le_of_lt hlt
    · rw [hlast]
      exact Time.le_last time
  rw [record, at?_set h]
  refine if_congr ?_ rfl rfl
  rw [Interval.contains_iff, Interval.between_lower, Interval.between_upper hle]

/-- An entry that is over by a time or starts behind it stays when a value is recorded
    from that time on. -/
theorem mem_record_of_apart (h : m.WellFormed) {time : Time} (v : V) {e : Interval × V}
    (he : e ∈ m.entries) (hapart : e.1.upper ≤ time ∨ time < e.1.lower) :
    e ∈ (m.record time v).entries := by
  rcases UInt64.lt_or_eq_of_le (Time.le_last time) with htime | rfl
  · exact (mem_record h htime).mpr (Or.inr (Or.inl ⟨he, hapart⟩))
  · rwa [record_last]

end IntervalMap

namespace Timeline

/-- The names are in order, and every track is well-formed. -/
structure WellFormed (t : Timeline) : Prop where
  sorted : t.Sorted
  tracks : ∀ key track, t.track? key = some track → track.WellFormed

variable {t : Timeline} {records : List Record}

theorem wellFormed_empty : WellFormed empty where
  sorted := sorted_empty
  tracks key track h := by
    rw [track?_empty] at h
    contradiction

/-- A missing track is as well-formed as an empty one. -/
theorem WellFormed.getD (h : t.WellFormed) (key : TrackKey) :
    ((t.track? key).getD .empty).WellFormed := by
  cases htrack : t.track? key with
  | none => exact IntervalMap.wellFormed_empty
  | some track => exact h.tracks key track htrack

/-- A record changes its own track and no other. -/
theorem track?_record (h : t.Sorted) (r : Record) (key : TrackKey) :
    (t.record r).track? key =
      if key = r.track then some (((t.track? r.track).getD .empty).record r.time r.value)
      else t.track? key :=
  track?_alter h key

theorem sorted_record (h : t.Sorted) (r : Record) : (t.record r).Sorted := sorted_alter h

theorem WellFormed.record (h : t.WellFormed) (r : Record) : (t.record r).WellFormed where
  sorted := sorted_record h.sorted r
  tracks key track htrack := by
    rw [track?_record h.sorted] at htrack
    split at htrack
    · rw [← Option.some.inj htrack]
      exact IntervalMap.wellFormed_set (h.getD r.track) _ _
    · exact h.tracks key track htrack

theorem WellFormed.foldl_record (h : t.WellFormed) (records : List Record) :
    (records.foldl Timeline.record t).WellFormed := by
  induction records generalizing t with
  | nil => exact h
  | cons r records ih => exact ih (h.record r)

/-- Records of other tracks do not change a track. -/
theorem track?_foldl_record_of_ne (h : t.Sorted) {key : TrackKey}
    (hne : ∀ r ∈ records, r.track ≠ key) :
    (records.foldl record t).track? key = t.track? key := by
  induction records generalizing t with
  | nil => rfl
  | cons r records ih =>
      rw [List.forall_mem_cons] at hne
      rw [List.foldl_cons, ih (sorted_record h r) hne.2, track?_record h, if_neg (Ne.symm hne.1)]

/-- Of records of different tracks each one acts on its track as it was before. -/
theorem track?_foldl_record (h : t.Sorted)
    (hapart : records.Pairwise fun r r' => r.track ≠ r'.track) (key : TrackKey) :
    (records.foldl record t).track? key =
      match records.find? (·.track = key) with
      | some r => some (((t.track? key).getD .empty).record r.time r.value)
      | none => t.track? key := by
  induction records generalizing t with
  | nil => rfl
  | cons r records ih =>
      rw [List.pairwise_cons] at hapart
      rw [List.foldl_cons, List.find?_cons]
      by_cases hkey : r.track = key
      · -- What comes behind has other tracks.
        subst hkey
        rw [track?_foldl_record_of_ne (sorted_record h r) fun q hq => (hapart.1 q hq).symm,
          track?_record h, if_pos rfl]
        simp only [decide_true]
      · rw [ih (sorted_record h r) hapart.2, track?_record h, if_neg (Ne.symm hkey)]
        simp only [hkey, decide_false]

end Timeline

/-- Reading entries takes two bytes or more for each of them. -/
theorem SetCodec.two_mul_length_le {κ : Type} [SetKey κ] [SetKey.Legible κ]
    {schema : Schema Format} {b left : Bytes} {entries : Entries κ}
    (h : readEntries (Format.schemaCodecs schema) b = .ok entries left) :
    2 * entries.length ≤ b.length := by
  rcases readEntries_eq_ok_iff.mp h with ⟨_, segments, rfl, hcarries⟩
  clear h
  induction hcarries with
  | nil => exact Nat.le_refl 0
  | @cons s e segments entries hcarries _ ih =>
      -- An entry has a key and a length at least.
      have htwo := two_le_length_of_spells (spells_bytes_iff.mpr ⟨s, rfl, hcarries⟩)
      rw [List.flatMap_cons, List.length_append, List.length_cons]
      omega

/-- So does any format that gives a local set. -/
theorem Format.two_mul_length_le (f : Format) {field left : Bytes} {v : Value}
    {entries : Entries UInt64} (h : f.codec.read field.length field = .ok v left)
    (hv : v.item = some (.localSet entries)) : 2 * entries.length ≤ field.length := by
  cases f with
  | localSet schema =>
      rcases Layout.read_codec_eq_ok h with ⟨rfl, rfl⟩ | ⟨_, _, a, hread, rfl⟩
      · contradiction
      · obtain rfl := Item.localSet.inj (Option.some.inj hv)
        exact SetCodec.two_mul_length_le hread
  | st0601 schema =>
      rcases Layout.read_codec_eq_ok h with ⟨rfl, rfl⟩ | ⟨_, _, a, hread, rfl⟩
      · contradiction
      · obtain rfl := Item.localSet.inj (Option.some.inj hv)
        by_cases hshort : field.length < St0601.timestampEntryLength
        · simp [Layout.st0601, hshort] at hread
        by_cases hstart : [0x02, 0x08] <+: field
        · have hentries : SetCodec.readEntries (schemaCodecs schema) field = .ok a [] := by
            simpa [Layout.st0601, hshort, St0601.requireTimestamp_of_start hstart] using hread
          exact SetCodec.two_mul_length_le hentries
        · simp [Layout.st0601, hshort, St0601.requireTimestamp_of_other hstart] at hread
  | _ =>
      -- Values of another kind are no sets.
      rcases Layout.read_codec_eq_ok h with ⟨rfl, rfl⟩ | ⟨_, _, a, _, rfl⟩
      · contradiction
      · have hitem := Option.some.inj hv
        contradiction

namespace PacketFormats

/-- The body is a part of the payload. -/
theorem length_le_of_splitTrailer {f : Format} {p : Packet} {body : Bytes}
    {status : ChecksumStatus} (h : splitTrailer f p = .ok (body, status)) :
    body.length ≤ p.payload.length := by
  rw [splitTrailer] at h
  split at h
  · obtain ⟨rfl, _⟩ := Prod.mk.inj (Except.ok.inj h)
    exact Nat.le_refl _
  · split at h
    · contradiction
    · cases htrailer : f.readTrailer p.payload with
      | error e =>
          rw [htrailer] at h
          contradiction
      | ok sum =>
          rw [htrailer] at h
          obtain ⟨rfl, _⟩ := Prod.mk.inj (Except.ok.inj h)
          rw [List.length_take]
          exact Nat.min_le_right _ _

/-- A packet that is decoded to a set has two bytes or more for each entry. -/
theorem two_mul_length_le {formats : PacketFormats} {p : Packet} {f : Format}
    {decoded : Decoded} {entries : Entries UInt64}
    (hformat : formats.formatFor p.standard = some f) (h : formats.decode p = .ok decoded)
    (hset : decoded.value.item = some (.localSet entries)) :
    2 * entries.length ≤ p.payload.length := by
  simp only [decode, hformat] at h
  cases hsplit : splitTrailer f p with
  | error e =>
      rw [hsplit] at h
      contradiction
  | ok found =>
      rcases found with ⟨body, status⟩
      cases hbody : readBody f body with
      | error e =>
          simp only [hsplit, bind, Except.bind, hbody] at h
          contradiction
      | ok v =>
          simp only [hsplit, bind, Except.bind, hbody] at h
          obtain rfl := Except.ok.inj h
          have hlength := length_le_of_splitTrailer hsplit
          unfold readBody at hbody
          split at hbody
          · next w left hread =>
            obtain rfl := Except.ok.inj hbody
            have htwo := f.two_mul_length_le hread hset
            omega
          · contradiction

end PacketFormats

namespace Demuxer

open St0601 (timestampTag checksumTag)

/-- The value that a set has for a track: the occurrence of the track's tag with the
    track's number. Timestamps and checksums have no tracks. -/
def occurrence? (entries : Entries UInt64) (key : TrackKey) : Option Value :=
  if key.standard = .st0601 ∧ ¬ (key.tag = timestampTag ∨ key.tag = checksumTag) then
    (Entries.all key.tag entries)[key.index.toNat]?
  else none

section Sets

variable {time : Time} {entries : Entries UInt64} {key : TrackKey}

theorem count_le_length (tag : UInt64) (entries : Entries UInt64) :
    Entries.count tag entries ≤ entries.length := by
  rw [Entries.count, Entries.all, List.length_map]
  exact List.length_filter_le _ entries

/-- The number of the next occurrence is a word if the set is no longer than words say. -/
theorem toNat_count (h : entries.length < UInt64.size) (tag : UInt64) :
    (UInt64.ofNat (Entries.count tag entries)).toNat = Entries.count tag entries :=
  UInt64.toNat_ofNat_of_lt' (Nat.lt_of_le_of_lt (count_le_length tag entries) h)

/-- There is no value yet for the next occurrence of a tag. -/
theorem occurrence?_next (h : entries.length < UInt64.size) (tag : UInt64) :
    occurrence? entries ⟨.st0601, tag, UInt64.ofNat (Entries.count tag entries)⟩ = none := by
  rw [occurrence?]
  split
  · rw [toNat_count h]
    exact List.getElem?_eq_none (Nat.le_refl _)
  · rfl

theorem all_concat (k tag : UInt64) (v : Value) (entries : Entries UInt64) :
    Entries.all k (entries ++ [(tag, v)]) =
      Entries.all k entries ++ if tag = k then [v] else [] := by
  rw [Entries.all, Entries.all, List.filter_append, List.map_append]
  by_cases hk : tag = k
  · simp [hk]
  · simp [hk]

/-- One more entry gives a value to one more track at most. -/
theorem occurrence?_concat (h : entries.length < UInt64.size) (tag : UInt64) (v : Value)
    (key : TrackKey) :
    occurrence? (entries ++ [(tag, v)]) key =
      if ¬ (tag = timestampTag ∨ tag = checksumTag) ∧
        key = ⟨.st0601, tag, UInt64.ofNat (Entries.count tag entries)⟩ then some v
      else occurrence? entries key := by
  split
  · next hnew =>
    rw [hnew.2, occurrence?, if_pos ⟨rfl, hnew.1⟩, all_concat, if_pos rfl, toNat_count h]
    exact List.getElem?_concat_length
  · next hnew =>
    rw [occurrence?, occurrence?, all_concat]
    by_cases hkey : key.standard = .st0601 ∧ ¬ (key.tag = timestampTag ∨ key.tag = checksumTag)
    · rw [if_pos hkey, if_pos hkey]
      by_cases hk : tag = key.tag
      · -- Of the same tag, but not the next occurrence of it.
        subst hk
        have hindex : key.index.toNat ≠ (Entries.all key.tag entries).length := by
          intro hindex
          refine hnew ⟨hkey.2, ?_⟩
          rw [Entries.count, ← hindex, UInt64.ofNat_toNat, ← hkey.1]
        rw [if_pos rfl]
        rcases Nat.lt_or_gt_of_ne hindex with hless | hmore
        · exact List.getElem?_append_left hless
        · rw [List.getElem?_eq_none (by rw [List.length_append]; exact hmore),
            List.getElem?_eq_none (Nat.le_of_lt hmore)]
      · rw [if_neg hk, List.append_nil]
    · rw [if_neg hkey, if_neg hkey]

/-- The records of a set go on with that of the next entry, if it has one. -/
theorem setRecords_concat (time : Time) (entries : Entries UInt64) (e : UInt64 × Value) :
    setRecords time (entries ++ [e]) =
      setRecords time entries ++ (entryRecord? time entries entries.length e).toList := by
  have htake (place : Nat) (h : place ≤ entries.length) (x : UInt64 × Value) :
      entryRecord? time (entries ++ [e]) place x = entryRecord? time entries place x := by
    rw [entryRecord?, entryRecord?, List.take_append_of_le_length h]
  rw [setRecords, List.zipIdx_append, List.filterMap_append]
  congr 1
  · exact List.filterMap_congr fun x hx =>
      htake x.2 (Nat.le_of_lt (List.snd_lt_of_mem_zipIdx hx)) x.1
  · rw [List.zipIdx_singleton, Nat.zero_add]
    simp only [List.filterMap_cons, List.filterMap_nil, htake entries.length (Nat.le_refl _)]
    cases entryRecord? time entries entries.length e <;> rfl

/-- Of a set that words can number, each track has the record of its value, if there
    is one. -/
theorem find?_setRecords (h : entries.length ≤ UInt64.size) (time : Time) (key : TrackKey) :
    (setRecords time entries).find? (·.track = key) =
      (occurrence? entries key).map fun v => ⟨key, time, v⟩ := by
  induction entries using List.reverseRecOn with
  | nil =>
      rw [occurrence?]
      split <;> rfl
  | append_singleton entries e ih =>
      rcases e with ⟨tag, v⟩
      rw [List.length_append, List.length_singleton] at h
      rw [setRecords_concat, List.find?_append, ih (by omega), entryRecord?, List.take_length,
        occurrence?_concat (by omega)]
      by_cases htag : tag = timestampTag ∨ tag = checksumTag
      · rw [if_pos htag, if_neg fun hnew => hnew.1 htag]
        exact Option.or_none
      · rw [if_neg htag]
        by_cases hkey : key = ⟨.st0601, tag, UInt64.ofNat (Entries.count tag entries)⟩
        · -- The track of the new entry had no value before it.
          rw [if_pos ⟨htag, hkey⟩, hkey, occurrence?_next (by omega)]
          simp
        · rw [if_neg fun hnew => hkey hnew.2]
          simp [Ne.symm hkey]

/-- No two entries of such a set are recorded on one track. -/
theorem pairwise_setRecords (h : entries.length ≤ UInt64.size) (time : Time) :
    (setRecords time entries).Pairwise fun r r' => r.track ≠ r'.track := by
  induction entries using List.reverseRecOn with
  | nil => exact List.Pairwise.nil
  | append_singleton entries e ih =>
      rcases e with ⟨tag, v⟩
      rw [List.length_append, List.length_singleton] at h
      rw [setRecords_concat, entryRecord?, List.take_length]
      by_cases htag : tag = timestampTag ∨ tag = checksumTag
      · rw [if_pos htag, Option.toList_none, List.append_nil]
        exact ih (by omega)
      · rw [if_neg htag, Option.toList_some, List.pairwise_append]
        refine ⟨ih (by omega), List.pairwise_singleton _ _, fun r hr r' hr' heq => ?_⟩
        rw [List.mem_singleton] at hr'
        subst hr'
        have hnone : (setRecords time entries).find?
            (·.track = ⟨.st0601, tag, UInt64.ofNat (Entries.count tag entries)⟩) = none := by
          rw [find?_setRecords (by omega), occurrence?_next (by omega), Option.map_none]
        exact List.find?_eq_none.mp hnone r hr (decide_eq_true heq)

end Sets

variable {d : Demuxer} {entries : Entries UInt64}

theorem wellFormed_withSet (h : d.timeline.WellFormed) (time : Time) (entries : Entries UInt64) :
    (d.withSet time entries).timeline.WellFormed := by
  rw [withSet, recordEntries_nil]
  exact h.foldl_record _

/-- A set records its value for each track on the track as it was before. -/
theorem track?_withSet (h : d.timeline.Sorted) (hlength : entries.length ≤ UInt64.size)
    (time : Time) (key : TrackKey) :
    (d.withSet time entries).timeline.track? key =
      match occurrence? entries key with
      | some v => some (((d.timeline.track? key).getD .empty).record time v)
      | none => d.timeline.track? key := by
  rw [withSet, recordEntries_nil,
    Timeline.track?_foldl_record h (pairwise_setRecords hlength time), find?_setRecords hlength]
  cases occurrence? entries key <;> rfl

/-- What is read as a set was decoded to one with a timestamp. -/
theorem reading_eq_set {formats : PacketFormats} {p : Packet} {time : Time}
    (h : reading formats p = .set time entries) :
    ∃ f decoded, formats.formatFor p.standard = some f ∧ formats.decode p = .ok decoded ∧
      decoded.value.item = some (.localSet entries) ∧ timestamp? entries = some time := by
  unfold reading at h
  split at h
  · contradiction
  · contradiction
  · contradiction
  · next f decoded hformat hdecode _ =>
    refine ⟨f, decoded, hformat, hdecode, ?_⟩
    unfold Reading.ofSet at h
    split at h
    · next entries' hset =>
      split at h
      · next time' htime =>
        obtain ⟨rfl, rfl⟩ := Reading.set.inj h
        exact ⟨hset, htime⟩
      · contradiction
    · contradiction

/-- A packet that is decoded to a set with a timestamp is recorded. -/
theorem demux_set {p : Packet} {f : Format} {decoded : Decoded} {time : Time}
    (hp : p.standard = .st0601) (hformat : d.formats.formatFor p.standard = some f)
    (hdecode : d.formats.decode p = .ok decoded)
    (hset : decoded.value.item = some (.localSet entries))
    (htime : timestamp? entries = some time) :
    demux p d = .ok decoded.checksum (d.withSet time entries) := by
  rw [hp] at hformat
  simp [demux, hp, hformat, hdecode, demuxSet, hset, htime, withSet]

/-- What a packet changes when it is accepted as a set. It was decoded to a set with a
    timestamp. A track for which the set has no value stays as it was. On any other
    track the value holds from the timestamp up to the first start behind it on the old
    track, or to the end of time if there is none, and at all other times there is what
    was there before. Entries of the old track that are over by the timestamp or start
    behind it stay. The timeline is well-formed again, and the demuxer is left the same
    wherever it was moved to before. -/
theorem set_changes_promised_spans {d d' : Demuxer} {p : Packet} {status : ChecksumStatus}
    (hd : d.timeline.WellFormed) (hp : p.standard = .st0601)
    (hformat : d.formats.st0601.isSome) (hsize : p.payload.length < UInt64.size)
    (h : demux p d = .ok status d') :
    ∃ decoded entries time, d.formats.decode p = .ok decoded ∧
      decoded.value.item = some (.localSet entries) ∧ timestamp? entries = some time ∧
      d'.timeline.WellFormed ∧
      (∀ key, occurrence? entries key = none →
        d'.timeline.track? key = d.timeline.track? key) ∧
      (∀ key v, occurrence? entries key = some v →
        ∃ next, ((d.timeline.track? key).getD .empty).StartsNext time next ∧
          (∀ t, d'.timeline.valueAt? key t =
            if time ≤ t ∧ t < next then some v else d.timeline.valueAt? key t) ∧
          ∃ track, d'.timeline.track? key = some track ∧
            ∀ e ∈ ((d.timeline.track? key).getD .empty).entries,
              e.1.upper ≤ time ∨ time < e.1.lower → e ∈ track.entries) ∧
      ∀ time', demux p (d.seek time') = .ok status d' := by
  rcases Option.isSome_iff_exists.mp hformat with ⟨f, hf⟩
  rcases demux_cases p d with ⟨_, e, he⟩ | ⟨time, entries, hreading, _⟩ | ⟨hwhole, _⟩
  · rw [he] at h
    contradiction
  · rcases reading_eq_set hreading with ⟨g, decoded, hg, hdecode, hset, htime⟩
    have hlength : entries.length ≤ UInt64.size := by
      have htwo := PacketFormats.two_mul_length_le hg hdecode hset
      omega
    -- Only the formats of a demuxer decide what a packet is read as.
    have hok (d₁ : Demuxer) (hformats : d₁.formats = d.formats) :
        demux p d₁ = .ok decoded.checksum (d₁.withSet time entries) := by
      rw [← hformats] at hg hdecode
      exact demux_set hp hg hdecode hset htime
    rw [hok d rfl] at h
    injection h with hstatus hd'
    subst hd'
    refine ⟨decoded, entries, time, hdecode, hset, htime, wellFormed_withSet hd time entries,
      fun key hnone => ?_, fun key v hv => ?_, fun time' => hstatus ▸ hok (d.seek time') rfl⟩
    · rw [track?_withSet hd.sorted hlength, hnone]
    · have htrack := track?_withSet hd.sorted hlength time key
      rw [hv] at htrack
      refine ⟨_, IntervalMap.startsNext_nextStart? (hd.getD key) time, fun t => ?_, _, htrack,
        fun e he hapart => IntervalMap.mem_record_of_apart (hd.getD key) v he hapart⟩
      rw [Timeline.valueAt?_eq, htrack, Option.getD_some, IntervalMap.at?_record (hd.getD key),
        Timeline.valueAt?_eq]
  · exact absurd hwhole (reading_ne_whole hf hp)

/-- A track with a gap, from 6 to 8. -/
def gappedTrack : IntervalMap Value :=
  IntervalMap.run [.set (.between 2 6) ⟨some (.blob [70]), 1⟩,
    .set (.between 8 10) ⟨some (.blob [71]), 1⟩]

/-- A packet of time 5 comes between the entries of such a track, after a seek beyond
    them. Its first value under tag 3 takes the end of one and fills the gap up to the
    other, and its second value starts a track of its own. -/
theorem set_changes_promised_spans_gapped :
    let d : Demuxer :=
      ⟨⟨[(⟨.st0601, 3, 0⟩, gappedTrack)]⟩, ⟨none, some sampleFormat⟩, 9, .empty⟩
    let p : Packet := .ofPayload Standard.st0601Key
      [2, 8, 0, 0, 0, 0, 0, 0, 0, 5, 3, 1, 65, 3, 1, 66, 1, 2, 0, 0]
    d.timeline.WellFormed ∧ ∃ status d', demux p d = .ok status d' ∧
      d'.timeline.valueAt? ⟨.st0601, 3, 0⟩ 4 = some ⟨some (.blob [70]), 1⟩ ∧
      d'.timeline.valueAt? ⟨.st0601, 3, 0⟩ 7 = some ⟨some (.blob [65]), 1⟩ ∧
      d'.timeline.valueAt? ⟨.st0601, 3, 0⟩ 9 = some ⟨some (.blob [71]), 1⟩ ∧
      d'.timeline.valueAt? ⟨.st0601, 3, 1⟩ 9 = some ⟨some (.blob [66]), 1⟩ := by
  intro d p
  have hd : d.timeline.WellFormed := by
    refine ⟨List.pairwise_singleton _ _, fun key track h => ?_⟩
    obtain rfl : gappedTrack = track := by
      have hmem := (Timeline.track?_eq_some_iff (List.pairwise_singleton _ _)).mp h
      rw [List.mem_singleton] at hmem
      exact (congrArg Prod.snd hmem).symm
    exact IntervalMap.wellFormed_run _
  let entries : Entries UInt64 :=
    [(2, ⟨some (.u64 5), 8⟩), (3, ⟨some (.blob [65]), 1⟩), (3, ⟨some (.blob [66]), 1⟩)]
  obtain ⟨status, hdecode⟩ : ∃ status,
      d.formats.decode p = .ok ⟨⟨some (.localSet entries), 16⟩, status⟩ := ⟨_, rfl⟩
  have hok : demux p d = .ok status (d.withSet 5 entries) := demux_set rfl rfl hdecode rfl rfl
  rcases set_changes_promised_spans hd rfl rfl (by decide) hok with
    ⟨decoded, entries', time, hdecoded, hset, htime, _, _, hspans, _⟩
  obtain rfl := Except.ok.inj (hdecode.symm.trans hdecoded)
  obtain rfl := Item.localSet.inj (Option.some.inj hset)
  obtain rfl : (5 : Time) = time := Option.some.inj htime
  refine ⟨hd, status, _, hok, ?_⟩
  rcases hspans ⟨.st0601, 3, 0⟩ ⟨some (.blob [65]), 1⟩ rfl with ⟨next, hnext, hvalue, _⟩
  rcases hspans ⟨.st0601, 3, 1⟩ ⟨some (.blob [66]), 1⟩ rfl with ⟨next', hnext', hvalue', _⟩
  obtain rfl : next = 8 := hnext.unique (IntervalMap.startsNext_nextStart? (hd.getD _) 5)
  obtain rfl : next' = Time.last := hnext'.unique (IntervalMap.startsNext_nextStart? (hd.getD _) 5)
  rw [hvalue, hvalue, hvalue, hvalue']
  exact ⟨rfl, rfl, rfl, rfl⟩

end Demuxer

end KlvMetadata
