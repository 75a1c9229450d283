import KlvMetadata.Proofs.Timeline.UnknownKeys

/-!
# Values Are Found at Their Time

A packet that is accepted is recorded, and what is recorded should be there when it is
looked up at the time it was recorded for. A value holds from its time up to the next
start, so this is the same as to say that the interval from the time on is not empty.
Nothing that is already on the track can make it so, because the next start lies behind
the time.

The end of time can. No interval contains it, and the one from there on has no times at
all. A set may carry this time, since a timestamp is any word, and a seek may move a
demuxer to it. Packets are then accepted as at any other time and leave nothing behind.

## Main definitions

* `Timeline.SameContents`: The same entries on every track.

## Theorems

* `Timeline.valueAt?_record_self`, `sameContents_record`: A record before the end of
  time, and one at the end of time.
* `Demuxer.occurrence?_of_getElem?`: Occurrences of a tag have tracks.
* `Demuxer.valueAt?_withSet_self`, `sameContents_withSet`: The same for sets.
* `Demuxer.accepted_values_are_found`: What packets that are accepted leave.
* `Demuxer.last_values_are_lost`: They leave nothing at the end of time.
-/

namespace KlvMetadata

namespace Timeline

/-- The same entries on every track. A missing track is one without entries. -/
def SameContents (t u : Timeline) : Prop :=
  ∀ key, (t.track? key).getD .empty = (u.track? key).getD .empty

variable {t : Timeline}

/-- A value that is recorded before the end of time is found at its time. -/
theorem valueAt?_record_self (h : t.WellFormed) (r : Record) (htime : r.time < Time.last) :
    (t.record r).valueAt? r.track r.time = some r.value := by
  have hnext := (IntervalMap.next_bounds (h.getD r.track) htime).1
  rw [valueAt?_eq, track?_record h.sorted, if_pos rfl, Option.getD_some,
    IntervalMap.at?_record (h.getD r.track), if_pos ⟨UInt64.le_refl r.time, hnext⟩]

/-- One that is recorded at the end of time changes no entries. -/
theorem sameContents_record (h : t.Sorted) {r : Record} (htime : r.time = Time.last) :
    (t.record r).SameContents t := by
  intro key
  rw [track?_record h, htime, IntervalMap.record_last]
  split
  · next hkey => rw [hkey, Option.getD_some]
  · rfl

end Timeline

namespace Demuxer

open St0601 (timestampTag checksumTag)

variable {d : Demuxer} {entries : Entries UInt64}

/-- Each occurrence of a tag has a track, if words can number the entries. -/
theorem occurrence?_of_getElem? (hlength : entries.length ≤ UInt64.size) {tag : UInt64}
    (htimestamp : tag ≠ timestampTag) (hchecksum : tag ≠ checksumTag) {i : Nat} {v : Value}
    (hv : (Entries.all tag entries)[i]? = some v) :
    occurrence? entries ⟨.st0601, tag, UInt64.ofNat i⟩ = some v := by
  have hcount := count_le_length tag entries
  rw [Entries.count] at hcount
  have hi : i < (Entries.all tag entries).length := (List.getElem?_eq_some_iff.mp hv).1
  rw [occurrence?, if_pos ⟨rfl, not_or.mpr ⟨htimestamp, hchecksum⟩⟩,
    UInt64.toNat_ofNat_of_lt' (by omega), hv]

/-- The value that a set has for a track is found at the time of the set. -/
theorem valueAt?_withSet_self (h : d.timeline.WellFormed) (hlength : entries.length ≤ UInt64.size)
    {time : Time} (htime : time < Time.last) {key : TrackKey} {v : Value}
    (hv : occurrence? entries key = some v) :
    (d.withSet time entries).timeline.valueAt? key time = some v := by
  have hnext := (IntervalMap.next_bounds (h.getD key) htime).1
  rw [Timeline.valueAt?_eq, track?_withSet h.sorted hlength, hv]
  simp only [Option.getD_some]
  rw [IntervalMap.at?_record (h.getD key), if_pos ⟨UInt64.le_refl time, hnext⟩]

/-- A set of the end of time changes no entries. -/
theorem sameContents_withSet (h : d.timeline.Sorted) (hlength : entries.length ≤ UInt64.size) :
    (d.withSet Time.last entries).timeline.SameContents d.timeline := by
  intro key
  rw [track?_withSet h hlength]
  split
  · rw [IntervalMap.record_last, Option.getD_some]
  · rfl

/-- A packet that is recorded whole is found at the time of the packet before it. -/
theorem valueAt?_demuxWhole_self (h : d.timeline.WellFormed) (p : Packet)
    (htime : d.lastTimestamp < Time.last) :
    (d.demuxWhole p).timeline.valueAt? (d.wholeTrack p) d.lastTimestamp =
      some (.ofItem (.packet p)) := by
  rw [timeline_demuxWhole]
  exact Timeline.valueAt?_record_self h ⟨d.wholeTrack p, d.lastTimestamp, _⟩ htime

theorem sameContents_demuxWhole (h : d.timeline.Sorted) (p : Packet)
    (htime : d.lastTimestamp = Time.last) :
    (d.demuxWhole p).timeline.SameContents d.timeline := by
  rw [timeline_demuxWhole]
  exact Timeline.sameContents_record h
    (r := ⟨d.wholeTrack p, d.lastTimestamp, .ofItem (.packet p)⟩) htime

/-- Only a packet of the set's standard is read as a set, and only if there is a format. -/
theorem standard_of_reading_set {formats : PacketFormats} {p : Packet} {time : Time}
    (h : reading formats p = .set time entries) :
    p.standard = .st0601 ∧ formats.st0601.isSome := by
  rcases reading_eq_set h with ⟨f, decoded, hformat, hdecode, _⟩
  cases hstandard : p.standard with
  | st0601 =>
      rw [hstandard] at hformat
      exact ⟨rfl, Option.isSome_iff_exists.mpr ⟨f, hformat⟩⟩
  | unknown =>
      rw [hstandard] at hformat
      simp only [reading, hstandard, hformat, hdecode] at h
      contradiction

/-- What a packet that is accepted leaves, whatever the timeline was. One that is read as
    a set was decoded to a set with a timestamp, and each occurrence of each tag is found
    at that time on its own track. One that is recorded whole is found at the time of the
    packet before it, on the track of its key. This is so before the end of time. At the
    end of time the packet is accepted, and all tracks have the entries they had. -/
theorem accepted_values_are_found {d d' : Demuxer} {p : Packet} {status : ChecksumStatus}
    (hd : d.timeline.WellFormed) (hsize : p.payload.length < UInt64.size)
    (h : demux p d = .ok status d') :
    d'.timeline.WellFormed ∧
    (p.standard = .st0601 ∧ d.formats.st0601.isSome →
      ∃ decoded entries time, d.formats.decode p = .ok decoded ∧
        decoded.value.item = some (.localSet entries) ∧ timestamp? entries = some time ∧
        (time < Time.last → ∀ tag i v, tag ≠ timestampTag → tag ≠ checksumTag →
          (Entries.all tag entries)[i]? = some v →
          d'.timeline.valueAt? ⟨.st0601, tag, UInt64.ofNat i⟩ time = some v) ∧
        (time = Time.last → d'.timeline.SameContents d.timeline)) ∧
    (¬ (p.standard = .st0601 ∧ d.formats.st0601.isSome) →
      ∃ number, d'.numberOf? p.key = some number ∧
        (d.lastTimestamp < Time.last →
          d'.timeline.valueAt? (unknownTrack number) d.lastTimestamp =
            some (.ofItem (.packet p))) ∧
        (d.lastTimestamp = Time.last → d'.timeline.SameContents d.timeline)) := by
  rcases demux_cases p d with
    ⟨_, e, he⟩ | ⟨time, entries, hreading, status', hok⟩ | ⟨hreading, status', hok⟩
  · rw [he] at h
    contradiction
  · -- The packet says a set.
    rw [hok] at h
    injection h with _ hd'
    subst hd'
    rcases reading_eq_set hreading with ⟨f, decoded, hformat, hdecode, hset, htime⟩
    have hlength : entries.length ≤ UInt64.size := by
      have htwo := PacketFormats.two_mul_length_le hformat hdecode hset
      omega
    refine ⟨wellFormed_withSet hd time entries, fun _ => ?_,
      fun hother => absurd (standard_of_reading_set hreading) hother⟩
    refine ⟨decoded, entries, time, hdecode, hset, htime, fun hbefore tag i v hts hcs hv => ?_,
      fun hlast => ?_⟩
    · exact valueAt?_withSet_self hd hlength hbefore (occurrence?_of_getElem? hlength hts hcs hv)
    · rw [hlast]
      exact sameContents_withSet hd.sorted hlength
  · -- The packet says no more than that it came.
    rw [hok] at h
    injection h with _ hd'
    subst hd'
    have hwellFormed : (d.demuxWhole p).timeline.WellFormed := by
      rw [timeline_demuxWhole]
      exact hd.record ⟨d.wholeTrack p, d.lastTimestamp, .ofItem (.packet p)⟩
    refine ⟨hwellFormed, fun ⟨hp, hsome⟩ => ?_, fun _ => ?_⟩
    · rcases Option.isSome_iff_exists.mp hsome with ⟨f, hf⟩
      exact absurd hreading (reading_ne_whole hf hp)
    · rcases exists_wholeTrack d p with ⟨number, hnumber, htrack⟩
      refine ⟨number, hnumber, ?_, sameContents_demuxWhole hd.sorted p⟩
      rw [← htrack]
      exact valueAt?_demuxWhole_self hd p

/-- A packet of a time with a byte of its own, two values under tag 3 and one under 5. -/
def lateSet (time : UInt8) : Packet :=
  .ofPayload Standard.st0601Key
    [2, 8, 255, 255, 255, 255, 255, 255, 255, time, 3, 1, 65, 3, 1, 66, 5, 0, 1, 2, 0, 0]

/-- What is said just before the end of time is found: the second value under tag 3, and
    behind a seek to this time a packet of an unknown key. -/
theorem accepted_values_are_found_late :
    let d : Demuxer := start .empty ⟨none, some sampleFormat⟩
    let late : Time := 0xFFFFFFFFFFFFFFFE
    let p : Packet := lateSet 0xFE
    let q : Packet := .ofPayload (.ofHalves 0x060E2B3401010101 1) [1]
    d.timeline.WellFormed ∧ p.payload.length < UInt64.size ∧ q.payload.length < UInt64.size ∧
      (∃ status d', demux p d = .ok status d' ∧
        d'.timeline.valueAt? ⟨.st0601, 3, 1⟩ late = some ⟨some (.blob [66]), 1⟩) ∧
      ∃ status d', demux q (d.seek late) = .ok status d' ∧
        ∃ number, d'.numberOf? q.key = some number ∧
          d'.timeline.valueAt? (unknownTrack number) late = some (.ofItem (.packet q)) := by
  intro d late p q
  have hd : d.timeline.WellFormed := Timeline.wellFormed_empty
  let entries : Entries UInt64 :=
    [(2, ⟨some (.u64 late), 8⟩), (3, ⟨some (.blob [65]), 1⟩), (3, ⟨some (.blob [66]), 1⟩),
      (5, .empty)]
  obtain ⟨status, hdecode⟩ : ∃ status,
      d.formats.decode p = .ok ⟨⟨some (.localSet entries), 18⟩, status⟩ := ⟨_, rfl⟩
  have hset : demux p d = .ok status (d.withSet late entries) := demux_set rfl rfl hdecode rfl rfl
  have hwhole : demux q (d.seek late) = .ok .absent ((d.seek late).demuxWhole q) := by rfl
  refine ⟨hd, by decide, by decide, ⟨status, _, hset, ?_⟩, .absent, _, hwhole, ?_⟩
  · rcases (accepted_values_are_found hd (by decide) hset).2.1 ⟨rfl, rfl⟩ with
      ⟨decoded, entries', time, hdecoded, hentries, htime, hfound, _⟩
    obtain rfl := Except.ok.inj (hdecode.symm.trans hdecoded)
    obtain rfl := Item.localSet.inj (Option.some.inj hentries)
    obtain rfl : late = time := Option.some.inj htime
    exact hfound (by decide) 3 1 _ (by decide) (by decide) rfl
  · rcases (accepted_values_are_found (d := d.seek late) hd (by decide) hwhole).2.2 (by decide) with
      ⟨number, hnumber, hfound, _⟩
    exact ⟨number, hnumber, hfound (by decide)⟩

/-- What is said at the end of time is accepted and lost, be it a set of this time or a
    packet of an unknown key behind a seek to it. -/
theorem last_values_are_lost :
    let d : Demuxer := start .empty ⟨none, some sampleFormat⟩
    let p : Packet := lateSet 0xFF
    let q : Packet := .ofPayload (.ofHalves 0x060E2B3401010101 1) [1]
    (∃ status d' decoded entries, demux p d = .ok status d' ∧
      d.formats.decode p = .ok decoded ∧ decoded.value.item = some (.localSet entries) ∧
      timestamp? entries = some Time.last ∧
      (Entries.all 3 entries)[1]? = some ⟨some (.blob [66]), 1⟩ ∧
      d'.timeline.valueAt? ⟨.st0601, 3, 1⟩ Time.last = none) ∧
    ∃ status d', demux q (d.seek Time.last) = .ok status d' ∧ d'.numberOf? q.key = some 0 ∧
      d'.timeline.valueAt? (unknownTrack 0) Time.last = none :=
  ⟨⟨_, _, _, _, rfl, rfl, rfl, rfl, rfl, rfl⟩, _, _, rfl, rfl, rfl⟩

end Demuxer

end KlvMetadata
