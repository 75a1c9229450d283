import KlvMetadata.Proofs.Timeline.Numbers
import KlvMetadata.Proofs.Timeline.Recording
import KlvMetadata.Proofs.Wire.Actions

/-!
# Runs of a Demuxer

What a demuxer has recorded after any packets and seeks, in any order. Each
packet says something or fails, and `reading` tells which without looking at
the demuxer, so the records of a run can be listed without running it. The
list needs two things of the past only: the time at which a packet without one
is recorded, and which keys came before.

The timeline of a run is the one that its records leave. A packet with a set
speaks of its own time alone. Packets of different times therefore never
compete for a place, and their order and the seeks between them do not matter.

## Main definitions

* `Demuxer.Request`: A packet or a seek.
* `Demuxer.run`: The demuxer after requests.
* `Demuxer.Reading`, `Demuxer.reading`: What a packet says.
* `Demuxer.entryRecord?`, `Demuxer.setRecords`: The records of a set.
* `Demuxer.packets`, `Demuxer.timeOf?`: The packets of a run and their times.
* `Demuxer.records`: The records of a run.

## Theorems

* `demux_cases`: A packet that says nothing fails and changes nothing.
* `recordEntries_eq`: A set is recorded entry by entry.
* `timeline_run`: A run leaves what its records leave.
* `records_perm`: Sets of different times leave the same in any order.
* `run_closed_form`: What holds after a run, and that order does not matter.
-/

namespace KlvMetadata

namespace Demuxer

/-- One thing to ask of a demuxer. -/
inductive Request where
  | packet (p : Packet)
  | seek (time : Time)

/-- The demuxer after a request. What a packet that fails leaves is kept. -/
def perform (d : Demuxer) : Request → Demuxer
  | .packet p =>
    match demux p d with
    | .ok _ d' => d'
    | .error _ d' => d'
  | .seek time => d.seek time

/-- The demuxer after requests, from an empty timeline, the first one first. -/
def run (formats : PacketFormats) (requests : List Request) : Demuxer :=
  requests.foldl perform (start .empty formats)

/-- What a packet says. -/
inductive Reading where
  /-- Nothing, because it fails. -/
  | nothing
  /-- Entries known from a time on. -/
  | set (time : Time) (entries : Entries UInt64)
  /-- No more than that it came. -/
  | whole

/-- What a decoded set says; nothing without a timestamp. -/
def Reading.ofSet (v : Value) : Reading :=
  match v.item with
  | some (.localSet entries) =>
    match timestamp? entries with
    | some time => .set time entries
    | none => .nothing
  | _ => .nothing

/-- What a packet says to these formats. -/
def reading (formats : PacketFormats) (p : Packet) : Reading :=
  match formats.formatFor p.standard, formats.decode p, p.standard with
  | none, _, _ => .whole
  | some _, .error _, _ => .nothing
  | some _, .ok _, .unknown => .whole
  | some _, .ok decoded, .st0601 => .ofSet decoded.value

/-- The record of the entry at a place of a set: none for timestamps and
    checksums, else one numbered by the earlier entries with its tag. -/
def entryRecord? (time : Time) (entries : Entries UInt64) (place : Nat) :
    UInt64 × Value → Option Record
  | (tag, v) =>
    if tag = St0601.timestampTag ∨ tag = St0601.checksumTag then none
    else some ⟨⟨.st0601, tag, UInt64.ofNat (Entries.count tag (entries.take place))⟩, time, v⟩

/-- The records of a set, in the order of its entries. -/
def setRecords (time : Time) (entries : Entries UInt64) : List Record :=
  entries.zipIdx.filterMap fun (e, place) => entryRecord? time entries place e

/-- The time that a packet carries, if it is read as a set. -/
def timeOf? (formats : PacketFormats) (p : Packet) : Option Time :=
  match reading formats p with
  | .set time _ => some time
  | .nothing | .whole => none

/-- The packets among requests. -/
def packets (requests : List Request) : List Packet :=
  requests.filterMap fun
    | .packet p => some p
    | .seek _ => none

/-- The records of requests, given the time of the last packet that had one and
    the keys of the packets recorded whole so far. -/
def recordsFrom (formats : PacketFormats) :
    (last : Time) → (keys : List UniversalKey) → List Request → List Record
  | _, _, [] => []
  | _, keys, .seek time :: requests => recordsFrom formats time keys requests
  | last, keys, .packet p :: requests =>
    match reading formats p with
    | .nothing => recordsFrom formats last keys requests
    | .set time entries => setRecords time entries ++ recordsFrom formats time keys requests
    | .whole =>
      let keys := if p.key ∈ keys then keys else keys ++ [p.key]
      ⟨⟨.unknown, 0, UInt64.ofNat (keys.idxOf p.key)⟩, last, .ofItem (.packet p)⟩ ::
        recordsFrom formats last keys requests

/-- The records of a run. -/
def records (formats : PacketFormats) (requests : List Request) : List Record :=
  recordsFrom formats 0 [] requests

/-- The demuxer after recording a set. -/
def withSet (d : Demuxer) (time : Time) (entries : Entries UInt64) : Demuxer :=
  { d with timeline := recordEntries time [] entries d.timeline, lastTimestamp := time }

-- A decoded value is recorded if it is a set with a timestamp, else refused.
theorem demuxSet_cases (v : Value) (d : Demuxer) :
    (Reading.ofSet v = .nothing ∧ ∃ e, demuxSet v d = .error e d) ∨
    (∃ time entries, Reading.ofSet v = .set time entries ∧
      demuxSet v d = .ok () (d.withSet time entries)) := by
  by_cases hset : ∃ entries, v.item = some (.localSet entries)
  · rcases hset with ⟨entries, hset⟩
    cases htime : timestamp? entries with
    | none => exact Or.inl (by simp [Reading.ofSet, demuxSet, hset, htime])
    | some time =>
        exact Or.inr ⟨time, entries, by simp [Reading.ofSet, demuxSet, hset, htime, withSet]⟩
  · have hreading : Reading.ofSet v = .nothing := by
      rw [Reading.ofSet]
      split
      · exact absurd ⟨_, ‹v.item = _›⟩ hset
      · rfl
    have hthrow : demuxSet v = throw (.framing .packetWithoutSet) := by
      rw [demuxSet]
      split
      · exact absurd ⟨_, ‹v.item = _›⟩ hset
      · rfl
    exact Or.inl ⟨hreading, _, by rw [hthrow, Action.throw_apply]⟩

/-- A packet that says nothing fails and changes nothing; any other succeeds,
    and what it says is recorded. -/
theorem demux_cases (p : Packet) (d : Demuxer) :
    (reading d.formats p = .nothing ∧ ∃ e, demux p d = .error e d) ∨
    (∃ time entries, reading d.formats p = .set time entries ∧
      ∃ status, demux p d = .ok status (d.withSet time entries)) ∨
    (reading d.formats p = .whole ∧ ∃ status, demux p d = .ok status (d.demuxWhole p)) := by
  cases hformat : d.formats.formatFor p.standard with
  | none =>
      refine Or.inr (Or.inr ⟨?_, .absent, ?_⟩)
      · simp only [reading, hformat]
      · simp [demux, hformat]
  | some format =>
      cases hdecode : d.formats.decode p with
      | error e =>
          refine Or.inl ⟨?_, e, ?_⟩
          · simp only [reading, hformat, hdecode]
          · simp [demux, hformat, hdecode]
      | ok decoded =>
          cases hstandard : p.standard with
          | unknown =>
              rw [hstandard] at hformat
              refine Or.inr (Or.inr ⟨?_, decoded.checksum, ?_⟩)
              · simp only [reading, hformat, hdecode, hstandard]
              · simp [demux, hformat, hdecode, hstandard]
          | st0601 =>
              rw [hstandard] at hformat
              have hreading : reading d.formats p = .ofSet decoded.value := by
                simp only [reading, hformat, hdecode, hstandard]
              rw [hreading]
              rcases demuxSet_cases decoded.value d with
                ⟨hset, e, he⟩ | ⟨time, entries, hset, hok⟩
              · exact Or.inl ⟨hset, e, by simp [demux, hformat, hdecode, hstandard, he]⟩
              · refine Or.inr (Or.inl ⟨time, entries, hset, decoded.checksum, ?_⟩)
                simp [demux, hformat, hdecode, hstandard, hok]

theorem count_concat (tag k : UInt64) (v : Value) (entries : Entries UInt64) :
    Entries.count k (entries ++ [(tag, v)]) =
      Entries.count k entries + if tag = k then 1 else 0 := by
  rw [Entries.count, Entries.count, Entries.all, Entries.all, List.filter_append, List.map_append,
    List.length_append]
  by_cases hk : tag = k
  · simp only [hk, decide_true, List.filter_cons_of_pos, List.filter_nil, List.map_cons,
      List.map_nil, List.length_singleton, if_true]
  · simp only [hk, decide_false, List.filter_cons, List.filter_nil, List.map_nil, if_false,
      Bool.false_eq_true, List.length_nil]

/-- Recording the entries behind others records what stands at their places,
    as long as `seen` counts the tags of those others that are recorded. -/
theorem recordEntries_eq (time : Time) (seen : List UInt64) (before entries : Entries UInt64)
    (hseen : ∀ tag, tag ≠ St0601.timestampTag → tag ≠ St0601.checksumTag →
      seen.count tag = Entries.count tag before) (t : Timeline) :
    recordEntries time seen entries t =
      ((entries.zipIdx before.length).filterMap fun (e, place) =>
        entryRecord? time (before ++ entries) place e).foldl Timeline.record t := by
  induction entries generalizing seen before t with
  | nil => rfl
  | cons e entries ih =>
      rcases e with ⟨tag, v⟩
      have hlength : before.length + 1 = (before ++ [(tag, v)]).length := by
        rw [List.length_append, List.length_singleton]
      have hsplit : before ++ (tag, v) :: entries = (before ++ [(tag, v)]) ++ entries := by
        rw [List.append_assoc, List.singleton_append]
      have htake : ((before ++ [(tag, v)]) ++ entries).take before.length = before := by
        rw [← hsplit, List.take_left]
      rw [recordEntries, List.zipIdx_cons, List.filterMap_cons, hlength, hsplit]
      simp only [entryRecord?, htake]
      by_cases hskip : tag = St0601.timestampTag ∨ tag = St0601.checksumTag
      · -- Timestamps and checksums are not recorded, and nobody counts them.
        rw [if_pos hskip, if_pos hskip]
        refine ih seen (before ++ [(tag, v)]) (fun k ht hc => ?_) t
        rw [hseen k ht hc, count_concat, if_neg (by rintro rfl; exact hskip.elim ht hc)]
        rfl
      · -- The number is the count of the tag so far, and the count goes on by one.
        rw [not_or] at hskip
        rw [if_neg (not_or.mpr hskip), if_neg (not_or.mpr hskip), List.foldl_cons,
          hseen tag hskip.1 hskip.2]
        refine ih (tag :: seen) (before ++ [(tag, v)]) (fun k ht hc => ?_) _
        rw [List.count_cons, hseen k ht hc, count_concat]
        simp only [beq_iff_eq]

theorem recordEntries_nil (time : Time) (entries : Entries UInt64) (t : Timeline) :
    recordEntries time [] entries t = (setRecords time entries).foldl Timeline.record t :=
  recordEntries_eq time [] [] entries (fun _ _ _ => rfl) t

/-- The keys of packets that were recorded whole, in order of their appearance. -/
theorem keys_demuxWhole (d : Demuxer) (p : Packet) :
    (d.demuxWhole p).unknownKeys.keys =
      if p.key ∈ d.unknownKeys.keys then d.unknownKeys.keys else d.unknownKeys.keys ++ [p.key] :=
  Table.keys_findOrInsert _ _ _

theorem counted_demuxWhole {d : Demuxer} (h : d.unknownKeys.Counted) (p : Packet) :
    (d.demuxWhole p).unknownKeys.Counted := h.findOrInsert p.key

/-- A packet that is recorded whole is one record, on the track numbered by the place of its
    key. -/
theorem timeline_demuxWhole_eq {d : Demuxer} (h : d.unknownKeys.Counted) (p : Packet) :
    (d.demuxWhole p).timeline = d.timeline.record
      ⟨⟨.unknown, 0, UInt64.ofNat ((d.demuxWhole p).unknownKeys.keys.idxOf p.key)⟩,
        d.lastTimestamp, .ofItem (.packet p)⟩ := by
  let entry := d.unknownKeys.findOrInsert p.key (UInt64.ofNat d.unknownKeys.size)
  have hnumber : entry.2.find? p.key = some entry.1 := by
    rw [Table.find?_findOrInsert, if_pos rfl, Table.fst_findOrInsert]
  -- What is handed out is found afterwards, and what is found is a place.
  have hmem : p.key ∈ entry.2.keys := Table.find?_isSome_iff.mp (by rw [hnumber]; rfl)
  have hplace : entry.2.find? p.key = some (UInt64.ofNat (entry.2.keys.idxOf p.key)) := by
    rw [(h.findOrInsert p.key).find?_eq, if_pos hmem]
  have hdefinition : (d.demuxWhole p).timeline =
      d.timeline.record ⟨⟨.unknown, 0, entry.1⟩, d.lastTimestamp, .ofItem (.packet p)⟩ := rfl
  rw [hdefinition, Option.some.inj (hnumber.symm.trans hplace)]
  rfl

/-- What requests record does not depend on the timeline they find. -/
theorem timeline_foldl {d : Demuxer} (h : d.unknownKeys.Counted) (requests : List Request) :
    (requests.foldl perform d).timeline =
      (recordsFrom d.formats d.lastTimestamp d.unknownKeys.keys requests).foldl Timeline.record
        d.timeline := by
  -- By induction on the requests, for every demuxer they may find.
  induction requests generalizing d with
  | nil => rfl
  | cons request requests ih =>
      rw [List.foldl_cons]
      cases request with
      | seek time => exact ih h
      | packet p =>
          rw [perform, recordsFrom]
          rcases demux_cases p d with
            ⟨hreading, e, he⟩ | ⟨time, entries, hreading, status, hok⟩ | ⟨hreading, status, hok⟩
          · rw [hreading, he]
            exact ih h
          · rw [hreading, hok, List.foldl_append, ← recordEntries_nil]
            exact ih (d := d.withSet time entries) h
          · rw [hreading, hok]
            dsimp only
            rw [ih (counted_demuxWhole h p), List.foldl_cons, ← keys_demuxWhole,
              ← timeline_demuxWhole_eq h p]
            rfl

/-- A run leaves what its records leave. -/
theorem timeline_run (formats : PacketFormats) (requests : List Request) :
    (run formats requests).timeline = Timeline.ofRecords (records formats requests) :=
  timeline_foldl Table.counted_empty requests

/-- The records of a packet that is read as a set. -/
def packetRecords (formats : PacketFormats) (p : Packet) : List Record :=
  match reading formats p with
  | .set time entries => setRecords time entries
  | .nothing | .whole => []

section Sets

variable {formats formats' : PacketFormats} {f : Format} {p : Packet}

/-- What a set says is a matter of the format of sets alone. -/
theorem reading_congr (hformat : formats.st0601 = some f) (hformat' : formats'.st0601 = some f)
    (hp : p.standard = .st0601) : reading formats p = reading formats' p := by
  have hfor : formats.formatFor p.standard = formats'.formatFor p.standard := by
    rw [hp, PacketFormats.formatFor, PacketFormats.formatFor, hformat, hformat']
  simp only [reading, PacketFormats.decode, hfor]

/-- A set is never recorded whole. -/
theorem reading_ne_whole (hformat : formats.st0601 = some f) (hp : p.standard = .st0601) :
    reading formats p ≠ .whole := by
  have hfor : formats.formatFor .st0601 = some f := hformat
  cases hdecode : formats.decode p with
  | error e => simp only [reading, hp, hfor, hdecode, ne_eq, reduceCtorEq, not_false_eq_true]
  | ok decoded =>
      simp only [reading, hp, hfor, hdecode, Reading.ofSet]
      split
      · split <;> simp only [ne_eq, reduceCtorEq, not_false_eq_true]
      · simp only [ne_eq, reduceCtorEq, not_false_eq_true]

/-- A run over sets records what each of them says, whatever the seeks. -/
theorem recordsFrom_eq_flatMap (hformat : formats.st0601 = some f) (last : Time)
    (keys : List UniversalKey) (requests : List Request)
    (hsets : ∀ p ∈ packets requests, p.standard = .st0601) :
    recordsFrom formats last keys requests =
      (packets requests).flatMap (packetRecords formats) := by
  induction requests generalizing last keys with
  | nil => rfl
  | cons request requests ih =>
      cases request with
      | seek time => exact ih time keys hsets
      | packet p =>
          have hcons : packets (.packet p :: requests) = p :: packets requests := rfl
          rw [hcons, List.forall_mem_cons] at hsets
          rw [hcons, List.flatMap_cons, packetRecords, recordsFrom]
          cases hreading : reading formats p with
          | nothing => exact ih last keys hsets.2
          | set time entries => exact congrArg _ (ih time keys hsets.2)
          | whole => exact absurd hreading (reading_ne_whole hformat hsets.1)

/-- The records of a run over sets are a matter of the format of sets alone. -/
theorem records_congr {requests : List Request} (hformat : formats.st0601 = some f)
    (hformat' : formats'.st0601 = some f) (hsets : ∀ p ∈ packets requests, p.standard = .st0601) :
    records formats requests = records formats' requests := by
  rw [records, records, recordsFrom_eq_flatMap hformat 0 [] requests hsets,
    recordsFrom_eq_flatMap hformat' 0 [] requests hsets]
  refine List.flatMap_congr fun p hp => ?_
  rw [packetRecords, packetRecords, reading_congr hformat hformat' (hsets p hp)]

/-- The records of a packet are all of the time that it carries. -/
theorem timeOf?_eq_some {r : Record} (hr : r ∈ packetRecords formats p) :
    timeOf? formats p = some r.time := by
  rw [packetRecords] at hr
  rw [timeOf?]
  cases hreading : reading formats p with
  | nothing | whole =>
      rw [hreading] at hr
      exact absurd hr List.not_mem_nil
  | set time entries =>
      rw [hreading] at hr
      rcases List.mem_filterMap.mp hr with ⟨⟨⟨tag, v⟩, place⟩, _, hrecord⟩
      simp only [entryRecord?] at hrecord
      split at hrecord
      · contradiction
      · rw [← Option.some.inj hrecord]

/-- Sets of different times leave the same in any order. -/
theorem records_perm {requests requests' : List Request} (hformat : formats.st0601 = some f)
    (hsets : ∀ p ∈ packets requests, p.standard = .st0601)
    (hperm : (packets requests).Perm (packets requests'))
    (htimes : ((packets requests).filterMap (timeOf? formats)).Nodup)
    (key : TrackKey) (time : Time) :
    Record.lastAt key time (records formats requests) =
      Record.lastAt key time (records formats requests') := by
  rw [records, records, recordsFrom_eq_flatMap hformat 0 [] requests hsets,
    recordsFrom_eq_flatMap hformat 0 [] requests' fun p hp => hsets p (hperm.mem_iff.mpr hp)]
  refine Record.lastAt_flatMap_perm hperm ?_
  refine (List.pairwise_filterMap.mp htimes).imp fun {p q} hne => ?_
  -- A value at this time on the side of both packets would make their times equal.
  have htime (p : Packet) (hsome : Record.lastAt key time (packetRecords formats p) ≠ none) :
      timeOf? formats p = some time := by
    rcases Option.ne_none_iff_exists'.mp hsome with ⟨v, hv⟩
    rcases Record.lastAt_eq_some_iff.mp hv with ⟨before, r, after, hsplit, _, rfl, _⟩
    refine timeOf?_eq_some ?_
    rw [hsplit]
    exact List.mem_append_right before List.mem_cons_self
  by_contra hboth
  rw [not_or] at hboth
  exact hne time (htime p hboth.1) time (htime q hboth.2) rfl

end Sets

/-- What holds on a track after a run, at any time but the last, is the record
    of the track with the greatest time until then, the last made among those
    of its time; before the first one nothing holds. So packets with sets of
    different times leave the same timeline in any order, with any seeks
    between them. -/
theorem run_closed_form :
    (∀ (formats : PacketFormats) (requests : List Request) (key : TrackKey) (time : Time),
      time < Time.last →
        (∀ v, (run formats requests).timeline.valueAt? key time = some v ↔
          Record.Governs (records formats requests) key time v) ∧
        ((run formats requests).timeline.valueAt? key time = none ↔
          ∀ r ∈ records formats requests, r.track = key → time < r.time)) ∧
    ∀ (formats formats' : PacketFormats) (f : Format) (requests requests' : List Request),
      formats.st0601 = some f → formats'.st0601 = some f →
      (∀ p ∈ packets requests, p.standard = .st0601) →
      (packets requests).Perm (packets requests') →
      ((packets requests).filterMap (timeOf? formats)).Nodup →
        (run formats requests).timeline = (run formats' requests').timeline := by
  constructor
  · intro formats requests key time htime
    rw [timeline_run]
    exact ⟨Timeline.valueAt?_ofRecords _ key htime, Timeline.valueAt?_ofRecords_eq_none _ key htime⟩
  · intro formats formats' f requests requests' hformat hformat' hsets hperm htimes
    have hsets' : ∀ p ∈ packets requests', p.standard = .st0601 :=
      fun p hp => hsets p (hperm.mem_iff.mpr hp)
    rw [timeline_run, timeline_run, ← records_congr hformat hformat' hsets']
    exact Timeline.ofRecords_congr (records_perm hformat hsets hperm htimes)

/-- A packet of one set: a time, a value under tag 3, and a checksum. -/
def samplePacket (time value : UInt8) : Packet :=
  .ofPayload Standard.st0601Key [2, 8, 0, 0, 0, 0, 0, 0, 0, time, 3, 1, value, 1, 2, 0, 0]

/-- A format for such packets. -/
def sampleFormat : Format :=
  .st0601 (.listing [⟨2, none, .unsigned (some 8), "Time", "", .any⟩] .unlisted)

/-- Two packets in both orders, with a seek to the end of time in between: up
    to the second time the first value holds. -/
theorem run_closed_form_two_packets :
    let formats : PacketFormats := ⟨none, some sampleFormat⟩
    let formats' : PacketFormats := ⟨some .ber, some sampleFormat⟩
    let a := samplePacket 5 65
    let b := samplePacket 7 66
    let requests : List Request := [.packet b, .seek Time.last, .packet a]
    let requests' : List Request := [.seek 9, .packet a, .packet b]
    (6 : Time) < Time.last ∧
      (run formats requests).timeline.valueAt? ⟨.st0601, 3, 0⟩ 6 = some ⟨some (.blob [65]), 1⟩ ∧
      (∀ p ∈ packets requests, p.standard = .st0601) ∧
      (packets requests).Perm (packets requests') ∧
      ((packets requests).filterMap (timeOf? formats)).Nodup ∧
      (run formats requests).timeline = (run formats' requests').timeline := by
  intro formats formats' a b requests requests'
  have hlast : (6 : Time) < Time.last := by decide
  have hsets : ∀ p ∈ [b, a], p.standard = .st0601 := by decide +kernel
  have hperm : [b, a].Perm [a, b] := List.Perm.swap a b []
  have htimes : ([b, a].filterMap (timeOf? formats)).Nodup := by decide +kernel
  -- The run leaves two records, the later time first.
  have hrecords : records formats requests =
      [⟨⟨.st0601, 3, 0⟩, 7, ⟨some (.blob [66]), 1⟩⟩,
        ⟨⟨.st0601, 3, 0⟩, 5, ⟨some (.blob [65]), 1⟩⟩] := by rfl
  refine ⟨hlast, ((run_closed_form.1 formats requests _ 6 hlast).1 _).mpr ?_, hsets, hperm, htimes,
    run_closed_form.2 formats formats' sampleFormat requests requests' rfl rfl hsets hperm htimes⟩
  -- Until the time asked for there is only the second one.
  rw [hrecords]
  exact ⟨[_], _, [], rfl, rfl, by decide, rfl, by decide, by decide⟩

end Demuxer

end KlvMetadata
