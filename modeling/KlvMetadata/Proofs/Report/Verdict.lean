import KlvMetadata.Proofs.Packet.Timestamp
import KlvMetadata.Report.Check

/-!
# The Verdict on a Stream

A check ends with one of three codes. What they mean can be said without the check: a
stream is read without an error or not, a packet is decoded or not, its sum matches or
not, and the items of the standard stand in its body as often as they may or not. The
last of these is a matter of the bytes. They fall into segments in one way only, and
each segment has a key, so it is known how often an item is there before anything is
decoded.

The check does not look at the bytes but counts the entries of the decoded set, and
there it has a blind spot. A packet that is a trailer and nothing else is decoded to a
value that is no set. Nothing is counted then, and the check is satisfied with a packet
that has no timestamp. All other packets are judged by their bytes.

## Main definitions

* `St0601.ItemsAllowed`: The items of the standard occur as often as they may.
* `Packet.body`: The bytes in front of the trailer.
* `Packet.Intact`: A packet is decoded and its sum matches.
* `Packet.Passes`: What the check asks of a packet.

## Theorems

* `Segment.countP_of_carries`: Counting entries is counting segments.
* `Report.cardinalityProblems_eq_nil_iff`: What is counted in a decoded body.
* `Report.problems_eq_nil_iff`: A packet without problems is one that passes.
* `Report.check_code`: The three codes of a check.
* `Report.check_passes_bare_trailer`: The blind spot.
-/

namespace KlvMetadata

/-- Tag of the version number. -/
def St0601.versionTag : UInt64 := 65

/-- The bytes are made of segments, and each item of the standard is the key of as many of
    them as its cardinality allows. -/
def St0601.ItemsAllowed (body : Bytes) : Prop :=
  ∃ segments : List (Segment UInt64), segments.flatMap Segment.bytes = body ∧
    ∀ e ∈ schema.entries, e.cardinality.contains (segments.countP (·.key = e.tag))

theorem Cardinality.contains_exactly {n count : Nat} :
    (Cardinality.exactly n).contains count ↔ count = n := by
  rw [Cardinality.contains, Bool.and_eq_true]
  change decide (n ≤ count) = true ∧ decide (count ≤ n) = true ↔ count = n
  rw [decide_eq_true_iff, decide_eq_true_iff]
  omega

namespace St0601

/-- Of the items that are not optional, the timestamp and the version number are there
    once, and the checksum is not there. -/
theorem ItemsAllowed.counts {body : Bytes} (h : ItemsAllowed body) :
    ∃ segments : List (Segment UInt64), segments.flatMap Segment.bytes = body ∧
      segments.countP (·.key = checksumTag) = 0 ∧ segments.countP (·.key = timestampTag) = 1 ∧
      segments.countP (·.key = versionTag) = 1 := by
  have hlisted : (∃ e ∈ schema.entries, e.tag = checksumTag ∧ e.cardinality = .exactly 0) ∧
      (∃ e ∈ schema.entries, e.tag = timestampTag ∧ e.cardinality = .exactly 1) ∧
      ∃ e ∈ schema.entries, e.tag = versionTag ∧ e.cardinality = .exactly 1 := by
    decide +kernel
  rcases h with ⟨segments, hbytes, hallowed⟩
  have hcount (tag : UInt64) (n : Nat)
      (hitem : ∃ e ∈ schema.entries, e.tag = tag ∧ e.cardinality = .exactly n) :
      segments.countP (·.key = tag) = n := by
    rcases hitem with ⟨e, he, rfl, hcardinality⟩
    exact Cardinality.contains_exactly.mp (hcardinality ▸ hallowed e he)
  exact ⟨segments, hbytes, hcount _ _ hlisted.1, hcount _ _ hlisted.2.1, hcount _ _ hlisted.2.2⟩

end St0601

namespace Packet

/-- The bytes in front of the trailer. -/
def body (p : Packet) : Bytes := p.payload.take (p.payload.length - Trailer.length)

/-- The packet is decoded as the standard defines it, and its sum is no other than the
    computed one. -/
def Intact (p : Packet) : Prop :=
  ∃ decoded, PacketFormats.standard.decode p = .ok decoded ∧ decoded.checksum.isMismatch = false

/-- What the check asks of a packet. Items are counted in bodies with bytes only. -/
def Passes (p : Packet) : Prop :=
  p.Intact ∧ (p.standard = .st0601 → p.body ≠ [] → St0601.ItemsAllowed p.body)

theorem body_append {p : Packet} {body : Bytes} {sum : UInt16}
    (h : p.payload = body ++ Trailer.bytes sum) : p.body = body := by
  rw [Packet.body, h, List.length_append, Trailer.length_bytes, Nat.add_sub_cancel, List.take_left]

theorem standard_eq_st0601_iff {p : Packet} :
    p.standard = .st0601 ↔ p.key = Standard.st0601Key := by
  rw [standard, Standard.ofKey]
  split
  · next h => exact iff_of_true rfl h
  · next h => exact iff_of_false (by decide) h

end Packet

namespace Segment

/-- Counting entries is counting the segments that carry them. -/
theorem countP_of_carries {schema : Schema Format} {segments : List (Segment UInt64)}
    {entries : Entries UInt64} (h : List.Forall₂ (fun s e => s.Carries schema e) segments entries)
    (tag : UInt64) : segments.countP (·.key = tag) = Entries.count tag entries := by
  rw [Entries.count, Entries.all, List.length_map, ← List.countP_eq_length_filter]
  induction h with
  | nil => rfl
  | cons hcarries _ ih => rw [List.countP_cons, List.countP_cons, ih, hcarries.1]

end Segment

namespace Report

open PacketFormats (readBody)

/-- A schema has no objection if all counts are allowed. -/
theorem violations_eq_nil_iff {schema : Schema Format} {entries : Entries UInt64} :
    entries.violations schema = [] ↔
      ∀ e ∈ schema.entries, e.cardinality.contains (entries.count e.tag) := by
  rw [Entries.violations, Schema.violations, List.filterMap_eq_nil_iff]
  refine forall₂_congr fun e _ => ?_
  simp [SetKey.ofEntry?]

/-- What is counted in a decoded body is what stands in its bytes. -/
theorem cardinalityProblems_eq_nil_iff {body : Bytes} {v : Value}
    (h : readBody (.st0601 St0601.schema) body = .ok v) :
    cardinalityProblems v = [] ↔ (body ≠ [] → St0601.ItemsAllowed body) := by
  by_cases hne : body = []
  · -- A body without bytes is no set, and nothing is counted.
    subst hne
    obtain rfl : Value.empty = v := Except.ok.inj h
    exact iff_of_true rfl fun hne => absurd rfl hne
  · rcases St0601.readBody_eq_ok hne h with ⟨_, _, entries, rfl, hread⟩
    rcases SetCodec.readEntries_eq_ok_iff.mp hread with ⟨_, segments, hbytes, hcarries⟩
    have hcount := Segment.countP_of_carries hcarries
    change (entries.violations St0601.schema).map Problem.cardinality = [] ↔ _
    rw [List.map_eq_nil_iff, violations_eq_nil_iff]
    constructor
    · intro hallowed _
      refine ⟨segments, hbytes, fun e he => ?_⟩
      rw [hcount]
      exact hallowed e he
    · intro hitems e he
      rcases hitems hne with ⟨segments', hbytes', hallowed⟩
      -- Bytes fall into segments in one way, so these are the segments that were read.
      obtain rfl := Segment.flatMap_injective (hbytes'.trans hbytes.symm)
      rw [← hcount]
      exact hallowed e he

/-- Packets of other standards are decoded to bytes, in which nothing is counted. -/
theorem cardinalityProblems_of_unknown {p : Packet} {decoded : Decoded}
    (hp : p.standard ≠ .st0601) (h : PacketFormats.standard.decode p = .ok decoded) :
    cardinalityProblems decoded.value = [] := by
  have hunknown : p.standard = .unknown := by
    cases hstandard : p.standard with
    | unknown => rfl
    | st0601 => exact absurd hstandard hp
  have hformat : PacketFormats.standard.formatFor .unknown = none := rfl
  rw [PacketFormats.decode, hunknown, hformat] at h
  rw [← Except.ok.inj h]
  rfl

/-- A packet without problems is one that passes. -/
theorem problems_eq_nil_iff {p : Packet} : problems p = [] ↔ p.Passes := by
  cases hdecode : PacketFormats.standard.decode p with
  | error e =>
      refine iff_of_false ?_ ?_
      · simp [problems, hdecode]
      · rintro ⟨⟨decoded, hdecoded, _⟩, _⟩
        rw [hdecode] at hdecoded
        contradiction
  | ok decoded =>
      have hintact : p.Intact ↔ decoded.checksum.isMismatch = false := by
        simp [Packet.Intact, hdecode]
      have hitems : cardinalityProblems decoded.value = [] ↔
          (p.standard = .st0601 → p.body ≠ [] → St0601.ItemsAllowed p.body) := by
        by_cases hp : p.standard = .st0601
        · rcases (PacketFormats.decode_eq_ok_iff (Packet.standard_eq_st0601_iff.mp hp)).mp hdecode
            with ⟨body, sum, hpayload, hread, _⟩
          rw [Packet.body_append hpayload, cardinalityProblems_eq_nil_iff hread]
          exact ⟨fun h _ => h, fun h => h hp⟩
        · exact iff_of_true (cardinalityProblems_of_unknown hp hdecode) fun h => absurd h hp
      rw [Packet.Passes, hintact, ← hitems]
      cases hmismatch : decoded.checksum.isMismatch <;> simp [problems, hdecode, hmismatch]

/-- A check has no lines about packets if all of them pass. -/
theorem lines_eq_nil_iff {packets : List Packet} :
    (packets.zipIdx.flatMap fun (p, number) =>
      (problems p).map fun problem => s!"Packet {number}: {problem.text}") = [] ↔
      ∀ p ∈ packets, p.Passes := by
  rw [List.flatMap_eq_nil_iff]
  constructor
  · intro h p hp
    rw [← List.zipIdx_map_fst 0 packets] at hp
    rcases List.mem_map.mp hp with ⟨x, hx, rfl⟩
    exact problems_eq_nil_iff.mp (List.map_eq_nil_iff.mp (h x hx))
  · intro h x hx
    exact List.map_eq_nil_iff.mpr (problems_eq_nil_iff.mpr (h x.1 (List.fst_mem_of_mem_zipIdx hx)))

section Stream

variable {data : Bytes}

theorem mem_packets_iff {p : Packet} :
    p ∈ (Packet.readAll data).1 ↔ .ok p ∈ (PacketReader.start data).toList := by
  rw [Packet.readAll, List.mem_filterMap]
  constructor
  · rintro ⟨r, hr, hp⟩
    cases r with
    | ok q => exact Option.some.inj hp ▸ hr
    | error e => contradiction
  · exact fun hp => ⟨_, hp, rfl⟩

theorem readAll_eq_none_iff :
    (Packet.readAll data).2 = none ↔ ∀ r ∈ (PacketReader.start data).toList, ∃ p, r = .ok p := by
  rw [Packet.readAll, List.findSome?_eq_none_iff]
  refine forall₂_congr fun r _ => ?_
  cases r with
  | ok p => exact iff_of_true rfl ⟨p, rfl⟩
  | error e => exact iff_of_false nofun nofun

/-- The code of a stream that is read to its end is zero if all packets pass, else two. -/
theorem code_of_end {packets : List Packet} (h : Packet.readAll data = (packets, none)) :
    ((∀ p ∈ packets, p.Passes) ∧ (check data).code = 0) ∨
      ((∃ p ∈ packets, ¬ p.Passes) ∧ (check data).code = 2) := by
  have hcheck : (check data).code = if (packets.zipIdx.flatMap fun (p, number) =>
      (problems p).map fun problem => s!"Packet {number}: {problem.text}").isEmpty
      then 0 else 2 := by
    rw [check, h]
  by_cases hpass : ∀ p ∈ packets, p.Passes
  · rw [lines_eq_nil_iff.mpr hpass] at hcheck
    exact Or.inl ⟨hpass, hcheck⟩
  · refine Or.inr ⟨by simpa using hpass, ?_⟩
    rw [hcheck, if_neg]
    rw [List.isEmpty_iff, lines_eq_nil_iff]
    exact hpass

/-- A stream breaks off, or it is read to its end and all packets pass or one does not.
    Each has its code. -/
theorem code_cases (data : Bytes) :
    ((∃ e, .error e ∈ (PacketReader.start data).toList) ∧ (check data).code = 1) ∨
    (∀ r ∈ (PacketReader.start data).toList, ∃ p, r = .ok p) ∧
      (((∀ p, .ok p ∈ (PacketReader.start data).toList → p.Passes) ∧ (check data).code = 0) ∨
        ((∃ p, .ok p ∈ (PacketReader.start data).toList ∧ ¬ p.Passes) ∧
          (check data).code = 2)) := by
  rcases hall : Packet.readAll data with ⟨packets, _ | e⟩
  · refine Or.inr ⟨readAll_eq_none_iff.mp (congrArg Prod.snd hall), ?_⟩
    simp only [← mem_packets_iff, hall]
    exact code_of_end hall
  · have hfound : (PacketReader.start data).toList.findSome? Packet.readAll.error? = some e :=
      congrArg Prod.snd hall
    rcases List.exists_of_findSome?_eq_some hfound with ⟨r, hr, he⟩
    refine Or.inl ⟨?_, by rw [check, hall]; rfl⟩
    cases r with
    | ok p => contradiction
    | error e => exact ⟨e, hr⟩

end Stream

/-- The three codes of a check. It is one if reading the stream ends in an error. Else
    it is zero if every packet passes, and two if there is one that does not. A packet
    that passes is decoded and its sum matches. If it is a set and has a body, each item
    of the standard stands in there as often as it may: there is one timestamp and one
    version number, and no checksum. -/
theorem check_code (data : Bytes) :
    ((check data).code = 1 ↔ ∃ e, .error e ∈ (PacketReader.start data).toList) ∧
    ((check data).code = 0 ↔
      ∀ r ∈ (PacketReader.start data).toList, ∃ p, r = .ok p ∧ p.Passes) ∧
    ((check data).code = 2 ↔ (∀ r ∈ (PacketReader.start data).toList, ∃ p, r = .ok p) ∧
      ∃ p, .ok p ∈ (PacketReader.start data).toList ∧ ¬ p.Passes) ∧
    ∀ p : Packet, p.Passes → p.standard = .st0601 → p.body ≠ [] →
      ∃ segments : List (Segment UInt64), segments.flatMap Segment.bytes = p.body ∧
        segments.countP (·.key = St0601.checksumTag) = 0 ∧
        segments.countP (·.key = St0601.timestampTag) = 1 ∧
        segments.countP (·.key = St0601.versionTag) = 1 := by
  -- The three cases exclude each other, and so do their codes.
  have hends : (∃ e, .error e ∈ (PacketReader.start data).toList) →
      ¬ ∀ r ∈ (PacketReader.start data).toList, ∃ p, r = .ok p := by
    rintro ⟨e, he⟩ hok
    rcases hok _ he with ⟨p, hp⟩
    contradiction
  have hcounts (p : Packet) (hpass : p.Passes) (hp : p.standard = .st0601) (hne : p.body ≠ []) :=
    (hpass.2 hp hne).counts
  rcases code_cases data with ⟨herror, hcode⟩ | ⟨hok, ⟨hpass, hcode⟩ | ⟨⟨p, hp, hfail⟩, hcode⟩⟩ <;>
    rw [hcode]
  · refine ⟨iff_of_true rfl herror, iff_of_false (by decide) fun h => ?_,
      iff_of_false (by decide) fun h => hends herror h.1, hcounts⟩
    exact hends herror fun r hr => (h r hr).imp fun _ hp => hp.1
  · refine ⟨iff_of_false (by decide) fun herror => hends herror hok,
      iff_of_true rfl fun r hr => ?_, iff_of_false (by decide) ?_, hcounts⟩
    · rcases hok r hr with ⟨p, rfl⟩
      exact ⟨p, rfl, hpass p hr⟩
    · rintro ⟨_, p, hp, hfail⟩
      exact hfail (hpass p hp)
  · refine ⟨iff_of_false (by decide) fun herror => hends herror hok,
      iff_of_false (by decide) fun h => ?_, iff_of_true rfl ⟨hok, p, hp, hfail⟩, hcounts⟩
    rcases h _ hp with ⟨q, hq, hpass⟩
    exact hfail (Except.ok.inj hq ▸ hpass)

/-- A set with a timestamp and a version number passes, and the same set without the
    version number does not. -/
theorem check_code_version :
    let complete : Packet := .ofBody (PacketFormats.stamp ++ [65, 1, 17])
    let incomplete : Packet := .ofBody PacketFormats.stamp
    (check complete.encode).code = 0 ∧
      (check (complete.encode ++ incomplete.encode)).code = 2 ∧
      (check (complete.encode.dropLast)).code = 1 := by
  intro complete incomplete
  have hpass : complete.Passes := problems_eq_nil_iff.mp (by decide +kernel)
  have hfail : ¬ incomplete.Passes := fun h =>
    absurd (problems_eq_nil_iff.mpr h) (by decide +kernel)
  have hone : (PacketReader.start complete.encode).toList = [.ok complete] := by decide +kernel
  have htwo : (PacketReader.start (complete.encode ++ incomplete.encode)).toList =
      [.ok complete, .ok incomplete] := by decide +kernel
  have hcut : (PacketReader.start complete.encode.dropLast).toList =
      [.error (.parse (.underflow 17 16))] := by decide +kernel
  refine ⟨(check_code _).2.1.mpr ?_, (check_code _).2.2.1.mpr ?_, (check_code _).1.mpr ?_⟩
  · rw [hone]
    exact fun r hr => ⟨complete, List.mem_singleton.mp hr, hpass⟩
  · rw [htwo]
    refine ⟨fun r hr => ?_, incomplete, by simp, hfail⟩
    rcases List.mem_pair.mp hr with rfl | rfl
    · exact ⟨complete, rfl⟩
    · exact ⟨incomplete, rfl⟩
  · rw [hcut]
    exact ⟨_, List.mem_singleton_self _⟩

/-- A stream of one packet that is nothing but its trailer. -/
def bareStream : Bytes := (Packet.ofBody []).encode

/-- The packet is of the standard and the check finds nothing wrong with it, though it has
    no timestamp and no version number, and the schema wants one of each. -/
theorem check_passes_bare_trailer :
    (check bareStream).code = 0 ∧
    (PacketReader.start bareStream).toList = [.ok (.ofBody [])] ∧
    (Packet.ofBody []).standard = .st0601 ∧ ¬ St0601.ItemsAllowed (Packet.ofBody []).body := by
  have hread : (PacketReader.start bareStream).toList = [.ok (.ofBody [])] := by decide +kernel
  have hcode : (check bareStream).code = 0 := by decide +kernel
  refine ⟨hcode, hread, rfl, fun hitems => ?_⟩
  rcases hitems.counts with ⟨segments, hbytes, _, hstamp, _⟩
  -- Where there are no bytes there are no segments, and none of them is a timestamp.
  have hempty : segments.flatMap Segment.bytes =
      ([] : List (Segment UInt64)).flatMap Segment.bytes := hbytes
  rw [Segment.flatMap_injective hempty] at hstamp
  contradiction

end Report

end KlvMetadata
