import KlvMetadata.Proofs.Packet.Course

/-!
# Streams with Garbage

Packets are found again however much garbage lies between them, as long as the
garbage does not contain the bytes that all registered keys begin with. It may
well end like the beginning of a key. No key is lost by that, because these
bytes do not overlap with themselves: if they were found across the end of the
garbage, part of them would stand at the start of the real key and be the
beginning of a key and its end at once.

Payloads may contain anything, since what a packet takes is a matter of its
length field. A reader that is called again and again therefore gives the
packets in order, each with the length field it had, and from then on nothing,
with nothing left to read.

## Main definitions

* `Packet.scatter`: Packets with garbage around them.

## Theorems

* `Packet.skipToKey_append`: Garbage is skipped up to the key behind it.
* `PacketReader.exists_course_scatter`: What a reader finds is the packets.
* `PacketReader.packets_survive_garbage`: All calls.
-/

namespace KlvMetadata

namespace Packet

open UniversalKey (smpteStart)

/-- No end of the bytes that keys begin with is a beginning of them. -/
theorem smpteStart_no_overlap :
    ∀ j < 3, ¬ smpteStart.drop (j + 1) <+: smpteStart := by
  decide

/-- Where a key starts inside of garbage with a key behind it, it also ends
    inside. -/
theorem prefix_of_prefix_append {garbage data : Bytes} (hne : garbage ≠ [])
    (hdata : smpteStart <+: data) (h : smpteStart <+: garbage ++ data) :
    smpteStart <+: garbage := by
  by_cases hlength : smpteStart.length ≤ garbage.length
  · exact List.prefix_of_prefix_length_le h (List.prefix_append _ _) hlength
  · -- The garbage is part of the key, and the rest of that starts the one behind.
    exfalso
    have hgarbage : garbage <+: smpteStart :=
      List.prefix_of_prefix_length_le (List.prefix_append _ _) h (Nat.le_of_not_le hlength)
    rcases hgarbage with ⟨rest, hrest⟩
    rw [← hrest, List.prefix_append_right_inj] at h
    have hcount := congrArg List.length hrest
    rw [List.length_append] at hcount
    have hoverlap : rest <+: smpteStart :=
      List.prefix_of_prefix_length_le h hdata (by omega)
    have hpos := List.length_pos_iff.mpr hne
    have hdrop : rest = smpteStart.drop (garbage.length - 1 + 1) := by
      rw [Nat.sub_add_cancel hpos, ← hrest, List.drop_left]
    have hfour : smpteStart.length = 4 := rfl
    exact smpteStart_no_overlap (garbage.length - 1) (by omega) (hdrop ▸ hoverlap)

/-- Garbage is skipped up to the key behind it, whatever it ends in. -/
theorem skipToKey_append {garbage data : Bytes} (hgarbage : ¬ smpteStart <:+: garbage)
    (hdata : smpteStart <+: data) : skipToKey (garbage ++ data) = some data := by
  induction garbage with
  | nil => exact skipToKey_self hdata
  | cons b garbage ih =>
      rw [List.infix_cons_iff, not_or] at hgarbage
      have hprefix : ¬ smpteStart <+: b :: garbage ++ data := fun h =>
        hgarbage.1 (prefix_of_prefix_append (List.cons_ne_nil b garbage) hdata h)
      rw [List.cons_append] at hprefix ⊢
      rw [skipToKey_cons_garbage hprefix]
      exact ih hgarbage.2

/-- Packets, each with garbage behind it, after garbage. -/
def scatter (garbage : Bytes) (items : List (Packet × Bytes)) : Bytes :=
  garbage ++ items.flatMap fun item => item.1.encode ++ item.2

theorem scatter_cons (garbage : Bytes) (item : Packet × Bytes) (items : List (Packet × Bytes)) :
    scatter garbage (item :: items) = garbage ++ (item.1.encode ++ scatter item.2 items) := by
  rw [scatter, scatter, List.flatMap_cons, List.append_assoc]

end Packet

namespace PacketReader

open UniversalKey (smpteStart)

variable {garbage : Bytes} {items : List (Packet × Bytes)}

/-- What a reader finds in such a stream is the packets. -/
theorem exists_course_scatter (hgarbage : ¬ smpteStart <:+: garbage)
    (hitems : ∀ item ∈ items, item.1.Framed ∧ item.1.key.isSmpte ∧ ¬ smpteStart <:+: item.2) :
    ∃ found rest, Course (Packet.scatter garbage items) found rest none ∧
      found.map (·.2) = items.map (·.1) := by
  induction items generalizing garbage with
  | nil =>
      refine ⟨[], garbage, ?_, rfl⟩
      rw [Packet.scatter, List.flatMap_nil, List.append_nil]
      exact .ended hgarbage
  | cons item items ih =>
      rcases List.forall_mem_cons.mp hitems with ⟨⟨hframed, hkey, hbehind⟩, hrest⟩
      rcases ih hbehind hrest with ⟨found, rest, hcourse, hfound⟩
      have hstart : smpteStart <+: item.1.encode ++ Packet.scatter item.2 items := by
        simp only [Packet.encode, Packet.header, List.append_assoc]
        exact (List.isPrefixOf_iff_prefix.mp hkey).trans (List.prefix_append _ _)
      have hfirst := Packet.skipToKey_append_iff.mp (Packet.skipToKey_append hgarbage hstart)
      rw [Packet.scatter_cons]
      refine ⟨(garbage, item.1) :: found, rest, .found hfirst hframed hcourse, ?_⟩
      rw [List.map_cons, List.map_cons, hfound]

/-- One call for each packet, one that finds the end, and then nothing happens. -/
theorem calls_scatter (hgarbage : ¬ smpteStart <:+: garbage)
    (hitems : ∀ item ∈ items, item.1.Framed ∧ item.1.key.isSmpte ∧ ¬ smpteStart <:+: item.2)
    (k : Nat) :
    calls (items.length + 1 + k) (start (Packet.scatter garbage items)) =
      (items.map (fun item => some (.ok item.1)) ++ List.replicate (k + 1) none, start []) := by
  rcases exists_course_scatter hgarbage hitems with ⟨found, rest, hcourse, hfound⟩
  rcases hcourse.calls_end_eq with ⟨left, hleft, hcalls⟩
  obtain rfl := hleft rfl
  have hlength : found.length = items.length := by
    simpa using congrArg List.length hfound
  have hresults := congrArg (List.map fun p => some (Except.ok p : Except Error Packet)) hfound
  rw [List.map_map, List.map_map] at hresults
  rw [← hlength, hcalls]
  exact congrArg (fun results => (results ++ List.replicate (k + 1) none, start [])) hresults

/-- A run that has a step for each packet and one more gives the packets. -/
theorem run_scatter (hgarbage : ¬ smpteStart <:+: garbage)
    (hitems : ∀ item ∈ items, item.1.Framed ∧ item.1.key.isSmpte ∧ ¬ smpteStart <:+: item.2)
    {fuel : Nat} (hfuel : items.length ≤ fuel) :
    (run (fuel + 1) (start (Packet.scatter garbage items))).map (·.1) =
      items.map fun item => .ok item.1 := by
  rcases exists_course_scatter hgarbage hitems with ⟨found, rest, hcourse, hfound⟩
  have hlength : found.length = items.length := by
    simpa using congrArg List.length hfound
  have hresults := congrArg (List.map fun p => (Except.ok p : Except Error Packet)) hfound
  rw [List.map_map, List.map_map] at hresults
  rw [hcourse.run_eq (hlength ▸ hfuel)]
  exact (List.append_nil _).trans hresults

/-- There are no more packets than bytes. -/
theorem length_le_length_scatter (garbage : Bytes) (items : List (Packet × Bytes)) :
    items.length ≤ (Packet.scatter garbage items).length := by
  induction items generalizing garbage with
  | nil => exact Nat.zero_le _
  | cons item items ih =>
      have hrest := ih item.2
      have hpos := item.1.one_le_length_encode
      rw [Packet.scatter_cons, List.length_append, List.length_append, List.length_cons]
      omega

/-- Whatever packets with registered keys stand in a stream and whatever garbage
    lies around them, if none of it contains the bytes that registered keys
    begin with: calling the reader gives the packets in order, length fields
    included, then nothing any number of times, and no bytes are left. -/
theorem packets_survive_garbage (garbage : Bytes) (items : List (Packet × Bytes))
    (hgarbage : ¬ smpteStart <:+: garbage)
    (hitems : ∀ item ∈ items,
      item.1.Obtained ∧ smpteStart <+: item.1.key.bytes ∧ ¬ smpteStart <:+: item.2) :
    (∀ k, calls (items.length + 1 + k) (start (Packet.scatter garbage items)) =
      (items.map (fun item => some (.ok item.1)) ++ List.replicate (k + 1) none,
        ⟨[], false⟩)) ∧
    (start (Packet.scatter garbage items)).toList = items.map fun item => .ok item.1 := by
  have hframed : ∀ item ∈ items,
      item.1.Framed ∧ item.1.key.isSmpte ∧ ¬ smpteStart <:+: item.2 := fun item hmem =>
    have ⟨hobtained, hkey, hbehind⟩ := hitems item hmem
    ⟨hobtained.framed, List.isPrefixOf_iff_prefix.mpr hkey, hbehind⟩
  exact ⟨calls_scatter hgarbage hframed,
    run_scatter hgarbage hframed (length_le_length_scatter garbage items)⟩

/-- A length in long form, a payload that contains the beginning of a key, and
    garbage that ends like a key begins. -/
def sampleItems : List (Packet × Bytes) :=
  [(⟨Standard.st0601Key, [0x82, 0, 1], [0xAA]⟩, [0x06]),
    (.ofPayload Standard.st0601Key smpteStart, [0x34, 0x06, 0x0E])]

/-- Both packets are found, the first with the length field that was read. -/
theorem packets_survive_garbage_sample :
    ¬ smpteStart <:+: [0x06, 0x0E, 0x2B] ∧
    (∀ item ∈ sampleItems,
      item.1.Obtained ∧ smpteStart <+: item.1.key.bytes ∧ ¬ smpteStart <:+: item.2) ∧
    (start (Packet.scatter [0x06, 0x0E, 0x2B] sampleItems)).toList =
      [.ok ⟨Standard.st0601Key, [0x82, 0, 1], [0xAA]⟩,
        .ok (.ofPayload Standard.st0601Key smpteStart)] := by
  have hread : Packet.readNext (Standard.st0601Key.bytes ++ [0x82, 0, 1, 0xAA]) =
      .ok (some ⟨Standard.st0601Key, [0x82, 0, 1], [0xAA]⟩) [] := by
    rfl
  have hgarbage : ¬ smpteStart <:+: [0x06, 0x0E, 0x2B] := by decide
  have hitems : ∀ item ∈ sampleItems,
      item.1.Obtained ∧ smpteStart <+: item.1.key.bytes ∧ ¬ smpteStart <:+: item.2 := by
    intro item hmem
    rcases List.mem_cons.mp hmem with rfl | hmem
    · exact ⟨.read hread, by decide, by decide⟩
    · obtain rfl := List.mem_singleton.mp hmem
      exact ⟨.made _ _ (by decide), by decide, by decide⟩
  exact ⟨hgarbage, hitems, (packets_survive_garbage _ sampleItems hgarbage hitems).2⟩

end PacketReader

end KlvMetadata
