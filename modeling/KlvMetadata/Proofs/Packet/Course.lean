import KlvMetadata.Proofs.Packet.Framing

/-!
# The Course of a Reader

A reader skips bytes up to the first key in what is left, takes the packet there,
and goes on behind it. Where there is no key it is done, and where the packet cannot
be read it gives the error and is done as well.

This is put down as an inductive relation between the bytes, the packets with what
was skipped in front of each, the rest, and the error. Every stream has a course,
since a packet takes at least its key and the bytes behind it are fewer. What calls
give and what a run gives is then told once, by induction on the course, and a
stream of which more is known has to be given its course and nothing else.

## Main definitions

* `Packet.FirstKeyAt`: The first key starts behind a number of bytes.
* `PacketReader.calls`: What a number of calls give, and the position after them.
* `PacketReader.Course`: What a reader finds from a position on.

## Theorems

* `Packet.skipToKey_eq_none_iff`: Nothing is found if there is no key.
* `Packet.skipToKey_eq_some_iff`: Skipping goes to the first key.
* `PacketReader.exists_course`: Every stream has a course.
* `PacketReader.Course.calls_end_eq`, `run_eq`: What a reader gives along a course.
-/

namespace KlvMetadata

namespace Packet

open UniversalKey (smpteStart)

theorem skipToKey_cons_garbage {b : UInt8} {data : Bytes}
    (h : ¬ smpteStart <+: b :: data) : skipToKey (b :: data) = skipToKey data := by
  rw [skipToKey, if_neg fun hprefix => h (List.isPrefixOf_iff_prefix.mp hprefix)]

theorem skipToKey_self {data : Bytes} (h : smpteStart <+: data) :
    skipToKey data = some data := by
  cases data with
  | nil => exact absurd (List.prefix_nil.mp h) (by decide)
  | cons b data => rw [skipToKey, if_pos (List.isPrefixOf_iff_prefix.mpr h)]

/-- Nothing is found if there is no key. -/
theorem skipToKey_eq_none_iff {data : Bytes} :
    skipToKey data = none ↔ ¬ smpteStart <:+: data := by
  induction data with
  | nil => exact iff_of_true rfl (by decide)
  | cons b data ih =>
      rw [List.infix_cons_iff, not_or]
      by_cases hprefix : smpteStart <+: b :: data
      · simp [skipToKey_self hprefix, hprefix]
      · rw [skipToKey_cons_garbage hprefix, ih]
        exact (and_iff_right hprefix).symm

/-- The first key in the data starts behind this many bytes. -/
def FirstKeyAt (data : Bytes) (offset : Nat) : Prop :=
  smpteStart <+: data.drop offset ∧ ∀ earlier < offset, ¬ smpteStart <+: data.drop earlier

theorem firstKeyAt_zero {data : Bytes} : FirstKeyAt data 0 ↔ smpteStart <+: data := by
  simp [FirstKeyAt]

theorem firstKeyAt_cons_succ {b : UInt8} {data : Bytes} {offset : Nat} :
    FirstKeyAt (b :: data) (offset + 1) ↔ ¬ smpteStart <+: b :: data ∧ FirstKeyAt data offset := by
  unfold FirstKeyAt
  constructor
  · rintro ⟨hkey, hfirst⟩
    exact ⟨hfirst 0 (Nat.succ_pos _), hkey, fun earlier hlt => hfirst (earlier + 1) (by omega)⟩
  · rintro ⟨hhead, hkey, hfirst⟩
    refine ⟨hkey, fun earlier hlt => ?_⟩
    cases earlier with
    | zero => exact hhead
    | succ earlier => exact hfirst earlier (by omega)

/-- Skipping goes to the first key. -/
theorem skipToKey_eq_some_iff {data found : Bytes} :
    skipToKey data = some found ↔
      ∃ skipped, data = skipped ++ found ∧ FirstKeyAt data skipped.length := by
  induction data with
  | nil =>
      refine iff_of_false nofun ?_
      rintro ⟨skipped, _, hkey, _⟩
      rw [List.drop_nil] at hkey
      exact absurd (List.prefix_nil.mp hkey) (by decide)
  | cons b data ih =>
      by_cases hstart : smpteStart <+: b :: data
      · rw [skipToKey_self hstart, Option.some.injEq]
        constructor
        · rintro rfl
          exact ⟨[], rfl, firstKeyAt_zero.mpr hstart⟩
        · rintro ⟨skipped, heq, hfirst⟩
          cases skipped with
          | nil => exact heq
          | cons c skipped => exact absurd hstart (firstKeyAt_cons_succ.mp hfirst).1
      · rw [skipToKey_cons_garbage hstart, ih]
        constructor
        · rintro ⟨skipped, rfl, hfirst⟩
          exact ⟨b :: skipped, rfl, firstKeyAt_cons_succ.mpr ⟨hstart, hfirst⟩⟩
        · rintro ⟨skipped, heq, hfirst⟩
          cases skipped with
          | nil => exact absurd (firstKeyAt_zero.mp hfirst) hstart
          | cons c skipped =>
              exact ⟨skipped, (List.cons.inj heq).2, (firstKeyAt_cons_succ.mp hfirst).2⟩

theorem skipToKey_append_iff {skipped found : Bytes} :
    skipToKey (skipped ++ found) = some found ↔
      FirstKeyAt (skipped ++ found) skipped.length := by
  rw [skipToKey_eq_some_iff]
  constructor
  · rintro ⟨before, heq, hfirst⟩
    obtain rfl := List.append_cancel_right heq
    exact hfirst
  · exact fun hfirst => ⟨skipped, rfl, hfirst⟩

/-- A packet has the bytes of its key. -/
theorem one_le_length_encode (p : Packet) : 1 ≤ p.encode.length := by
  rw [encode, header, List.length_append, List.length_append, p.key.length_bytes]
  omega

end Packet

namespace PacketReader

open Packet (FirstKeyAt)
open UniversalKey (smpteStart)

/-- What `n` calls give, and the position after them. -/
def calls : (n : Nat) → PacketReader → List (Option (Except Error Packet)) × PacketReader
  | 0, r => ([], r)
  | n + 1, r =>
    let (result, after) := r.next
    let (results, last) := calls n after
    (result :: results, last)

/-- A call gives the packet that is read and goes on behind it. -/
theorem next_of_readNext {data rest : Bytes} {p : Packet}
    (h : Packet.readNext data = .ok (some p) rest) :
    (start data).next = (some (.ok p), start rest) := by
  rw [start, next, if_neg Bool.false_ne_true, h, start]

/-- A call that fails puts an end to reading. -/
theorem next_of_readNext_error {data left : Bytes} {e : Error}
    (h : Packet.readNext data = .error e left) :
    (start data).next = (some (.error e), ⟨left, true⟩) := by
  rw [start, next, if_neg Bool.false_ne_true, h]

/-- Where there is no key a call gives nothing, and nothing is left. -/
theorem next_of_no_key {data : Bytes} (h : ¬ smpteStart <:+: data) :
    (start data).next = (none, start []) := by
  have hnone : Packet.skipToKey data = none := Packet.skipToKey_eq_none_iff.mpr h
  rw [start, next, if_neg Bool.false_ne_true, Packet.readNext, hnone, start]

/-- A reader that gives nothing and stays where it is does so for good. -/
theorem calls_of_next_none {r : PacketReader} (h : r.next = (none, r)) (k : Nat) :
    calls k r = (List.replicate k none, r) := by
  induction k with
  | zero => rfl
  | succ k ih => simp only [calls, h, ih, List.replicate_succ]

theorem calls_end (k : Nat) : calls k (start []) = (List.replicate k none, start []) :=
  calls_of_next_none rfl k

/-- What a reader finds from a position on: packets with what was skipped in front of
    each, the bytes that are left when there are no more, and the error that put an end to
    it, if one did. -/
inductive Course : Bytes → List (Bytes × Packet) → Bytes → Option Error → Prop
  | ended {rest : Bytes} : ¬ smpteStart <:+: rest → Course rest [] rest none
  | failed {rest left : Bytes} {e : Error} : smpteStart <:+: rest →
      Packet.readNext rest = .error e left → Course rest [] rest (some e)
  | found {skipped data rest : Bytes} {p : Packet} {items : List (Bytes × Packet)}
      {stop : Option Error} : FirstKeyAt (skipped ++ (p.encode ++ data)) skipped.length →
      p.Framed → Course data items rest stop →
      Course (skipped ++ (p.encode ++ data)) ((skipped, p) :: items) rest stop

/-- Every stream has a course, since what is behind a packet is shorter. -/
theorem exists_course (data : Bytes) : ∃ items rest stop, Course data items rest stop := by
  induction hlength : data.length using Nat.strongRecOn generalizing data with
  | ind length ih =>
    cases hread : Packet.readNext data with
    | error e left =>
        refine ⟨[], data, some e, .failed ?_ hread⟩
        by_contra hnone
        rw [Packet.readNext, Packet.skipToKey_eq_none_iff.mpr hnone] at hread
        contradiction
    | ok next left =>
        cases next with
        | none =>
            refine ⟨[], data, none, .ended fun hkey => ?_⟩
            unfold Packet.readNext at hread
            cases hskip : Packet.skipToKey data with
            | none => exact Packet.skipToKey_eq_none_iff.mp hskip hkey
            | some found =>
                simp only [hskip, Action.map_apply] at hread
                split at hread <;> simp at hread
        | some p =>
            rcases Packet.readNext_eq_ok_some_iff.mp hread with ⟨hframed, hskip⟩
            rcases Packet.skipToKey_eq_some_iff.mp hskip with ⟨skipped, rfl, hfirst⟩
            have hpos := p.one_le_length_encode
            have hshorter : left.length < length := by
              rw [← hlength, List.length_append, List.length_append]
              omega
            rcases ih left.length hshorter left rfl with ⟨items, rest, stop, hcourse⟩
            exact ⟨(skipped, p) :: items, rest, stop, .found hfirst hframed hcourse⟩

namespace Course

variable {data rest : Bytes} {items : List (Bytes × Packet)} {stop : Option Error}

/-- The call that finds a packet. -/
theorem next_found {skipped data : Bytes} {p : Packet}
    (hfirst : FirstKeyAt (skipped ++ (p.encode ++ data)) skipped.length) (hframed : p.Framed) :
    (start (skipped ++ (p.encode ++ data))).next = (some (.ok p), start data) :=
  next_of_readNext (Packet.readNext_eq_ok_some_iff.mpr
    ⟨hframed, Packet.skipToKey_append_iff.mpr hfirst⟩)

/-- One more call gives the error or nothing, and all later ones nothing. -/
theorem calls_end_eq (h : Course data items rest stop) :
    ∃ left, (stop = none → left = []) ∧ ∀ k,
      calls (items.length + 1 + k) (start data) =
        (items.map (fun item => some (.ok item.2)) ++
          stop.map Except.error :: List.replicate k none, ⟨left, stop.isSome⟩) := by
  induction h with
  | ended hnone =>
      refine ⟨[], fun _ => rfl, fun k => ?_⟩
      rw [List.length_nil, Nat.zero_add, Nat.add_comm]
      simp only [calls, next_of_no_key hnone, calls_end]
      rfl
  | @failed rest left e hkey hread =>
      refine ⟨left, fun hnone => absurd hnone (Option.some_ne_none e), fun k => ?_⟩
      have hnext : (start rest).next = (some (.error e), ⟨left, true⟩) :=
        next_of_readNext_error hread
      have hstill : (⟨left, true⟩ : PacketReader).next = (none, ⟨left, true⟩) := rfl
      rw [List.length_nil, Nat.zero_add, Nat.add_comm]
      simp only [calls, hnext, calls_of_next_none hstill]
      rfl
  | @found skipped data rest p items stop hfirst hframed hcourse ih =>
      rcases ih with ⟨left, hleft, hcalls⟩
      refine ⟨left, hleft, fun k => ?_⟩
      have hcount : ((skipped, p) :: items).length + 1 + k = items.length + 1 + k + 1 := by
        rw [List.length_cons]
        omega
      rw [hcount]
      simp only [calls, next_found hfirst hframed, hcalls, List.map_cons, List.cons_append]

/-- A run that has a step for each packet and one more gives the packets and the
    error. -/
theorem run_eq (h : Course data items rest stop) {fuel : Nat} (hfuel : items.length ≤ fuel) :
    (run (fuel + 1) (start data)).map (·.1) =
      items.map (fun item => .ok item.2) ++ (stop.map Except.error).toList := by
  induction h generalizing fuel with
  | ended hnone => simp only [run, next_of_no_key hnone, List.map_nil]; rfl
  | @failed rest left e hkey hread =>
      have hnext : (start rest).next = (some (.error e), ⟨left, true⟩) :=
        next_of_readNext_error hread
      have hover : run fuel ⟨left, true⟩ = [] := by cases fuel <;> rfl
      simp only [run, hnext, hover]
      rfl
  | @found skipped data rest p items stop hfirst hframed hcourse ih =>
      have hpos : 1 ≤ fuel := Nat.le_trans (Nat.succ_le_succ (Nat.zero_le _)) hfuel
      obtain ⟨fuel, rfl⟩ := Nat.exists_eq_add_of_le' hpos
      rw [run, next_found hfirst hframed]
      simp only [List.map_cons, List.cons_append, ih (Nat.le_of_succ_le_succ hfuel)]

/-- A packet has the bytes of its key, so there are no more packets than bytes. -/
theorem length_le (h : Course data items rest stop) : items.length ≤ data.length := by
  induction h with
  | ended _ => exact Nat.zero_le _
  | failed _ _ => exact Nat.zero_le _
  | @found skipped data rest p items stop _ _ _ ih =>
      have hpos := p.one_le_length_encode
      rw [List.length_append, List.length_append, List.length_cons]
      omega

theorem toList_eq (h : Course data items rest stop) :
    (start data).toList = items.map (fun item => .ok item.2) ++ (stop.map Except.error).toList :=
  h.run_eq h.length_le

/-- There is an error if there is a key in the rest. -/
theorem stop_eq_none_iff (h : Course data items rest stop) :
    stop = none ↔ ¬ smpteStart <:+: rest := by
  induction h with
  | ended hnone => exact iff_of_true rfl hnone
  | failed hkey _ => exact iff_of_false nofun (not_not_intro hkey)
  | found _ _ _ ih => exact ih

end Course

end PacketReader

end KlvMetadata
