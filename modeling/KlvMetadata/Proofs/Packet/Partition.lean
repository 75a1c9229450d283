import KlvMetadata.Proofs.Packet.Course

/-!
# Any Stream Falls Apart

A stream of bytes that nobody vouches for is still read in an orderly way. Each
packet stands behind bytes in which no key starts, so nothing that is skipped was
the beginning of a packet; and it keeps its length field, so its bytes are those
that were read. What is left in the end has no key in it, or starts a packet that
cannot be read, and this is the one error there is.

The course of a reader has all of this in it. What it does not say is that the bytes
it was found in are those of the packets and of what lies around them, with nothing
lost and nothing added, and that a reader stands in front of these after each call.

## Main definitions

* `Packet.gather`: Packets behind what was skipped, and a rest.

## Theorems

* `PacketReader.Course.eq_gather`: The bytes are those that were found.
* `PacketReader.Course.at_item`: What is known of each packet.
* `PacketReader.Course.calls_eq`: What calls give, and what is left behind them.
* `PacketReader.reading_partitions`: A reader takes any stream apart.
-/

namespace KlvMetadata

namespace Packet

open UniversalKey (smpteStart)

/-- Packets, each behind what was skipped to get to it, and a rest. -/
def gather (items : List (Bytes × Packet)) (rest : Bytes) : Bytes :=
  items.flatMap (fun item => item.1 ++ item.2.encode) ++ rest

theorem gather_cons (item : Bytes × Packet) (items : List (Bytes × Packet)) (rest : Bytes) :
    gather (item :: items) rest = item.1 ++ (item.2.encode ++ gather items rest) := by
  simp only [gather, List.flatMap_cons, List.append_assoc]

/-- A packet that starts like a registered key has one. -/
theorem prefix_key_of_prefix_encode {p : Packet} {rest : Bytes}
    (h : smpteStart <+: p.encode ++ rest) : smpteStart <+: p.key.bytes := by
  rw [encode, header, List.append_assoc, List.append_assoc] at h
  refine List.prefix_of_prefix_length_le h (List.prefix_append _ _) ?_
  rw [p.key.length_bytes]
  decide

/-- What is read from a framed packet's length field is the number of its bytes. -/
theorem Framed.read_lengthField {p : Packet} (h : p.Framed) :
    ∃ length, Ber.read maxLengthField p.lengthField = .ok length [] ∧
      length.toNat = p.payload.length := by
  refine ⟨UInt64.ofNat p.payload.length, ?_, UInt64.toNat_ofNat_of_lt' h.payload_lt⟩
  have hread := h.spells_length.read h.length_le []
  rwa [List.append_nil] at hread

end Packet

namespace PacketReader

open Packet (FirstKeyAt gather)
open UniversalKey (smpteStart)

namespace Course

variable {data rest : Bytes} {items : List (Bytes × Packet)} {stop : Option Error}

/-- The bytes are those that were found. -/
theorem eq_gather (h : Course data items rest stop) : data = gather items rest := by
  induction h with
  | ended _ => rfl
  | failed _ _ => rfl
  | found _ _ _ ih => rw [Packet.gather_cons, ← ih]

/-- Wherever the reader stands before a packet, the first key starts behind what it
    skips, and the packet is framed. -/
theorem at_item (h : Course data items rest stop) {n : Nat} (hn : n < items.length) :
    FirstKeyAt (gather (items.drop n) rest) items[n].1.length ∧ items[n].2.Framed ∧
      smpteStart <+: items[n].2.key.bytes := by
  induction h generalizing n with
  | ended _ => contradiction
  | failed _ _ => contradiction
  | @found skipped data rest p items stop hfirst hframed hcourse ih =>
      cases n with
      | zero =>
          have hkey := hfirst.1
          rw [List.drop_left] at hkey
          rw [hcourse.eq_gather, ← Packet.gather_cons (skipped, p)] at hfirst
          exact ⟨hfirst, hframed, Packet.prefix_key_of_prefix_encode hkey⟩
      | succ n => exact ih (Nat.lt_of_succ_lt_succ hn)

/-- As many calls as there are packets, or fewer, give packets alone. -/
theorem calls_eq (h : Course data items rest stop) {n : Nat} (hn : n ≤ items.length) :
    calls n (start data) =
      ((items.take n).map fun item => some (.ok item.2), start (gather (items.drop n) rest)) := by
  induction n generalizing data items with
  | zero =>
      rw [h.eq_gather]
      rfl
  | succ n ih =>
      cases h with
      | ended _ => contradiction
      | failed _ _ => contradiction
      | found hfirst hframed hcourse =>
          simp only [calls, next_found hfirst hframed, ih hcourse (Nat.le_of_succ_le_succ hn),
            List.take_succ_cons, List.map_cons, List.drop_succ_cons]

end Course

/-- Whatever the bytes of a stream are, they are packets, each behind what is skipped
    to get to it, and a rest. Before each packet the first key in what has not been
    read starts behind the bytes that are skipped; the packet has a registered key,
    and a length field of one to nine bytes that is read as the number of bytes in its
    payload. The calls give these packets and leave what stands behind them; then one
    call gives the error or nothing, and all later ones nothing. There is no error if
    there is no key in the rest, and then nothing is left. -/
theorem reading_partitions (data : Bytes) :
    ∃ (items : List (Bytes × Packet)) (rest : Bytes) (stop : Option Error),
      data = gather items rest ∧
      (∀ n (hn : n < items.length),
        FirstKeyAt (gather (items.drop n) rest) items[n].1.length ∧
        smpteStart <+: items[n].2.key.bytes ∧
        1 ≤ items[n].2.lengthField.length ∧ items[n].2.lengthField.length ≤ 9 ∧
        ∃ length, Ber.read 9 items[n].2.lengthField = .ok length [] ∧
          length.toNat = items[n].2.payload.length) ∧
      (∀ n ≤ items.length, calls n (start data) =
        ((items.take n).map fun item => some (.ok item.2), start (gather (items.drop n) rest))) ∧
      (∃ left, (stop = none → left = []) ∧ ∀ k,
        calls (items.length + 1 + k) (start data) =
          (items.map (fun item => some (.ok item.2)) ++
            stop.map Except.error :: List.replicate k none, ⟨left, stop.isSome⟩)) ∧
      (start data).toList =
        items.map (fun item => .ok item.2) ++ (stop.map Except.error).toList ∧
      (stop = none ↔ ¬ smpteStart <:+: rest) := by
  rcases exists_course data with ⟨items, rest, stop, hcourse⟩
  refine ⟨items, rest, stop, hcourse.eq_gather, fun n hn => ?_, fun n hn => hcourse.calls_eq hn,
    hcourse.calls_end_eq, hcourse.toList_eq, hcourse.stop_eq_none_iff⟩
  rcases hcourse.at_item hn with ⟨hfirst, hframed, hkey⟩
  exact ⟨hfirst, hkey, hframed.spells_length.length_pos, hframed.length_le,
    hframed.read_lengthField⟩

end PacketReader

end KlvMetadata
