import KlvMetadata.Proofs.Checksum
import KlvMetadata.Proofs.Packet.RoundTrip
import Mathlib.Data.List.DropRight

/-!
# The Verdict on a Packet

A packet of a UAS datalink set carries the sum over all its bytes but the two of
the sum itself. The decoder never sees these bytes in one piece: it adds up the
key with the length field, the body, and the header of the trailer, which is the
same for all packets. Adding goes on where it stopped, so this is the sum over the
packet as it was sent, in whatever way its length was spelled.

The sum has a say in the verdict alone. What is decoded is the body, and the body
does not depend on the sum that is carried, so a packet with a wrong sum gives the
same value or the same error as one with the right sum.

A byte of the payload stands in the body, in the header of the trailer or in the
sum. If it is changed in the body, the computed sum changes and the one that is
carried does not; in the sum it is the other way round; and without its header
there is no trailer. So a change of one byte turns a valid packet into one that
is refused or does not match. The same change in two bytes may well go unnoticed.

## Theorems

* `Trailer.checksum_eq`: The sum of a trailer covers its header.
* `Trailer.read_eq_ok_iff`: A trailer is read from the data that end in one.
* `PacketFormats.decode_eq_ok_iff`: What decoding a packet has done.
* `PacketFormats.encode_eq_ok`: What encoding a value has done.
* `PacketFormats.verdict_over_wire_bytes`: The verdict compares the sum that is
  carried with the sum over the bytes before it.
* `PacketFormats.changed_byte_is_detected`: A packet with one byte changed is not
  valid.
-/

namespace KlvMetadata

namespace Trailer

/-- The sum of a trailer covers its header. -/
theorem checksum_eq (covered : Bytes) :
    checksum covered = KlvMetadata.checksum (covered ++ header) := by
  rw [checksum, KlvMetadata.checksum, RunningSum.add_append]

/-- Any two bytes behind the header are a sum. -/
theorem bytes_of_two {x : Bytes} (h : x.length = 2) :
    bytes (UInt16.ofNat (Bytes.toNat x)) = header ++ x := by
  have hfits : Bytes.toNat x < UInt16.size := by
    have hlt := Bytes.toNat_lt x
    rwa [h] at hlt
  rw [bytes, UInt16.toNat_ofNat_of_lt' hfits, ← h, Bytes.ofNat_toNat]

/-- A trailer is read from the data that end in one. -/
theorem read_eq_ok_iff {data : Bytes} {sum : UInt16} :
    read data = .ok sum ↔ ∃ body, data = body ++ bytes sum := by
  constructor
  · intro h
    unfold read at h
    split at h
    · contradiction
    · next hlong =>
      dsimp only at h
      split at h
      · contradiction
      · next hheader =>
        rw [Classical.not_not] at hheader
        obtain rfl := Except.ok.inj h
        -- Behind the header there are two bytes, so they are the sum.
        have htwo : ((data.drop (data.length - length)).drop header.length).length = 2 := by
          have hsize : length = 4 := rfl
          have hheader : header.length = 2 := rfl
          rw [List.length_drop, List.length_drop]
          omega
        refine ⟨data.take (data.length - length), ?_⟩
        have hsplit := List.take_append_drop header.length (data.drop (data.length - length))
        rw [hheader] at hsplit
        rw [bytes_of_two htwo, hsplit, List.take_append_drop]
  · rintro ⟨body, rfl⟩
    exact read_append body sum

/-- A sum is known from its trailer. -/
theorem bytes_injective : Function.Injective bytes := by
  intro sum sum' h
  have hread := read_append [] sum
  rw [h, read_append] at hread
  exact (Except.ok.inj hread).symm

/-- A changed byte changes the sum of the trailer. -/
theorem checksum_ne (front behind : Bytes) {a b : UInt8} (h : a ≠ b) :
    checksum (front ++ a :: behind) ≠ checksum (front ++ b :: behind) := by
  simp only [checksum_eq, List.append_assoc, List.cons_append]
  exact RunningSum.sum_add_ne _ _ _ h

end Trailer

/-- Two runs of bytes that differ in one place are the same before and behind it. -/
theorem Bytes.exists_of_one_change {xs ys : Bytes} (hlength : ys.length = xs.length)
    (hone : ∃! i : Nat, ys[i]? ≠ xs[i]?) :
    ∃ front a b behind, a ≠ b ∧ xs = front ++ a :: behind ∧ ys = front ++ b :: behind := by
  rcases hone with ⟨i, hne, hunique⟩
  have hsame (j : Nat) (hj : j ≠ i) : ys[j]? = xs[j]? :=
    Classical.byContradiction fun h => hj (hunique j h)
  have hx : i < xs.length := by
    by_contra h
    exact hne (by rw [List.getElem?_eq_none (by omega), List.getElem?_eq_none (by omega)])
  have hy : i < ys.length := hlength ▸ hx
  have hfront : ys.take i = xs.take i := by
    refine List.ext_getElem? fun j => ?_
    rw [List.getElem?_take, List.getElem?_take]
    split
    · next hj => exact hsame j (Nat.ne_of_lt hj)
    · rfl
  have hbehind : ys.drop (i + 1) = xs.drop (i + 1) := by
    refine List.ext_getElem? fun j => ?_
    rw [List.getElem?_drop, List.getElem?_drop]
    exact hsame _ (by omega)
  refine ⟨xs.take i, xs[i], ys[i], xs.drop (i + 1), ?_, ?_, ?_⟩
  · intro h
    rw [List.getElem?_eq_getElem hx, List.getElem?_eq_getElem hy, h] at hne
    exact hne rfl
  · rw [← List.drop_eq_getElem_cons hx, List.take_append_drop]
  · rw [← hfront, ← hbehind, ← List.drop_eq_getElem_cons hy, List.take_append_drop]

namespace ChecksumStatus

theorem ofSums_eq_valid_iff {expected computed : UInt16} :
    ofSums expected computed = .valid ↔ expected = computed := by
  unfold ofSums
  split
  · next h => exact iff_of_true rfl h
  · next h => exact iff_of_false nofun h

theorem ofSums_of_ne {expected computed : UInt16} (h : expected ≠ computed) :
    ofSums expected computed = .mismatch expected computed := if_neg h

end ChecksumStatus

namespace PacketFormats

variable {schema : Schema Format}

/-- Without a trailer there is nothing to split. -/
theorem splitTrailer_error {p : Packet} {e : Error} (h : Trailer.read p.payload = .error e) :
    splitTrailer (.st0601 schema) p = .error e := by
  have hlength : ¬ (Format.st0601 schema).trailerLength = 0 := Nat.succ_ne_zero 3
  rw [splitTrailer, if_neg hlength]
  split
  · next hshort =>
    -- The reader of trailers says the same of a payload that is too short.
    have hsame : Trailer.read p.payload = .error (.framing .checksumMissing) := if_pos hshort
    obtain rfl := Except.error.inj (hsame.symm.trans h)
    rfl
  · change (Trailer.read p.payload >>= fun sum => _) = _
    rw [h]
    rfl

/-- What decoding a packet has done: it has read the body, and compared the sum
    that is carried with the computed one. -/
theorem decode_eq_ok_iff {p : Packet} {d : Decoded} (hkey : p.key = Standard.st0601Key) :
    (withSchema schema).decode p = .ok d ↔
      ∃ body sum, p.payload = body ++ Trailer.bytes sum ∧
        readBody (.st0601 schema) body = .ok d.value ∧
        d.checksum = .ofSums sum (Trailer.checksum (p.header ++ body)) := by
  constructor
  · intro h
    have htrailer : ∃ sum, Trailer.read p.payload = .ok sum := by
      cases hread : Trailer.read p.payload with
      | ok sum => exact ⟨sum, rfl⟩
      | error e =>
          rw [decode_eq hkey, splitTrailer_error hread] at h
          contradiction
    rcases htrailer with ⟨sum, hread⟩
    rcases Trailer.read_eq_ok_iff.mp hread with ⟨body, hpayload⟩
    rw [decode_append hkey hpayload] at h
    cases hbody : readBody (.st0601 schema) body with
    | error e =>
        rw [hbody] at h
        contradiction
    | ok v =>
        rw [hbody] at h
        obtain rfl := Except.ok.inj h
        exact ⟨body, sum, hpayload, hbody, rfl⟩
  · rintro ⟨body, sum, hpayload, hbody, hstatus⟩
    rw [decode_append hkey hpayload, hbody, ← hstatus]
    rfl

/-- What encoding a value has done: the value was written, and what was written is
    the body of the packet. -/
theorem encode_eq_ok {v : Value} {p : Packet} (h : (withSchema schema).encode .st0601 v = .ok p) :
    ∃ body, (Format.st0601 schema).codec.Settles v (.written body) ∧ p = .ofBody body := by
  rcases Format.definite (.st0601 schema) v with ⟨o, ho⟩
  rw [encode_eq rfl ho] at h
  cases o with
  | written body => exact ⟨body, ho, (Except.ok.inj h).symm⟩
  | unmeasured e | unwritable length e => contradiction

/-- What is decoded does not depend on the sum that is carried. -/
theorem value_decode_append {p : Packet} {body : Bytes} {sum : UInt16}
    (hkey : p.key = Standard.st0601Key) (hpayload : p.payload = body ++ Trailer.bytes sum) :
    Decoded.value <$> (withSchema schema).decode p = readBody (.st0601 schema) body := by
  rw [decode_append hkey hpayload]
  cases readBody (.st0601 schema) body <;> rfl

/-- The bytes of a packet before the sum are those that are added up. -/
theorem checksum_covered {p : Packet} {body : Bytes} {sum : UInt16}
    (hpayload : p.payload = body ++ Trailer.bytes sum) :
    Trailer.checksum (p.header ++ body) = checksum (p.encode.rdrop 2) := by
  have hencode : p.encode = (p.header ++ body ++ Trailer.header) ++ Bytes.ofNat 2 sum.toNat := by
    simp only [Packet.encode, hpayload, Trailer.bytes, List.append_assoc]
  have hcut : p.encode.rdrop 2 = p.header ++ body ++ Trailer.header :=
    hencode ▸ List.rdrop_append_length
  rw [Trailer.checksum_eq, hcut]

/-- A packet is decoded only if it ends in a trailer; then the verdict compares
    the sum that is carried with the sum over all bytes before it, as they were
    sent. What is decoded apart from that does not depend on the sum. And what was
    encoded is found valid if it is decoded at all. -/
theorem verdict_over_wire_bytes (schema : Schema Format) :
    (∀ (p : Packet) (d : Decoded), p.key = Standard.st0601Key →
      (withSchema schema).decode p = .ok d →
      ∃ (body x : Bytes) (carried : UInt16), x.length = 2 ∧
        p.payload = body ++ ([0x01, 0x02] ++ x) ∧ carried.toNat = Bytes.toNat x ∧
        (d.checksum = .valid ↔ carried = checksum (p.encode.rdrop 2)) ∧
        (d.checksum ≠ .valid →
          d.checksum = .mismatch carried (checksum (p.encode.rdrop 2)))) ∧
    (∀ lengthField body x y : Bytes, x.length = 2 → y.length = 2 →
      Decoded.value <$> (withSchema schema).decode
          ⟨Standard.st0601Key, lengthField, body ++ ([0x01, 0x02] ++ x)⟩ =
        Decoded.value <$> (withSchema schema).decode
          ⟨Standard.st0601Key, lengthField, body ++ ([0x01, 0x02] ++ y)⟩) ∧
    ∀ (v : Value) (p : Packet) (d : Decoded), (withSchema schema).encode .st0601 v = .ok p →
      (withSchema schema).decode p = .ok d → d.checksum = .valid := by
  refine ⟨fun p d hkey hdecode => ?_, fun lengthField body x y hx hy => ?_,
    fun v p d hencode hdecode => ?_⟩
  · rcases (decode_eq_ok_iff hkey).mp hdecode with ⟨body, carried, hpayload, _, hstatus⟩
    rw [checksum_covered hpayload] at hstatus
    have hfits : carried.toNat < 256 ^ 2 := carried.toNat_lt
    have hx : Bytes.toNat (Bytes.ofNat 2 carried.toNat) = carried.toNat := by
      rw [Bytes.toNat_ofNat, Nat.mod_eq_of_lt hfits]
    refine ⟨body, Bytes.ofNat 2 carried.toNat, carried, Bytes.length_ofNat 2 _, hpayload, hx.symm,
      ?_, ?_⟩
    · rw [hstatus]
      exact ChecksumStatus.ofSums_eq_valid_iff
    · rw [hstatus]
      exact fun hne => ChecksumStatus.ofSums_of_ne (mt ChecksumStatus.ofSums_eq_valid_iff.mpr hne)
  · have hread (z : Bytes) (hz : z.length = 2) :
        Decoded.value <$> (withSchema schema).decode
          ⟨Standard.st0601Key, lengthField, body ++ ([0x01, 0x02] ++ z)⟩ =
            readBody (.st0601 schema) body :=
      value_decode_append rfl (congrArg (body ++ ·) (Trailer.bytes_of_two hz).symm)
    rw [hread x hx, hread y hy]
  · rcases encode_eq_ok hencode with ⟨body, _, rfl⟩
    rw [decode_ofBody] at hdecode
    cases hread : readBody (.st0601 schema) body with
    | error e =>
        rw [hread] at hdecode
        contradiction
    | ok w =>
        rw [hread] at hdecode
        obtain rfl := Except.ok.inj hdecode
        rfl

/-- A timestamp alone. -/
def stamp : Bytes := [2, 8, 0, 0, 0, 0, 0, 0, 0, 7]

theorem readBody_stamp : readBody (.st0601 sampleSchema) stamp =
    .ok ⟨some (.localSet [(2, ⟨some (.u64 7), 8⟩)]), 10⟩ := by
  rfl

/-- A packet with a length in long form, and zeros where the sum should be. -/
def unsummedPacket : Packet := ⟨Standard.st0601Key, [0x81, 14], stamp ++ Trailer.bytes 0⟩

/-- The zeros do not match the sum over the long form. -/
theorem verdict_over_wire_bytes_long_form :
    ∃ d, (withSchema sampleSchema).decode unsummedPacket = .ok d ∧
      d.checksum = .mismatch 0 (checksum (unsummedPacket.encode.rdrop 2)) := by
  have hdecode : ∃ d, (withSchema sampleSchema).decode unsummedPacket = .ok d := by
    rw [decode_append rfl rfl, readBody_stamp]
    exact ⟨_, rfl⟩
  rcases hdecode with ⟨d, hdecode⟩
  rcases (verdict_over_wire_bytes sampleSchema).1 unsummedPacket d rfl hdecode with
    ⟨body, x, carried, hx, hpayload, hcarried, hvalid, hmismatch⟩
  have htrailer : Trailer.bytes 0 = [0x01, 0x02] ++ x :=
    (List.append_inj' hpayload (by rw [Trailer.length_bytes, List.length_append, hx]; rfl)).2
  obtain rfl : x = [0, 0] := (List.append_cancel_left htrailer).symm
  obtain rfl : carried = 0 := UInt16.toNat_inj.mp hcarried
  have hsum : (0 : UInt16) ≠ checksum (unsummedPacket.encode.rdrop 2) := by decide +kernel
  exact ⟨d, hdecode, hmismatch fun h => hsum (hvalid.mp h)⟩

/-- Of two payloads with trailers that differ in one byte, if the first carries its
    sum the second does not carry its own. -/
theorem ne_checksum_of_change {header body body' front behind : Bytes} {sum sum' : UInt16}
    {a b : UInt8} (hne : a ≠ b) (h : body ++ Trailer.bytes sum = front ++ a :: behind)
    (h' : body' ++ Trailer.bytes sum' = front ++ b :: behind)
    (hsum : sum = Trailer.checksum (header ++ body)) :
    sum' ≠ Trailer.checksum (header ++ body') := by
  intro hsum'
  have hlength : body.length = body'.length := by
    have hfirst := congrArg List.length h
    have hsecond := congrArg List.length h'
    rw [List.length_append, Trailer.length_bytes, List.length_append, List.length_cons]
      at hfirst hsecond
    omega
  rcases Nat.lt_or_ge front.length body.length with hinside | hbehind
  · -- The change is in the body, so the trailers are the same and the sums are not.
    have hstart : front ++ [a] <+: body := by
      refine List.prefix_of_prefix_length_le ?_ (List.prefix_append body (Trailer.bytes sum)) ?_
      · exact ⟨behind, by rw [h, List.append_assoc, List.singleton_append]⟩
      · rwa [List.length_append, List.length_singleton]
    rcases hstart with ⟨between, rfl⟩
    have hrest : behind = between ++ Trailer.bytes sum := by
      simpa using h.symm
    have hbody' : body' = front ++ b :: between ∧ Trailer.bytes sum' = Trailer.bytes sum := by
      refine List.append_inj ?_ ?_
      · rw [h', hrest, List.append_assoc, List.cons_append]
      · simpa using hlength.symm
    rcases hbody' with ⟨rfl, htrailer⟩
    have hsame : sum' = sum := Trailer.bytes_injective htrailer
    refine Trailer.checksum_ne (header ++ front) between hne ?_
    simpa using hsum.symm.trans (hsame.symm.trans hsum')
  · -- The change is in the trailer, so the bodies and the sums over them are the same.
    have hstart : body <+: front := by
      refine List.prefix_of_prefix_length_le (List.prefix_append body (Trailer.bytes sum)) ?_
        hbehind
      rw [h]
      exact List.prefix_append _ _
    rcases hstart with ⟨between, rfl⟩
    rw [List.append_assoc] at h h'
    have htrailer : Trailer.bytes sum = between ++ a :: behind := List.append_cancel_left h
    rcases List.append_inj h' hlength.symm with ⟨rfl, htrailer'⟩
    rw [hsum', ← hsum, htrailer] at htrailer'
    exact hne (List.cons.inj (List.append_cancel_left htrailer')).1

/-- If a valid packet and another have the same key, the same length field and
    payloads of the same length that differ in one byte, wherever that byte stands
    and whatever it is changed to: the other is refused, or it does not match. -/
theorem changed_byte_is_detected (schema : Schema Format) {p q : Packet} {d : Decoded}
    (hkey : p.key = Standard.st0601Key) (hdecode : (withSchema schema).decode p = .ok d)
    (hvalid : d.checksum = .valid) (hkeys : q.key = p.key)
    (hfields : q.lengthField = p.lengthField) (hlength : q.payload.length = p.payload.length)
    (hone : ∃! i : Nat, q.payload[i]? ≠ p.payload[i]?) :
    (∃ e, (withSchema schema).decode q = .error e) ∨
      ∃ d' expected computed, (withSchema schema).decode q = .ok d' ∧
        d'.checksum = .mismatch expected computed := by
  cases hchanged : (withSchema schema).decode q with
  | error e => exact Or.inl ⟨e, rfl⟩
  | ok d' =>
      rcases (decode_eq_ok_iff hkey).mp hdecode with ⟨body, sum, hp, _, hstatus⟩
      rcases (decode_eq_ok_iff (hkeys.trans hkey)).mp hchanged with ⟨body', sum', hq, _, hstatus'⟩
      rcases Bytes.exists_of_one_change hlength hone with ⟨front, a, b, behind, hne, hp', hq'⟩
      have hheader : q.header = p.header := by
        rw [Packet.header, Packet.header, hkeys, hfields]
      have hsum : sum = Trailer.checksum (p.header ++ body) :=
        ChecksumStatus.ofSums_eq_valid_iff.mp (hstatus.symm.trans hvalid)
      have hdiffer : sum' ≠ Trailer.checksum (p.header ++ body') :=
        ne_checksum_of_change hne (hp.symm.trans hp') (hq.symm.trans hq') hsum
      rw [hheader, ChecksumStatus.ofSums_of_ne hdiffer] at hstatus'
      exact Or.inr ⟨d', _, _, rfl, hstatus'⟩

/-- A packet with a later timestamp, and the sum that went with the earlier one. -/
def restampedPacket : Packet :=
  { Packet.ofBody stamp with payload := (Packet.ofBody stamp).payload.set 9 0xFF }

/-- The timestamps differ in one byte, which is detected. -/
theorem changed_byte_is_detected_restamped :
    (∃ d, (withSchema sampleSchema).decode (.ofBody stamp) = .ok d ∧ d.checksum = .valid) ∧
    (∃! i : Nat, restampedPacket.payload[i]? ≠ (Packet.ofBody stamp).payload[i]?) ∧
    ((∃ e, (withSchema sampleSchema).decode restampedPacket = .error e) ∨
      ∃ d' expected computed, (withSchema sampleSchema).decode restampedPacket = .ok d' ∧
        d'.checksum = .mismatch expected computed) := by
  have hone : ∃! i : Nat, restampedPacket.payload[i]? ≠ (Packet.ofBody stamp).payload[i]? := by
    refine ⟨9, ?_, fun j hj => ?_⟩
    · change (some 0xFF : Option UInt8) ≠ some 7
      decide
    · by_contra hne
      exact hj (List.getElem?_set_ne (Ne.symm hne))
  have hdecode : (withSchema sampleSchema).decode (.ofBody stamp) =
      .ok ⟨⟨some (.localSet [(2, ⟨some (.u64 7), 8⟩)]), 10⟩, .valid⟩ := by
    rw [decode_ofBody, readBody_stamp]
    rfl
  exact ⟨⟨_, hdecode, rfl⟩, hone,
    changed_byte_is_detected sampleSchema rfl hdecode rfl rfl rfl List.length_set hone⟩

end PacketFormats

end KlvMetadata
