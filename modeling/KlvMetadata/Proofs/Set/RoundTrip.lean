import KlvMetadata.Proofs.Set.Writing

/-!
# Reading Back Sets

A value that its codec writes and reads back keeps doing so inside a set. The
entry around it is a frame: the key, the length of the value, and the value.
Each part of a frame tells where it ends, so frames that stand one behind the
other are read one after the other, and nothing but the frames is written.

Lengths are words, so the bytes of one value must be fewer than a word counts.

## Main definitions

* `Codec.Carries`: A value is written as some bytes and read back from them.
* `SetCodec.frame`: The bytes of an entry around those of its value.

## Theorems

* `SetCodec.readEntry_frame`, `SetCodec.readEntries_frames`: Reading frames.
* `SetCodec.entriesLength_frames`, `SetCodec.appends_writeEntries`: Measuring
  and writing entries comes down to their frames.
-/

namespace KlvMetadata

/-- A value is written as these bytes, and read back from them as another. -/
structure Codec.Carries (c : Codec) (v : Value) (bytes : Bytes) (w : Value) : Prop where
  written : c.Settles v (.written bytes)
  read : ∀ rest, c.read bytes.length (bytes ++ rest) = .ok w rest

namespace SetCodec

variable {κ : Type} [SetKey κ] [SetKey.Lawful κ] {schema : Schema Codec}

/-- The bytes of an entry whose value has these bytes. -/
def frame (key : κ) (bytes : Bytes) : Bytes :=
  SetKey.Lawful.encode key ++ (Ber.encode (UInt64.ofNat bytes.length) ++ bytes)

/-- A frame has at least the byte of its length. -/
theorem frame_ne_nil (key : κ) (bytes : Bytes) : frame key bytes ≠ [] := by
  have hpos := Ber.length_pos (UInt64.ofNat bytes.length)
  rw [← List.length_pos_iff, frame, List.length_append, List.length_append, Ber.length_encode]
  omega

/-- An entry is read back from its frame. -/
theorem readEntry_frame {key : κ} {v w : Value} {bytes : Bytes}
    (h : (codecFor schema key).Carries v bytes w) (hfits : bytes.length < UInt64.size)
    (rest : Bytes) :
    readEntry schema (frame key bytes ++ rest) = .ok (key, w) rest := by
  have hkey := SetKey.Lawful.read_encode key
    (Ber.encode (UInt64.ofNat bytes.length) ++ (bytes ++ rest))
  have hlength := Ber.read_encode_append (UInt64.ofNat bytes.length) (bytes ++ rest)
  -- The length that is read back is the true one, because it fits a word.
  have hcount := UInt64.toNat_ofNat_of_lt' hfits
  have hleft : ¬ (bytes ++ rest).length < bytes.length := by simp
  simp only [readEntry, frame, List.append_assoc, Action.bind_apply, hkey, Reader.remaining,
    hlength, hcount, if_neg hleft, h.read, Action.pure_apply]

/-- Measuring an entry counts its frame. -/
theorem entryLength_frame {key : κ} {v : Value} {bytes : Bytes}
    (h : (codecFor schema key).Settles v (.written bytes)) :
    entryLength schema key v = .ok (frame key bytes).length := by
  have hlength : (codecFor schema key).lengthOf v = .ok bytes.length := h.lengthOf
  simp only [entryLength, hlength, frame, List.length_append, SetKey.Lawful.length_encode,
    Ber.length_encode, Nat.add_assoc]
  rfl

/-- Writing an entry adds its frame. -/
theorem appends_writeEntry {key : κ} {v : Value} {bytes : Bytes}
    (h : (codecFor schema key).Settles v (.written bytes)) (space : Nat)
    (hspace : (frame key bytes).length ≤ space) :
    (writeEntry schema key v space).Appends (frame key bytes) := by
  have hlength : (codecFor schema key).lengthOf v = .ok bytes.length := h.lengthOf
  simp only [frame, List.length_append, SetKey.Lawful.length_encode, Ber.length_encode] at hspace
  -- Key, length and value each find the space that the frame was promised.
  have hkey := SetKey.Lawful.appends_write key space (by omega)
  have hframing := Ber.appends_write (UInt64.ofNat bytes.length)
    (space - (SetKey.Lawful.encode key).length) (by rw [SetKey.Lawful.length_encode]; omega)
  have hvalue : ((codecFor schema key).write v
      (space - ((SetKey.Lawful.encode key).length +
        (Ber.encode (UInt64.ofNat bytes.length)).length))).Appends bytes := by
    refine fun out => h.write_eq_ok ?_ out
    rw [SetKey.Lawful.length_encode, Ber.length_encode]
    omega
  rw [writeEntry, hlength, Action.ofExcept_ok_bind]
  exact hkey.spent_bind (hframing.spent_bind hvalue)

variable {entries : Entries κ} {bytes : κ × Value → Bytes} {result : κ × Value → Value}

/-- The frames of entries, one behind the other. -/
def frames (bytes : κ × Value → Bytes) (entries : Entries κ) : Bytes :=
  entries.flatMap fun e => frame e.1 (bytes e)

theorem frames_ne_nil (h : entries ≠ []) : frames bytes entries ≠ [] := by
  cases entries with
  | nil => contradiction
  | cons e entries =>
      rw [frames, List.flatMap_cons]
      exact List.append_ne_nil_of_left_ne_nil (frame_ne_nil e.1 (bytes e)) _

/-- The bytes of a value are some of those of the set around it. -/
theorem length_le_length_frames {e : κ × Value} (h : e ∈ entries) :
    (bytes e).length ≤ (frames bytes entries).length := by
  induction entries with
  | nil => exact absurd h List.not_mem_nil
  | cons first entries ih =>
      rw [frames, List.flatMap_cons, List.length_append, frame, List.length_append,
        List.length_append]
      rcases List.mem_cons.mp h with rfl | h
      · omega
      · have hrest := ih h
        rw [frames] at hrest
        omega

theorem entriesLength_frames
    (h : ∀ e ∈ entries, (codecFor schema e.1).Settles e.2 (.written (bytes e))) :
    entriesLength schema entries = .ok (frames bytes entries).length := by
  induction entries with
  | nil => rfl
  | cons e entries ih =>
      rcases List.forall_mem_cons.mp h with ⟨hfirst, hrest⟩
      rw [entriesLength, entryLength_frame hfirst, ih hrest, frames, frames, List.flatMap_cons,
        List.length_append]
      rfl

theorem appends_writeEntries
    (h : ∀ e ∈ entries, (codecFor schema e.1).Settles e.2 (.written (bytes e))) {space : Nat}
    (hspace : (frames bytes entries).length ≤ space) :
    (writeEntries schema entries space).Appends (frames bytes entries) := by
  induction entries generalizing space with
  | nil => exact Writer.appends_pure
  | cons e entries ih =>
      rcases List.forall_mem_cons.mp h with ⟨hfirst, hrest⟩
      rw [frames, List.flatMap_cons, List.length_append] at hspace
      change (frame e.1 (bytes e)).length + (frames bytes entries).length ≤ space at hspace
      have hentry := appends_writeEntry hfirst space (by omega)
      exact hentry.spent_bind (ih hrest (by omega))

/-- Entries are read back from their frames, and nothing is left. -/
theorem readEntries_frames
    (h : ∀ e ∈ entries, (codecFor schema e.1).Carries e.2 (bytes e) (result e))
    (hfits : ∀ e ∈ entries, (bytes e).length < UInt64.size) :
    readEntries schema (frames bytes entries) =
      .ok (entries.map fun e => (e.1, result e)) [] := by
  exact Reader.toEnd_flatMap fun e he =>
    ⟨frame_ne_nil e.1 (bytes e), readEntry_frame (h e he) (hfits e he)⟩

end SetCodec

end KlvMetadata
