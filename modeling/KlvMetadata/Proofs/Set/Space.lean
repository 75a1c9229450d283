import KlvMetadata.Proofs.Format.Definite

/-!
# Writing Into a Given Space

Entries that are written directly may be cut off, so what a failure leaves
behind matters here. Whoever writes them recomputes after each part what is
left of the space, by a subtraction that nothing guards. That it cannot go
below zero is due to the writers before it, none of which adds more than it was
given, whether it succeeds or fails.

Under definite codecs a writer of a part does one of two things. Either it has
bytes of its own, adds all of them where they fit and a proper part of them
where they do not, or it fails with every space. Both are kept when a second
writer is given what the first one has left, so they hold of a key with its
length and value, and of entries one after the other.

## Main definitions

* `Writer.Fills`, `Writer.Stalls`: What a writer does with every space.
* `Writer.Rationed`: It does one or the other.
* `Writer.inTurn`: A writer that is given what another has left.
* `Writer.KeepsToSpace`: What follows for whoever runs it.
* `SetKey.Checked`: Keys are written if there is space for them.
* `SetCodec.writeEntryChecked`, `writeEntriesChecked`: Writing with subtractions
  that are checked.

## Theorems

* `Writer.fills_guarded`: Bytes behind a check of the space.
* `Writer.Fills.inTurn`, `Writer.Stalls.inTurn`, `Writer.Rationed.inTurn`: Two writers
  in turn.
* `Writer.Rationed.keepsToSpace`, `Writer.Rationed.spent_bind_congr`: What is
  added, and what is counted, is never more than the space.
* `SetCodec.rationed_writeEntry`, `rationed_writeEntries`: Entries.
* `SetCodec.writing_keeps_to_space`: Writing entries directly is safe, and cuts
  off what does not fit.
-/

namespace KlvMetadata

namespace Writer

/-- Has bytes of its own: adds them where they fit, and otherwise a part of
    them that the space allows. -/
structure Fills (write : (space : Nat) → Writer) (bytes : Bytes) : Prop where
  enough : ∀ {space : Nat}, bytes.length ≤ space → (write space).Appends bytes
  short : ∀ {space : Nat}, space < bytes.length → ∃ part needed,
    part <+: bytes ∧ part.length ≤ space ∧ space < part.length + needed ∧
    ∀ out, write space out = .error (.bufferOverflow needed (space - part.length)) (out ++ part)

/-- Fails with every space, and leaves no more behind than that. -/
def Stalls (write : (space : Nat) → Writer) : Prop :=
  ∀ space, ∃ part e, part.length ≤ space ∧ ∀ out, write space out = .error e (out ++ part)

/-- Does one or the other. -/
def Rationed (write : (space : Nat) → Writer) : Prop :=
  (∃ bytes, Fills write bytes) ∨ Stalls write

/-- What follows for whoever runs a writer with some space. -/
structure KeepsToSpace (write : (space : Nat) → Writer) : Prop where
  /-- No more is added than there is space for, on success and on failure. -/
  within : ∀ space out, ∃ added : Bytes, added.length ≤ space ∧
    (write space out = .ok () (out ++ added) ∨
      ∃ e, write space out = .error e (out ++ added))
  /-- What is written with some space is written with any other that it fits. -/
  fits : ∀ space out bytes, write space out = .ok () (out ++ bytes) →
    ∀ space' out', bytes.length ≤ space' → write space' out' = .ok () (out' ++ bytes)
  /-- Where it does not fit it is cut off, and the space is the reason. -/
  cut : ∀ space out bytes, write space out = .ok () (out ++ bytes) →
    ∀ space' out', space' < bytes.length → ∃ part needed,
      part <+: bytes ∧ part ≠ bytes ∧ space' < part.length + needed ∧
      write space' out' = .error (.bufferOverflow needed (space' - part.length)) (out' ++ part)

variable {write next : (space : Nat) → Writer} {bytes more : Bytes}

/-- Bytes behind a check of the space: all of them, or none. -/
theorem fills_guarded (bytes : Bytes) :
    Fills (fun space => do checkSpace bytes.length space; emit bytes) bytes where
  enough hspace out := by
    rw [checkSpace_bind, if_neg (Nat.not_lt.mpr hspace)]
    rfl
  short {space} hspace := by
    refine ⟨[], bytes.length, List.nil_prefix, Nat.zero_le _, by simpa using hspace, fun out => ?_⟩
    rw [checkSpace_bind, if_pos hspace, List.append_nil]
    rfl

theorem fills_pure : Fills (fun _ => pure ()) [] where
  enough _ := appends_pure
  short h := absurd h (Nat.not_lt_zero _)

theorem stalls_of_error (h : ∀ space, ∃ e, ∀ out, write space out = .error e out) :
    Stalls write := by
  intro space
  rcases h space with ⟨e, he⟩
  exact ⟨[], e, Nat.zero_le _, fun out => by rw [he, List.append_nil]⟩

/-- The second writer is given what the first has left. -/
def inTurn (write next : (space : Nat) → Writer) (space : Nat) : Writer := do
  let used ← spent (write space)
  next (space - used)

/-- A failure of the first writer is one of both. -/
theorem inTurn_error {space : Nat} {out left : Bytes} {e : Error}
    (h : write space out = .error e left) : inTurn write next space out = .error e left := by
  rw [inTurn, Action.bind_apply, spent, h]

theorem Appends.inTurn_apply {space : Nat} (h : (write space).Appends bytes) (out : Bytes) :
    inTurn write next space out = next (space - bytes.length) (out ++ bytes) := by
  rw [inTurn, Action.bind_apply, h.spent_apply]

theorem Fills.inTurn (h : Fills write bytes) (hnext : Fills next more) :
    Fills (inTurn write next) (bytes ++ more) where
  enough {space} hspace out := by
    rw [List.length_append] at hspace
    rw [(h.enough (by omega)).inTurn_apply, hnext.enough (by omega), List.append_assoc]
  short {space} hspace := by
    rw [List.length_append] at hspace
    rcases Nat.lt_or_ge space bytes.length with hlt | hle
    · -- The first writer is cut off, so the second does not get its turn.
      rcases h.short hlt with ⟨part, needed, hprefix, hle, hneeded, herror⟩
      exact ⟨part, needed, hprefix.trans (List.prefix_append _ _), hle, hneeded,
        fun out => inTurn_error (herror out)⟩
    · have hcut : space - bytes.length < more.length := by omega
      rcases hnext.short hcut with ⟨part, needed, hprefix, hpart, hneeded, herror⟩
      refine ⟨bytes ++ part, needed, (List.prefix_append_right_inj bytes).mpr hprefix, ?_, ?_,
        fun out => ?_⟩
      · rw [List.length_append]
        omega
      · rw [List.length_append]
        omega
      · rw [(h.enough hle).inTurn_apply, herror, List.append_assoc, List.length_append,
          Nat.sub_sub]

theorem Fills.inTurn_stalls (h : Fills write bytes) (hnext : Stalls next) :
    Stalls (Writer.inTurn write next) := by
  intro space
  rcases Nat.lt_or_ge space bytes.length with hlt | hle
  · rcases h.short hlt with ⟨part, needed, _, hle, _, herror⟩
    exact ⟨part, _, hle, fun out => inTurn_error (herror out)⟩
  · rcases hnext (space - bytes.length) with ⟨part, e, hpart, herror⟩
    refine ⟨bytes ++ part, e, ?_, fun out => ?_⟩
    · rw [List.length_append]
      omega
    · rw [(h.enough hle).inTurn_apply, herror, List.append_assoc]

theorem Stalls.inTurn (h : Stalls write) (next : (space : Nat) → Writer) :
    Stalls (Writer.inTurn write next) := by
  intro space
  rcases h space with ⟨part, e, hpart, herror⟩
  exact ⟨part, e, hpart, fun out => inTurn_error (herror out)⟩

/-- What a success adds are the writer's own bytes. -/
theorem Fills.eq_of_ok (h : Fills write bytes) {space : Nat} {out added : Bytes}
    (hok : write space out = .ok () (out ++ added)) : added = bytes := by
  rcases Nat.lt_or_ge space bytes.length with hlt | hle
  · rcases h.short hlt with ⟨part, needed, _, _, _, herror⟩
    rw [herror] at hok
    contradiction
  · rw [h.enough hle] at hok
    injection hok with _ hout
    exact (List.append_cancel_left hout).symm

theorem Fills.keepsToSpace (h : Fills write bytes) : KeepsToSpace write where
  within space out := by
    rcases Nat.lt_or_ge space bytes.length with hlt | hle
    · rcases h.short hlt with ⟨part, needed, _, hpart, _, herror⟩
      exact ⟨part, hpart, Or.inr ⟨_, herror out⟩⟩
    · exact ⟨bytes, hle, Or.inl (h.enough hle out)⟩
  -- What was written is known, so nothing about the run that wrote it matters any more.
  fits space out added hok space' out' hspace := by
    obtain rfl := h.eq_of_ok hok
    exact h.enough hspace out'
  cut space out added hok space' out' hspace := by
    obtain rfl := h.eq_of_ok hok
    rcases h.short hspace with ⟨part, needed, hprefix, hpart, hneeded, herror⟩
    refine ⟨part, needed, hprefix, ?_, hneeded, herror out'⟩
    rintro rfl
    omega

theorem Stalls.ne_ok (h : Stalls write) (space : Nat) (out out' : Bytes) :
    write space out ≠ .ok () out' := by
  intro hok
  rcases h space with ⟨part, e, _, herror⟩
  rw [herror] at hok
  contradiction

theorem Stalls.keepsToSpace (h : Stalls write) : KeepsToSpace write where
  within space out := by
    rcases h space with ⟨part, e, hpart, herror⟩
    exact ⟨part, hpart, Or.inr ⟨e, herror out⟩⟩
  fits space out added hok := absurd hok (h.ne_ok space out _)
  cut space out added hok := absurd hok (h.ne_ok space out _)

namespace Rationed

theorem inTurn (h : Rationed write) (hnext : Rationed next) :
    Rationed (Writer.inTurn write next) := by
  rcases h with ⟨bytes, hfills⟩ | hstalls
  · rcases hnext with ⟨more, hmore⟩ | hstalls
    · exact Or.inl ⟨bytes ++ more, hfills.inTurn hmore⟩
    · exact Or.inr (hfills.inTurn_stalls hstalls)
  · exact Or.inr (hstalls.inTurn next)

theorem keepsToSpace (h : Rationed write) : KeepsToSpace write := by
  rcases h with ⟨own, hfills⟩ | hstalls
  · exact hfills.keepsToSpace
  · exact hstalls.keepsToSpace

/-- What is counted is never more than the space, so what is done with the
    count matters only up to there. -/
theorem spent_bind_congr (h : Rationed write) {space : Nat} {go go' : Nat → Writer}
    (heq : ∀ used ≤ space, go used = go' used) :
    (spent (write space) >>= go) = (spent (write space) >>= go') := by
  funext out
  rcases h.keepsToSpace.within space out with ⟨added, hadded, hok | ⟨e, herror⟩⟩
  · rw [Action.bind_apply, Action.bind_apply, spent, hok]
    simp only [List.length_append, Nat.add_sub_cancel_left]
    rw [heq _ hadded]
  · rw [Action.bind_apply, Action.bind_apply, spent, herror]

end Rationed

/-- What is left of the space, or a fault if more was used than there is. -/
def spare (fault : Error) (space used : Nat) : EStateM Error Bytes Nat :=
  if space < used then throw fault else pure (space - used)

theorem spare_bind {fault : Error} {space used : Nat} (h : used ≤ space) (go : Nat → Writer) :
    (spare fault space used >>= go) = go (space - used) := by
  rw [spare, if_neg (Nat.not_lt.mpr h)]
  rfl

end Writer

/-- Keys that are written if there is space for them. -/
class SetKey.Checked (κ : Type) [SetKey κ] extends SetKey.Lawful κ where
  write_eq : ∀ (key : κ) (space : Nat), SetKey.write key space =
    (do Writer.checkSpace (encode key).length space; Writer.emit (encode key))

instance : SetKey.Checked UInt64 where
  write_eq tag space := by
    rw [SetKey.Lawful.length_encode]
    rfl

instance : SetKey.Checked UniversalKey where
  write_eq key space := by
    rw [SetKey.Lawful.length_encode]
    rfl

namespace SetCodec

variable {κ : Type} [SetKey κ]

/-- Write one entry, and fail with the fault where more was used than there is. -/
def writeEntryChecked (fault : Error) (schema : Schema Codec) (key : κ) (v : Value)
    (space : Nat) : Writer := do
  let codec := codecFor schema key
  let length ← MonadExcept.ofExcept (codec.lengthOf v)
  let keyLength ← Writer.spent (SetKey.write key space)
  let behindKey ← Writer.spare fault space keyLength
  let lengthLength ← Writer.spent (Ber.write (UInt64.ofNat length) behindKey)
  let behindLength ← Writer.spare fault space (keyLength + lengthLength)
  codec.write v behindLength

/-- Write entries that way, with a count of what was used since the first. -/
def writeEntriesChecked (fault : Error) (schema : Schema Codec) (space : Nat) :
    (used : Nat) → Entries κ → Writer
  | _, [] => pure ()
  | used, (key, v) :: entries => do
    let left ← Writer.spare fault space used
    let more ← Writer.spent (writeEntryChecked fault schema key v left)
    writeEntriesChecked fault schema space (used + more) entries

variable {schema : Schema Codec}

/-- The parts of an entry, each of which is given what those before it have left. -/
theorem writeEntry_eq_inTurn {key : κ} {v : Value} {length : Nat}
    (h : (codecFor schema key).lengthOf v = .ok length) :
    writeEntry schema key v =
      Writer.inTurn (SetKey.write key)
        (Writer.inTurn (Ber.write (UInt64.ofNat length)) ((codecFor schema key).write v)) := by
  funext space
  rw [writeEntry, h, Action.ofExcept_ok_bind]
  simp only [Writer.inTurn, Nat.sub_sub]

variable [SetKey.Checked κ]

theorem fills_writeKey (key : κ) : Writer.Fills (SetKey.write key) (SetKey.Lawful.encode key) := by
  rw [funext (SetKey.Checked.write_eq key)]
  exact Writer.fills_guarded _

theorem fills_writeLength (length : UInt64) :
    Writer.Fills (Ber.write length) (Ber.encode length) := by
  have hfills := Writer.fills_guarded (Ber.encode length)
  rw [Ber.length_encode] at hfills
  exact hfills

/-- A value is written as a whole or not at all. -/
theorem rationed_writeValue {c : Codec} (h : c.Definite) (v : Value) :
    Writer.Rationed (c.write v) := by
  rcases h v with ⟨o, ho⟩
  rw [funext ho.write]
  cases o with
  | unmeasured e => exact Or.inr (Writer.stalls_of_error fun space => ⟨e, fun out => rfl⟩)
  | unwritable length e =>
      refine Or.inr (Writer.stalls_of_error fun space => ?_)
      simp only [Codec.Outcome.write, Writer.checkSpace]
      split
      · exact ⟨_, fun out => rfl⟩
      · exact ⟨e, fun out => rfl⟩
  | written bytes => exact Or.inl ⟨bytes, Writer.fills_guarded bytes⟩

theorem rationed_writeEntry (h : schema.Definite) (key : κ) (v : Value) :
    Writer.Rationed (writeEntry schema key v) := by
  cases hlength : (codecFor schema key).lengthOf v with
  | error e =>
      refine Or.inr (Writer.stalls_of_error fun space => ⟨e, fun out => ?_⟩)
      rw [writeEntry, hlength]
      rfl
  | ok length =>
      have hkey : Writer.Rationed (SetKey.write key) := Or.inl ⟨_, fills_writeKey key⟩
      have hframing : Writer.Rationed (Ber.write (UInt64.ofNat length)) :=
        Or.inl ⟨_, fills_writeLength _⟩
      rw [writeEntry_eq_inTurn hlength]
      exact hkey.inTurn (hframing.inTurn (rationed_writeValue (definite_codecFor h key) v))

theorem rationed_writeEntries (h : schema.Definite) (entries : Entries κ) :
    Writer.Rationed (writeEntries schema entries) := by
  -- By induction on the entries. The rest is rationed whatever the first one leaves for it.
  induction entries with
  | nil => exact Or.inl ⟨[], Writer.fills_pure⟩
  | cons e entries ih => exact (rationed_writeEntry h e.1 e.2).inTurn ih

/-- No part of an entry uses more than what was left for it. -/
theorem writeEntryChecked_eq (fault : Error) (key : κ) (v : Value) (space : Nat) :
    writeEntryChecked fault schema key v space = writeEntry schema key v space := by
  cases hlength : (codecFor schema key).lengthOf v with
  | error e =>
      rw [writeEntryChecked, writeEntry, hlength]
      rfl
  | ok length =>
      have hkey : Writer.Rationed (SetKey.write key) := Or.inl ⟨_, fills_writeKey key⟩
      have hframing : Writer.Rationed (Ber.write (UInt64.ofNat length)) :=
        Or.inl ⟨_, fills_writeLength _⟩
      rw [writeEntryChecked, writeEntry, hlength, Action.ofExcept_ok_bind, Action.ofExcept_ok_bind]
      -- Both checks come behind a count that the writer before them has kept to its space.
      refine hkey.spent_bind_congr fun keyLength hle => ?_
      rw [Writer.spare_bind hle]
      refine hframing.spent_bind_congr fun lengthLength hle' => ?_
      rw [Writer.spare_bind (by omega)]

/-- No entry uses more than the entries before it have left. -/
theorem writeEntriesChecked_eq (h : schema.Definite) (fault : Error) {space used : Nat}
    (hused : used ≤ space) (entries : Entries κ) :
    writeEntriesChecked fault schema space used entries =
      writeEntries schema entries (space - used) := by
  -- The count goes on from the first entry, and the space of the rest is what it leaves.
  induction entries generalizing used with
  | nil => rfl
  | cons e entries ih =>
      rcases e with ⟨key, v⟩
      rw [writeEntriesChecked, Writer.spare_bind hused, writeEntryChecked_eq, writeEntries]
      refine (rationed_writeEntry h key v).spent_bind_congr fun more hle => ?_
      rw [ih (by omega), Nat.sub_sub]

/-- Writing an entry or entries directly adds no more than there is space for,
    on success and on failure. What is written with one space is written with
    every other that it fits, and cut off with any that it does not. And no
    subtraction on the way takes more than there is: with subtractions that are
    checked, the same is done whatever fault they would report. -/
theorem writing_keeps_to_space (schema : Schema Format) :
    (∀ (key : κ) (v : Value),
      Writer.KeepsToSpace (writeEntry (Format.schemaCodecs schema) key v) ∧
      ∀ fault space, writeEntryChecked fault (Format.schemaCodecs schema) key v space =
        writeEntry (Format.schemaCodecs schema) key v space) ∧
    ∀ entries : Entries κ,
      Writer.KeepsToSpace (writeEntries (Format.schemaCodecs schema) entries) ∧
      ∀ fault space, writeEntriesChecked fault (Format.schemaCodecs schema) space 0 entries =
        writeEntries (Format.schemaCodecs schema) entries space := by
  have hschema := Format.definite_schemaCodecs schema
  refine ⟨fun key v => ⟨(rationed_writeEntry hschema key v).keepsToSpace,
      fun fault space => writeEntryChecked_eq fault key v space⟩,
    fun entries => ⟨(rationed_writeEntries hschema entries).keepsToSpace,
      fun fault space => writeEntriesChecked_eq hschema fault (Nat.zero_le space) entries⟩⟩

/-- Two blobs with their keys and lengths take eight bytes, so in six they are cut off. -/
theorem writing_keeps_to_space_cut :
    ∃ part needed, part <+: [5, 3, 1, 2, 3, 7, 1, 4] ∧ part ≠ [5, 3, 1, 2, 3, 7, 1, 4] ∧
      6 < part.length + needed ∧
      writeEntries (Format.schemaCodecs (.listing [] .unlisted))
        [((5 : UInt64), ⟨some (.blob [1, 2, 3]), 0⟩), (7, ⟨some (.blob [4]), 0⟩)] 6 [] =
        .error (.bufferOverflow needed (6 - part.length)) part :=
  ((writing_keeps_to_space (.listing [] .unlisted)).2 _).1.cut 8 [] [5, 3, 1, 2, 3, 7, 1, 4] rfl
    6 [] (by decide)

end SetCodec

end KlvMetadata
