import KlvMetadata.Proofs.Format.Contract
import KlvMetadata.Proofs.Set.Keys
import KlvMetadata.St0601.Framing

/-!
# Writing Sets

Sets are measured by adding up what their entries take, and written entry by
entry, each into what the entries before it have left. If the codecs of a
schema are definite, measuring and writing a set agree in the same sense: the
set is exact. An entry that can be measured always finds the space it needs, so
an overflow never starts inside a set. What can still fail is a value, and then
the whole set fails with it.

## Main definitions

* `Schema.Definite`: All codecs of a schema are definite.

## Theorems

* `SetCodec.definite_codecFor`: The codec of a key is one of the schema's.
* `SetCodec.uniform_writeEntry`, `uniform_writeEntries`: Writing what was
  measured.
* `Layout.exact_entries`, `Layout.exact_st0601`: Sets are exact.
-/

namespace KlvMetadata

/-- All codecs of a schema are definite. -/
structure Schema.Definite (schema : Schema Codec) : Prop where
  entries : ∀ e ∈ schema.entries, e.format.Definite
  unknown : schema.unknown.format.Definite

namespace SetCodec

variable {κ : Type} [SetKey κ] {schema : Schema Codec}

theorem entryLength_eq_ok {key : κ} {v : Value} {total : Nat}
    (h : entryLength schema key v = .ok total) :
    ∃ length, (codecFor schema key).lengthOf v = .ok length ∧
      SetKey.length key + (Ber.length (UInt64.ofNat length) + length) = total := by
  rw [entryLength] at h
  cases hlength : (codecFor schema key).lengthOf v with
  | error e =>
      rw [hlength] at h
      contradiction
  | ok length =>
      rw [hlength] at h
      exact ⟨length, rfl, (Nat.add_assoc _ _ _).symm.trans (Except.ok.inj h)⟩

/-- A sum was measured, so each of its terms was. -/
theorem entriesLength_cons_eq_ok {key : κ} {v : Value} {entries : Entries κ} {total : Nat}
    (h : entriesLength schema ((key, v) :: entries) = .ok total) :
    ∃ first rest, entryLength schema key v = .ok first ∧
      entriesLength schema entries = .ok rest ∧ first + rest = total := by
  rw [entriesLength] at h
  cases hfirst : entryLength schema key v with
  | error e =>
      rw [hfirst] at h
      contradiction
  | ok first =>
      cases hrest : entriesLength schema entries with
      | error e =>
          rw [hfirst, hrest] at h
          contradiction
      | ok rest =>
          rw [hfirst, hrest] at h
          exact ⟨first, rest, rfl, rfl, Except.ok.inj h⟩

variable [SetKey.Lawful κ]

theorem definite_codecFor (h : schema.Definite) (key : κ) : (codecFor schema key).Definite := by
  rcases SetKey.Lawful.lookup_mem schema key with hmem | hunknown
  · exact h.entries _ hmem
  · rw [codecFor, hunknown]
    exact h.unknown

/-- Key and length of an entry take what measuring counted, and the value is
    left with what it needs or more. -/
theorem uniform_writeEntry (h : schema.Definite) {key : κ} {v : Value} {total space : Nat}
    (htotal : entryLength schema key v = .ok total) (hspace : total ≤ space) :
    (writeEntry schema key v space).Uniform total := by
  -- The value was measured, so with enough space its outcome is uniform.
  rcases definite_codecFor h key v with ⟨o, ho⟩
  rcases entryLength_eq_ok htotal with ⟨length, hlength, rfl⟩
  have hkey : (SetKey.write key space).Uniform (SetKey.length key) :=
    Or.inl ⟨_, SetKey.Lawful.length_encode key, SetKey.Lawful.appends_write key space (by omega)⟩
  have hframing := Ber.uniform_write (UInt64.ofNat length)
    (space - SetKey.length key) (by omega)
  have hvalue := o.uniform_write (ho.lengthOf.symm.trans hlength)
    (space - (SetKey.length key + Ber.length (UInt64.ofNat length))) (by omega)
  rw [← ho.write] at hvalue
  rw [writeEntry, hlength, Action.ofExcept_ok_bind]
  exact hkey.spent_bind (hframing.spent_bind hvalue)

/-- Each entry leaves the ones behind it what they need. -/
theorem uniform_writeEntries (h : schema.Definite) {entries : Entries κ} {total space : Nat}
    (htotal : entriesLength schema entries = .ok total) (hspace : total ≤ space) :
    (writeEntries schema entries space).Uniform total := by
  induction entries generalizing total space with
  | nil =>
      obtain rfl := Except.ok.inj htotal
      exact Writer.appends_pure.uniform
  | cons e entries ih =>
      rcases entriesLength_cons_eq_ok htotal with ⟨first, rest, hfirst, hrest, rfl⟩
      exact (uniform_writeEntry h hfirst (by omega)).spent_bind (ih hrest (by omega))

end SetCodec

namespace Layout

variable {schema : Schema Codec}

/-- Sets under a definite schema are exact. -/
theorem exact_entries {κ : Type} [DecidableEq κ] [SetKey κ] [SetKey.Lawful κ]
    (h : schema.Definite) : (entries schema : Layout (Entries κ)).Exact :=
  fun _ _ length hlength => SetCodec.uniform_writeEntries h hlength (Nat.le_refl length)

/-- So are sets with a leading timestamp, which are sets in another order. -/
theorem exact_st0601 (h : schema.Definite) : (st0601 schema).Exact := by
  intro entries hint length hlength
  refine Writer.uniform_ofExcept_bind fun ordered hordered => ?_
  have hlength' : SetCodec.entriesLength schema ordered = .ok length := by
    simp only [st0601, hordered] at hlength
    exact hlength
  exact SetCodec.uniform_writeEntries h hlength' (Nat.le_refl length)

end Layout

end KlvMetadata
