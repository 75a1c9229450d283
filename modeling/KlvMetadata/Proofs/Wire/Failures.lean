import KlvMetadata.Proofs.Wire.Writers

/-!
# Reasons to Fail

An action may fail for some reasons and never for others, and which ones these are can
be told from its parts. `FailsOnly` says that all reasons are of one class. It is kept
by everything that actions are put together with, so a class has to be checked only
where an action fails by itself.

Readers of bytes fail because the bytes spell nothing. Writers fail because a value does
not fit its length, and otherwise for want of space. There is none of that for a writer
that is given what was measured, but to know what is left for it one has to know what
the writers before it have spent. This is what uniform writers are for.

## Main definitions

* `Action.FailsOnly`: All reasons to fail are of one class.
* `Error.IsParse`, `Error.IsValue`: The classes of readers and writers of bytes.

## Theorems

* `FailsOnly.bind`, `FailsOnly.check`: Actions behind each other, and behind checks.
* `FailsOnly.of_parse`: Bytes that spell nothing are a reason in greater classes too.
* `Reader.failsOnly_take`, `failsOnly_within`, `failsOnly_toEnd`: Readers of readers.
* `Ber.read_eq_error`, `BerOid.read_eq_error`: A failed read of a number leaves it.
* `Unsigned.failsOnly_read`, `Ber.failsOnly_read`, `TextField.failsOnly_read` and so on:
  Readers of one thing.
* `Appends.failsOnly`, `Uniform.failsOnly_spent_bind`: Writers in a sequence.
* `Unsigned.failsOnly_write`, `Signed.failsOnly_write`, `FloatField.failsOnly_write`:
  Writers of numbers.
-/

namespace KlvMetadata

namespace Action

variable {ε σ α β : Type} {P Q : ε → Prop} {x : EStateM ε σ α}

/-- Fails for reasons of one class only, whatever the state. -/
def FailsOnly (P : ε → Prop) (x : EStateM ε σ α) : Prop :=
  ∀ ⦃s : σ⦄ ⦃e : ε⦄ ⦃s' : σ⦄, x s = .error e s' → P e

theorem failsOnly_pure (a : α) : FailsOnly P (pure a : EStateM ε σ α) := by
  intro s e s' h
  rw [pure_apply] at h
  contradiction

theorem failsOnly_throw {e : ε} (he : P e) : FailsOnly P (throw e : EStateM ε σ α) := by
  intro s e' s' h
  rw [throw_apply] at h
  injection h with heq _
  exact heq ▸ he

theorem failsOnly_get : FailsOnly P (get : EStateM ε σ σ) := by
  intro s e s' h
  rw [get_apply] at h
  contradiction

theorem failsOnly_modify (f : σ → σ) : FailsOnly P (modify f : EStateM ε σ PUnit) := by
  intro s e s' h
  rw [modify_apply] at h
  contradiction

theorem FailsOnly.mono (h : FailsOnly P x) (himp : ∀ e, P e → Q e) : FailsOnly Q x :=
  fun _ e _ herror => himp e (h herror)

/-- What comes behind an action only has to do its part for results that the action
    gives. -/
theorem FailsOnly.bind {f : α → EStateM ε σ β} (hx : FailsOnly P x)
    (hf : ∀ s a s', x s = .ok a s' → FailsOnly P (f a)) : FailsOnly P (x >>= f) := by
  intro s e s' h
  rw [bind_apply] at h
  cases hs : x s with
  | ok a behind =>
      rw [hs] at h
      exact hf s a behind hs h
  | error e' left =>
      rw [hs] at h
      injection h with heq _
      exact heq ▸ hx hs

theorem FailsOnly.map (hx : FailsOnly P x) (f : α → β) : FailsOnly P (f <$> x) :=
  hx.bind fun _ a _ _ => failsOnly_pure (f a)

theorem failsOnly_ofExcept {r : Except ε α} (h : ∀ e, r = .error e → P e) :
    FailsOnly P (MonadExcept.ofExcept r : EStateM ε σ α) := by
  cases r with
  | ok a => exact failsOnly_pure a
  | error e => exact failsOnly_throw (h e rfl)

theorem failsOnly_ite {c : Prop} [Decidable c] {y : EStateM ε σ α} (hx : FailsOnly P x)
    (hy : FailsOnly P y) : FailsOnly P (if c then x else y) := by
  split
  · exact hx
  · exact hy

/-- A check in front of an action adds the fault that it finds. -/
theorem FailsOnly.check {c : Prop} [Decidable c] {fault : EStateM ε σ β}
    (hx : FailsOnly P x) (hfault : FailsOnly P fault) :
    FailsOnly P (if c then fault >>= fun _ => x else x) :=
  failsOnly_ite (hfault.bind fun _ _ _ _ => hx) hx

end Action

open KlvMetadata.Action (FailsOnly failsOnly_pure failsOnly_throw failsOnly_ofExcept failsOnly_ite)

namespace Error

/-- Bytes spell nothing. -/
def IsParse (e : Error) : Prop := ∃ fault, e = .parse fault

/-- A value does not fit its encoding. -/
def IsValue (e : Error) : Prop := ∃ fault, e = .value fault

end Error

/-- Bytes that spell nothing are a reason in every class that has all of these. -/
theorem Action.FailsOnly.of_parse {σ α : Type} {P : Error → Prop} {x : EStateM Error σ α}
    (h : FailsOnly Error.IsParse x) (hparse : ∀ fault, P (.parse fault)) : FailsOnly P x := by
  refine h.mono ?_
  rintro _ ⟨fault, rfl⟩
  exact hparse fault

namespace Reader

variable {α : Type} {P : Error → Prop} {read : Reader α}

theorem failsOnly_fail (fault : ParseFault) : FailsOnly Error.IsParse (fail fault : Reader α) :=
  failsOnly_throw ⟨fault, rfl⟩

theorem failsOnly_remaining : FailsOnly P remaining := nofun

theorem failsOnly_take (n : Nat) : FailsOnly Error.IsParse (take n) := by
  intro data e left h
  rw [take] at h
  split at h
  · injection h with he _
    exact ⟨_, he.symm⟩
  · contradiction

/-- A window adds the fault that bytes are left in it. -/
theorem failsOnly_within {n : Nat} {unread : Nat → Error} (hread : FailsOnly P read)
    (hunread : ∀ left, P (unread left)) : FailsOnly P (within n unread read) := by
  intro data e left h
  rw [within] at h
  cases hwindow : read (data.take n) with
  | error e' behind =>
      rw [hwindow] at h
      injection h with he _
      exact he ▸ hread hwindow
  | ok a behind =>
      rw [hwindow] at h
      cases behind with
      | nil => contradiction
      | cons byte bytes =>
          injection h with he _
          exact he ▸ hunread _

theorem failsOnly_repeated (hread : FailsOnly P read) (fuel : Nat) :
    FailsOnly P (repeated read fuel) := by
  -- By induction on the fuel: one round reads one thing, and the rest are the fewer rounds.
  induction fuel with
  | zero => exact failsOnly_pure []
  | succ fuel ih =>
      rw [repeated]
      refine failsOnly_remaining.bind fun _ left _ _ => failsOnly_ite (failsOnly_pure []) ?_
      exact hread.bind fun _ first _ _ => ih.bind fun _ rest _ _ => failsOnly_pure (first :: rest)

theorem failsOnly_toEnd (hread : FailsOnly P read) : FailsOnly P (toEnd read) :=
  fun data _ _ h => failsOnly_repeated hread data.length h

end Reader

open Reader (failsOnly_fail failsOnly_take)

theorem Unsigned.failsOnly_read (length : Nat) :
    FailsOnly Error.IsParse (Unsigned.read length) := by
  rw [Unsigned.read]
  refine FailsOnly.check ((failsOnly_take length).bind fun _ bytes _ _ => ?_) (failsOnly_fail _)
  exact (failsOnly_pure _).check (failsOnly_fail _)

theorem Signed.failsOnly_read (length : Nat) : FailsOnly Error.IsParse (Signed.read length) := by
  rw [Signed.read]
  refine FailsOnly.check ((failsOnly_take length).bind fun _ bytes _ _ => ?_) (failsOnly_fail _)
  exact (failsOnly_pure _).check (failsOnly_fail _)

/-- A length that cannot be read is left, because its bytes spell nothing. -/
theorem Ber.read_eq_error {window : Nat} {data left : Bytes} {e : Error}
    (h : Ber.read window data = .error e left) : left = data ∧ e.IsParse := by
  unfold Ber.read at h
  -- The checks come one behind the other, and behind them there is an integer to read. All of
  -- them look at the window and leave the data as it is.
  split at h
  · injection h with he hleft
    exact ⟨hleft.symm, _, he.symm⟩
  · split at h
    · contradiction
    · dsimp only at h
      split at h
      · injection h with he hleft
        exact ⟨hleft.symm, _, he.symm⟩
      · split at h
        · injection h with he hleft
          exact ⟨hleft.symm, _, he.symm⟩
        · split at h
          · contradiction
          · next e' behind hread =>
            injection h with he hleft
            exact ⟨hleft.symm, he ▸ Unsigned.failsOnly_read _ hread⟩

theorem Ber.failsOnly_read (window : Nat) : FailsOnly Error.IsParse (Ber.read window) :=
  fun _ _ _ h => (Ber.read_eq_error h).2

/-- A tag that cannot be read is left, because its bytes spell nothing. -/
theorem BerOid.read_eq_error {window : Nat} {data left : Bytes} {e : Error}
    (h : BerOid.read window data = .error e left) : left = data ∧ e.IsParse := by
  rw [BerOid.read] at h
  split at h
  · contradiction
  · injection h with he hleft
    exact ⟨hleft.symm, _, he.symm⟩

theorem BerOid.failsOnly_read (window : Nat) : FailsOnly Error.IsParse (BerOid.read window) :=
  fun _ _ _ h => (BerOid.read_eq_error h).2

theorem FloatField.failsOnly_read (length : Nat) :
    FailsOnly Error.IsParse (FloatField.read length) := by
  rw [FloatField.read]
  refine (failsOnly_take length).bind fun _ bytes _ _ => ?_
  exact failsOnly_ite (failsOnly_pure _) (failsOnly_ite (failsOnly_pure _) (failsOnly_fail _))

theorem TextField.failsOnly_read (length : Nat) :
    FailsOnly Error.IsParse (TextField.read length) := by
  rw [TextField.read]
  refine (failsOnly_take length).bind fun _ bytes _ _ => ?_
  cases Utf8.decode bytes with
  | ok text => exact failsOnly_pure text
  | error fault => exact failsOnly_fail _

theorem UniversalKey.failsOnly_read : FailsOnly Error.IsParse UniversalKey.read := by
  intro data e left h
  rw [UniversalKey.read] at h
  split at h
  · injection h with he _
    exact ⟨_, he.symm⟩
  · contradiction

namespace Writer

variable {P : Error → Prop} {write : Writer} {bytes : Bytes} {length : Nat}

/-- A writer that always adds its bytes never fails. -/
theorem Appends.failsOnly (h : write.Appends bytes) : FailsOnly P write := by
  intro out e left herror
  rw [h] at herror
  contradiction

theorem failsOnly_spent (h : FailsOnly P write) : FailsOnly P (spent write) := by
  intro out e left herror
  rw [spent] at herror
  cases hwrite : write out with
  | ok _ written =>
      rw [hwrite] at herror
      contradiction
  | error e' written =>
      rw [hwrite] at herror
      injection herror with he _
      exact he ▸ h hwrite

theorem failsOnly_whole (h : FailsOnly P write) : FailsOnly P (whole write) := by
  intro out e left herror
  rw [whole] at herror
  cases hwrite : write out with
  | ok _ written =>
      rw [hwrite] at herror
      contradiction
  | error e' written =>
      rw [hwrite] at herror
      injection herror with he _
      exact he ▸ h hwrite

/-- What comes behind a uniform writer has to do its part for one number alone, that of
    the bytes that are known to be spent. -/
theorem Uniform.failsOnly_spent_bind (hwrite : write.Uniform length) (h : FailsOnly P write)
    {next : Nat → Writer} (hnext : FailsOnly P (next length)) :
    FailsOnly P (spent write >>= next) := by
  refine (failsOnly_spent h).bind fun out used behind hused => ?_
  -- A count was given, so the bytes were added, and there are as many as were announced.
  rcases hwrite with ⟨bytes, rfl, happ⟩ | ⟨e, hfail⟩
  · rw [happ.spent_apply] at hused
    injection hused with hused _
    exact hused ▸ hnext
  · rcases hfail out with ⟨left, hleft⟩
    rw [spent, hleft] at hused
    contradiction

end Writer

theorem Unsigned.failsOnly_write (value : UInt64) (length : Nat) :
    FailsOnly Error.IsValue (Unsigned.write value length) := by
  rw [Unsigned.write]
  exact (Writer.appends_emit _).failsOnly.check (failsOnly_throw ⟨_, rfl⟩)

theorem Signed.failsOnly_write (value : Int64) (length : Nat) :
    FailsOnly Error.IsValue (Signed.write value length) := by
  rw [Signed.write]
  exact (Writer.appends_emit _).failsOnly.check (failsOnly_throw ⟨_, rfl⟩)

theorem FloatField.failsOnly_write (value : Binary64) (length : Nat) :
    FailsOnly Error.IsValue (FloatField.write value length) := by
  rw [FloatField.write]
  exact failsOnly_ite (Writer.appends_emit _).failsOnly
    (failsOnly_ite (Writer.appends_emit _).failsOnly (failsOnly_throw ⟨_, rfl⟩))

end KlvMetadata
