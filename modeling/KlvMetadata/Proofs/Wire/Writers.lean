import KlvMetadata.Proofs.Wire.Actions
import KlvMetadata.Wire.Field

/-!
# Writers That Do Not Look Back

A writer is free to look at what was written before it. None here does: each
either adds the same bytes to every output or fails for the same reason on
every output, and how many bytes those are is known beforehand. `Uniform` says
so, and it is kept by everything that writers are put together with.

A failure may leave part of the bytes behind. What it leaves is nobody's
concern, because whoever runs a uniform writer as a whole takes it back.

## Main definitions

* `Writer.Appends`, `Writer.Fails`: What a writer does to every output.
* `Writer.Uniform`: It does one or the other, with bytes of a known number.

## Theorems

* `Uniform.spent_bind`, `Uniform.bind`: A uniform writer and one that goes on
  after it.
* `Appends.whole`, `Fails.whole`: Taking back what a failure left.
* `Ber.length_encode`, `BerOid.length_encode`: Spellings are as long as announced.
* `Ber.appends_write`, `BerOid.appends_write`, `TextField.appends_write`,
  `UniversalKey.appends_write`: Writing what there is space for.
* `Unsigned.uniform_write`, `Signed.uniform_write`, `FloatField.uniform_write`:
  Writing numbers.
-/

namespace KlvMetadata

namespace Writer

/-- Adds these bytes to every output. -/
def Appends (write : Writer) (bytes : Bytes) : Prop :=
  ∀ out, write out = .ok () (out ++ bytes)

/-- Fails for this reason on every output. -/
def Fails (write : Writer) (e : Error) : Prop := ∀ out, ∃ left, write out = .error e left

/-- Treats every output alike, and adds `length` bytes if any. -/
def Uniform (write : Writer) (length : Nat) : Prop :=
  (∃ bytes, bytes.length = length ∧ write.Appends bytes) ∨ ∃ e, write.Fails e

variable {write next : Writer} {bytes more : Bytes} {e : Error} {length : Nat}

theorem appends_pure : Appends (pure ()) [] := by
  intro out
  rw [Action.pure_apply, List.append_nil]

theorem appends_emit (bytes : Bytes) : Appends (emit bytes) bytes := by
  intro out
  rfl

theorem fails_throw (e : Error) : Fails (throw e) e := by
  intro out
  exact ⟨out, rfl⟩

theorem checkSpace_eq {needed space : Nat} (h : needed ≤ space) :
    checkSpace needed space = pure () := by
  rw [checkSpace, if_neg (by omega)]

theorem checkSpace_bind (needed space : Nat) (next : Writer) (out : Bytes) :
    (checkSpace needed space >>= fun _ => next) out =
      if space < needed then .error (.bufferOverflow needed space) out else next out := by
  rw [checkSpace]
  split <;> rfl

theorem appends_checked {needed space : Nat} (h : needed ≤ space) (bytes : Bytes) :
    Appends (checkSpace needed space >>= fun _ => emit bytes) bytes := by
  rw [checkSpace_eq h]
  exact appends_emit bytes

/-- A check in front of a writer. -/
theorem check_bind_apply {c : Prop} [Decidable c] (e : Error) (next : Writer) (out : Bytes) :
    (if c then (throw e : Writer) >>= fun _ => next else next) out =
      if c then .error e out else next out := by
  split <;> rfl

theorem Appends.bind (h : write.Appends bytes) (hnext : next.Appends more) :
    Appends (write >>= fun _ => next) (bytes ++ more) := by
  intro out
  rw [Action.bind_apply, h]
  simp only
  rw [hnext, List.append_assoc]

theorem Appends.spent_apply (h : write.Appends bytes) (out : Bytes) :
    spent write out = .ok bytes.length (out ++ bytes) := by
  rw [spent, h]
  simp only [List.length_append, Nat.add_sub_cancel_left]

/-- Counting the bytes of a writer changes nothing about it. -/
theorem spent_eq_ok {out out' : Bytes} {used : Nat} (h : spent write out = .ok used out') :
    write out = .ok () out' := by
  rw [spent] at h
  cases hwrite : write out with
  | ok _ written =>
      rw [hwrite] at h
      injection h with _ h
      rw [h]
  | error e left =>
      rw [hwrite] at h
      contradiction

-- Whoever counts the bytes of a writer goes on with a number that is known beforehand.
theorem Appends.spent_bind (h : write.Appends bytes) {next : Nat → Writer}
    (hnext : (next bytes.length).Appends more) :
    Appends (spent write >>= next) (bytes ++ more) := by
  intro out
  rw [Action.bind_apply, h.spent_apply]
  simp only
  rw [hnext, List.append_assoc]

theorem Appends.spent_bind_fails (h : write.Appends bytes) {next : Nat → Writer}
    (hnext : (next bytes.length).Fails e) : Fails (spent write >>= next) e := by
  intro out
  rw [Action.bind_apply, h.spent_apply]
  exact hnext _

theorem Fails.spent_bind (h : write.Fails e) (next : Nat → Writer) :
    Fails (spent write >>= next) e := by
  intro out
  rcases h out with ⟨left, hleft⟩
  exact ⟨left, by rw [Action.bind_apply, spent, hleft]⟩

/-- What comes after a uniform writer only has to be uniform for the number of
    bytes that are known to be spent. -/
theorem Uniform.spent_bind (h : write.Uniform length) {next : Nat → Writer} {rest : Nat}
    (hnext : (next length).Uniform rest) : Uniform (spent write >>= next) (length + rest) := by
  rcases h with ⟨bytes, rfl, happ⟩ | ⟨e, hfail⟩
  · rcases hnext with ⟨more, rfl, hmore⟩ | ⟨e, hfail⟩
    · exact Or.inl ⟨bytes ++ more, List.length_append, happ.spent_bind hmore⟩
    · exact Or.inr ⟨e, happ.spent_bind_fails hfail⟩
  · exact Or.inr ⟨e, hfail.spent_bind next⟩

/-- The same without counting what is spent. -/
theorem Uniform.bind (h : write.Uniform length) {rest : Nat} (hnext : next.Uniform rest) :
    Uniform (write >>= fun _ => next) (length + rest) := by
  -- A count that nobody looks at changes nothing.
  have hspent : Uniform (spent write >>= fun _ => next) (length + rest) := h.spent_bind hnext
  have heq : (write >>= fun _ => next) = (spent write >>= fun _ => next) := by
    funext out
    rw [Action.bind_apply, Action.bind_apply, spent]
    cases write out with
    | ok _ _ => rfl
    | error _ _ => rfl
  rwa [heq]

theorem Uniform.of_eq (h : write.Uniform length) {n : Nat} (heq : length = n) :
    write.Uniform n := by
  rwa [← heq]

theorem Appends.uniform (h : write.Appends bytes) : write.Uniform bytes.length :=
  Or.inl ⟨bytes, rfl, h⟩

theorem Fails.uniform (h : write.Fails e) (length : Nat) : write.Uniform length := Or.inr ⟨e, h⟩

/-- A writer behind a result that may be a failure. -/
theorem uniform_ofExcept_bind {α : Type} {x : Except Error α} {next : α → Writer}
    (h : ∀ a, x = .ok a → (next a).Uniform length) :
    Uniform (MonadExcept.ofExcept x >>= next) length := by
  cases x with
  | error e =>
      refine Or.inr ⟨e, fun out => ⟨out, ?_⟩⟩
      simp only [Action.bind_apply, Action.ofExcept_apply]
  | ok a => exact h a rfl

theorem Appends.whole (h : write.Appends bytes) (out : Bytes) :
    Writer.whole write out = .ok () (out ++ bytes) := by
  rw [Writer.whole, h]

theorem Fails.whole (h : write.Fails e) (out : Bytes) :
    Writer.whole write out = .error e out := by
  rcases h out with ⟨left, hleft⟩
  rw [Writer.whole, hleft]

end Writer

namespace Ber

@[simp]
theorem length_encode (value : UInt64) : (encode value).length = length value := by
  rw [encode, length]
  split
  · rfl
  · rw [List.length_cons, Bytes.length_ofNat, Nat.add_comm]

theorem appends_write (value : UInt64) (space : Nat) (h : length value ≤ space) :
    (write value space).Appends (encode value) :=
  Writer.appends_checked h _

theorem uniform_write (value : UInt64) (space : Nat) (h : length value ≤ space) :
    (write value space).Uniform (length value) :=
  Or.inl ⟨_, length_encode value, appends_write value space h⟩

end Ber

namespace BerOid

theorem length_groups (count n : Nat) : (groups count n).length = count := by
  induction count with
  | zero => rfl
  | succ count ih => rw [groups, List.length_cons, ih]

@[simp]
theorem length_encode (value : UInt64) : (encode value).length = length value :=
  length_groups _ _

theorem appends_write (value : UInt64) (space : Nat) (h : length value ≤ space) :
    (write value space).Appends (encode value) :=
  Writer.appends_checked h _

theorem uniform_write (value : UInt64) (space : Nat) (h : length value ≤ space) :
    (write value space).Uniform (length value) :=
  Or.inl ⟨_, length_encode value, appends_write value space h⟩

end BerOid

namespace TextField

theorem appends_write (text : String) (space : Nat) (h : length text ≤ space) :
    (write text space).Appends (Utf8.encode text) :=
  Writer.appends_checked h _

end TextField

namespace UniversalKey

theorem appends_write (key : UniversalKey) (space : Nat) (h : size ≤ space) :
    (write key space).Appends key.bytes :=
  Writer.appends_checked h _

end UniversalKey

namespace Unsigned

theorem uniform_write (value : UInt64) (length : Nat) : (write value length).Uniform length := by
  rw [write]
  split
  · -- The value needs more bytes than the length has.
    exact Or.inr ⟨_, fun out => ⟨out, rfl⟩⟩
  · exact Or.inl ⟨_, Bytes.length_ofNat _ _, fun out => rfl⟩

end Unsigned

namespace Signed

theorem uniform_write (value : Int64) (length : Nat) : (write value length).Uniform length := by
  rw [write]
  split
  · exact Or.inr ⟨_, fun out => ⟨out, rfl⟩⟩
  · exact Or.inl ⟨_, Bytes.length_ofNat _ _, fun out => rfl⟩

end Signed

namespace FloatField

theorem uniform_write (value : Binary64) (length : Nat) : (write value length).Uniform length := by
  rw [write]
  -- Two lengths are those of floats, any other is refused.
  split
  · subst length
    exact Or.inl ⟨_, Bytes.length_ofNat _ _, Writer.appends_emit _⟩
  · split
    · subst length
      exact Or.inl ⟨_, Bytes.length_ofNat _ _, Writer.appends_emit _⟩
    · exact Or.inr ⟨_, Writer.fails_throw _⟩

end FloatField

end KlvMetadata
