import KlvMetadata.Wire.Basic

/-!
# Running Actions

Reading, writing and recording are actions on a state that outlives a failure.
The equations here run an action one step further on a given state. They are
tagged for `simp`, which with them executes any action whose parts are known.

## Theorems

* `Action.bind_apply`, `map_apply`: Sequences.
* `Action.bind_eq_ok`: What a sequence that succeeds has done.
* `Action.pure_apply`, `throw_apply`: Results and failures.
* `Action.get_apply`, `modify_apply`: Looking at the state and changing it.
* `Action.ofExcept_apply`, `ofExcept_ok_bind`: Results that may be failures.
-/

namespace KlvMetadata

namespace Action

variable {ε σ α β : Type}

@[simp]
theorem bind_apply (x : EStateM ε σ α) (f : α → EStateM ε σ β) (s : σ) :
    (x >>= f) s = match x s with
      | .ok a s' => f a s'
      | .error e s' => .error e s' := by
  rfl

@[simp]
theorem map_apply (f : α → β) (x : EStateM ε σ α) (s : σ) :
    (f <$> x) s = match x s with
      | .ok a s' => .ok (f a) s'
      | .error e s' => .error e s' := by
  rfl

@[simp]
theorem pure_apply (a : α) (s : σ) : (pure a : EStateM ε σ α) s = .ok a s := by
  rfl

@[simp]
theorem throw_apply (e : ε) (s : σ) : (throw e : EStateM ε σ α) s = .error e s := by
  rfl

@[simp]
theorem get_apply (s : σ) : (get : EStateM ε σ σ) s = .ok s s := by
  rfl

@[simp]
theorem modify_apply (f : σ → σ) (s : σ) :
    (modify f : EStateM ε σ PUnit) s = .ok .unit (f s) := by
  rfl

@[simp]
theorem ofExcept_apply (x : Except ε α) (s : σ) :
    (MonadExcept.ofExcept x : EStateM ε σ α) s = match x with
      | .ok a => .ok a s
      | .error e => .error e s := by
  cases x with
  | ok a => rfl
  | error e => rfl

/-- A sequence that succeeds is made of parts that do. -/
theorem bind_eq_ok {x : EStateM ε σ α} {f : α → EStateM ε σ β} {s s' : σ} {b : β}
    (h : (x >>= f) s = .ok b s') : ∃ a between, x s = .ok a between ∧ f a between = .ok b s' := by
  rw [bind_apply] at h
  cases hx : x s with
  | ok a between =>
      rw [hx] at h
      exact ⟨a, between, rfl, h⟩
  | error e left =>
      rw [hx] at h
      contradiction

theorem ofExcept_ok_bind (a : α) (f : α → EStateM ε σ β) :
    (MonadExcept.ofExcept (.ok a : Except ε α) >>= f) = f a := by
  rfl

end Action

end KlvMetadata
