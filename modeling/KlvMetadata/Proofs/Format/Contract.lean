import KlvMetadata.Format.Layout
import KlvMetadata.Proofs.Wire.Writers

/-!
# The Contract of Writing

A codec measures a value and writes it, in two separate ways that have to
agree. An outcome is what they agree on: the value has no length, or it has
one but cannot be written, or it is certain bytes. The outcome is a matter of
the value alone. The space decides only whether there is an overflow, and the
output only what the bytes are added to.

The rules common to all layouts turn a layout that is exact into a codec that
is definite. Exactness is the layout's own share: what it writes in the length
it asked for is of that length.

## Main definitions

* `Codec.Outcome`: What becomes of a value.
* `Codec.Settles`: Measuring and writing a value have an outcome.
* `Codec.Definite`: They have one for every value.
* `Layout.Exact`: Writing fills the length that was asked for.

## Theorems

* `Codec.Outcome.write_eq_ok`, `write_eq_error`: What writing leaves.
* `Codec.Outcome.write_overflow`, `write_unmeasured`: What writing must refuse.
* `Layout.field_cases`: What the common rules make of a value.
* `Layout.Exact.definite`: An exact layout makes a definite codec.
-/

namespace KlvMetadata

/-- What becomes of a value, whatever the output and the space. -/
inductive Codec.Outcome where
  /-- It has no length, and for the same reason no bytes. -/
  | unmeasured (e : Error)
  /-- It has a length but no bytes. -/
  | unwritable (length : Nat) (e : Error)
  | written (bytes : Bytes)

namespace Codec.Outcome

def lengthOf : Outcome → Except Error Nat
  | unmeasured e => .error e
  | unwritable length _ => .ok length
  | written bytes => .ok bytes.length

/-- The bytes, or the reason why there are none. -/
def result : Outcome → Except Error Bytes
  | unmeasured e | unwritable _ e => .error e
  | written bytes => .ok bytes

/-- What writing does. A length that does not fit is reported before anything
    else about the value, and no failure leaves anything behind. -/
def write : Outcome → (space : Nat) → Writer
  | unmeasured e, _ => throw e
  | unwritable length e, space => do
    Writer.checkSpace length space
    throw e
  | written bytes, space => do
    Writer.checkSpace bytes.length space
    Writer.emit bytes

/-- A success adds the bytes that were measured, which there is space for. -/
theorem write_eq_ok {o : Outcome} {space : Nat} {out out' : Bytes}
    (h : o.write space out = .ok () out') :
    ∃ bytes, o = written bytes ∧ out' = out ++ bytes ∧ bytes.length ≤ space := by
  cases o with
  | unmeasured e => contradiction
  | unwritable length e =>
      rw [write, Writer.checkSpace_bind] at h
      split at h <;> contradiction
  | written bytes =>
      rw [write, Writer.checkSpace_bind] at h
      split at h
      · contradiction
      · injection h with _ h
        exact ⟨bytes, rfl, h.symm, by omega⟩

theorem write_overflow {o : Outcome} {length space : Nat} (h : o.lengthOf = .ok length)
    (hspace : space < length) (out : Bytes) :
    o.write space out = .error (.bufferOverflow length space) out := by
  cases o with
  | unmeasured e => contradiction
  | unwritable n e =>
      obtain rfl := Except.ok.inj h
      rw [write, Writer.checkSpace_bind, if_pos hspace]
  | written bytes =>
      obtain rfl := Except.ok.inj h
      rw [write, Writer.checkSpace_bind, if_pos hspace]

theorem write_unmeasured {o : Outcome} {e : Error} (h : o.lengthOf = .error e) (space : Nat)
    (out : Bytes) : o.write space out = .error e out := by
  cases o with
  | unmeasured e' =>
      obtain rfl := Except.error.inj h
      rfl
  | unwritable n e' => contradiction
  | written bytes => contradiction

theorem write_eq_error {o : Outcome} {space : Nat} {out left : Bytes} {e : Error}
    (h : o.write space out = .error e left) : left = out := by
  cases o with
  | unmeasured e' =>
      injection h with _ h
      exact h.symm
  | unwritable length e' =>
      rw [write, Writer.checkSpace_bind] at h
      split at h
      all_goals
        injection h with _ h
        exact h.symm
  | written bytes =>
      rw [write, Writer.checkSpace_bind] at h
      split at h
      · injection h with _ h
        exact h.symm
      · contradiction

/-- With enough space, what is left to happen does not depend on it. -/
theorem uniform_write {o : Outcome} {length : Nat} (h : o.lengthOf = .ok length) (space : Nat)
    (hspace : length ≤ space) : (o.write space).Uniform length := by
  cases o with
  | unmeasured e => contradiction
  | unwritable n e =>
      obtain rfl := Except.ok.inj h
      rw [write, Writer.checkSpace_eq hspace]
      exact (Writer.fails_throw e).uniform n
  | written bytes =>
      obtain rfl := Except.ok.inj h
      rw [write, Writer.checkSpace_eq hspace]
      exact (Writer.appends_emit bytes).uniform

end Codec.Outcome

namespace Codec

/-- Measuring and writing a value have this outcome. -/
structure Settles (c : Codec) (v : Value) (o : Outcome) : Prop where
  lengthOf : c.lengthOf v = o.lengthOf
  write : ∀ space, c.write v space = o.write space

/-- Bytes are written if there is space for them. -/
theorem Settles.write_eq_ok {c : Codec} {v : Value} {bytes : Bytes}
    (h : c.Settles v (.written bytes)) {space : Nat} (hspace : bytes.length ≤ space)
    (out : Bytes) : c.write v space out = .ok () (out ++ bytes) := by
  rw [h.write, Outcome.write, Writer.checkSpace_eq hspace]
  rfl

/-- A value that cannot be written fails where there is space for it. -/
theorem Settles.write_eq_error {c : Codec} {v : Value} {length : Nat} {e : Error}
    (h : c.Settles v (.unwritable length e)) (out : Bytes) :
    c.write v length out = .error e out := by
  rw [h.write, Outcome.write, Writer.checkSpace_eq (Nat.le_refl length)]
  rfl

/-- A value has only one outcome that is bytes. -/
theorem Settles.unique {c : Codec} {v : Value} {bytes bytes' : Bytes}
    (h : c.Settles v (.written bytes)) (h' : c.Settles v (.written bytes')) : bytes = bytes' := by
  have hlength : bytes.length = bytes'.length := Except.ok.inj (h.lengthOf.symm.trans h'.lengthOf)
  have hwrite := h.write_eq_ok (Nat.le_refl _) []
  rw [h'.write_eq_ok (Nat.le_of_eq hlength.symm)] at hwrite
  injection hwrite with _ hwrite
  exact hwrite.symm

/-- Measuring and writing have an outcome for every value. -/
def Definite (c : Codec) : Prop := ∀ v, ∃ o, c.Settles v o

end Codec

namespace Layout

variable {α : Type}

/-- Writing in the length that was asked for fills that length or fails, in the
    same way on every output. -/
def Exact (layout : Layout α) : Prop :=
  ∀ a hint length, layout.lengthOf a hint = .ok length → (layout.write a length).Uniform length

/-- Measure a thing and write it as a whole, if there is space for it. -/
def writeMeasured (layout : Layout α) (a : α) (hint space : Nat) : Writer := do
  let length ← MonadExcept.ofExcept (layout.lengthOf a hint)
  Writer.checkSpace length space
  Writer.whole (layout.write a length)

theorem writeMeasured_written {layout : Layout α} {a : α} {hint : Nat} {bytes : Bytes}
    (hlength : layout.lengthOf a hint = .ok bytes.length)
    (happ : (layout.write a bytes.length).Appends bytes) (space : Nat) :
    layout.writeMeasured a hint space = (Codec.Outcome.written bytes).write space := by
  have hwhole : Writer.whole (layout.write a bytes.length) = Writer.emit bytes :=
    funext happ.whole
  rw [writeMeasured, hlength, Action.ofExcept_ok_bind, hwhole, Codec.Outcome.write]

theorem Exact.settles {layout : Layout α} (h : layout.Exact) (a : α) (hint : Nat) :
    ∃ o : Codec.Outcome, layout.lengthOf a hint = o.lengthOf ∧
      ∀ space, layout.writeMeasured a hint space = o.write space := by
  cases hlength : layout.lengthOf a hint with
  | error e =>
      refine ⟨.unmeasured e, rfl, fun space => ?_⟩
      rw [writeMeasured, hlength]
      rfl
  | ok length =>
      -- Writing as a whole takes back what a failure left, so only the reason is seen.
      rcases h a hint length hlength with ⟨bytes, rfl, happ⟩ | ⟨e, hfail⟩
      · exact ⟨.written bytes, rfl, writeMeasured_written hlength happ⟩
      · have hwhole : Writer.whole (layout.write a length) = throw e := funext hfail.whole
        refine ⟨.unwritable length e, rfl, fun space => ?_⟩
        rw [writeMeasured, hlength, Action.ofExcept_ok_bind, hwhole, Codec.Outcome.write]

/-- The rules for an item that is no blob: one of another kind is refused. -/
theorem lengthOfField_item (layout : Layout α) (view : ItemView α) {item : Item}
    (h : ∀ bytes, item ≠ .blob bytes) (hint : Nat) :
    layout.lengthOfField view ⟨some item, hint⟩ =
      match view.ofItem? item with
      | none => .error (.typeMismatch view.kind (some item.kind))
      | some a => layout.lengthOf a hint := by
  cases item with
  | blob bytes => exact absurd rfl (h bytes)
  | _ => rfl

theorem writeField_item (layout : Layout α) (view : ItemView α) {item : Item}
    (h : ∀ bytes, item ≠ .blob bytes) (hint space : Nat) :
    layout.writeField view ⟨some item, hint⟩ space =
      match view.ofItem? item with
      | none => throw (.typeMismatch view.kind (some item.kind))
      | some a => layout.writeMeasured a hint space := by
  cases item with
  | blob bytes => exact absurd rfl (h bytes)
  | _ => rfl

/-- Only a view of blobs makes blobs. -/
theorem toItem_ne_blob {view : ItemView α} (h : view.kind ≠ .blob) (a : α) (bytes : Bytes) :
    view.toItem a ≠ .blob bytes := by
  intro heq
  have hkind := view.kind_toItem a
  rw [heq] at hkind
  exact h hkind.symm

/-- A thing that is written in the length it asked for settles the value. -/
theorem settles_written {layout : Layout α} {view : ItemView α} {terms : Terms} {a : α}
    {hint : Nat} {bytes : Bytes} (hkind : view.kind ≠ .blob)
    (hlength : layout.lengthOf a hint = .ok bytes.length)
    (happ : (layout.write a bytes.length).Appends bytes) :
    (layout.codec view terms).Settles ⟨some (view.toItem a), hint⟩ (.written bytes) := by
  have hview : view.ofItem? (view.toItem a) = some a := (view.ofItem?_eq_some _ a).mpr rfl
  constructor
  · refine (lengthOfField_item layout view (toItem_ne_blob hkind a) hint).trans ?_
    rw [hview]
    exact hlength
  · intro space
    refine (writeField_item layout view (toItem_ne_blob hkind a) hint space).trans ?_
    rw [hview]
    exact writeMeasured_written hlength happ space

/-- Nothing takes no bytes, which fit everywhere. -/
theorem settles_empty (layout : Layout α) (view : ItemView α) (terms : Terms) (hint : Nat) :
    (layout.codec view terms).Settles ⟨none, hint⟩ (.written []) where
  lengthOf := rfl
  write space := by
    funext out
    rw [Codec.Outcome.write, List.length_nil, Writer.checkSpace_eq (Nat.zero_le space)]
    exact congrArg (EStateM.Result.ok ()) (List.append_nil out).symm

/-- What the common rules make of a value: it is passed on as it is, it is refused for
    its kind, or it is left to the layout. -/
theorem field_cases (layout : Layout α) (view : ItemView α) (terms : Terms) (v : Value) :
    (∃ bytes, (layout.codec view terms).Settles v (.written bytes)) ∨
    (∃ expected actual,
      (layout.codec view terms).Settles v (.unmeasured (.typeMismatch expected actual))) ∨
    ∃ a, layout.lengthOfField view v = layout.lengthOf a v.hint ∧
      ∀ space, layout.writeField view v space = layout.writeMeasured a v.hint space := by
  rcases v with ⟨content, hint⟩
  cases content with
  | none => exact Or.inl ⟨[], settles_empty layout view terms hint⟩
  | some item =>
      by_cases hblob : ∃ bytes, item = .blob bytes
      · rcases hblob with ⟨bytes, rfl⟩
        exact Or.inl ⟨bytes, rfl, fun space => rfl⟩
      · have hother : ∀ bytes, item ≠ .blob bytes := fun bytes hb => hblob ⟨bytes, hb⟩
        have hlength := lengthOfField_item layout view hother hint
        have hwrite := writeField_item layout view hother hint
        cases hview : view.ofItem? item with
        | none =>
            rw [hview] at hlength
            simp only [hview] at hwrite
            exact Or.inr (Or.inl ⟨_, _, hlength, hwrite⟩)
        | some a =>
            rw [hview] at hlength
            simp only [hview] at hwrite
            exact Or.inr (Or.inr ⟨a, hlength, hwrite⟩)

/-- An exact layout makes a definite codec. -/
theorem Exact.definite {layout : Layout α} (h : layout.Exact) (view : ItemView α)
    (terms : Terms) : (layout.codec view terms).Definite := by
  intro v
  rcases field_cases layout view terms v with
    ⟨bytes, hbytes⟩ | ⟨expected, actual, hrefused⟩ | ⟨a, hlength, hwrite⟩
  · exact ⟨_, hbytes⟩
  · exact ⟨_, hrefused⟩
  · rcases h.settles a v.hint with ⟨o, holength, howrite⟩
    exact ⟨o, hlength.trans holength, fun space => (hwrite space).trans (howrite space)⟩

end Layout

end KlvMetadata
