import KlvMetadata.Format.Basic
import KlvMetadata.Proofs.Wire.Spellings

/-!
# Fields Among Other Bytes

A field is read through a window of its own length. So what can be read from a
field alone can be read from it in front of anything, and reading takes the
field and leaves the rest. This is all that sets need to know to read their
entries one after the other, and it holds whatever the layout does inside the
window.

A read that succeeds has therefore done one of two things. Either the length
is zero and the value is empty, or the layout has used up the next bytes, of
which there are as many as the length says and as many as the format asks for.

## Main definitions

* `Codec.Local`: Reading a field does not depend on what stands behind it.
* `Layout.Terms.Allow`: A length is the one that is asked for, if there is one.
* `Codec.outcome`: What reading gives, without what it leaves.

## Theorems

* `Layout.readField_eq_window`, `readField_refused`: The checks before the window.
* `Layout.readField_eq_ok_iff`: What a read that succeeds has done.
* `Layout.local_codec`, `Format.local_codec`: All codecs are local.
* `Layout.field_of_read`, `Format.field_of_read`: Reading takes a field.
* `Layout.read_field`, `read_field_error`: Reading a field that its layout uses
  up or refuses.
* `Layout.hint_of_read`, `Format.hint_of_read`: The hint is the length.
* `Layout.left_of_read_error`, `Layout.outcome_congr`: A read that fails takes nothing, and
  the outcome is that of the field.
* `Format.reading_keeps_to_field`: All of this for every format.
-/

namespace KlvMetadata

/-- What is read from a field alone is read from it in front of anything. -/
def Codec.Local (c : Codec) : Prop :=
  ∀ {field : Bytes} {v : Value} {left : Bytes}, c.read field.length field = .ok v left →
    ∀ rest, c.read field.length (field ++ rest) = .ok v rest

/-- What reading gives, without what it leaves. -/
def Codec.outcome (c : Codec) (length : Nat) (data : Bytes) : Except Error Value :=
  match c.read length data with
  | .ok v _ => .ok v
  | .error e _ => .error e

/-- A read through a window has used up all that the window shows. -/
theorem Reader.within_eq_ok_iff {α : Type} {n : Nat} {unread : Nat → Error} {read : Reader α}
    {data rest : Bytes} {a : α} :
    Reader.within n unread read data = .ok a rest ↔
      read (data.take n) = .ok a [] ∧ rest = data.drop n := by
  unfold Reader.within
  cases read (data.take n) with
  | error e s => simp
  | ok b unused =>
      cases unused with
      | cons byte bytes => simp
      | nil =>
          simp only [EStateM.Result.ok.injEq, and_true]
          exact and_congr_right fun _ => eq_comm

/-- What a window hides is still there when the read through it fails. -/
theorem Reader.left_of_within_error {α : Type} {n : Nat} {unread : Nat → Error}
    {read : Reader α} {data left : Bytes} {e : Error}
    (h : Reader.within n unread read data = .error e left) : left = data := by
  unfold Reader.within at h
  split at h
  · injection h with _ hleft
    exact hleft.symm
  · contradiction
  · injection h with _ hleft
    exact hleft.symm

namespace Layout

/-- The length is the one that is asked for, if there is one. -/
def Terms.Allow (terms : Terms) (length : Nat) : Prop :=
  ∀ required, terms.fixedLength = some required → required = length

variable {α : Type} {layout : Layout α} {view : ItemView α} {terms : Terms} {data rest : Bytes}
  {length : Nat} {v : Value}

/-- A length that is not allowed is not the one that is asked for. -/
theorem Terms.required_of_not_allow (h : ¬ terms.Allow length) :
    ∃ required, terms.fixedLength = some required ∧ required ≠ length := by
  simpa only [Terms.Allow, Classical.not_forall, exists_prop] using h

/-- A field of a length that is allowed is read through its window. -/
theorem readField_eq_window (hne : length ≠ 0) (hle : length ≤ data.length)
    (hfixed : terms.Allow length) :
    layout.readField view terms length data =
      ((fun a => (⟨some (view.toItem a), length⟩ : Value)) <$>
        Reader.within length
          (fun left => .parse (.unreadBytes (terms.description ()) left length))
          (layout.read length)) data := by
  have hleft : ¬ data.length < length := by omega
  cases hrequired : terms.fixedLength with
  | none =>
      simp only [readField, hne, hrequired]
      simp [Reader.remaining, hleft, -Action.map_apply]
  | some required =>
      obtain rfl := hfixed required hrequired
      simp only [readField, hne, hrequired]
      simp [Reader.remaining, hleft, -Action.map_apply]

/-- Another length is refused before the window is opened. -/
theorem readField_refused (hne : length ≠ 0) (hle : length ≤ data.length) {required : Nat}
    (hfixed : terms.fixedLength = some required) (hrequired : required ≠ length) :
    layout.readField view terms length data =
      .error (.parse (.fieldLength (terms.description ()) required length)) data := by
  have hleft : ¬ data.length < length := by omega
  simp [readField, hne, Reader.remaining, hleft, Reader.fail, hfixed, hrequired]

/-- So is a length for which there are not enough bytes. -/
theorem readField_underflow (hne : length ≠ 0) (hle : data.length < length) :
    layout.readField view terms length data =
      .error (.parse (.underflow length data.length)) data := by
  simp [readField, hne, Reader.remaining, hle, Reader.fail]

/-- Nothing is read from an empty field, and nothing taken. -/
theorem readField_zero : layout.readField view terms 0 data = .ok .empty data := by
  rfl

/-- What a read that succeeds has done. -/
theorem readField_eq_ok_iff :
    layout.readField view terms length data = .ok v rest ↔
      (length = 0 ∧ v = .empty ∧ data = rest) ∨
      (length ≠ 0 ∧ terms.Allow length ∧ ∃ field a, field.length = length ∧
        data = field ++ rest ∧ layout.read length field = .ok a [] ∧
        v = ⟨some (view.toItem a), length⟩) := by
  by_cases hzero : length = 0
  · subst hzero
    rw [readField_zero, EStateM.Result.ok.injEq]
    simp [eq_comm]
  by_cases hle : length ≤ data.length
  · by_cases hfixed : terms.Allow length
    · rw [readField_eq_window hzero hle hfixed, Action.map_apply]
      constructor
      · intro h
        split at h
        · next a left hwithin =>
          injection h with hv hleft
          subst hv hleft
          rcases Reader.within_eq_ok_iff.mp hwithin with ⟨hread, hrest⟩
          exact Or.inr ⟨hzero, hfixed, data.take length, a, List.length_take_of_le hle,
            by rw [hrest, List.take_append_drop], hread, rfl⟩
        · contradiction
      · rintro (⟨h, _⟩ | ⟨_, _, field, a, hlength, rfl, hread, rfl⟩)
        · exact absurd h hzero
        · have hwithin (unread : Nat → Error) :
              Reader.within length unread (layout.read length) (field ++ rest) = .ok a rest :=
            Reader.within_eq_ok_iff.mpr
              ⟨by rwa [List.take_left' hlength], (List.drop_left' hlength).symm⟩
          rw [hwithin]
    · rcases Terms.required_of_not_allow hfixed with ⟨required, hsome, hne⟩
      rw [readField_refused hzero hle hsome hne]
      simp [hzero, hfixed]
  · rw [readField_underflow hzero (Nat.lt_of_not_le hle)]
    simp only [reduceCtorEq, false_iff]
    rintro (⟨h, _⟩ | ⟨_, _, field, a, hlength, rfl, _⟩)
    · exact hzero h
    · rw [List.length_append] at hle
      omega

/-- Reading takes a field from the front, and looks at nothing else. -/
theorem field_of_read (h : (layout.codec view terms).read length data = .ok v rest) :
    ∃ field, field.length = length ∧ data = field ++ rest ∧
      ∀ rest', (layout.codec view terms).read length (field ++ rest') = .ok v rest' := by
  rcases readField_eq_ok_iff.mp h with
    ⟨hzero, hv, hdata⟩ | ⟨hne, hfixed, field, a, hlength, hdata, hread, hv⟩
  · exact ⟨[], hzero.symm, hdata, fun _ => readField_eq_ok_iff.mpr (Or.inl ⟨hzero, hv, rfl⟩)⟩
  · exact ⟨field, hlength, hdata, fun _ => readField_eq_ok_iff.mpr
      (Or.inr ⟨hne, hfixed, field, a, hlength, rfl, hread, hv⟩)⟩

theorem local_codec (layout : Layout α) (view : ItemView α) (terms : Terms) :
    (layout.codec view terms).Local := by
  intro field v left h rest
  rcases field_of_read h with ⟨field', hlength, hfield, hread⟩
  -- The field that was taken has the length of the whole, so it is the whole.
  obtain ⟨rfl, _⟩ := List.append_inj ((List.append_nil field).trans hfield) hlength.symm
  exact hread rest

/-- What a field is read as when its layout uses it up. -/
theorem read_field {field : Bytes} {a : α} (hne : field ≠ []) (hallow : terms.Allow field.length)
    (hread : layout.read field.length field = .ok a []) (rest : Bytes) :
    (layout.codec view terms).read field.length (field ++ rest) =
      .ok ⟨some (view.toItem a), field.length⟩ rest := by
  have hzero : field.length ≠ 0 := fun hlength => hne (List.length_eq_zero_iff.mp hlength)
  exact readField_eq_ok_iff.mpr (Or.inr ⟨hzero, hallow, field, a, rfl, rfl, hread, rfl⟩)

/-- The same where nothing stands behind the field. -/
theorem read_field_self {field : Bytes} {a : α} (hne : field ≠ [])
    (hallow : terms.Allow field.length) (hread : layout.read field.length field = .ok a []) :
    (layout.codec view terms).read field.length field =
      .ok ⟨some (view.toItem a), field.length⟩ [] := by
  have hfield : (layout.codec view terms).read field.length (field ++ []) =
      .ok ⟨some (view.toItem a), field.length⟩ [] := read_field hne hallow hread []
  rwa [List.append_nil] at hfield

/-- What a field gives when its layout refuses it: the reason, and nothing is taken. -/
theorem read_field_error {field left : Bytes} {e : Error} (hne : field ≠ [])
    (hallow : terms.Allow field.length) (hread : layout.read field.length field = .error e left)
    (rest : Bytes) :
    (layout.codec view terms).read field.length (field ++ rest) = .error e (field ++ rest) := by
  have hzero : field.length ≠ 0 := fun hlength => hne (List.length_eq_zero_iff.mp hlength)
  have hle : field.length ≤ (field ++ rest).length := by
    rw [List.length_append]
    omega
  refine (readField_eq_window hzero hle hallow).trans ?_
  rw [Action.map_apply, Reader.within, List.take_left, hread]

/-- A value that is read remembers how many bytes it was read from. -/
theorem hint_of_read (h : (layout.codec view terms).read length data = .ok v rest)
    (hne : length ≠ 0) : v.hint = length := by
  rcases readField_eq_ok_iff.mp h with ⟨hzero, _, _⟩ | ⟨_, _, _, _, _, _, _, rfl⟩
  · exact absurd hzero hne
  · rfl

/-- A read that fails takes nothing, however far the layout got in its window. -/
theorem left_of_read_error {e : Error} {left : Bytes}
    (h : (layout.codec view terms).read length data = .error e left) : left = data := by
  change layout.readField view terms length data = .error e left at h
  -- The checks come in the order in which the reader makes them.
  by_cases hzero : length = 0
  · subst hzero
    rw [readField_zero] at h
    contradiction
  rcases Nat.lt_or_ge data.length length with hshort | hle
  · rw [readField_underflow hzero hshort] at h
    injection h with _ hleft
    exact hleft.symm
  by_cases hallow : terms.Allow length
  · rw [readField_eq_window hzero hle hallow, Action.map_apply] at h
    split at h
    · contradiction
    · next hwithin =>
      injection h with _ hleft
      rw [← hleft, Reader.left_of_within_error hwithin]
  · rcases Terms.required_of_not_allow hallow with ⟨required, hsome, hne⟩
    rw [readField_refused hzero hle hsome hne] at h
    injection h with _ hleft
    exact hleft.symm

/-- The outcome is that of the field: of data that begin with the same field it is the same. -/
theorem outcome_congr {other : Bytes} (hle : length ≤ data.length) (hother : length ≤ other.length)
    (hfield : data.take length = other.take length) :
    (layout.codec view terms).outcome length data =
      (layout.codec view terms).outcome length other := by
  change (match layout.readField view terms length data with
      | .ok v _ => Except.ok v
      | .error e _ => .error e) =
    match layout.readField view terms length other with
      | .ok v _ => Except.ok v
      | .error e _ => .error e
  by_cases hzero : length = 0
  · subst hzero
    rw [readField_zero, readField_zero]
  by_cases hallow : terms.Allow length
  · rw [readField_eq_window hzero hle hallow, readField_eq_window hzero hother hallow,
      Action.map_apply, Action.map_apply, Reader.within, Reader.within, hfield]
    -- Both windows show the same, and only what lies behind them differs.
    rcases layout.read length (other.take length) with ⟨a, left⟩ | ⟨e, left⟩
    · cases left <;> rfl
    · rfl
  · rcases Terms.required_of_not_allow hallow with ⟨required, hsome, hne⟩
    rw [readField_refused hzero hle hsome hne, readField_refused hzero hother hsome hne]

/-- A field of any length may be read if none is asked for. -/
theorem Terms.allow_of_free (h : terms.fixedLength = none) (length : Nat) : terms.Allow length := by
  intro required hrequired
  rw [h] at hrequired
  contradiction

end Layout

theorem Format.local_codec (f : Format) : f.codec.Local := by
  cases f <;> exact Layout.local_codec _ _ _

/-- Reading takes a field from the front, and looks at nothing else. -/
theorem Format.field_of_read (f : Format) {length : Nat} {data rest : Bytes} {v : Value}
    (h : f.codec.read length data = .ok v rest) :
    ∃ field, field.length = length ∧ data = field ++ rest ∧
      ∀ rest', f.codec.read length (field ++ rest') = .ok v rest' := by
  cases f <;> exact Layout.field_of_read h

/-- A value that is read remembers how many bytes it was read from. -/
theorem Format.hint_of_read (f : Format) {length : Nat} {data rest : Bytes} {v : Value}
    (h : f.codec.read length data = .ok v rest) (hne : length ≠ 0) : v.hint = length := by
  cases f <;> exact Layout.hint_of_read h hne

/-- Whatever a format does inside a field, the common rules are around it. -/
theorem Format.exists_layout (f : Format) : ∃ (α : Type) (layout : Layout α) (view : ItemView α),
    f.codec = layout.codec view f.terms := by
  cases f <;> exact ⟨_, _, _, rfl⟩

/-- Whatever the format, the length and the data: no length gives the empty
    value and takes nothing; a length that exceeds the data is refused, for that
    reason; a failure takes nothing; a success gives an item with the length for
    a hint and takes as many bytes; and the outcome is that of these bytes,
    whatever stands behind them. -/
theorem Format.reading_keeps_to_field (f : Format) (length : Nat) (data : Bytes) :
    f.codec.read 0 data = .ok .empty data ∧
    (length ≠ 0 → data.length < length →
      f.codec.read length data = .error (.parse (.underflow length data.length)) data) ∧
    (∀ e left, f.codec.read length data = .error e left → left = data) ∧
    (length ≠ 0 → ∀ v rest, f.codec.read length data = .ok v rest →
      v.isEmpty = false ∧ v.hint = length ∧ length ≤ data.length ∧ rest = data.drop length) ∧
    ∀ other : Bytes, length ≤ data.length → length ≤ other.length →
      data.take length = other.take length →
      f.codec.outcome length data = f.codec.outcome length other := by
  rcases f.exists_layout with ⟨α, layout, view, hcodec⟩
  rw [hcodec]
  refine ⟨rfl, Layout.readField_underflow,
    fun e left => Layout.left_of_read_error, fun hne v rest h => ?_,
    fun other => Layout.outcome_congr⟩
  rcases Layout.readField_eq_ok_iff.mp h with
    ⟨hzero, _⟩ | ⟨_, _, field, a, hlength, rfl, _, rfl⟩
  · exact absurd hzero hne
  · refine ⟨rfl, rfl, ?_, (List.drop_left' hlength).symm⟩
    rw [List.length_append]
    omega

end KlvMetadata
