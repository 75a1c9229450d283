import KlvMetadata.Proofs.Wire.Actions
import Mathlib.Data.List.Forall2

/-!
# Readers That Find Their Own End

A delimited reader decides by the bytes it takes alone: what it reads in one
place it reads in every other, and what stands behind is neither looked at nor
needed. Two things follow for such a reader that is run until nothing is left.

The bytes fall into the fields of the things that were read, in one way only,
because two fields that start at the same place are the same. And a cut is
noticed unless it falls between two fields: the fields in front of a cut are
fields of the whole, so a cut inside one leaves bytes that spell nothing.

The bound on the number of rounds is the number of bytes, which is enough if
every round takes one. `Loop` is the repetition without that bound, and what is
said of it shows that the bound is never what ends a run.

## Main definitions

* `Reader.Spells`: Bytes that are read as something wherever they stand.
* `Reader.Delimited`: A reader that decides by the bytes it takes.
* `Reader.Loop`: Repetition without a bound, to the end or to a failure.

## Theorems

* `Reader.Spells.unique`: Bytes start with one field only.
* `Reader.exists_loop`: The loop ends, and the bounded one does the same.
* `Reader.toEnd_eq_ok_iff`: Reading to the end is splitting into fields.
* `Reader.fields_unique`: There is one way to split.
* `Reader.toEnd_take_iff`: The cuts that are not noticed.
-/

namespace KlvMetadata

namespace Reader

variable {α : Type} {read : Reader α}

/-- The bytes are read as `a` in front of anything, and are all that is taken. -/
def Spells (read : Reader α) (field : Bytes) (a : α) : Prop :=
  ∀ rest, read (field ++ rest) = .ok a rest

/-- Reading decides by the bytes it takes. -/
def Delimited (read : Reader α) : Prop :=
  ∀ {data rest : Bytes} {a : α}, read data = .ok a rest →
    ∃ field, data = field ++ rest ∧ read.Spells field a

theorem Spells.read_self {field : Bytes} {a : α} (h : read.Spells field a) :
    read field = .ok a [] := by
  have hself := h []
  rwa [List.append_nil] at hself

theorem Delimited.spells (h : read.Delimited) {field : Bytes} {a : α}
    (hread : read field = .ok a []) : read.Spells field a := by
  rcases h hread with ⟨field', heq, hspells⟩
  rw [List.append_nil] at heq
  rwa [heq]

/-- Bytes start with one field only, which stands for one thing. -/
theorem Spells.unique {field field' rest rest' : Bytes} {a a' : α} (h : read.Spells field a)
    (h' : read.Spells field' a') (heq : field ++ rest = field' ++ rest') :
    field = field' ∧ a = a' ∧ rest = rest' := by
  have hread := h rest
  rw [heq, h' rest'] at hread
  injection hread with ha hrest
  subst ha hrest
  exact ⟨List.append_cancel_right heq, rfl, rfl⟩

/-- Repetition without a bound: the things that were read, and the failure at
    which it stopped, if it did not come to the end. -/
inductive Loop (read : Reader α) : Bytes → List α → Option (Error × Bytes) → Prop
  | done : Loop read [] [] none
  | failed {data left : Bytes} {e : Error} : data ≠ [] → read data = .error e left →
      Loop read data [] (some (e, left))
  | next {data rest : Bytes} {a : α} {items : List α} {stop : Option (Error × Bytes)} :
      data ≠ [] → read data = .ok a rest → Loop read rest items stop →
      Loop read data (a :: items) stop

/-- The result of a repetition that ended so. A failure hides what was read. -/
def ending (items : List α) : Option (Error × Bytes) → EStateM.Result Error Bytes (List α)
  | none => .ok items []
  | some (e, left) => .error e left

theorem repeated_succ (read : Reader α) (fuel : Nat) {data : Bytes} (hne : data ≠ []) :
    repeated read (fuel + 1) data = match read data with
      | .ok a rest => match repeated read fuel rest with
        | .ok items left => .ok (a :: items) left
        | .error e left => .error e left
      | .error e left => .error e left := by
  have hlength : data.length ≠ 0 := fun h => hne (List.length_eq_zero_iff.mp h)
  simp only [repeated, Action.bind_apply, remaining, if_neg hlength, Action.pure_apply]
  cases read data with
  | error e left => rfl
  | ok a rest =>
      dsimp only
      cases repeated read fuel rest <;> rfl

theorem repeated_nil (read : Reader α) (fuel : Nat) : repeated read fuel [] = .ok [] [] := by
  cases fuel with
  | zero => rfl
  | succ fuel => simp [repeated, remaining]

/-- With fuel for every byte, repetition is the loop, which comes to an end. -/
theorem exists_loop_of_fuel (hdelimited : read.Delimited) {least : Nat} (hpos : 1 ≤ least)
    (hleast : ∀ {field a}, read.Spells field a → least ≤ field.length) (fuel : Nat) (data : Bytes)
    (hfuel : data.length ≤ fuel) :
    ∃ items stop, Loop read data items stop ∧ repeated read fuel data = ending items stop ∧
      least * items.length ≤ data.length := by
  induction fuel generalizing data with
  | zero =>
      obtain rfl := List.length_eq_zero_iff.mp (Nat.le_zero.mp hfuel)
      exact ⟨[], none, .done, rfl, Nat.le_refl _⟩
  | succ fuel ih =>
      by_cases hne : data = []
      · subst hne
        exact ⟨[], none, .done, repeated_nil read _, Nat.le_refl _⟩
      rw [repeated_succ read fuel hne]
      cases hread : read data with
      | error e left => exact ⟨[], some (e, left), .failed hne hread, rfl, Nat.zero_le _⟩
      | ok a rest =>
          -- The round has taken a field, so the rest has fuel enough.
          rcases hdelimited hread with ⟨field, rfl, hspells⟩
          have hfield := hleast hspells
          rw [List.length_append] at hfuel ⊢
          rcases ih rest (by omega) with ⟨items, stop, hloop, hrest, hbound⟩
          refine ⟨a :: items, stop, .next hne hread hloop, ?_, ?_⟩
          · simp only [hrest]
            cases stop <;> rfl
          · rw [List.length_cons, Nat.mul_succ]
            omega

/-- On every input the loop ends, after no more rounds than there is room for,
    and reading to the end does the same. -/
theorem exists_loop (hdelimited : read.Delimited) {least : Nat} (hpos : 1 ≤ least)
    (hleast : ∀ {field a}, read.Spells field a → least ≤ field.length) (data : Bytes) :
    ∃ items stop, Loop read data items stop ∧ toEnd read data = ending items stop ∧
      least * items.length ≤ data.length :=
  exists_loop_of_fuel hdelimited hpos hleast data.length data (Nat.le_refl _)

/-- A loop that came to the end has split its input. -/
theorem Loop.fields (hdelimited : read.Delimited) {data : Bytes} {items : List α}
    (h : Loop read data items none) :
    ∃ fields, fields.flatten = data ∧ List.Forall₂ read.Spells fields items := by
  generalize hstop : none = stop at h
  induction h with
  | done => exact ⟨[], rfl, .nil⟩
  | failed hne hread => contradiction
  | next hne hread _ ih =>
      rcases hdelimited hread with ⟨field, rfl, hspells⟩
      rcases ih hstop with ⟨fields, rfl, hfields⟩
      exact ⟨field :: fields, rfl, .cons hspells hfields⟩

/-- Fields that stand one behind the other are read one after the other. -/
theorem repeated_fields {fields : List Bytes} {items : List α}
    (h : List.Forall₂ read.Spells fields items) (hpos : ∀ field ∈ fields, field ≠ []) {fuel : Nat}
    (hfuel : fields.flatten.length ≤ fuel) :
    repeated read fuel fields.flatten = .ok items [] := by
  induction h generalizing fuel with
  | nil => exact repeated_nil read fuel
  | @cons field a fields items hspells _ ih =>
      -- The first field takes a byte, so there is fuel enough for the others.
      rcases List.forall_mem_cons.mp hpos with ⟨hne, hrest⟩
      have hlength := List.length_pos_iff.mpr hne
      rw [List.flatten_cons] at hfuel ⊢
      rw [List.length_append] at hfuel
      have hone : 1 ≤ fuel := by omega
      obtain ⟨fuel, rfl⟩ := Nat.exists_eq_add_of_le' hone
      rw [repeated_succ read fuel (List.append_ne_nil_of_left_ne_nil hne _), hspells]
      have htail : repeated read fuel fields.flatten = .ok items [] := ih hrest (by omega)
      simp only [htail]

theorem toEnd_fields {fields : List Bytes} {items : List α}
    (h : List.Forall₂ read.Spells fields items) (hpos : ∀ field ∈ fields, field ≠ []) :
    toEnd read fields.flatten = .ok items [] :=
  repeated_fields h hpos (Nat.le_refl _)

/-- The same for things that are each read from bytes of their own. -/
theorem toEnd_flatMap {β : Type} {bytes : β → Bytes} {result : β → α} {items : List β}
    (h : ∀ x ∈ items, bytes x ≠ [] ∧ read.Spells (bytes x) (result x)) :
    toEnd read (items.flatMap bytes) = .ok (items.map result) [] := by
  rw [List.flatMap_def]
  refine toEnd_fields ?_ ?_
  · rw [List.forall₂_map_left_iff, List.forall₂_map_right_iff, List.forall₂_same]
    exact fun x hx => (h x hx).2
  · simpa using fun x hx => (h x hx).1

theorem ne_nil_of_spells (hpos : ∀ {field a}, read.Spells field a → field ≠ [])
    {fields : List Bytes} {items : List α} (h : List.Forall₂ read.Spells fields items) :
    ∀ field ∈ fields, field ≠ [] := by
  induction h with
  | nil => exact fun _ hmem => absurd hmem List.not_mem_nil
  | cons hspells _ ih => exact List.forall_mem_cons.mpr ⟨hpos hspells, ih⟩

variable (hdelimited : read.Delimited) (hpos : ∀ {field a}, read.Spells field a → field ≠ [])

include hdelimited hpos

/-- Reading to the end is splitting into fields. -/
theorem toEnd_eq_ok_iff {data left : Bytes} {items : List α} :
    toEnd read data = .ok items left ↔
      left = [] ∧ ∃ fields, fields.flatten = data ∧ List.Forall₂ read.Spells fields items := by
  constructor
  · intro h
    have hleast {field : Bytes} {a : α} (hspells : read.Spells field a) : 1 ≤ field.length :=
      List.length_pos_iff.mpr (hpos hspells)
    rcases exists_loop hdelimited (Nat.le_refl 1) hleast data with ⟨items', stop, hloop, heq, _⟩
    rw [heq] at h
    cases stop with
    | some failure => contradiction
    | none =>
        injection h with hitems hleft
        subst hitems
        exact ⟨hleft.symm, hloop.fields hdelimited⟩
  · rintro ⟨rfl, fields, rfl, hfields⟩
    exact toEnd_fields hfields (ne_nil_of_spells hpos hfields)

omit hdelimited in
/-- Of two ways to split that start alike, one goes on where the other ends. -/
theorem fields_prefix {fields fields' : List Bytes} {items items' : List α} {rest : Bytes}
    (h : List.Forall₂ read.Spells fields items) (h' : List.Forall₂ read.Spells fields' items')
    (heq : fields'.flatten ++ rest = fields.flatten) :
    ∃ i ≤ fields.length, fields' = fields.take i ∧ items' = items.take i := by
  induction h' generalizing fields items with
  | nil => exact ⟨0, Nat.zero_le _, rfl, rfl⟩
  | cons hspells' _ ih =>
      cases h with
      | nil =>
          -- Nothing is left for the first field, which has a byte.
          have hnil := List.append_eq_nil_iff.mp heq
          exact absurd (List.append_eq_nil_iff.mp hnil.1).1 (hpos hspells')
      | cons hspells htail =>
          rw [List.flatten_cons, List.flatten_cons, List.append_assoc] at heq
          rcases hspells'.unique hspells heq with ⟨rfl, rfl, hrest⟩
          rcases ih htail hrest with ⟨i, hi, rfl, rfl⟩
          exact ⟨i + 1, Nat.succ_le_succ hi, rfl, rfl⟩

omit hdelimited in
/-- There is one way to split. -/
theorem fields_unique {fields fields' : List Bytes} {items items' : List α}
    (h : List.Forall₂ read.Spells fields items) (h' : List.Forall₂ read.Spells fields' items')
    (heq : fields'.flatten = fields.flatten) : fields' = fields ∧ items' = items := by
  rw [← List.append_nil fields'.flatten] at heq
  rcases fields_prefix hpos h h' heq with ⟨i, hi, rfl, rfl⟩
  -- The other way round, nothing of the first is left over.
  have heq' : fields.flatten ++ [] = (fields.take i).flatten := by
    rw [← heq, List.append_nil, List.append_nil]
  rcases fields_prefix hpos h' h heq' with ⟨j, _, hfields, _⟩
  have hall : fields.length ≤ i := by
    have hlength := congrArg List.length hfields
    rw [List.length_take, List.length_take] at hlength
    omega
  exact ⟨List.take_of_length_le hall, List.take_of_length_le (h.length_eq ▸ hall)⟩

/-- A cut is not noticed if it falls between two fields. -/
theorem toEnd_take_iff {fields : List Bytes} {items : List α}
    (h : List.Forall₂ read.Spells fields items) {k : Nat} (hk : k ≤ fields.flatten.length)
    (items' : List α) :
    (∃ left, toEnd read (fields.flatten.take k) = .ok items' left) ↔
      ∃ i ≤ fields.length, k = (fields.take i).flatten.length ∧ items' = items.take i := by
  simp only [toEnd_eq_ok_iff hdelimited hpos]
  constructor
  · rintro ⟨_, _, fields', hflatten, hfields'⟩
    have heq : fields'.flatten ++ fields.flatten.drop k = fields.flatten := by
      rw [hflatten, List.take_append_drop]
    rcases fields_prefix hpos h hfields' heq with ⟨i, hi, rfl, rfl⟩
    refine ⟨i, hi, ?_, rfl⟩
    rw [hflatten, List.length_take]
    omega
  · rintro ⟨i, hi, rfl, rfl⟩
    refine ⟨[], rfl, fields.take i, ?_, List.forall₂_take i h⟩
    have hsplit : fields.flatten = (fields.take i).flatten ++ (fields.drop i).flatten := by
      rw [← List.flatten_append, List.take_append_drop]
    rw [hsplit, List.take_left]

end Reader

end KlvMetadata
