import KlvMetadata.Proofs.Format.Restoring

/-!
# The Grammar of Packs

A pack is read part by part, and which bytes are accepted should be known without
reading them. A command is a number, a length, a text of that length, and eight bytes
for a time or none. A frame rate is one number or two. Each number may be spelled in
any of its ways, so that there are more fields than packs.

The parts of a field are kept here as they were spelled. Reading a field is then
nothing but finding its parts. Writing puts the shortest spelling in the place of
each, and for a frame rate leaves out a denominator of one, so what is written is a
field of the same pack in its tightest form. It is the field that was read if that
was tight already, and shorter otherwise, as no part ever grows.

## Main definitions

* `CommandField`, `FrameRateField`: The parts of a field, as they were spelled.
* `CommandField.Tight`, `FrameRateField.Tight`: Nothing in it could be shorter.
* `Codec.Follows`: Reading accepts fields of a form, and writing tightens them.

## Theorems

* `Layout.read_command_iff`, `Layout.read_frameRate_iff`: What reading accepts.
* `CommandField.spelling_command`, `FrameRateField.spelling_rate`: What writing makes of
  a field that was read.
* `Layout.Tightens.follows`: A layout that tightens its fields follows their form.
* `Format.packs_follow_grammar`: Both packs do.
-/

namespace KlvMetadata

/-- The bytes of a command, part by part: a number of sixteen bits, a length, a text of
    that length in UTF-8, and a time of eight bytes or none. -/
structure CommandField where
  id : Numeral BerOid.code
  length : Numeral Ber.code
  body : String
  time : Bytes
  id_le : id.value ≤ 65535
  length_eq : length.value.toNat = (Utf8.encode body).length
  time_length : time.length = 0 ∨ time.length = 8

/-- The bytes of a frame rate, part by part: one number of 32 bits or two. -/
structure FrameRateField where
  numerator : Numeral BerOid.code
  denominator : Option (Numeral BerOid.code)
  numerator_le : numerator.value ≤ 4294967295
  denominator_le : ∀ d ∈ denominator, d.value ≤ 4294967295

namespace CommandField

/-- The parts, one behind the other. -/
def bytes (f : CommandField) : Bytes :=
  f.id.field ++ (f.length.field ++ (Utf8.encode f.body ++ f.time))

/-- What the parts say. The time is there if there are bytes for it. -/
def command (f : CommandField) : ControlCommand where
  id := f.id.value.toUInt16
  body := f.body
  timestamp := if f.time = [] then none else some (UInt64.ofNat (Bytes.toNat f.time))

/-- The number and the length are in their shortest spellings. -/
def Tight (f : CommandField) : Prop := f.id.Shortest ∧ f.length.Shortest

/-- The same command in the shortest spellings. -/
def tightened (f : CommandField) : CommandField :=
  { f with id := .written f.id.value, length := .written f.length.value }

end CommandField

namespace FrameRateField

/-- The parts, one behind the other. -/
def bytes (f : FrameRateField) : Bytes :=
  f.numerator.field ++ (f.denominator.map Numeral.field).getD []

/-- What the parts say. A denominator that is missing is one. -/
def rate (f : FrameRateField) : FrameRate where
  numerator := f.numerator.value.toUInt32
  denominator := (f.denominator.map (·.value.toUInt32)).getD 1

/-- The numbers are in their shortest spellings, and none says that the denominator is
    one. -/
def Tight (f : FrameRateField) : Prop :=
  f.numerator.Shortest ∧ ∀ d ∈ f.denominator, d.Shortest ∧ d.value ≠ 1

/-- The same rate in the shortest spellings, without a denominator of one. -/
def tightened (f : FrameRateField) : FrameRateField where
  numerator := .written f.numerator.value
  denominator := f.denominator.bind fun d => if d.value = 1 then none else some (.written d.value)
  numerator_le := f.numerator_le
  denominator_le := by
    intro d hd
    obtain ⟨d', hd', hkept⟩ := Option.bind_eq_some_iff.mp hd
    split at hkept
    · contradiction
    · obtain rfl := Option.some.inj hkept
      exact f.denominator_le d' hd'

end FrameRateField

namespace Layout

/-- Reading a command is finding the parts of its field. -/
theorem read_command_iff {length : Nat} {data : Bytes} {c : ControlCommand} :
    command.read length data = .ok c [] ↔ ∃ f : CommandField, f.bytes = data ∧ f.command = c := by
  constructor
  · intro h
    obtain ⟨id, behindId, hid, h⟩ := Action.bind_eq_ok h
    obtain ⟨body, behindBody, hbody, h⟩ := Action.bind_eq_ok h
    obtain ⟨timestamp, behindTime, htime, h⟩ := Action.bind_eq_ok h
    injection h with hc _
    obtain ⟨idNumeral, hle, rfl, rfl⟩ := readCommandId_iff.mp hid
    obtain ⟨lengthNumeral, hlength, rfl⟩ := readCommandBody_iff.mp hbody
    obtain ⟨_, hcount, rfl⟩ := readCommandTime_iff.mp htime
    exact ⟨⟨idNumeral, lengthNumeral, body, behindBody, hle, hlength, hcount⟩, rfl, hc⟩
  · rintro ⟨f, rfl, rfl⟩
    have hid (rest : Bytes) : readCommandId (f.id.field ++ rest) = .ok f.id.value.toUInt16 rest :=
      readCommandId_iff.mpr ⟨f.id, f.id_le, rfl, rfl⟩
    have hbody : readCommandBody (f.length.field ++ (Utf8.encode f.body ++ f.time)) =
        .ok f.body f.time :=
      readCommandBody_iff.mpr ⟨f.length, f.length_eq, rfl⟩
    have htime : readCommandTime f.time = .ok f.command.timestamp [] :=
      readCommandTime_iff.mpr ⟨rfl, f.time_length, rfl⟩
    simp only [command, CommandField.bytes, Action.bind_apply, hid, hbody, htime,
      Action.pure_apply]
    rfl

/-- Reading a frame rate is finding the parts of its field. -/
theorem read_frameRate_iff {length : Nat} {data : Bytes} {r : FrameRate} :
    frameRate.read length data = .ok r [] ↔ ∃ f : FrameRateField, f.bytes = data ∧ f.rate = r := by
  constructor
  · intro h
    obtain ⟨numerator, behind, hnumerator, hmore⟩ := Action.bind_eq_ok h
    obtain ⟨n, hn, rfl, rfl⟩ := readTerm_iff.mp hnumerator
    simp only [Action.bind_apply, Reader.remaining] at hmore
    by_cases hnil : behind = []
    · subst hnil
      injection hmore with hr _
      exact ⟨⟨n, none, hn, by simp⟩, rfl, hr⟩
    · have hzero : behind.length ≠ 0 := fun h => hnil (List.length_eq_zero_iff.mp h)
      rw [if_neg hzero] at hmore
      obtain ⟨denominator, _, hdenominator, hrate⟩ := Action.bind_eq_ok hmore
      injection hrate with hr hleft
      subst hleft
      obtain ⟨d, hd, rfl, rfl⟩ := readTerm_iff.mp hdenominator
      refine ⟨⟨n, some d, hn, ?_⟩, ?_, hr⟩
      · rintro _ ⟨⟩
        exact hd
      · rw [FrameRateField.bytes, List.append_nil]
        rfl
  · rintro ⟨⟨n, denominator, hn, hdenominator⟩, rfl, rfl⟩
    have hnumerator (rest : Bytes) : readTerm (n.field ++ rest) = .ok n.value.toUInt32 rest :=
      readTerm_iff.mpr ⟨n, hn, rfl, rfl⟩
    cases denominator with
    | none =>
        simp only [frameRate, FrameRateField.bytes, Action.bind_apply, hnumerator]
        rfl
    | some d =>
        have hread : readTerm d.field = .ok d.value.toUInt32 [] :=
          readTerm_iff.mpr ⟨d, hdenominator d rfl, rfl, (List.append_nil _).symm⟩
        have hleft : d.field.length ≠ 0 := fun h =>
          BerOid.Spelling.ne_nil d.spells (List.length_eq_zero_iff.mp h)
        simp only [frameRate, FrameRateField.bytes, Action.bind_apply, hnumerator,
          Reader.remaining, Option.map_some, Option.getD_some, hleft, if_false, hread,
          Action.pure_apply]
        rfl

end Layout

/-- Of the forms that a field can have, the codec reads those with bytes, each as its item.
    What it writes for a value that it has read is the field if that was tight, and otherwise a
    shorter one that is read as the same item. -/
structure Codec.Follows (c : Codec) {φ : Type} (bytes : φ → Bytes) (item : φ → Item)
    (Tight : φ → Prop) : Prop where
  read_iff : ∀ b v left, b ≠ [] → (c.read b.length b = .ok v left ↔
    left = [] ∧ ∃ f, bytes f = b ∧ v = ⟨some (item f), b.length⟩)
  written : ∀ b v left, b ≠ [] → c.read b.length b = .ok v left → ∃ o : Bytes,
    (∀ space out, o.length ≤ space → c.write v space out = .ok () (out ++ o)) ∧
    (∀ f, bytes f = b → (o = b ↔ Tight f)) ∧
    (o ≠ b → o.length < b.length ∧ c.read o.length o = .ok ⟨v.item, o.length⟩ [])

/-- Fields of some form that can be tightened, and a layout that reads them. -/
structure Layout.Tightens {α : Type} (layout : Layout α) (terms : Layout.Terms) {φ : Type}
    (bytes : φ → Bytes) (content : φ → α) (Tight : φ → Prop) (tightened : φ → φ) : Prop where
  read_iff : ∀ {length data a}, layout.read length data = .ok a [] ↔
    ∃ f, bytes f = data ∧ content f = a
  spells : ∀ f hint, layout.Spells terms (content f) hint (bytes (tightened f))
  content_tightened : ∀ f, content (tightened f) = content f
  length_le : ∀ f, (bytes (tightened f)).length ≤ (bytes f).length ∧
    ((bytes f).length = (bytes (tightened f)).length → Tight f)
  eq_of_tight : ∀ f, Tight f → bytes (tightened f) = bytes f

namespace Layout

/-- A layout that tightens its fields follows their form under the common rules. -/
theorem Tightens.follows {α φ : Type} {layout : Layout α} {terms : Terms} {bytes : φ → Bytes}
    {content : φ → α} {Tight : φ → Prop} {tightened : φ → φ}
    (h : layout.Tightens terms bytes content Tight tightened) {view : ItemView α}
    (hfree : terms.fixedLength = none) (hkind : view.kind ≠ .blob) :
    (layout.codec view terms).Follows bytes (fun f => view.toItem (content f)) Tight where
  read_iff b v left hne := by
    constructor
    · intro hread
      rcases readField_eq_ok_iff.mp hread with
        ⟨hzero, _⟩ | ⟨_, _, field, a, hlength, hdata, ha, hv⟩
      · exact absurd (List.length_eq_zero_iff.mp hzero) hne
      · -- The field that was read is as long as the whole, so it is the whole.
        obtain ⟨rfl, hleft⟩ := List.append_inj ((List.append_nil b).trans hdata) hlength.symm
        obtain ⟨f, hf, rfl⟩ := h.read_iff.mp ha
        exact ⟨hleft.symm, f, hf, hv⟩
    · rintro ⟨rfl, f, rfl, rfl⟩
      exact read_field_self hne (Terms.allow_of_free hfree _) (h.read_iff.mpr ⟨f, rfl, rfl⟩)
  written b v left hne hread := by
    rcases read_codec_eq_ok hread with ⟨hnil, _⟩ | ⟨_, _, a, ha, rfl⟩
    · exact absurd hnil hne
    · obtain ⟨f, rfl, rfl⟩ := h.read_iff.mp ha
      have hsettles (f : φ) : (layout.codec view terms).Settles
          ⟨some (view.toItem (content f)), (bytes f).length⟩ (.written (bytes (tightened f))) :=
        settles_written hkind (h.spells f _).lengthOf (h.spells f 0).appends
      refine ⟨bytes (tightened f), fun _ out hspace => (hsettles f).write_eq_ok hspace out,
        fun f' hf' => ?_, fun hother => ?_⟩
      · -- Whatever the parts in which the field is seen, the same is written.
        have hsame : content f' = content f := by
          have hread' : layout.read (bytes f).length (bytes f) = .ok (content f') [] :=
            h.read_iff.mpr ⟨f', hf', rfl⟩
          rw [ha] at hread'
          injection hread' with hcontent
          exact hcontent.symm
        have hwritten := hsettles f'
        rw [hsame, hf'] at hwritten
        rw [(hsettles f).unique hwritten, ← hf']
        exact ⟨fun heq => (h.length_le f').2 (congrArg List.length heq).symm, h.eq_of_tight f'⟩
      · have hle := (h.length_le f).1
        have hne' : (bytes (tightened f)).length ≠ (bytes f).length := fun hlength =>
          hother (h.eq_of_tight f ((h.length_le f).2 hlength.symm))
        exact ⟨by omega, read_field_self (h.spells f 0).ne_nil (Terms.allow_of_free hfree _)
          (h.read_iff.mpr ⟨tightened f, rfl, h.content_tightened f⟩)⟩

end Layout

theorem toUInt64_toUInt16 {n : UInt64} (h : n ≤ 65535) : n.toUInt16.toUInt64 = n := by
  rw [UInt64.toUInt64_toUInt16, UInt64.mod_eq_of_lt (UInt64.lt_of_le_of_lt h (by decide))]

theorem toUInt64_toUInt32 {n : UInt64} (h : n ≤ 4294967295) : n.toUInt32.toUInt64 = n := by
  rw [UInt64.toUInt64_toUInt32, UInt64.mod_eq_of_lt (UInt64.lt_of_le_of_lt h (by decide))]

namespace CommandField

/-- The time is written in the bytes it was read from. -/
theorem timeSpelling_timestamp (f : CommandField) :
    Layout.timeSpelling f.command.timestamp = f.time := by
  by_cases hnil : f.time = []
  · simp only [command, hnil, if_true, Layout.timeSpelling]
  · have hlength : f.time.length = 8 :=
      f.time_length.resolve_left fun h => hnil (List.length_eq_zero_iff.mp h)
    have hlt : Bytes.toNat f.time < UInt64.size := by
      have hbound := Bytes.toNat_lt f.time
      rwa [hlength] at hbound
    have hback := Bytes.ofNat_toNat f.time
    rw [hlength] at hback
    simp only [command, hnil, if_false, Layout.timeSpelling, UInt64.toNat_ofNat_of_lt' hlt]
    exact hback

/-- What is written for the command of a field is the tightened field. -/
theorem spelling_command (f : CommandField) : f.command.spelling = f.tightened.bytes := by
  have hlength : UInt64.ofNat (TextField.length f.body) = f.length.value := by
    rw [TextField.length, ← f.length_eq, UInt64.ofNat_toNat]
  rw [ControlCommand.spelling, timeSpelling_timestamp]
  simp only [command, toUInt64_toUInt16 f.id_le, hlength]
  rfl

theorem length_tightened_le (f : CommandField) :
    f.tightened.bytes.length ≤ f.bytes.length ∧
      (f.bytes.length = f.tightened.bytes.length → f.Tight) := by
  have hid := f.id.length_encode_le
  have hlength := f.length.length_encode_le
  -- Two parts may shrink, the text and the time stay as they are.
  simp only [bytes, tightened, Numeral.written, List.length_append]
  exact ⟨by omega, fun hsum => ⟨hid.2 (by omega), hlength.2 (by omega)⟩⟩

theorem tightened_of_tight {f : CommandField} (h : f.Tight) : f.tightened.bytes = f.bytes := by
  simp only [bytes, tightened, Numeral.written, ← f.id.shortest_iff.mp h.1,
    ← f.length.shortest_iff.mp h.2]

theorem tightens : Layout.command.Tightens Format.command.terms bytes command Tight tightened where
  read_iff := Layout.read_command_iff
  spells f hint := by
    have hspells := Layout.spells_command f.command hint
    rwa [spelling_command] at hspells
  content_tightened _ := rfl
  length_le := length_tightened_le
  eq_of_tight _ := tightened_of_tight

end CommandField

namespace FrameRateField

/-- What is written for the rate of a field is the tightened field. -/
theorem spelling_rate (f : FrameRateField) : f.rate.spelling = f.tightened.bytes := by
  rcases f with ⟨n, denominator, hn, hdenominator⟩
  have hnumerator := toUInt64_toUInt32 hn
  rw [FrameRate.spelling]
  cases denominator with
  | none =>
      simp only [rate, hnumerator, Option.map_none, Option.getD_none, if_true]
      rfl
  | some d =>
      have hd := toUInt64_toUInt32 (hdenominator d rfl)
      have hone : d.value.toUInt32 = 1 ↔ d.value = 1 := by
        refine ⟨fun h => ?_, fun h => by rw [h]; rfl⟩
        rw [← hd, h]
        rfl
      simp only [rate, bytes, tightened, hnumerator, Option.map_some, Option.getD_some,
        Option.bind_some, hone, hd]
      by_cases h : d.value = 1
      · rw [if_pos h, if_pos h]
        rfl
      · rw [if_neg h, if_neg h]
        rfl

theorem length_tightened_le (f : FrameRateField) :
    f.tightened.bytes.length ≤ f.bytes.length ∧
      (f.bytes.length = f.tightened.bytes.length → f.Tight) := by
  rcases f with ⟨n, denominator, hn, hdenominator⟩
  have hnumerator := n.length_encode_le
  cases denominator with
  | none =>
      simp only [bytes, tightened, Numeral.written, List.length_append, Option.map_none,
        Option.getD_none, Option.bind_none]
      exact ⟨by omega, fun hsum => ⟨hnumerator.2 (by omega), nofun⟩⟩
  | some d =>
      have hd := d.length_encode_le
      simp only [bytes, tightened, Numeral.written, List.length_append, Option.map_some,
        Option.getD_some, Option.bind_some]
      by_cases h : d.value = 1
      · -- A denominator of one has a byte at least, and is left out.
        have hpos := List.length_pos_iff.mpr (BerOid.Spelling.ne_nil d.spells)
        rw [if_pos h, Option.map_none, Option.getD_none, List.length_nil]
        exact ⟨by omega, fun hsum => by omega⟩
      · simp only [if_neg h, Option.map_some, Option.getD_some]
        refine ⟨by omega, fun hsum => ⟨hnumerator.2 (by omega), ?_⟩⟩
        rintro _ ⟨⟩
        exact ⟨hd.2 (by omega), h⟩

theorem tightened_of_tight {f : FrameRateField} (h : f.Tight) : f.tightened.bytes = f.bytes := by
  rcases f with ⟨n, denominator, hn, hdenominator⟩
  have hnumerator := n.shortest_iff.mp h.1
  cases denominator with
  | none =>
      simp only [bytes, tightened, Numeral.written, ← hnumerator]
      rfl
  | some d =>
      rcases h.2 d rfl with ⟨hshortest, hone⟩
      simp only [bytes, tightened, Numeral.written, ← hnumerator, Option.map_some,
        Option.getD_some, Option.bind_some, if_neg hone, ← d.shortest_iff.mp hshortest]

theorem rate_tightened (f : FrameRateField) : f.tightened.rate = f.rate := by
  rcases f with ⟨n, denominator, hn, hdenominator⟩
  cases denominator with
  | none => rfl
  | some d =>
      simp only [rate, tightened, Numeral.written, Option.bind_some, Option.map_some,
        Option.getD_some]
      split
      · next h =>
        rw [h]
        rfl
      · rfl

theorem tightens :
    Layout.frameRate.Tightens Format.frameRate.terms bytes rate Tight tightened where
  read_iff := Layout.read_frameRate_iff
  spells f hint := by
    have hspells := Layout.spells_frameRate f.rate hint
    rwa [spelling_rate] at hspells
  content_tightened := rate_tightened
  length_le := length_tightened_le
  eq_of_tight _ := tightened_of_tight

end FrameRateField

namespace Format

/-- Under both formats of packs the fields that are read are those of their form: for a
    command a number up to 65535, the length of a text and the text, and either
    nothing or eight bytes; for a frame rate one number of 32 bits or two, the second
    being one if it is missing. Numbers and lengths may be in any spelling. What is
    written for a value that was read is the field, if all spellings in it are the
    shortest and no second number says one, and otherwise a shorter field that is read
    as the same item. -/
theorem packs_follow_grammar :
    command.codec.Follows CommandField.bytes (fun f => .command f.command) CommandField.Tight ∧
    frameRate.codec.Follows FrameRateField.bytes (fun f => .frameRate f.rate)
      FrameRateField.Tight :=
  ⟨CommandField.tightens.follows rfl nofun, FrameRateField.tightens.follows rfl nofun⟩

/-- Thirty over one with a padded one, which is read, and written without the one. -/
theorem packs_follow_grammar_padded :
    let rate : Item := .frameRate ⟨30, 1⟩
    frameRate.codec.read 3 [30, 128, 1] = .ok ⟨some rate, 3⟩ [] ∧
    ∃ o : Bytes, o.length < 3 ∧ frameRate.codec.read o.length o = .ok ⟨some rate, o.length⟩ [] ∧
      frameRate.codec.write ⟨some rate, 3⟩ 3 [] = .ok () o := by
  have hread : frameRate.codec.read 3 [30, 128, 1] = .ok ⟨some (.frameRate ⟨30, 1⟩), 3⟩ [] := rfl
  -- The field by its parts, the second of which is neither shortest nor needed.
  let field : FrameRateField :=
    { numerator := ⟨30, [30], .padded 1 (by decide)⟩
      denominator := some ⟨1, [128, 1], .padded 2 (by decide)⟩
      numerator_le := by decide
      denominator_le := by decide }
  obtain ⟨o, hwrite, htight, hshorter⟩ :=
    packs_follow_grammar.2.written [30, 128, 1] _ _ (by simp) hread
  have hloose : o ≠ [30, 128, 1] := fun h => (((htight field rfl).mp h).2 _ rfl).2 rfl
  obtain ⟨hlength, hback⟩ := hshorter hloose
  exact ⟨hread, o, hlength, hback, hwrite 3 [] (Nat.le_of_lt hlength)⟩

end Format

end KlvMetadata
