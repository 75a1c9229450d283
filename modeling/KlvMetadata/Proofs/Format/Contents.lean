import KlvMetadata.Format.Basic
import KlvMetadata.Proofs.Format.Fields
import KlvMetadata.Proofs.Format.Contract
import KlvMetadata.Proofs.Text.Utf8
import KlvMetadata.Proofs.Value.Hints

/-!
# Contents That Are Read Back

What a layout writes in the length it asked for, it should read back in that
length. For numbers this is what reading and writing them in fields are made
for. Packs are read part by part, and each part has to find its own end in
front of the others; the last one is told by how many bytes are left, which is
how a missing time and a missing denominator are told from ones that are there.

Under the common rules contents that are read back make values that are, with
the length of the field for a hint. Blobs are an exception on the way there,
because they are written as they are and not by their layout.

Lengths inside of fields are words. So contents are only read back from bytes
that a word can count, which all bytes in a memory are.

## Main definitions

* `Codec.Keeps`: A value is written as some bytes and read back from them.
* `Layout.Spells`: The same for contents.
* `ControlCommand.spelling`, `FrameRate.spelling`: The bytes of packs.

## Theorems

* `Layout.Spells.keeps`: Contents that are read back make values that are.
* `Layout.spells_unsigned`, `spells_signed`, `spells_code`: Integers.
* `Layout.spells_ber`, `spells_berOid`: Integers that tell where they end.
* `Layout.spells_string`: Text.
* `Layout.readCommandId_iff`, `readCommandBody_iff`, `readCommandTime_iff`, `readTerm_iff`:
  What the readers of the parts of packs accept.
* `Layout.spells_command`, `spells_frameRate`: Packs.
* `Layout.keeps_blob`: Blobs.
-/

namespace KlvMetadata

/-- A value is written as these bytes. If a word can count them, it is read back
    from them in front of anything, as the same but for its hints. -/
structure Codec.Keeps (c : Codec) (v : Value) (bytes : Bytes) : Prop where
  written : c.Settles v (.written bytes)
  read : bytes.length < UInt64.size → ∃ w, w.unhinted = v.unhinted ∧
    ∀ rest, c.read bytes.length (bytes ++ rest) = .ok w rest

/-- Text is read back in front of anything. -/
theorem TextField.read_encode (text : String) (rest : Bytes) :
    TextField.read (TextField.length text) (Utf8.encode text ++ rest) = .ok text rest := by
  simp only [TextField.read, TextField.length, Action.bind_apply, Reader.take_append,
    Utf8.decode_encode, Action.pure_apply]

/-- What is read as text are its bytes. -/
theorem TextField.eq_append_of_read {length : Nat} {data rest : Bytes} {text : String}
    (h : TextField.read length data = .ok text rest) :
    TextField.length text = length ∧ data = Utf8.encode text ++ rest := by
  simp only [TextField.read, Action.bind_apply] at h
  split at h
  · next bytes left hbytes =>
    obtain ⟨hlength, rfl⟩ := Reader.take_eq_ok hbytes
    cases hdecode : Utf8.decode bytes with
    | error fault =>
        rw [hdecode] at h
        contradiction
    | ok decoded =>
        rw [hdecode] at h
        injection h with htext hrest
        subst htext hrest
        rw [TextField.length, Utf8.encode_of_decode hdecode]
        exact ⟨hlength, rfl⟩
  · contradiction

namespace Layout

variable {α : Type} {layout : Layout α} {view : ItemView α} {terms : Terms} {a : α} {hint : Nat}
  {bytes : Bytes}

/-- The thing is written as these bytes in the length it asks for, and is read back
    from them if a word can count them. -/
structure Spells (layout : Layout α) (terms : Terms) (a : α) (hint : Nat) (bytes : Bytes) :
    Prop where
  lengthOf : layout.lengthOf a hint = .ok bytes.length
  appends : (layout.write a bytes.length).Appends bytes
  ne_nil : bytes ≠ []
  allow : terms.Allow bytes.length
  read : bytes.length < UInt64.size → layout.read bytes.length bytes = .ok a []

/-- Contents that are read back make values that are. -/
theorem Spells.keeps (h : layout.Spells terms a hint bytes)
    (hkind : view.kind ≠ .blob) :
    (layout.codec view terms).Keeps ⟨some (view.toItem a), hint⟩ bytes where
  written := settles_written hkind h.lengthOf h.appends
  read hlt := ⟨⟨some (view.toItem a), bytes.length⟩, by simp only [Value.unhinted],
    read_field h.ne_nil h.allow (h.read hlt)⟩

/-- A blob is written as it is. -/
theorem keeps_blob (hne : bytes ≠ []) (hallow : terms.Allow bytes.length) (hint : Nat) :
    (blob.codec .blob terms).Keeps ⟨some (.blob bytes), hint⟩ bytes where
  written := ⟨rfl, fun _ => rfl⟩
  read _ := ⟨⟨some (.blob bytes), bytes.length⟩, by simp only [Value.unhinted],
    read_field hne hallow (Reader.take_self bytes)⟩

/-- The length of an integer is the fixed one, or is enough for the number. -/
theorem le_integerLength {fixed : Option Nat} {minimal : Nat}
    (h : ∀ length, fixed = some length → minimal ≤ length) (hint : Nat) :
    minimal ≤ integerLength fixed minimal hint := by
  cases fixed with
  | none => exact Nat.le_max_left _ _
  | some length => exact h length rfl

theorem allow_integerLength (f : Format) (minimal hint : Nat) :
    f.terms.Allow (integerLength f.fixedLength minimal hint) := by
  intro required hrequired
  change f.fixedLength = some required at hrequired
  rw [hrequired]
  rfl

/-- Bytes of the length that is asked for, from which the thing is read. -/
theorem Spells.of_length {length : Nat} (hbytes : bytes.length = length) (hpos : 1 ≤ length)
    (hlength : layout.lengthOf a hint = .ok length) (happ : (layout.write a length).Appends bytes)
    (hallow : terms.Allow length)
    (hread : length < UInt64.size → layout.read length bytes = .ok a []) :
    layout.Spells terms a hint bytes := by
  subst hbytes
  exact ⟨hlength, happ, List.length_pos_iff.mp hpos, hallow, hread⟩

theorem spells_unsigned {fixed : Option Nat} {n : UInt64} (hint : Nat)
    (h : ∀ length, fixed = some length → Unsigned.minLength n ≤ length) :
    (unsigned fixed).Spells (Format.unsigned fixed).terms n hint
      (Bytes.ofNat (integerLength fixed (Unsigned.minLength n) hint) n.toNat) := by
  have hle := le_integerLength h hint
  have hpos := (Unsigned.minLength_bounds n).1
  exact .of_length (Bytes.length_ofNat _ _) (Nat.le_trans hpos hle) rfl (Unsigned.appends_write hle)
    (allow_integerLength (.unsigned fixed) _ hint)
    fun _ => Reader.Spells.read_self (Unsigned.read_ofNat hle)

theorem spells_signed {fixed : Option Nat} {n : Int64} (hint : Nat)
    (h : ∀ length, fixed = some length → Signed.minLength n ≤ length) :
    (signed fixed).Spells (Format.signed fixed).terms n hint
      (Signed.spelling (integerLength fixed (Signed.minLength n) hint) n.toInt) := by
  have hle := le_integerLength h hint
  have hpos := Nat.le_trans (Signed.one_le_minLength n) hle
  exact .of_length (Signed.length_spelling _ _) hpos rfl (Signed.appends_write hle)
    (allow_integerLength (.signed fixed) _ hint)
    fun _ => Reader.Spells.read_self
      (Signed.read_spelling hpos ((Signed.minLength_le_iff n hpos).mp hle))

/-- A code takes one byte, and any field that is not empty has that. -/
theorem minLength_code (c : UInt8) : Unsigned.minLength c.toUInt64 = 1 := by
  have hle : Unsigned.minLength c.toUInt64 ≤ 1 := by
    rw [Unsigned.minLength_le_iff]
    exact ⟨Nat.le_refl 1, c.toNat_lt⟩
  have hpos := (Unsigned.minLength_bounds c.toUInt64).1
  omega

/-- The code for the number of a code is that code. -/
theorem codeOf_toUInt64 (c : UInt8) : CodeTable.codeOf c.toUInt64 = c := by
  have hsmall : c.toUInt64 < 256 := by
    rw [UInt64.lt_iff_toNat_lt]
    exact c.toNat_lt
  rw [CodeTable.codeOf, if_pos hsmall, UInt8.toUInt8_toUInt64]

theorem spells_code (table : CodeTable) {length : Nat} (hpos : 1 ≤ length) (c : UInt8)
    (hint : Nat) :
    (code table length).Spells (Format.code table length).terms c hint
      (Bytes.ofNat length c.toUInt64.toNat) := by
  have hle : Unsigned.minLength c.toUInt64 ≤ length := by
    rw [minLength_code]
    exact hpos
  refine .of_length (Bytes.length_ofNat _ _) hpos rfl (Unsigned.appends_write hle) ?_ fun _ => ?_
  · rintro _ ⟨⟩
    rfl
  · have hread := Reader.Spells.read_self (Unsigned.read_ofNat hle)
    simp only [code, Action.bind_apply, hread, Action.pure_apply, codeOf_toUInt64]

theorem spells_ber (n : UInt64) (hint : Nat) :
    ber.Spells Format.ber.terms n hint (Ber.encode n) :=
  .of_length (Ber.length_encode n) (Ber.length_pos n) rfl (Ber.appends_write n _ (Nat.le_refl _))
    (by rintro _ ⟨⟩) fun _ => Reader.Spells.read_self (Ber.read_encode n (Nat.le_refl _))

theorem spells_berOid (n : UInt64) (hint : Nat) :
    berOid.Spells Format.berOid.terms n hint (BerOid.encode n) :=
  .of_length (BerOid.length_encode n) (BerOid.length_pos n) rfl
    (BerOid.appends_write n _ (Nat.le_refl _)) (by rintro _ ⟨⟩)
    fun _ => Reader.Spells.read_self
      ((BerOid.spelling_encode n).read (Nat.le_of_eq (BerOid.length_encode n)))

/-- A text is written as it is if it has the fixed length or none is fixed. -/
theorem spells_string {fixed : Option Nat} {s : String} (hne : Utf8.encode s ≠ [])
    (h : ∀ length, fixed = some length → TextField.length s = length) (hint : Nat) :
    (string fixed).Spells (Format.string fixed).terms s hint (Utf8.encode s) := by
  refine .of_length rfl (List.length_pos_iff.mpr hne) ?_ ?_ ?_ fun _ =>
    Reader.Spells.read_self (TextField.read_encode s)
  · cases fixed with
    | none => rfl
    | some length =>
        change Except.ok (max length (TextField.length s)) = _
        rw [← h length rfl, Nat.max_self]
        rfl
  · -- There is nothing to fill up.
    have htext := TextField.appends_write s _ (Nat.le_refl (TextField.length s))
    have hpadding := Writer.appends_emit (List.replicate
      (TextField.length s - TextField.length s) (0 : UInt8))
    have hnone : Utf8.encode s ++ List.replicate (TextField.length s - TextField.length s) 0 =
        Utf8.encode s := by
      rw [Nat.sub_self, List.replicate_zero, List.append_nil]
    have happ := htext.bind hpadding
    rw [hnone] at happ
    exact happ
  · intro required hrequired
    exact (h required hrequired).symm

end Layout

namespace Layout

/-- A number that is read and checked against a bound is a numeral of one that is not
    above it. -/
theorem readBounded_iff {α : Type} {bound : UInt64} {fault : UInt64 → ParseFault}
    {convert : UInt64 → α} {data rest : Bytes} {a : α} :
    (do
      let value ← BerOid.read (← Reader.remaining)
      if bound < value then Reader.fail (fault value)
      return convert value : Reader α) data = .ok a rest ↔
      ∃ n : Numeral BerOid.code, n.value ≤ bound ∧ convert n.value = a ∧
        data = n.field ++ rest := by
  simp only [Action.bind_apply, Reader.remaining]
  constructor
  · intro h
    split at h
    · next value left hread =>
      have hnumeral : ∃ n : Numeral BerOid.code, n.value = value ∧ data = n.field ++ left :=
        Numeral.read_iff.mp hread
      obtain ⟨n, rfl, rfl⟩ := hnumeral
      by_cases hlarge : bound < n.value
      · simp [hlarge, Reader.fail] at h
      · simp only [hlarge, if_false, Action.pure_apply] at h
        injection h with ha hrest
        exact ⟨n, UInt64.not_lt.mp hlarge, ha, by rw [hrest]⟩
    · contradiction
  · rintro ⟨n, hle, rfl, rfl⟩
    have hread : BerOid.read (n.field ++ rest).length (n.field ++ rest) = .ok n.value rest :=
      Numeral.read_iff.mpr ⟨n, rfl, rfl⟩
    simp only [hread, UInt64.not_lt.mpr hle, if_false, Action.pure_apply]

theorem readCommandId_iff {data rest : Bytes} {id : UInt16} :
    readCommandId data = .ok id rest ↔ ∃ n : Numeral BerOid.code,
      n.value ≤ 65535 ∧ n.value.toUInt16 = id ∧ data = n.field ++ rest :=
  readBounded_iff

theorem readTerm_iff {data rest : Bytes} {term : UInt32} :
    readTerm data = .ok term rest ↔ ∃ n : Numeral BerOid.code,
      n.value ≤ 4294967295 ∧ n.value.toUInt32 = term ∧ data = n.field ++ rest :=
  readBounded_iff

/-- The text of a command is as long as the length in front of it says. -/
theorem readCommandBody_iff {data rest : Bytes} {body : String} :
    readCommandBody data = .ok body rest ↔ ∃ n : Numeral Ber.code,
      n.value.toNat = (Utf8.encode body).length ∧
        data = n.field ++ (Utf8.encode body ++ rest) := by
  simp only [readCommandBody, Action.bind_apply, Reader.remaining]
  constructor
  · intro h
    split at h
    · next length left hread =>
      have hnumeral : ∃ n : Numeral Ber.code, n.value = length ∧ data = n.field ++ left :=
        Numeral.read_iff.mp hread
      obtain ⟨n, rfl, rfl⟩ := hnumeral
      by_cases hshort : left.length < n.value.toNat
      · simp [hshort, Reader.fail] at h
      · simp only [hshort, if_false] at h
        obtain ⟨hlength, rfl⟩ := TextField.eq_append_of_read h
        exact ⟨n, hlength.symm, rfl⟩
    · contradiction
  · rintro ⟨n, hlength, rfl⟩
    have hread : Ber.read (n.field ++ (Utf8.encode body ++ rest)).length
        (n.field ++ (Utf8.encode body ++ rest)) = .ok n.value (Utf8.encode body ++ rest) :=
      Numeral.read_iff.mpr ⟨n, rfl, rfl⟩
    have hleft : ¬ (Utf8.encode body ++ rest).length < n.value.toNat := by
      rw [List.length_append]
      omega
    have htext := TextField.read_encode body rest
    rw [TextField.length, ← hlength] at htext
    simp only [hread, hleft, if_false, htext]

/-- What is left for the time decides whether there is one. -/
theorem readCommandTime_iff {data rest : Bytes} {timestamp : Option UInt64} :
    readCommandTime data = .ok timestamp rest ↔
      rest = [] ∧ (data.length = 0 ∨ data.length = 8) ∧
        (if data = [] then none else some (UInt64.ofNat (Bytes.toNat data))) = timestamp := by
  simp only [readCommandTime, Action.bind_apply, Reader.remaining]
  by_cases hnil : data = []
  · subst hnil
    simp [and_comm, eq_comm]
  have hzero : data.length ≠ 0 := fun h => hnil (List.length_eq_zero_iff.mp h)
  by_cases hlength : data.length = 8
  · -- Eight bytes always spell a word.
    have hlt : Bytes.toNat data < UInt64.size := by
      have hbound := Bytes.toNat_lt data
      rwa [hlength] at hbound
    have hread := Unsigned.read_append hnil []
    rw [List.append_nil, if_pos hlt, hlength] at hread
    simp [commandTimeLength, hlength, hread, hnil, and_comm, eq_comm]
  · simp [commandTimeLength, hlength, hzero]

theorem readCommandId_encode (id : UInt16) (rest : Bytes) :
    readCommandId (BerOid.encode id.toUInt64 ++ rest) = .ok id rest := by
  have hle : id.toUInt64 ≤ 65535 := by
    have hlt := id.toNat_lt
    rw [UInt64.le_iff_toNat_le, UInt16.toNat_toUInt64]
    change id.toNat ≤ 65535
    omega
  exact readCommandId_iff.mpr ⟨.written id.toUInt64, hle, UInt16.toUInt16_toUInt64 id, rfl⟩

theorem readTerm_encode (term : UInt32) (rest : Bytes) :
    readTerm (BerOid.encode term.toUInt64 ++ rest) = .ok term rest := by
  have hle : term.toUInt64 ≤ 4294967295 := by
    have hlt := term.toNat_lt
    rw [UInt64.le_iff_toNat_le, UInt32.toNat_toUInt64]
    change term.toNat ≤ 4294967295
    omega
  exact readTerm_iff.mpr ⟨.written term.toUInt64, hle, UInt32.toUInt32_toUInt64 term, rfl⟩

/-- The text of a command tells where it ends, if a word can count it. -/
theorem readCommandBody_encode {body : String} (h : TextField.length body < UInt64.size)
    (rest : Bytes) :
    readCommandBody (Ber.encode (UInt64.ofNat (TextField.length body)) ++
      (Utf8.encode body ++ rest)) = .ok body rest :=
  readCommandBody_iff.mpr ⟨.written _, UInt64.toNat_ofNat_of_lt' h, rfl⟩

/-- The bytes of a command's time, if it has one. -/
def timeSpelling (timestamp : Option UInt64) : Bytes :=
  match timestamp with
  | some t => Bytes.ofNat commandTimeLength t.toNat
  | none => []

/-- A time is told by what is left. -/
theorem readCommandTime_spelling (timestamp : Option UInt64) :
    readCommandTime (timeSpelling timestamp) = .ok timestamp [] := by
  cases timestamp with
  | none => rfl
  | some t =>
      have hread := Unsigned.read_ofNat (Unsigned.minLength_bounds t).2 []
      have hlength : (Bytes.ofNat commandTimeLength t.toNat).length = commandTimeLength :=
        Bytes.length_ofNat _ _
      have hzero : commandTimeLength ≠ 0 := Nat.succ_ne_zero 7
      rw [List.append_nil] at hread
      change Unsigned.read commandTimeLength (Bytes.ofNat commandTimeLength t.toNat) = _ at hread
      simp only [timeSpelling, readCommandTime, Action.bind_apply, Reader.remaining, hlength,
        if_neg hzero, if_true, hread, Action.pure_apply]

theorem length_timeSpelling (timestamp : Option UInt64) :
    (timeSpelling timestamp).length = if timestamp.isSome then commandTimeLength else 0 := by
  cases timestamp with
  | none => rfl
  | some t => exact Bytes.length_ofNat _ _

theorem appends_commandTime (timestamp : Option UInt64) :
    Writer.Appends (match timestamp with
      | some t => Unsigned.write t commandTimeLength
      | none => pure ()) (timeSpelling timestamp) := by
  cases timestamp with
  | none => exact Writer.appends_pure
  | some t => exact Unsigned.appends_write (Unsigned.minLength_bounds t).2

end Layout

/-- The bytes of a command. -/
def ControlCommand.spelling (c : ControlCommand) : Bytes :=
  BerOid.encode c.id.toUInt64 ++ (Ber.encode (UInt64.ofNat (TextField.length c.body)) ++
    (Utf8.encode c.body ++ Layout.timeSpelling c.timestamp))

/-- The bytes of a frame rate, in which a denominator of one goes without saying. -/
def FrameRate.spelling (r : FrameRate) : Bytes :=
  BerOid.encode r.numerator.toUInt64 ++
    if r.denominator = 1 then [] else BerOid.encode r.denominator.toUInt64

namespace Layout

/-- A command is read back, as its text and its time each tell where they end. -/
theorem spells_command (c : ControlCommand) (hint : Nat) :
    command.Spells Format.command.terms c hint c.spelling := by
  have hlength : c.spelling.length = BerOid.length c.id.toUInt64 +
      Ber.length (UInt64.ofNat (TextField.length c.body)) + TextField.length c.body +
      (if c.timestamp.isSome then commandTimeLength else 0) := by
    rw [ControlCommand.spelling, List.length_append, List.length_append, List.length_append,
      BerOid.length_encode, Ber.length_encode, length_timeSpelling, TextField.length]
    omega
  have hpos := BerOid.length_pos c.id.toUInt64
  refine .of_length rfl (by omega) (congrArg Except.ok hlength.symm) ?_ (by rintro _ ⟨⟩)
    fun hlt => ?_
  · -- Each part finds its own length in what the parts before it have left.
    have hid := BerOid.appends_write c.id.toUInt64 c.spelling.length (by omega)
    have hframing := Ber.appends_write (UInt64.ofNat (TextField.length c.body))
      (c.spelling.length - (BerOid.encode c.id.toUInt64).length)
      (by rw [BerOid.length_encode]; omega)
    have hbody := TextField.appends_write c.body
      (c.spelling.length - (BerOid.encode c.id.toUInt64).length -
        (Ber.encode (UInt64.ofNat (TextField.length c.body))).length)
      (by rw [BerOid.length_encode, Ber.length_encode]; omega)
    exact hid.spent_bind (hframing.spent_bind (hbody.bind (appends_commandTime c.timestamp)))
  · have hcount : TextField.length c.body < UInt64.size := by omega
    have hbody := readCommandBody_encode hcount (timeSpelling c.timestamp)
    simp only [command, ControlCommand.spelling, Action.bind_apply, readCommandId_encode, hbody,
      readCommandTime_spelling, Action.pure_apply]

/-- A frame rate is read back, as a denominator is there if bytes are left for it. -/
theorem spells_frameRate (r : FrameRate) (hint : Nat) :
    frameRate.Spells Format.frameRate.terms r hint r.spelling := by
  have hlength : r.spelling.length = BerOid.length r.numerator.toUInt64 +
      (if r.denominator = 1 then 0 else BerOid.length r.denominator.toUInt64) := by
    rw [FrameRate.spelling, List.length_append, BerOid.length_encode]
    split
    · rfl
    · rw [BerOid.length_encode]
  have hpos := BerOid.length_pos r.numerator.toUInt64
  refine .of_length rfl (by omega) (congrArg Except.ok hlength.symm) ?_ (by rintro _ ⟨⟩)
    fun _ => ?_
  · have hnumerator := BerOid.appends_write r.numerator.toUInt64 r.spelling.length (by omega)
    refine hnumerator.spent_bind ?_
    by_cases hone : r.denominator = 1
    · rw [if_pos hone, if_neg (not_not_intro hone)]
      exact Writer.appends_pure
    · rw [if_neg hone] at hlength ⊢
      rw [if_pos hone]
      exact BerOid.appends_write r.denominator.toUInt64 _ (by rw [BerOid.length_encode]; omega)
  · rcases r with ⟨numerator, denominator⟩
    by_cases hone : denominator = 1
    · subst hone
      have hread := readTerm_encode numerator []
      simp only [frameRate, FrameRate.spelling, if_true, Action.bind_apply, hread]
      rfl
    · have hread := readTerm_encode denominator []
      have hleft : (BerOid.encode denominator.toUInt64).length ≠ 0 := by
        have hpos' := BerOid.length_pos denominator.toUInt64
        rw [BerOid.length_encode]
        omega
      rw [List.append_nil] at hread
      simp only [frameRate, FrameRate.spelling, if_neg hone, Action.bind_apply, readTerm_encode,
        Reader.remaining, if_neg hleft, hread, Action.pure_apply]

end Layout

end KlvMetadata
