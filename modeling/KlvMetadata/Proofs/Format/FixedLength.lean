import KlvMetadata.Proofs.Format.Contents

/-!
# Fields of Fixed Length

A format of fixed length writes an item that fits in just that length, and it
accepts what it has written. Whether an item fits is said here without the
format: an integer has to be one of so many bytes, a text has to be no longer, a
mapped number may lie outside its range by no more than half a step. Mapping
rounds and clamps, and it has to be seen that what comes out fits the length the
steps were made for.

A number that does not fit is refused, and nothing is written. Blobs are not
looked at when they are written. They are passed on in their own length,
whatever the format says, and only reading asks for the fixed one.

## Main definitions

* `Format.Fits`: Items that fit a field.
* `Layout.Fills`, `Layout.Declines`: What becomes of a thing in a field.
* `Codec.Occupies`, `Codec.Refuses`: The same for a value.

## Theorems

* `Layout.Fills.occupies`, `Layout.Declines.refuses`: The common rules add nothing.
* `Layout.fills_unsigned`, `declines_unsigned` and so on: Numbers.
* `Layout.Fills.mapped`: A thing that is written as another.
* `Layout.fills_string`: Text that is filled up.
* `UnsignedSteps.fits_of_encode`, `SignedSteps.fits_of_le`: A number is mapped to one
  that fits.
* `Format.occupies_of_fits`, `Format.refuses_of_not_fits`: Formats of fixed length.
* `Format.fixed_length_is_kept`: What fits is written in the fixed length, and what
  does not is refused.
-/

namespace KlvMetadata

/-- The value is written in just so many bytes, and these are accepted when
    they are read, whatever stands behind them. -/
def Codec.Occupies (c : Codec) (length : Nat) (v : Value) : Prop :=
  ∃ bytes w, bytes.length = length ∧
    (∀ space out, length ≤ space → c.write v space out = .ok () (out ++ bytes)) ∧
    ∀ rest, c.read length (bytes ++ rest) = .ok w rest

/-- The value is refused for what it is, and nothing is written. -/
def Codec.Refuses (c : Codec) (length : Nat) (v : Value) : Prop :=
  ∃ fault, ∀ space out, length ≤ space → c.write v space out = .error (.value fault) out

/-- The item is one of the format's that fits a field of the length. -/
def Format.Fits (length : Nat) : Format → Item → Prop
  | unsigned _, .u64 n => n.toNat < Bytes.capacity length
  | signed _, .i64 n => Signed.Fits n.toInt length
  | blob _, .blob bytes => bytes.length = length
  | string _, .text s => TextField.length s ≤ length
  | float _, .f64 _ => length = 4 ∨ length = 8
  | unsignedSteps r _, .f64 x =>
    x.isNaN = false ∧ r.excludes (UnsignedSteps.step r length / .two) x = false
  | signedSteps r _, .f64 x =>
    x.isNaN = true ∨ r.excludes (SignedSteps.step r length / .two) x = false
  | code table _, .code t _ => t = table
  | _, _ => False

namespace Layout

variable {α : Type} {layout : Layout α} {view : ItemView α} {terms : Terms} {a : α}
  {hint length : Nat}

/-- The thing is written in the whole length, and something is read from that. -/
def Fills (layout : Layout α) (a : α) (length : Nat) : Prop :=
  ∃ bytes b, bytes.length = length ∧ (layout.write a length).Appends bytes ∧
    layout.read length bytes = .ok b []

/-- The thing is not written in this length, for what it is. -/
def Declines (layout : Layout α) (a : α) (length : Nat) : Prop :=
  ∃ fault, (layout.write a length).Fails (.value fault)

theorem Fills.occupies (h : layout.Fills a length) (hkind : view.kind ≠ .blob) (hpos : 1 ≤ length)
    (hallow : terms.Allow length) (hlength : layout.lengthOf a hint = .ok length) :
    (layout.codec view terms).Occupies length ⟨some (view.toItem a), hint⟩ := by
  rcases h with ⟨bytes, b, rfl, happ, hread⟩
  have hsettles : (layout.codec view terms).Settles ⟨some (view.toItem a), hint⟩
      (.written bytes) := settles_written hkind hlength happ
  exact ⟨bytes, _, rfl, fun space out hspace => hsettles.write_eq_ok hspace out,
    read_field (List.length_pos_iff.mp hpos) hallow hread⟩

theorem Declines.refuses (h : layout.Declines a length) (hkind : view.kind ≠ .blob)
    (hlength : layout.lengthOf a hint = .ok length) :
    (layout.codec view terms).Refuses length ⟨some (view.toItem a), hint⟩ := by
  rcases h with ⟨fault, hfails⟩
  refine ⟨fault, fun space out hspace => ?_⟩
  have hview : view.ofItem? (view.toItem a) = some a := (view.ofItem?_eq_some _ a).mpr rfl
  have hwrite := writeField_item layout view (toItem_ne_blob hkind a) hint space
  rw [hview] at hwrite
  refine (congrFun hwrite out).trans ?_
  simp only [writeMeasured, hlength, Action.ofExcept_ok_bind, Writer.checkSpace_eq hspace]
  exact hfails.whole out

theorem fills_unsigned (fixed : Option Nat) {n : UInt64} (hpos : 1 ≤ length)
    (h : n.toNat < Bytes.capacity length) : (unsigned fixed).Fills n length := by
  rw [Bytes.capacity_eq] at h
  have hle := (Unsigned.minLength_le_iff n length).mpr ⟨hpos, h⟩
  exact ⟨_, n, Bytes.length_ofNat _ _, Unsigned.appends_write hle,
    Reader.Spells.read_self (Unsigned.read_ofNat hle)⟩

theorem declines_unsigned (fixed : Option Nat) {n : UInt64}
    (h : ¬ n.toNat < Bytes.capacity length) : (unsigned fixed).Declines n length := by
  have hlt : length < Unsigned.minLength n := by
    rw [← Nat.not_le, Unsigned.minLength_le_iff, ← Bytes.capacity_eq]
    exact fun hle => h hle.2
  refine ⟨.unsignedWidth n length, fun out => ⟨out, ?_⟩⟩
  simp only [unsigned, Unsigned.write_apply, if_pos hlt]

theorem fills_signed (fixed : Option Nat) {n : Int64} (hpos : 1 ≤ length)
    (h : Signed.Fits n.toInt length) : (signed fixed).Fills n length := by
  have hle := (Signed.minLength_le_iff n hpos).mpr h
  exact ⟨_, n, Signed.length_spelling _ _, Signed.appends_write hle,
    Reader.Spells.read_self (Signed.read_spelling hpos h)⟩

theorem declines_signed (fixed : Option Nat) {n : Int64} (hpos : 1 ≤ length)
    (h : ¬ Signed.Fits n.toInt length) : (signed fixed).Declines n length := by
  have hlt : length < Signed.minLength n := by
    rw [← Nat.not_le, Signed.minLength_le_iff n hpos]
    exact h
  refine ⟨.signedWidth n length, fun out => ⟨out, ?_⟩⟩
  simp only [signed, Signed.write_apply, if_pos hlt]

/-- Any bytes of one of the two lengths are read as a float. -/
theorem fills_float (fixed : Option Nat) (x : Binary64) (h : length = 4 ∨ length = 8) :
    (float fixed).Fills x length := by
  have hread {bytes : Bytes} (hbytes : bytes.length = length) :
      ∃ y, FloatField.read length bytes = .ok y [] := by
    have htake := Reader.take_self bytes
    rw [hbytes] at htake
    rcases h with rfl | rfl
    all_goals
      simp only [FloatField.read, Action.bind_apply, htake]
      exact ⟨_, rfl⟩
  rcases h with rfl | rfl
  · rcases hread (Bytes.length_ofNat 4 x.narrow.word) with ⟨y, hy⟩
    exact ⟨_, y, Bytes.length_ofNat _ _, Writer.appends_emit _, hy⟩
  · rcases hread (Bytes.length_ofNat 8 x.word) with ⟨y, hy⟩
    exact ⟨_, y, Bytes.length_ofNat _ _, Writer.appends_emit _, hy⟩

theorem declines_float (fixed : Option Nat) (x : Binary64) (h : ¬ (length = 4 ∨ length = 8)) :
    (float fixed).Declines x length := by
  rw [not_or] at h
  refine ⟨.floatLength length, fun out => ⟨out, ?_⟩⟩
  simp only [float, FloatField.write, if_neg h.1, if_neg h.2]
  rfl

/-- A thing that is written as another fills what the other does, if it is read from it. -/
theorem Fills.mapped {β : Type} {raw : Layout β} {b : β} (h : raw.Fills b length)
    (hwrite : layout.write a length = raw.write b length) (back : β → α)
    (hread : layout.read length = back <$> raw.read length) : layout.Fills a length := by
  rcases h with ⟨bytes, c, hlength, happ, hraw⟩
  refine ⟨bytes, back c, hlength, hwrite ▸ happ, ?_⟩
  rw [hread, Action.map_apply, hraw]

/-- A code takes one byte, and any field that is not empty has that. -/
theorem fills_code (table : CodeTable) (fixed : Nat) (c : UInt8) (hpos : 1 ≤ length) :
    (code table fixed).Fills c length := by
  have hlt : c.toUInt64.toNat < Bytes.capacity length := by
    have hle := (Unsigned.minLength_le_iff c.toUInt64 length).mp (minLength_code c ▸ hpos)
    rw [Bytes.capacity_eq]
    exact hle.2
  exact (fills_unsigned none hpos hlt).mapped rfl CodeTable.codeOf rfl

end Layout

/-- Zero bytes behind a text are the text with as many zero characters. -/
theorem Utf8.encode_append_zeros (text : String) (count : Nat) :
    encode (text ++ String.ofList (List.replicate count '\x00')) =
      encode text ++ List.replicate count 0 := by
  have hzeros : (List.replicate count '\x00').flatMap String.utf8EncodeChar =
      List.replicate count 0 := by
    induction count with
    | zero => rfl
    | succ count ih =>
        rw [List.replicate_succ, List.flatMap_cons, ih]
        rfl
  rw [encode, String.toList_append, String.toList_ofList, List.flatMap_append, hzeros]
  rfl

/-- A text that is not too long is filled up, and read back with what fills it up. -/
theorem Layout.fills_string (fixed : Option Nat) {length : Nat} {s : String}
    (h : TextField.length s ≤ length) : (string fixed).Fills s length := by
  have hfilled : (Utf8.encode s ++ List.replicate (length - TextField.length s) 0).length =
      length := by
    rw [List.length_append, List.length_replicate]
    exact Nat.add_sub_cancel' h
  -- What fills the text up is text as well.
  have hread := TextField.read_encode
    (s ++ String.ofList (List.replicate (length - TextField.length s) '\x00')) []
  rw [TextField.length, Utf8.encode_append_zeros, hfilled, List.append_nil] at hread
  exact ⟨_, _, hfilled, (TextField.appends_write s length h).bind (Writer.appends_emit _), hread⟩

namespace UnsignedSteps

/-- What is in the range, give or take half a step, is mapped. -/
theorem encode_eq (r : Range) (length : Nat) (x : Binary64) :
    encode r length x =
      if x.isNaN = false ∧ r.excludes (step r length / .two) x = false then
        .ok (min ((x - r.minimum) / step r length).round.toUInt64 (UInt64.ofNat (limit length)))
      else .error (.value (.outsideRange "uflint" x r.minimum r.maximum)) := by
  unfold encode
  cases hnan : x.isNaN <;> cases hexcludes : r.excludes (step r length / .two) x <;>
    simp [hexcludes]

/-- A number that is clamped fits, and as a word it is no greater. -/
theorem fits_of_encode {r : Range} {length : Nat} {x : Binary64} {raw : UInt64}
    (h : encode r length x = .ok raw) : raw.toNat < Bytes.capacity length := by
  have hpos := Bytes.capacity_pos length
  have hword : (UInt64.ofNat (limit length)).toNat ≤ limit length := Nat.mod_le _ _
  rw [encode_eq] at h
  split at h
  · have hle : raw ≤ UInt64.ofNat (limit length) := by
      rw [← Except.ok.inj h]
      exact Std.min_le_right
    have hclamped := UInt64.le_iff_toNat_le.mp hle
    unfold limit at hclamped hword
    omega
  · contradiction

end UnsignedSteps

/-- A number that fits a field still does so as a word. -/
theorem Signed.fits_ofInt {n : Int} {length : Nat} (h : Fits n length) :
    Fits (Int64.ofInt n).toInt length := by
  rcases Nat.le_total length 8 with hle | hge
  · rwa [toInt_ofInt (h.mono hle)]
  · exact (fits_word _).mono hge

namespace SignedSteps

/-- What is outside of the range by more than half a step is refused. -/
theorem encode_eq_error {r : Range} {length : Nat} {x : Binary64}
    (h : ¬ (x.isNaN = true ∨ r.excludes (step r length / .two) x = false)) :
    encode r length x = .error (.value (.outsideRange "sflint" x r.minimum r.maximum)) := by
  rw [not_or, Bool.not_eq_false] at h
  unfold encode
  dsimp only
  rw [if_neg h.1, if_pos h.2]

/-- What is inside is mapped, and so is what is no number. -/
theorem exists_encode_eq (r : Range) {length : Nat} {x : Binary64}
    (h : x.isNaN = true ∨ r.excludes (step r length / .two) x = false) :
    ∃ n, encode r length x = .ok (Int64.ofInt n) ∧ -limit length - 1 ≤ n ∧ n ≤ limit length := by
  have hlimit : 0 ≤ limit length := Int.natCast_nonneg _
  unfold encode
  dsimp only
  by_cases hnan : x.isNaN = true
  · refine ⟨errorIndicator length, if_pos hnan, Int.le_refl _, ?_⟩
    unfold errorIndicator
    omega
  · rw [if_neg hnan, if_neg (by simp [h.resolve_left hnan])]
    exact ⟨_, rfl, by omega, by omega⟩

/-- A number that is clamped fits, and so does what stands for an error. -/
theorem fits_of_le {length : Nat} (hpos : 1 ≤ length) {n : Int} (hlow : -limit length - 1 ≤ n)
    (hhigh : n ≤ limit length) : Signed.Fits (Int64.ofInt n).toInt length := by
  obtain ⟨k, rfl⟩ := Nat.exists_eq_add_of_le' hpos
  -- Half the capacity is to either side, less one on the upper.
  have hcapacity := Bytes.capacity_succ k
  have hlower := Bytes.capacity_pos k
  refine Signed.fits_ofInt ?_
  unfold limit at hlow hhigh
  unfold Signed.Fits
  omega

end SignedSteps

namespace Layout

variable {r : Range} {length : Nat} {x : Binary64}

theorem fills_unsignedSteps (hpos : 1 ≤ length)
    (h : x.isNaN = false ∧ r.excludes (UnsignedSteps.step r length / .two) x = false) :
    (unsignedSteps r length).Fills x length := by
  have hencode := UnsignedSteps.encode_eq r length x
  rw [if_pos h] at hencode
  refine (fills_unsigned none hpos (UnsignedSteps.fits_of_encode hencode)).mapped ?_
    (UnsignedSteps.decode r length) rfl
  simp only [unsignedSteps, hencode, Action.ofExcept_ok_bind]
  rfl

theorem declines_unsignedSteps
    (h : ¬ (x.isNaN = false ∧ r.excludes (UnsignedSteps.step r length / .two) x = false)) :
    (unsignedSteps r length).Declines x length := by
  have hencode := UnsignedSteps.encode_eq r length x
  rw [if_neg h] at hencode
  refine ⟨.outsideRange "uflint" x r.minimum r.maximum, fun out => ⟨out, ?_⟩⟩
  simp only [unsignedSteps, hencode]
  rfl

theorem fills_signedSteps (hpos : 1 ≤ length)
    (h : x.isNaN = true ∨ r.excludes (SignedSteps.step r length / .two) x = false) :
    (signedSteps r length).Fills x length := by
  rcases SignedSteps.exists_encode_eq r h with ⟨n, hencode, hlow, hhigh⟩
  refine (fills_signed none hpos (SignedSteps.fits_of_le hpos hlow hhigh)).mapped ?_
    (SignedSteps.decode r length) rfl
  simp only [signedSteps, hencode, Action.ofExcept_ok_bind]
  rfl

theorem declines_signedSteps
    (h : ¬ (x.isNaN = true ∨ r.excludes (SignedSteps.step r length / .two) x = false)) :
    (signedSteps r length).Declines x length := by
  refine ⟨.outsideRange "sflint" x r.minimum r.maximum, fun out => ⟨out, ?_⟩⟩
  simp only [signedSteps, SignedSteps.encode_eq_error h]
  rfl

end Layout

namespace Format

variable {f : Format} {length : Nat} {item : Item}

/-- What fits is written in the fixed length and accepted. -/
theorem occupies_of_fits (hfixed : f.fixedLength = some length) (hpos : 1 ≤ length)
    (h : f.Fits length item) (hint : Nat) : f.codec.Occupies length ⟨some item, hint⟩ := by
  have hallow : f.terms.Allow length := by
    intro required hrequired
    exact (Option.some.inj (hrequired.symm.trans hfixed))
  -- One case for each kind of field that an item can fit.
  unfold Fits at h
  split at h
  · next fixed n =>
    obtain rfl : fixed = some length := hfixed
    exact (Layout.fills_unsigned _ hpos h).occupies (by decide) hpos hallow rfl
  · next fixed n =>
    obtain rfl : fixed = some length := hfixed
    exact (Layout.fills_signed _ hpos h).occupies (by decide) hpos hallow rfl
  · next fixed bytes =>
    obtain rfl : bytes.length = length := h
    have hsettles : (blob fixed).codec.Settles ⟨some (.blob bytes), hint⟩ (.written bytes) :=
      ⟨rfl, fun _ => rfl⟩
    exact ⟨bytes, _, rfl, fun space out hspace => hsettles.write_eq_ok hspace out,
      Layout.read_field (List.length_pos_iff.mp hpos) hallow (Reader.take_self bytes)⟩
  · next fixed s =>
    obtain rfl : fixed = some length := hfixed
    have hlength : (Layout.string (some length)).lengthOf s hint = .ok length :=
      congrArg Except.ok (Nat.max_eq_left h)
    exact (Layout.fills_string _ h).occupies (by decide) hpos hallow hlength
  · next fixed x =>
    obtain rfl : fixed = some length := hfixed
    exact (Layout.fills_float _ x h).occupies (by decide) hpos hallow rfl
  · next r fixed x =>
    obtain rfl : fixed = length := Option.some.inj hfixed
    exact (Layout.fills_unsignedSteps hpos h).occupies (by decide) hpos hallow rfl
  · next r fixed x =>
    obtain rfl : fixed = length := Option.some.inj hfixed
    exact (Layout.fills_signedSteps hpos h).occupies (by decide) hpos hallow rfl
  · next table fixed t c =>
    obtain rfl : fixed = length := Option.some.inj hfixed
    obtain rfl : t = table := h
    exact (Layout.fills_code t fixed c hpos).occupies (by rintro ⟨⟩) hpos hallow rfl
  · contradiction

/-- A number that does not fit is refused, and nothing is written. -/
theorem refuses_of_not_fits (hfixed : f.fixedLength = some length) (hpos : 1 ≤ length)
    (hkind : item.kind = f.kind) (hblob : f.kind ≠ .blob) (htext : f.kind ≠ .text)
    (h : ¬ f.Fits length item) (hint : Nat) : f.codec.Refuses length ⟨some item, hint⟩ := by
  -- An item of the format's kind has one shape, and the others are ruled out by it.
  cases f with
  | unsigned fixed =>
      obtain rfl : fixed = some length := hfixed
      cases item with
      | u64 n => exact (Layout.declines_unsigned _ h).refuses (by decide) rfl
      | _ => contradiction
  | signed fixed =>
      obtain rfl : fixed = some length := hfixed
      cases item with
      | i64 n => exact (Layout.declines_signed _ hpos h).refuses (by decide) rfl
      | _ => contradiction
  | float fixed =>
      obtain rfl : fixed = some length := hfixed
      cases item with
      | f64 x => exact (Layout.declines_float _ x h).refuses (by decide) rfl
      | _ => contradiction
  | unsignedSteps r fixed =>
      obtain rfl : fixed = length := Option.some.inj hfixed
      cases item with
      | f64 x => exact (Layout.declines_unsignedSteps h).refuses (by decide) rfl
      | _ => contradiction
  | signedSteps r fixed =>
      obtain rfl : fixed = length := Option.some.inj hfixed
      cases item with
      | f64 x => exact (Layout.declines_signedSteps h).refuses (by decide) rfl
      | _ => contradiction
  | code table fixed =>
      cases item with
      | code t c =>
          -- Every code of the table fits.
          injection hkind with htable
          exact absurd htable h
      | _ => contradiction
  | _ => contradiction

/-- A blob is passed on in its own length, whatever the format. -/
theorem write_blob (f : Format) {bytes : Bytes} {hint space : Nat} (hspace : bytes.length ≤ space)
    (out : Bytes) : f.codec.write ⟨some (.blob bytes), hint⟩ space out = .ok () (out ++ bytes) := by
  rcases f.exists_layout with ⟨α, layout, view, hcodec⟩
  have hsettles : (layout.codec view f.terms).Settles ⟨some (.blob bytes), hint⟩
      (.written bytes) := ⟨rfl, fun _ => rfl⟩
  rw [hcodec]
  exact hsettles.write_eq_ok hspace out

/-- A field of another length is refused before it is looked at. -/
theorem read_other_length (hfixed : f.fixedLength = some length) {bytes : Bytes} (hne : bytes ≠ [])
    (hother : bytes.length ≠ length) (rest : Bytes) :
    f.codec.read bytes.length (bytes ++ rest) =
      .error (.parse (.fieldLength f.description length bytes.length)) (bytes ++ rest) := by
  rcases f.exists_layout with ⟨α, layout, view, hcodec⟩
  have hpos := List.length_pos_iff.mpr hne
  rw [hcodec]
  exact Layout.readField_refused (by omega) (by rw [List.length_append]; omega) hfixed hother.symm

/-- An item that fits is written in the fixed length, with any hint and wherever
    there is space for it, and what was written is accepted. A number that does
    not fit is refused, and nothing is written. A blob is passed on as it is,
    whether it fits or not, but the bytes of one that does not are not read as a
    field. -/
theorem fixed_length_is_kept (hfixed : f.fixedLength = some length) (hpos : 1 ≤ length) :
    (∀ item hint, f.Fits length item → f.codec.Occupies length ⟨some item, hint⟩) ∧
    (∀ item : Item, item.kind = f.kind → f.kind ≠ .blob → f.kind ≠ .text → ¬ f.Fits length item →
      ∀ hint, f.codec.Refuses length ⟨some item, hint⟩) ∧
    ∀ bytes : Bytes,
      (∀ hint space out, bytes.length ≤ space →
        f.codec.write ⟨some (.blob bytes), hint⟩ space out = .ok () (out ++ bytes)) ∧
      (bytes ≠ [] → bytes.length ≠ length → ∀ rest,
        f.codec.read bytes.length (bytes ++ rest) =
          .error (.parse (.fieldLength f.description length bytes.length)) (bytes ++ rest)) :=
  ⟨fun _ hint h => occupies_of_fits hfixed hpos h hint,
    fun _ hkind hblob htext h hint => refuses_of_not_fits hfixed hpos hkind hblob htext h hint,
    fun _ => ⟨fun _ _ out hspace => write_blob f hspace out, read_other_length hfixed⟩⟩

/-- One number fits two bytes, and another does not. -/
theorem fixed_length_is_kept_word :
    (unsigned (some 2)).codec.Occupies 2 ⟨some (.u64 700), 0⟩ ∧
      (unsigned (some 2)).codec.Refuses 2 ⟨some (.u64 70000), 0⟩ := by
  have hkept := fixed_length_is_kept (f := unsigned (some 2)) rfl (by decide)
  refine ⟨hkept.1 _ 0 ?_, hkept.2.1 _ rfl (by decide) (by decide) ?_ 0⟩
  · exact (by decide : (700 : UInt64).toNat < Bytes.capacity 2)
  · exact (by decide : ¬ (70000 : UInt64).toNat < Bytes.capacity 2)

/-- A blob of three bytes is written where two are asked for, and a text of five where
    three are. What was written is then refused. -/
theorem fixed_length_is_left :
    (blob (some 2)).codec.write ⟨some (.blob [1, 2, 3]), 0⟩ 8 [] = .ok () [1, 2, 3] ∧
      (blob (some 2)).codec.read 3 [1, 2, 3] =
        .error (.parse (.fieldLength "raw bytes of length 2" 2 3)) [1, 2, 3] ∧
      (string (some 3)).codec.write ⟨some (.text "abcde"), 0⟩ 8 [] =
        .ok () [0x61, 0x62, 0x63, 0x64, 0x65] ∧
      (string (some 3)).codec.read 5 [0x61, 0x62, 0x63, 0x64, 0x65] =
        .error (.parse (.fieldLength "string of length 3" 3 5)) [0x61, 0x62, 0x63, 0x64, 0x65] :=
  ⟨rfl, rfl, rfl, rfl⟩

end Format

end KlvMetadata
