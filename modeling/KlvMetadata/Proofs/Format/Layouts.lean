import KlvMetadata.Format.Imap
import KlvMetadata.Format.Pack
import KlvMetadata.Format.Scalar
import KlvMetadata.Proofs.Format.Contract

/-!
# Layouts Fill What They Ask For

Each layout without a schema is exact. For numbers this is a matter of one
write that fills any length it is given or fails. The others are put together
from parts, and there the length is a sum: a text and its padding, the parts of
a pack. Each part is given what the parts before it have left, which is enough
for it because the sum was asked for.

## Theorems

* `exact_unsigned`, `exact_signed`, `exact_code`, `exact_float`: Numbers.
* `exact_unsignedSteps`, `exact_signedSteps`, `exact_imap`: Mapped numbers.
* `exact_ber`, `exact_berOid`, `exact_blob`, `exact_string`: Things that bring
  their length along.
* `exact_command`, `exact_frameRate`: Packs.
-/

namespace KlvMetadata

namespace Layout

theorem exact_unsigned (fixed : Option Nat) : (unsigned fixed).Exact :=
  fun n _ length _ => Unsigned.uniform_write n length

theorem exact_signed (fixed : Option Nat) : (signed fixed).Exact :=
  fun n _ length _ => Signed.uniform_write n length

theorem exact_code (table : CodeTable) (fixed : Nat) : (code table fixed).Exact :=
  fun c _ length _ => Unsigned.uniform_write c.toUInt64 length

theorem exact_float (fixed : Option Nat) : (float fixed).Exact :=
  fun x _ length _ => FloatField.uniform_write x length

theorem exact_unsignedSteps (r : Range) (fixed : Nat) : (unsignedSteps r fixed).Exact :=
  fun _ _ length _ => Writer.uniform_ofExcept_bind fun raw _ => Unsigned.uniform_write raw length

theorem exact_signedSteps (r : Range) (fixed : Nat) : (signedSteps r fixed).Exact :=
  fun _ _ length _ => Writer.uniform_ofExcept_bind fun raw _ => Signed.uniform_write raw length

theorem exact_imap (r : Range) (defaultLength : Nat) : (imap r defaultLength).Exact :=
  fun _ _ length _ => Writer.uniform_ofExcept_bind fun raw _ => Unsigned.uniform_write raw length

theorem exact_ber : ber.Exact := by
  rintro n hint _ ⟨⟩
  exact Ber.uniform_write n _ (Nat.le_refl _)

theorem exact_berOid : berOid.Exact := by
  rintro n hint _ ⟨⟩
  exact BerOid.uniform_write n _ (Nat.le_refl _)

theorem exact_blob : blob.Exact := by
  rintro bytes hint _ ⟨⟩
  exact (Writer.appends_emit bytes).uniform

/-- A fixed length is the greater of the two, so the text fits either way. -/
theorem le_stringLength {fixed : Option Nat} {s : String} {hint length : Nat}
    (h : (string fixed).lengthOf s hint = .ok length) : TextField.length s ≤ length := by
  cases fixed with
  | none => exact Nat.le_of_eq (Except.ok.inj h)
  | some fixed => exact Nat.le_trans (Nat.le_max_right _ _) (Nat.le_of_eq (Except.ok.inj h))

/-- A text and its padding make up the length, which is never less than that of
    the text. -/
theorem exact_string (fixed : Option Nat) : (string fixed).Exact := by
  intro s hint length hlength
  have hle := le_stringLength hlength
  have htext := (TextField.appends_write s length hle).uniform
  have hpadding := (Writer.appends_emit (List.replicate (length - TextField.length s) 0)).uniform
  refine (htext.bind hpadding).of_eq ?_
  rw [List.length_replicate]
  exact Nat.add_sub_cancel' hle

/-- The time of a command fills its part, if there is one. -/
theorem uniform_commandTime (timestamp : Option UInt64) :
    Writer.Uniform (match timestamp with
      | some t => Unsigned.write t commandTimeLength
      | none => pure ()) (if timestamp.isSome then commandTimeLength else 0) := by
  cases timestamp with
  | none => exact Writer.appends_pure.uniform
  | some t => exact Unsigned.uniform_write t commandTimeLength

theorem exact_command : command.Exact := by
  intro c hint length hlength
  have hsum : BerOid.length c.id.toUInt64 + Ber.length (UInt64.ofNat (TextField.length c.body)) +
      TextField.length c.body + (if c.timestamp.isSome then commandTimeLength else 0) = length :=
    Except.ok.inj hlength
  -- Each part finds its own length in what the parts before it have left.
  have hid := BerOid.uniform_write c.id.toUInt64 length (by omega)
  have hframing := Ber.uniform_write (UInt64.ofNat (TextField.length c.body))
    (length - BerOid.length c.id.toUInt64) (by omega)
  have hbody := (TextField.appends_write c.body
    (length - BerOid.length c.id.toUInt64 -
      Ber.length (UInt64.ofNat (TextField.length c.body))) (by omega)).uniform
  refine (hid.spent_bind (hframing.spent_bind
    (hbody.bind (uniform_commandTime c.timestamp)))).of_eq ?_
  rw [← hsum, Nat.add_assoc, Nat.add_assoc]
  rfl

theorem exact_frameRate : frameRate.Exact := by
  intro r hint length hlength
  have hsum : BerOid.length r.numerator.toUInt64 +
      (if r.denominator = 1 then 0 else BerOid.length r.denominator.toUInt64) = length :=
    Except.ok.inj hlength
  have hnumerator := BerOid.uniform_write r.numerator.toUInt64 length (by omega)
  refine (hnumerator.spent_bind ?_).of_eq hsum
  -- A denominator of one goes without saying.
  by_cases hone : r.denominator = 1
  · rw [if_pos hone, if_neg (not_not_intro hone)]
    exact Writer.appends_pure.uniform
  · rw [if_neg hone] at hsum ⊢
    rw [if_pos hone]
    exact BerOid.uniform_write r.denominator.toUInt64 _ (by omega)

end Layout

end KlvMetadata
