import KlvMetadata.Proofs.Wire.Failures
import KlvMetadata.Proofs.Wire.Spellings

/-!
# Numbers at the Start of a Window

A length or a tag is read from a window on the bytes, and it is for these bytes to tell
where it ends. Whether a window starts with one can be seen without a reader. A length is
one byte below 128, or a byte that counts those behind it, which spell a number. A tag is
a run of marked bytes and one that is not marked, and they spell a number in groups of
seven bits. In both cases the number has to fit a word, and no more is asked: zeros may
lead it, as many as the form has room for.

A reader takes the number that its window starts with, and nothing if there is none. It
never gives another number than the bytes spell. For tags this needs an argument, because
a reader multiplies as it goes and could shift bits out of a word; but groups that have
no room for one more spell a number too large for a word with whatever comes next.

## Main definitions

* `Ber.StartsWith`, `BerOid.StartsWith`: The number that a window starts with.
* `BerOid.numberFrom`: The number that groups of seven bits spell.
* `NumeralCode.Leads`: Windows that start with a spelling.
* `CodesNumbers`: What is promised of both codes.

## Theorems

* `NumeralCode.read_eq_ok_iff_leads`: Reading takes the spelling that a window starts with.
* `NumeralCode.codesNumbers`: The promise follows from what windows start with.
* `BerOid.numberFrom_groups`, `BerOid.groups_numberFrom`: Groups and the number they spell.
* `Ber.startsWith_iff`, `BerOid.startsWith_iff`: Both kinds of windows.
* `Ber.codes_lengths`, `BerOid.codes_tags`: Both codes keep it.
-/

namespace KlvMetadata

/-- Numbers are coded by fields that tell where they end. `StartsWith` says which number a
    window starts with and how many bytes that takes, and `length` is the shortest such number. -/
structure CodesNumbers (StartsWith : Bytes → (value taken : Nat) → Prop) (length : UInt64 → Nat)
    (read : (window : Nat) → Reader UInt64) (write : UInt64 → (space : Nat) → Writer) : Prop where
  /-- What a window starts with fits a word. It is read, and no more than its bytes are taken. -/
  takes : ∀ {window data value taken}, StartsWith (data.take window) value taken →
    value < UInt64.size ∧ read window data = .ok (UInt64.ofNat value) (data.drop taken)
  /-- A window that starts with nothing of the kind cannot be parsed, and nothing is taken. -/
  refuses : ∀ {window data}, (∀ value taken, ¬ StartsWith (data.take window) value taken) →
    ∃ fault, read window data = .error (.parse fault) data
  /-- Every number is written as one field if there is space for it, and read back from that
      in front of anything. Whatever else is read as the number is longer than this field. -/
  shortest : ∀ value, ∃ field, field.length = length value ∧
    (∀ space out, write value space out =
      if length value ≤ space then .ok () (out ++ field)
      else .error (.bufferOverflow (length value) space) out) ∧
    (∀ window rest, length value ≤ window → read window (field ++ rest) = .ok value rest) ∧
    ∀ window data rest, read window data = .ok value rest →
      ∃ other, data = other ++ rest ∧ length value ≤ other.length ∧
        (other.length = length value → other = field)

namespace NumeralCode

/-- The window starts with a spelling. -/
def Leads (code : NumeralCode) (window : Bytes) (value taken : Nat) : Prop :=
  ∃ number field rest, code.Spelling number field ∧ number.toNat = value ∧
    field.length = taken ∧ window = field ++ rest

variable (code : NumeralCode)

/-- Reading takes the spelling that the window starts with. -/
theorem read_eq_ok_iff_leads {window : Nat} {data rest : Bytes} {value : UInt64} :
    code.read window data = .ok value rest ↔
      ∃ taken, code.Leads (data.take window) value.toNat taken ∧ rest = data.drop taken := by
  rw [code.read_eq_ok_iff]
  constructor
  · rintro ⟨field, hspells, hwindow, rfl⟩
    refine ⟨field.length, ⟨value, field, rest.take (window - field.length), hspells, rfl, rfl, ?_⟩,
      List.drop_left.symm⟩
    rw [List.take_append, List.take_of_length_le hwindow]
  · -- The spelling is at the front of the window, which is the front of the data.
    rintro ⟨taken, ⟨number, field, behind, hspells, hnumber, rfl, hwindow⟩, rfl⟩
    rw [UInt64.toNat_inj.mp hnumber] at hspells
    have hfront : field <+: data :=
      (List.prefix_append field behind).trans (hwindow ▸ List.take_prefix window data)
    refine ⟨field, hspells, ?_, (List.prefix_iff_eq_append.mp hfront).symm⟩
    have hlength := congrArg List.length hwindow
    rw [List.length_take, List.length_append] at hlength
    omega

/-- A code keeps what is promised if it is known which windows start with its spellings,
    failed reads leave what they could not read, and writing asks for the space of what is
    written. -/
theorem codesNumbers {StartsWith : Bytes → (value taken : Nat) → Prop} {length : UInt64 → Nat}
    {write : UInt64 → (space : Nat) → Writer}
    (hstarts : ∀ {window value taken}, StartsWith window value taken ↔
      code.Leads window value taken)
    (herror : ∀ {window data e left}, code.read window data = .error e left →
      left = data ∧ e.IsParse)
    (hlength : ∀ value, (code.encode value).length = length value)
    (hwrite : ∀ value space, write value space =
      Writer.checkSpace (length value) space >>= fun _ => Writer.emit (code.encode value)) :
    CodesNumbers StartsWith length code.read write where
  takes {window data value taken} hstart := by
    obtain ⟨number, _, _, _, rfl, _, _⟩ := hstarts.mp hstart
    rw [UInt64.ofNat_toNat]
    exact ⟨number.toNat_lt, code.read_eq_ok_iff_leads.mpr ⟨taken, hstarts.mp hstart, rfl⟩⟩
  refuses {window data} hnone := by
    cases hread : code.read window data with
    | ok value rest =>
        -- What is read is a spelling at the start of the window, and there is none.
        obtain ⟨taken, hleads, _⟩ := code.read_eq_ok_iff_leads.mp hread
        exact absurd (hstarts.mpr hleads) (hnone _ _)
    | error e left =>
        obtain ⟨rfl, fault, rfl⟩ := herror hread
        exact ⟨fault, rfl⟩
  shortest value := by
    refine ⟨code.encode value, hlength value, fun space out => ?_, fun window rest hwindow => ?_,
      fun window data rest hread => ?_⟩
    · rw [hwrite, Writer.checkSpace_bind]
      by_cases hspace : length value ≤ space
      · rw [if_pos hspace, if_neg (Nat.not_lt.mpr hspace)]
        exact Writer.appends_emit _ out
      · rw [if_neg hspace, if_pos (Nat.not_le.mp hspace)]
    · exact code.read_eq_ok_iff.mpr ⟨_, code.spelling_encode value, by rwa [hlength], rfl⟩
    · obtain ⟨other, hspells, _, hdata⟩ := code.read_eq_ok_iff.mp hread
      rw [← hlength]
      exact ⟨other, hdata, code.shortest hspells⟩

end NumeralCode

namespace Ber

/-- The window starts with a length: one byte below 128, or a byte that counts the ones
    behind it, at least one and at most 127, which spell a number that fits a word. -/
inductive StartsWith : Bytes → (value taken : Nat) → Prop
  | short {first : UInt8} (rest : Bytes) : first.toNat < 128 →
      StartsWith (first :: rest) first.toNat 1
  | long {bytes : Bytes} (rest : Bytes) : 1 ≤ bytes.length → bytes.length ≤ 127 →
      Bytes.toNat bytes < UInt64.size →
      StartsWith (UInt8.ofNat (128 + bytes.length) :: bytes ++ rest) (Bytes.toNat bytes)
        (bytes.length + 1)

/-- Windows start with the spellings of lengths. -/
theorem startsWith_iff {window : Bytes} {value taken : Nat} :
    StartsWith window value taken ↔ code.Leads window value taken := by
  constructor
  · intro h
    cases h with
    | @short first rest hsmall =>
        exact ⟨first.toUInt64, [first], rest, spelling_small (UInt8.lt_iff_toNat_lt.mpr hsmall),
          UInt8.toNat_toUInt64 first, rfl, rfl⟩
    | @long bytes rest hpos hmost hfits =>
        -- As many bytes as spell a number are enough for it.
        have hnumber := UInt64.toNat_ofNat_of_lt' hfits
        have hleast := (Unsigned.minLength_le_iff (UInt64.ofNat (Bytes.toNat bytes))
          bytes.length).mpr ⟨hpos, by rw [hnumber]; exact Bytes.toNat_lt bytes⟩
        have hspelling := Spelling.long _ hleast hmost
        rw [hnumber, Bytes.ofNat_toNat] at hspelling
        exact ⟨_, _, rest, hspelling, hnumber, rfl, rfl⟩
  · rintro ⟨number, field, rest, hspelling, rfl, rfl, rfl⟩
    cases hspelling with
    | short hsmall =>
        have hlt : number.toNat < 128 := UInt64.lt_iff_toNat_lt.mp hsmall
        have hfirst : number.toUInt8.toNat = number.toNat := by
          rw [UInt64.toNat_toUInt8]
          omega
        have hstart := StartsWith.short rest (hfirst ▸ hlt)
        rwa [hfirst] at hstart
    | long count hleast hmost =>
        -- There are enough bytes behind the count, so they spell all of the number.
        have hnumber : Bytes.toNat (Bytes.ofNat count number.toNat) = number.toNat := by
          rw [Bytes.toNat_ofNat, Nat.mod_eq_of_lt ((Unsigned.minLength_le_iff _ _).mp hleast).2]
        have hcount := Bytes.length_ofNat count number.toNat
        have hstart := StartsWith.long rest
          (by rw [hcount]; exact Nat.le_trans (Unsigned.minLength_bounds number).1 hleast)
          (by rwa [hcount]) (hnumber ▸ number.toNat_lt)
        rw [hnumber, hcount] at hstart
        rwa [List.length_cons, hcount]

/-- A length is read from windows that start with one and is all that is taken from them;
    from other windows nothing is. Each length is written in the fewest bytes that any
    field has which is read as it, if there is space for these. -/
theorem codes_lengths : CodesNumbers StartsWith length read write :=
  code.codesNumbers startsWith_iff read_eq_error length_encode fun _ _ => rfl

end Ber

namespace BerOid

/-- The number that the low seven bits of each byte spell behind a number that leads them. -/
def numberFrom (lead : Nat) (bytes : Bytes) : Nat :=
  bytes.foldl (fun n b => n * 128 + b.toNat % 128) lead

/-- The window starts with a tag: bytes that are marked and one that is not, which spell a
    number that fits a word in groups of seven bits. -/
inductive StartsWith : Bytes → (value taken : Nat) → Prop
  | groups {marked : Bytes} {last : UInt8} (rest : Bytes) : (∀ b ∈ marked, 128 ≤ b.toNat) →
      last.toNat < 128 → numberFrom 0 (marked ++ [last]) < UInt64.size →
      StartsWith (marked ++ last :: rest) (numberFrom 0 (marked ++ [last])) (marked.length + 1)

theorem numberFrom_cons (lead : Nat) (byte : UInt8) (bytes : Bytes) :
    numberFrom lead (byte :: bytes) = numberFrom (lead * 128 + byte.toNat % 128) bytes :=
  List.foldl_cons ..

/-- What leads counts for as many groups as there are bytes, and these cannot make up for
    one more of it. -/
theorem numberFrom_div (lead : Nat) (bytes : Bytes) :
    numberFrom lead bytes / 128 ^ bytes.length = lead := by
  induction bytes generalizing lead with
  | nil => exact Nat.div_one lead
  | cons byte bytes ih =>
      rw [numberFrom_cons, List.length_cons, div_div_pow, ih]
      omega

/-- Groups spell the number that they were cut from, behind what they leave of it. -/
theorem numberFrom_groups (n count : Nat) : numberFrom (n / 128 ^ count) (groups count n) = n := by
  induction count with
  | zero => exact Nat.div_one n
  | succ count ih =>
      have hpow : n >>> (7 * count) = n / 128 ^ count := by
        rw [Nat.shiftRight_eq_div_pow, Nat.pow_mul]
      -- The leading group puts back what one more division takes off, and its mark stands
      -- above the seven bits that count.
      have hgroup (marked : Prop) [Decidable marked] : n / 128 ^ count / 128 * 128 +
          (UInt8.ofNat (if marked then n / 128 ^ count % 128
            else n / 128 ^ count % 128 + 128)).toNat % 128 = n / 128 ^ count := by
        rw [UInt8.toNat_ofNat']
        split <;> omega
      rw [groups, numberFrom_cons, hpow, div_div_pow, hgroup, ih]

/-- All groups but the last are marked. -/
theorem groups_succ_eq_append (count n : Nat) :
    ∃ marked last, groups (count + 1) n = marked ++ [last] ∧ (∀ b ∈ marked, 128 ≤ b.toNat) ∧
      last.toNat < 128 := by
  induction count with
  | zero =>
      refine ⟨[], UInt8.ofNat (n % 128), ?_, fun _ hmem => absurd hmem List.not_mem_nil, ?_⟩
      · simp only [groups, Nat.mul_zero, Nat.shiftRight_zero, if_true, List.nil_append]
      · rw [UInt8.toNat_ofNat']
        omega
  | succ count ih =>
      rcases ih with ⟨marked, last, heq, hmarked, hlast⟩
      rw [groups_succ_succ, heq]
      refine ⟨_ :: marked, last, rfl, List.forall_mem_cons.mpr ⟨?_, hmarked⟩, hlast⟩
      rw [UInt8.toNat_ofNat']
      omega

/-- Marked bytes and one that is not are the groups of the number that they spell. -/
theorem groups_numberFrom (lead : Nat) {marked : Bytes} {last : UInt8}
    (hmarked : ∀ b ∈ marked, 128 ≤ b.toNat) (hlast : last.toNat < 128) :
    groups (marked.length + 1) (numberFrom lead (marked ++ [last])) = marked ++ [last] := by
  induction marked generalizing lead with
  | nil =>
      have hgroup : UInt8.ofNat ((lead * 128 + last.toNat % 128) % 128) = last := by
        rw [← UInt8.toNat_inj, UInt8.toNat_ofNat']
        omega
      simp only [groups, List.length_nil, Nat.mul_zero, Nat.shiftRight_zero, if_true,
        List.nil_append, numberFrom, List.foldl_cons, List.foldl_nil, hgroup]
  | cons byte marked ih =>
      rcases List.forall_mem_cons.mp hmarked with ⟨hbyte, hrest⟩
      have hlt := byte.toNat_lt
      -- The byte leads the others, so it is what their groups leave of the number.
      have hlead := numberFrom_div (lead * 128 + byte.toNat % 128) (marked ++ [last])
      rw [List.length_append, List.length_singleton] at hlead
      have hgroup : UInt8.ofNat ((lead * 128 + byte.toNat % 128) % 128 + 128) = byte := by
        rw [← UInt8.toNat_inj, UInt8.toNat_ofNat']
        omega
      rw [List.length_cons, groups_succ_succ, List.cons_append, numberFrom_cons, hlead, hgroup,
        ih _ hrest]

/-- Windows start with the spellings of tags. -/
theorem startsWith_iff {window : Bytes} {value taken : Nat} :
    StartsWith window value taken ↔ code.Leads window value taken := by
  constructor
  · intro h
    cases h with
    | @groups marked last rest hmarked hlast hfits =>
        -- The groups leave nothing of the number that they spell, so they are enough for it.
        have hnumber := UInt64.toNat_ofNat_of_lt' hfits
        have hgroups := groups_numberFrom 0 hmarked hlast
        have hlead := numberFrom_div 0 (marked ++ [last])
        rw [List.length_append, List.length_singleton] at hlead
        have hleast : length (UInt64.ofNat (numberFrom 0 (marked ++ [last]))) ≤
            marked.length + 1 := by
          rw [length_le_iff _ (Nat.le_add_left 1 _), hnumber]
          exact (Nat.div_eq_zero_iff_lt (Nat.pow_pos (by decide))).mp hlead
        have hspelling := Spelling.padded _ hleast
        rw [hnumber, hgroups] at hspelling
        exact ⟨_, _, rest, hspelling, hnumber, List.length_append, List.append_cons ..⟩
  · rintro ⟨number, field, rest, hspelling, rfl, rfl, rfl⟩
    cases hspelling with
    | padded count hleast =>
        have hpos := Nat.le_trans (length_pos number) hleast
        -- There are enough groups, so nothing leads them and they spell all of the number.
        have hlead := Nat.div_eq_of_lt ((length_le_iff number hpos).mp hleast)
        have hnumber := numberFrom_groups number.toNat count
        rw [hlead] at hnumber
        obtain ⟨count, rfl⟩ := Nat.exists_eq_add_of_le' hpos
        rcases groups_succ_eq_append count number.toNat with ⟨marked, last, heq, hmarked, hlast⟩
        rw [heq] at hnumber ⊢
        have hstart := StartsWith.groups rest hmarked hlast (hnumber ▸ number.toNat_lt)
        rw [hnumber] at hstart
        rwa [List.append_assoc, List.length_append]

/-- A tag is read from windows that start with one and is all that is taken from them; from
    other windows nothing is. Each tag is written in the fewest bytes that any field has
    which is read as it, if there is space for these. -/
theorem codes_tags : CodesNumbers StartsWith length read write :=
  code.codesNumbers startsWith_iff read_eq_error length_encode fun _ _ => rfl

/-- The largest tag takes ten bytes. -/
example : read 10 [0x81, 0xFF, 0xFF, 0xFF, 0xFF, 0xFF, 0xFF, 0xFF, 0xFF, 0x7F] =
    .ok 18446744073709551615 [] := by rfl

/-- Ten bytes can also spell one more, which is no tag. -/
example :
    let data := [0x82, 0x80, 0x80, 0x80, 0x80, 0x80, 0x80, 0x80, 0x80, 0x00]
    read 10 data = .error (.parse .berOidOverflow) data := by rfl

end BerOid

end KlvMetadata
