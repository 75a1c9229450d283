import KlvMetadata.Proofs.Wire.Delimited
import KlvMetadata.Proofs.Wire.Integers

/-!
# Spellings of Lengths and Tags

The codes for lengths and tags have several spellings for one number. A length
can be given in more bytes than it needs, and in long form although it is
short; a tag can be led by groups that are zero. Readers accept all of them
and writers use the shortest, so a number that passes through keeps its value
and not always its bytes.

A spelling is described here without a reader: the digits of the number in some
count that is enough for them. Reading accepts exactly the spellings that fit
its window. The shortest has as many digits as are needed and no more, so a
spelling of its length is the shortest one.

## Main definitions

* `Ber.Spelling`, `BerOid.Spelling`: The spellings of a number.
* `NumeralCode`: A code with several spellings for a number, the shortest being written.
* `Numeral`: A number with one of its spellings.

## Theorems

* `Ber.read_eq_ok_iff`, `BerOid.read_eq_ok_iff`: Reading accepts spellings.
* `Ber.Spelling.shortest`, `BerOid.Spelling.shortest`: What writing uses is the
  one shortest spelling.
* `Ber.read_encode`, `BerOid.read_encode`, `UniversalKey.read_bytes`: Reading
  what was written in front of anything.
* `Numeral.read_iff`, `Numeral.shortest_iff`: Both codes seen as one.
-/

namespace KlvMetadata

namespace Ber

/-- The spellings of a length: one byte, or a byte that tells how many bytes
    the length has and these. -/
inductive Spelling (value : UInt64) : Bytes → Prop
  | short : value < 128 → Spelling value [value.toUInt8]
  | long (count : Nat) : Unsigned.minLength value ≤ count → count ≤ 127 →
      Spelling value (UInt8.ofNat (128 + count) :: Bytes.ofNat count value.toNat)

theorem spelling_encode (value : UInt64) : Spelling value (encode value) := by
  have hle := (Unsigned.minLength_bounds value).2
  unfold encode
  split
  · next hsmall => exact .short hsmall
  · exact .long _ (Nat.le_refl _) (by omega)

/-- No spelling is shorter than what is written, and no other is as short. -/
theorem Spelling.shortest {value : UInt64} {field : Bytes} (h : Spelling value field) :
    length value ≤ field.length ∧ (field.length = length value → field = encode value) := by
  cases h with
  | short hsmall =>
      rw [length, if_pos hsmall, encode, if_pos hsmall]
      exact ⟨Nat.le_refl _, fun _ => rfl⟩
  | long count hleast _ =>
      have hpos := (Unsigned.minLength_bounds value).1
      rw [List.length_cons, Bytes.length_ofNat, length, encode]
      by_cases hsmall : value < 128
      · -- A short number takes one byte, and the long form has two or more.
        rw [if_pos hsmall]
        exact ⟨by omega, fun hlength => by omega⟩
      · rw [if_neg hsmall, if_neg hsmall]
        refine ⟨by omega, fun hlength => ?_⟩
        obtain rfl : count = Unsigned.minLength value := by omega
        rfl

theorem Spelling.length_pos {value : UInt64} {field : Bytes} (h : Spelling value field) :
    1 ≤ field.length := by
  cases h with
  | short _ => exact Nat.le_refl 1
  | long count _ _ => exact Nat.succ_le_succ (Nat.zero_le _)

theorem length_pos (value : UInt64) : 1 ≤ length value := by
  rw [← length_encode]
  exact (spelling_encode value).length_pos

/-- Larger lengths have no shorter spellings. -/
theorem length_mono {m n : UInt64} (h : m ≤ n) : length m ≤ length n := by
  have hminimal : Unsigned.minLength m ≤ Unsigned.minLength n := by
    have hn := (Unsigned.minLength_le_iff n _).mp (Nat.le_refl _)
    exact (Unsigned.minLength_le_iff m _).mpr
      ⟨hn.1, Nat.lt_of_le_of_lt (UInt64.le_iff_toNat_le.mp h) hn.2⟩
  unfold length
  by_cases hsmall : n < 128
  · exact Nat.le_of_eq ((if_pos (UInt64.lt_of_le_of_lt h hsmall)).trans (if_pos hsmall).symm)
  · rw [if_neg hsmall]
    split <;> omega

-- The short form: one byte below 128, which is the length itself.
theorem read_small {value : UInt64} (hsmall : value < 128) {window : Nat} (hwindow : 1 ≤ window)
    (rest : Bytes) : read window (value.toUInt8 :: rest) = .ok value rest := by
  obtain ⟨window, rfl⟩ := Nat.exists_eq_add_of_le' hwindow
  rw [UInt64.lt_iff_toNat_lt] at hsmall
  change value.toNat < 128 at hsmall
  have hfirst : value.toUInt8 < 128 := by
    rw [UInt8.lt_iff_toNat_lt, UInt64.toNat_toUInt8]
    change value.toNat % 256 < 128
    omega
  have hback : value.toUInt8.toUInt64 = value := by
    rw [← UInt64.toNat_inj, UInt8.toNat_toUInt64, UInt64.toNat_toUInt8]
    omega
  simp [read, hfirst, hback]

-- The long form: a byte that tells how many follow, and these.
theorem read_large {value : UInt64} {count : Nat} (hleast : Unsigned.minLength value ≤ count)
    (hmost : count ≤ 127) {window : Nat} (hwindow : 1 + count ≤ window) (rest : Bytes) :
    read window (UInt8.ofNat (128 + count) :: Bytes.ofNat count value.toNat ++ rest) =
      .ok value rest := by
  have hpos := (Unsigned.minLength_bounds value).1
  have hread := Unsigned.read_ofNat hleast
  obtain ⟨extra, rfl⟩ := Nat.exists_eq_add_of_le hwindow
  -- The first byte tells the count, and the window holds that many bytes.
  have hfirst : (UInt8.ofNat (128 + count)).toNat = 128 + count := by
    rw [UInt8.toNat_ofNat']
    omega
  have hlarge : ¬ UInt8.ofNat (128 + count) < 128 := by
    rw [UInt8.lt_iff_toNat_lt, hfirst]
    change ¬ 128 + count < 128
    omega
  have hcount : (128 + count) % 128 = count := by omega
  have hzero : count ≠ 0 := by omega
  have hwindow' : 1 + count + extra = (count + extra) + 1 := by omega
  have htake : (Bytes.ofNat count value.toNat ++ rest).take (count + extra) =
      Bytes.ofNat count value.toNat ++ rest.take extra := by
    have hall : (Bytes.ofNat count value.toNat).length ≤ count + extra := by simp
    rw [List.take_append, List.take_of_length_le hall, Bytes.length_ofNat, Nat.add_sub_cancel_left]
  generalize UInt8.ofNat (128 + count) = first at *
  simp [read, hwindow', htake, hlarge, hfirst, hcount, hread, hzero]

/-- A spelling is read back in front of anything. -/
theorem Spelling.read {value : UInt64} {field : Bytes} (h : Spelling value field) {window : Nat}
    (hwindow : field.length ≤ window) (rest : Bytes) :
    Ber.read window (field ++ rest) = .ok value rest := by
  cases h with
  | short hsmall => exact read_small hsmall hwindow rest
  | long count hleast hmost =>
      rw [List.length_cons, Bytes.length_ofNat, Nat.add_comm] at hwindow
      exact read_large hleast hmost hwindow rest

theorem spelling_small {first : UInt8} (hsmall : first < 128) :
    Spelling first.toUInt64 [first] := by
  have hback : first.toUInt64.toUInt8 = first := by simp
  have hvalue : first.toUInt64 < 128 := by
    rw [UInt64.lt_iff_toNat_lt, UInt8.toNat_toUInt64]
    exact UInt8.lt_iff_toNat_lt.mp hsmall
  have hspelling := Spelling.short hvalue
  rwa [hback] at hspelling

theorem spelling_large {first : UInt8} (hlarge : ¬ first < 128) {bytes left : Bytes}
    {value : UInt64} (hcount : first.toNat % 128 = bytes.length)
    (hread : Unsigned.read bytes.length bytes = .ok value left) :
    Spelling value (first :: bytes) := by
  rcases Unsigned.eq_ofNat_of_read hread with ⟨hleast, hbytes⟩
  have hlarge' : 128 ≤ first.toNat := Nat.le_of_not_lt fun h => hlarge (UInt8.lt_iff_toNat_lt.mpr h)
  have hlt := first.toNat_lt
  have hfirst : first = UInt8.ofNat (128 + bytes.length) := by
    rw [← UInt8.toNat_inj, UInt8.toNat_ofNat']
    omega
  rw [hfirst, hbytes, Bytes.length_ofNat]
  exact .long _ hleast (by omega)

/-- Reading accepts the spellings that fit the window. -/
theorem read_eq_ok_iff {window : Nat} {data rest : Bytes} {value : UInt64} :
    read window data = .ok value rest ↔
      ∃ field, Spelling value field ∧ field.length ≤ window ∧ data = field ++ rest := by
  constructor
  · intro h
    cases data with
    | nil => simp [read] at h
    | cons first data =>
      cases window with
      | zero => simp [read] at h
      | succ window =>
        by_cases hsmall : first < 128
        · simp only [read, List.take_succ_cons, if_pos hsmall] at h
          injection h with hvalue hrest
          subst hvalue hrest
          exact ⟨[first], spelling_small hsmall, Nat.succ_le_succ (Nat.zero_le _), rfl⟩
        · simp only [read, List.take_succ_cons, if_neg hsmall] at h
          split at h
          · contradiction
          split at h
          · contradiction
          cases hread : Unsigned.read (first.toNat % 128) (data.take window) with
          | error e left =>
              rw [hread] at h
              contradiction
          | ok number left =>
              rw [hread] at h
              injection h with hvalue hrest
              subst hvalue hrest
              rcases Unsigned.read_eq_ok_iff.mp hread with ⟨hpos, bytes, hcount, htake, hnumber⟩
              have hself : Unsigned.read bytes.length bytes = .ok number [] :=
                Unsigned.read_eq_ok_iff.mpr
                  ⟨by omega, bytes, rfl, (List.append_nil bytes).symm, hnumber⟩
              have hdata : data = bytes ++ (left ++ data.drop window) := by
                rw [← List.append_assoc, ← htake, List.take_append_drop]
              refine ⟨first :: bytes, spelling_large hsmall hcount.symm hself, ?_, ?_⟩
              · have hlength := congrArg List.length htake
                rw [List.length_take, List.length_append] at hlength
                rw [List.length_cons]
                omega
              · rw [List.drop_succ_cons, List.cons_append]
                conv => rhs; rw [hdata, List.drop_left' hcount]
                rw [← hdata]
  · rintro ⟨field, hspelling, hwindow, rfl⟩
    exact hspelling.read hwindow rest

/-- A length is read back in front of anything. -/
theorem read_encode (value : UInt64) {window : Nat} (hwindow : length value ≤ window)
    (rest : Bytes) : read window (encode value ++ rest) = .ok value rest :=
  (spelling_encode value).read (by rwa [length_encode]) rest

/-- The same through a window that shows all that is left. -/
theorem read_encode_append (value : UInt64) (rest : Bytes) :
    read (encode value ++ rest).length (encode value ++ rest) = .ok value rest := by
  refine read_encode value ?_ rest
  rw [List.length_append, length_encode]
  omega

end Ber

namespace BerOid

/-- The spellings of a tag: its groups in any number that is enough for it. -/
inductive Spelling (value : UInt64) : Bytes → Prop
  | padded (count : Nat) : length value ≤ count → Spelling value (BerOid.groups count value.toNat)

theorem spelling_encode (value : UInt64) : Spelling value (encode value) :=
  .padded _ (Nat.le_refl _)

theorem length_pos (value : UInt64) : 1 ≤ length value := by
  unfold length
  omega

/-- No spelling is shorter than what is written, and no other is as short. -/
theorem Spelling.shortest {value : UInt64} {field : Bytes} (h : Spelling value field) :
    length value ≤ field.length ∧ (field.length = length value → field = encode value) := by
  cases h with
  | padded count hleast =>
      rw [length_groups]
      exact ⟨hleast, fun hlength => by rw [hlength, encode]⟩

theorem Spelling.ne_nil {value : UInt64} {field : Bytes} (h : Spelling value field) :
    field ≠ [] :=
  List.ne_nil_of_length_pos (Nat.le_trans (length_pos value) h.shortest.1)

theorem length_le_iff (value : UInt64) {count : Nat} (hpos : 1 ≤ count) :
    length value ≤ count ↔ value.toNat < 128 ^ count := by
  have hbits := bitLength_le_iff value.toNat (7 * count)
  rw [Nat.pow_mul] at hbits
  change _ ↔ value.toNat < (2 ^ 7) ^ count
  rw [← hbits, length]
  omega

/-- One group is taken in as long as nothing is shifted out. -/
theorem decode_cons {value consumed : Nat} {byte : UInt8} {rest : Bytes}
    (hfits : value * 128 < UInt64.size) :
    decode value consumed (byte :: rest) =
      if byte < 128 then .ok (UInt64.ofNat (value * 128 + byte.toNat % 128), consumed + 1)
      else decode (value * 128 + byte.toNat % 128) (consumed + 1) rest := by
  -- The guard against overflow asks the same in other words.
  have hroom : ¬ UInt64.size / 128 ≤ value := by
    have hsize : UInt64.size = 128 * 144115188075855872 := by decide
    omega
  rw [decode, if_neg hroom]

/-- The leading group of several is marked. -/
theorem groups_succ_succ (count n : Nat) :
    groups (count + 1 + 1) n =
      UInt8.ofNat (n / 128 ^ (count + 1) % 128 + 128) :: groups (count + 1) n := by
  have hpow : 2 ^ (7 * (count + 1)) = 128 ^ (count + 1) := Nat.pow_mul 2 7 (count + 1)
  rw [groups, if_neg (Nat.succ_ne_zero count), Nat.shiftRight_eq_div_pow, hpow]

theorem div_div_pow (n count : Nat) : n / 128 ^ (count + 1) = n / 128 ^ count / 128 := by
  rw [Nat.pow_succ, Nat.div_div_eq_div_mul]

/-- Groups are read back behind the ones that lead up to them. -/
theorem decode_groups (result : UInt64) (count consumed : Nat) (rest : Bytes) :
    decode (result.toNat / 128 ^ (count + 1)) consumed (groups (count + 1) result.toNat ++ rest) =
      .ok (result, consumed + (count + 1)) := by
  have hlt : result.toNat < UInt64.size := result.toNat_lt
  induction count generalizing consumed with
  | zero =>
      have hbyte : (UInt8.ofNat (result.toNat % 128)).toNat = result.toNat % 128 := by
        rw [UInt8.toNat_ofNat']
        omega
      have hlast : UInt8.ofNat (result.toNat % 128) < 128 := by
        rw [UInt8.lt_iff_toNat_lt, hbyte]
        exact Nat.mod_lt _ (by decide)
      have hwhole : result.toNat / 128 ^ (0 + 1) * 128 + result.toNat % 128 % 128 =
          result.toNat := by
        rw [Nat.zero_add, Nat.pow_one, Nat.mod_mod, Nat.mul_comm, Nat.div_add_mod]
      simp only [groups, Nat.mul_zero, Nat.shiftRight_zero, if_true, List.cons_append,
        List.nil_append]
      rw [decode_cons (by omega), if_pos hlast, hbyte, hwhole, UInt64.ofNat_toNat]
  | succ count ih =>
      have hbyte : (UInt8.ofNat (result.toNat / 128 ^ (count + 1) % 128 + 128)).toNat =
          result.toNat / 128 ^ (count + 1) % 128 + 128 := by
        rw [UInt8.toNat_ofNat']
        omega
      have hmarked : ¬ UInt8.ofNat (result.toNat / 128 ^ (count + 1) % 128 + 128) < 128 := by
        rw [UInt8.lt_iff_toNat_lt, hbyte]
        change ¬ _ + 128 < 128
        omega
      -- The group puts back what the division took off.
      have hvalue : result.toNat / 128 ^ (count + 1 + 1) * 128 +
          (result.toNat / 128 ^ (count + 1) % 128 + 128) % 128 =
            result.toNat / 128 ^ (count + 1) := by
        rw [div_div_pow _ (count + 1), Nat.add_mod_right, Nat.mod_mod, Nat.mul_comm,
          Nat.div_add_mod]
      have hle := Nat.div_le_self result.toNat (128 ^ (count + 1))
      rw [groups_succ_succ, List.cons_append, decode_cons (by omega), if_neg hmarked, hbyte, hvalue,
        ih, Nat.add_assoc, Nat.add_comm 1]

/-- What is decoded are groups that go on from those before them. -/
theorem eq_groups_of_decode {value consumed : Nat} {bytes : Bytes} {result : UInt64} {n : Nat}
    (h : decode value consumed bytes = .ok (result, n)) :
    ∃ count rest, 1 ≤ count ∧ n = consumed + count ∧
      bytes = groups count result.toNat ++ rest ∧ result.toNat / 128 ^ count = value := by
  induction bytes generalizing value consumed with
  | nil => contradiction
  | cons byte bytes ih =>
      have hbyte := byte.toNat_lt
      by_cases hroom : UInt64.size / 128 ≤ value
      · rw [decode, if_pos hroom] at h
        contradiction
      have hsize : UInt64.size = 128 * 144115188075855872 := by decide
      rw [decode_cons (by omega)] at h
      by_cases hlast : byte < 128
      · rw [if_pos hlast] at h
        injection h with h
        injection h with hresult hn
        have hsmall : byte.toNat < 128 := UInt8.lt_iff_toNat_lt.mp hlast
        have hnat : result.toNat = value * 128 + byte.toNat := by
          rw [← hresult, UInt64.toNat_ofNat']
          omega
        refine ⟨1, bytes, Nat.le_refl 1, hn.symm, ?_, by omega⟩
        have hgroup : UInt8.ofNat (result.toNat % 128) = byte := by
          rw [← UInt8.toNat_inj, UInt8.toNat_ofNat']
          omega
        simp only [groups, Nat.mul_zero, Nat.shiftRight_zero, if_true, hgroup]
        rfl
      · rw [if_neg hlast] at h
        have hlarge : 128 ≤ byte.toNat :=
          Nat.le_of_not_lt fun hlt => hlast (UInt8.lt_iff_toNat_lt.mpr hlt)
        rcases ih h with ⟨count, rest, hpos, rfl, rfl, hvalue⟩
        obtain ⟨count, rfl⟩ := Nat.exists_eq_add_of_le' hpos
        refine ⟨count + 1 + 1, rest, by omega, by omega, ?_, ?_⟩
        · have hgroup : UInt8.ofNat (result.toNat / 128 ^ (count + 1) % 128 + 128) = byte := by
            rw [hvalue, ← UInt8.toNat_inj, UInt8.toNat_ofNat']
            omega
          rw [groups_succ_succ, hgroup, List.cons_append]
        · rw [div_div_pow _ (count + 1), hvalue]
          omega

/-- A spelling is read back in front of anything. -/
theorem Spelling.read {value : UInt64} {field : Bytes} (h : Spelling value field) {window : Nat}
    (hwindow : field.length ≤ window) (rest : Bytes) :
    BerOid.read window (field ++ rest) = .ok value rest := by
  obtain ⟨extra, rfl⟩ := Nat.exists_eq_add_of_le hwindow
  cases h with
  | padded count hleast =>
      have hpos := Nat.le_trans (BerOid.length_pos value) hleast
      have hlt := (length_le_iff value hpos).mp hleast
      obtain ⟨count, rfl⟩ := Nat.exists_eq_add_of_le' hpos
      have hdecode := decode_groups value count 0 (rest.take extra)
      rw [Nat.div_eq_of_lt hlt, Nat.zero_add] at hdecode
      have htake : (groups (count + 1) value.toNat ++ rest).take
          ((groups (count + 1) value.toNat).length + extra) =
          groups (count + 1) value.toNat ++ rest.take extra := by
        rw [List.take_append, List.take_of_length_le (Nat.le_add_right _ _),
          Nat.add_sub_cancel_left]
      simp only [BerOid.read, htake, hdecode]
      rw [List.drop_left' (length_groups _ _)]

/-- Reading accepts the spellings that fit the window. -/
theorem read_eq_ok_iff {window : Nat} {data rest : Bytes} {value : UInt64} :
    read window data = .ok value rest ↔
      ∃ field, Spelling value field ∧ field.length ≤ window ∧ data = field ++ rest := by
  constructor
  · intro h
    unfold read at h
    split at h
    · next number consumed hdecode =>
      injection h with hvalue hrest
      subst hvalue hrest
      rcases eq_groups_of_decode hdecode with ⟨count, behind, hpos, hconsumed, htake, hlead⟩
      obtain rfl : consumed = count := by omega
      have hdata : data = groups consumed number.toNat ++ (behind ++ data.drop window) := by
        rw [← List.append_assoc, ← htake, List.take_append_drop]
      refine ⟨groups consumed number.toNat, .padded _ ?_, ?_, ?_⟩
      · have hpow : 0 < 128 ^ consumed := Nat.pow_pos (by decide)
        exact (length_le_iff number hpos).mpr ((Nat.div_eq_zero_iff_lt hpow).mp hlead)
      · have hlength := congrArg List.length htake
        rw [List.length_take, List.length_append] at hlength
        omega
      · conv => rhs; rw [hdata, List.drop_left' (length_groups _ _)]
        rw [← hdata]
    · contradiction
  · rintro ⟨field, hspelling, hwindow, rfl⟩
    exact hspelling.read hwindow rest

/-- A tag is read back in front of anything. -/
theorem read_encode (value : UInt64) (rest : Bytes) :
    read (encode value ++ rest).length (encode value ++ rest) = .ok value rest := by
  refine (spelling_encode value).read ?_ rest
  rw [List.length_append]
  omega

end BerOid

/-- A key is read back in front of anything. -/
theorem UniversalKey.read_bytes (key : UniversalKey) (rest : Bytes) :
    read (key.bytes ++ rest) = .ok key rest := by
  have hlength := key.length_bytes
  have hle : ¬ (key.bytes ++ rest).length < size := by
    rw [List.length_append, hlength]
    unfold size
    omega
  unfold read
  rw [dif_neg hle]
  congr
  · exact List.take_left' hlength
  · exact List.drop_left' hlength

/-- What is read as a key are its bytes. -/
theorem UniversalKey.eq_append_of_read {data rest : Bytes} {key : UniversalKey}
    (h : read data = .ok key rest) : data = key.bytes ++ rest := by
  unfold read at h
  split at h
  · contradiction
  · injection h with hkey hrest
    rw [← hkey, ← hrest]
    exact (List.take_append_drop _ _).symm

/-- A code for numbers. Its reader accepts every spelling of a number, and of these there
    is one that is shorter than all others. -/
structure NumeralCode where
  Spelling : UInt64 → Bytes → Prop
  encode : UInt64 → Bytes
  read : (window : Nat) → Reader UInt64
  spelling_encode : ∀ value, Spelling value (encode value)
  shortest : ∀ {value field}, Spelling value field → (encode value).length ≤ field.length ∧
    (field.length = (encode value).length → field = encode value)
  read_eq_ok_iff : ∀ {window data rest value}, read window data = .ok value rest ↔
    ∃ field, Spelling value field ∧ field.length ≤ window ∧ data = field ++ rest

/-- The code for lengths. -/
def Ber.code : NumeralCode where
  Spelling := Spelling
  encode := encode
  read := read
  spelling_encode := spelling_encode
  shortest h := by
    rw [length_encode]
    exact h.shortest
  read_eq_ok_iff := read_eq_ok_iff

/-- The code for tags. -/
def BerOid.code : NumeralCode where
  Spelling := Spelling
  encode := encode
  read := read
  spelling_encode := spelling_encode
  shortest h := by
    rw [length_encode]
    exact h.shortest
  read_eq_ok_iff := read_eq_ok_iff

/-- A number with one of its spellings. -/
structure Numeral (code : NumeralCode) where
  value : UInt64
  field : Bytes
  spells : code.Spelling value field

namespace Numeral

variable {code : NumeralCode}

/-- No other spelling of the number is shorter. -/
def Shortest (n : Numeral code) : Prop :=
  ∀ field, code.Spelling n.value field → n.field.length ≤ field.length

/-- The number as it is written. -/
def written (value : UInt64) : Numeral code where
  value := value
  field := code.encode value
  spells := code.spelling_encode value

/-- The shortest spelling is the one that is written. -/
theorem shortest_iff (n : Numeral code) : n.Shortest ↔ n.field = code.encode n.value := by
  constructor
  · intro h
    have hle := h _ (code.spelling_encode n.value)
    exact (code.shortest n.spells).2 (Nat.le_antisymm hle (code.shortest n.spells).1)
  · intro h field hfield
    rw [h]
    exact (code.shortest hfield).1

/-- What is written is no longer, and as long only if nothing changes. -/
theorem length_encode_le (n : Numeral code) :
    (code.encode n.value).length ≤ n.field.length ∧
      (n.field.length = (code.encode n.value).length → n.Shortest) := by
  rw [shortest_iff]
  exact code.shortest n.spells

/-- Through a window that shows all that is left, reading takes a numeral. -/
theorem read_iff {data rest : Bytes} {value : UInt64} :
    code.read data.length data = .ok value rest ↔
      ∃ n : Numeral code, n.value = value ∧ data = n.field ++ rest := by
  rw [code.read_eq_ok_iff]
  constructor
  · rintro ⟨field, hspells, _, hdata⟩
    exact ⟨⟨value, field, hspells⟩, rfl, hdata⟩
  · rintro ⟨n, rfl, rfl⟩
    exact ⟨n.field, n.spells, by rw [List.length_append]; omega, rfl⟩

end Numeral

end KlvMetadata
