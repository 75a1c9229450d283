import KlvMetadata.Proofs.Wire.Writers
import Mathlib.Algebra.Group.Nat.Defs

/-!
# Integers and Their Bytes

Reading and writing an integer are one relation between a number and a run of
bytes, seen from its two ends. For unsigned integers it is that the bytes spell
the number; for signed ones, that they spell it in two's complement. Bytes in
front of the last eight are checked to extend the value, which is the same as
saying that the whole run spells a number that fits a word, so fields longer
than a word need no case of their own.

A run of some length and the number it spells determine each other. So what was
written is read back, and what was read is written back byte for byte, leading
bytes included.

## Main definitions

* `Signed.Fits`: Numbers that have a spelling of some length.
* `Signed.spelling`: The spelling of a number in some length.

## Theorems

* `Bytes.ofNat_toNat`: A run is spelled by its length and its number.
* `Unsigned.read_eq_ok_iff`, `Signed.read_eq_ok_iff`: What reading accepts.
* `Unsigned.minLength_le_iff`, `Signed.minLength_le_iff`: Numbers that fit.
* `Unsigned.read_ofNat`, `Signed.read_spelling`: Reading what fits.
* `Unsigned.write_apply`, `Signed.write_apply`: Writing what fits and refusing the rest.
* `Unsigned.eq_ofNat_of_read`, `Signed.eq_spelling_of_read`: What was read is the
  spelling of its number in its length.
-/

namespace KlvMetadata

namespace Bytes

-- What was read before counts for as many digits as there are bytes to come.
theorem foldl_toNat (bytes : Bytes) (n : Nat) :
    bytes.foldl (fun n b => n * 256 + b.toNat) n = n * 256 ^ bytes.length + toNat bytes := by
  induction bytes generalizing n with
  | nil => simp [toNat]
  | cons b bytes ih =>
      unfold toNat
      rw [List.foldl_cons, List.foldl_cons, ih, ih (0 * 256 + b.toNat), List.length_cons,
        Nat.pow_succ]
      simp only [Nat.zero_mul, Nat.zero_add, Nat.add_mul, Nat.add_assoc, Nat.mul_assoc,
        Nat.mul_comm (256 ^ bytes.length)]

theorem toNat_cons (b : UInt8) (bytes : Bytes) :
    toNat (b :: bytes) = b.toNat * 256 ^ bytes.length + toNat bytes := by
  rw [toNat, List.foldl_cons, foldl_toNat, Nat.zero_mul, Nat.zero_add]

/-- The low bytes of a number spell its remainder. -/
theorem toNat_ofNat (count n : Nat) : toNat (ofNat count n) = n % 256 ^ count := by
  induction count with
  | zero => simp [ofNat, toNat, Nat.mod_one]
  | succ count ih =>
      have hbyte : (UInt8.ofNat (n >>> (8 * count))).toNat = n / 256 ^ count % 256 := by
        rw [UInt8.toNat_ofNat', Nat.shiftRight_eq_div_pow, Nat.pow_mul]
      rw [ofNat, toNat_cons, hbyte, ih, length_ofNat, Nat.mod_pow_succ, Nat.mul_comm, Nat.add_comm]

theorem toNat_append (xs ys : Bytes) :
    toNat (xs ++ ys) = toNat xs * 256 ^ ys.length + toNat ys := by
  rw [toNat, List.foldl_append, foldl_toNat]
  rfl

theorem toNat_lt (bytes : Bytes) : toNat bytes < 256 ^ bytes.length := by
  induction bytes with
  | nil => exact Nat.one_pos
  | cons b bytes ih =>
      have hb : b.toNat + 1 ≤ 256 := b.toNat_lt
      have hpow := Nat.mul_le_mul_right (256 ^ bytes.length) hb
      rw [toNat_cons, List.length_cons, Nat.pow_succ]
      rw [Nat.add_mul, Nat.one_mul] at hpow
      omega

-- The low bytes do not see what stands above them.
theorem ofNat_add_mul (count m n : Nat) : ofNat count (m * 256 ^ count + n) = ofNat count n := by
  induction count generalizing m with
  | zero => rfl
  | succ count ih =>
      have hpow : m * 256 ^ (count + 1) = m * 256 * 256 ^ count := by
        rw [Nat.pow_succ, Nat.mul_comm (256 ^ count), Nat.mul_assoc]
      have hpos : 0 < 256 ^ count := Nat.pow_pos (by decide)
      have hfirst : UInt8.ofNat ((m * 256 * 256 ^ count + n) >>> (8 * count)) =
          UInt8.ofNat (n >>> (8 * count)) := by
        rw [← UInt8.toNat_inj, UInt8.toNat_ofNat', UInt8.toNat_ofNat', Nat.shiftRight_eq_div_pow,
          Nat.shiftRight_eq_div_pow, Nat.pow_mul, Nat.mul_comm _ (256 ^ count)]
        change (256 ^ count * (m * 256) + n) / 256 ^ count % 256 = n / 256 ^ count % 256
        rw [Nat.mul_add_div hpos, Nat.mul_add_mod_self_right]
      rw [hpow, ofNat, ofNat, hfirst, ih]

/-- A run is spelled by its length and the number it spells. -/
theorem ofNat_toNat (bytes : Bytes) : ofNat bytes.length (toNat bytes) = bytes := by
  induction bytes with
  | nil => rfl
  | cons b bytes ih =>
      have hlt := toNat_lt bytes
      have hpos : 0 < 256 ^ bytes.length := Nat.pow_pos (by decide)
      have hfirst : UInt8.ofNat (toNat (b :: bytes) >>> (8 * bytes.length)) = b := by
        rw [Nat.shiftRight_eq_div_pow, Nat.pow_mul, toNat_cons, Nat.mul_comm]
        change UInt8.ofNat ((256 ^ bytes.length * b.toNat + toNat bytes) / 256 ^ bytes.length) = b
        rw [Nat.mul_add_div hpos, Nat.div_eq_of_lt hlt, Nat.add_zero, UInt8.ofNat_toNat]
      rw [List.length_cons, ofNat, hfirst, toNat_cons, ofNat_add_mul, ih]

theorem toNat_eq_zero_iff (bytes : Bytes) : toNat bytes = 0 ↔ bytes.any (· ≠ 0) = false := by
  induction bytes with
  | nil => exact ⟨fun _ => rfl, fun _ => rfl⟩
  | cons b bytes ih =>
      have hpow : 256 ^ bytes.length ≠ 0 := Nat.ne_of_gt (Nat.pow_pos (by decide))
      have hzero : b.toNat = 0 ↔ b = 0 := by rw [← UInt8.toNat_inj]; rfl
      rw [toNat_cons, Nat.add_eq_zero_iff, Nat.mul_eq_zero, or_iff_left hpow, hzero, ih,
        List.any_cons, Bool.or_eq_false_iff, decide_eq_false_iff_not, Classical.not_not]

end Bytes

/-- A number has at most `k` binary digits if it is below the power of two. -/
theorem bitLength_le_iff (n k : Nat) : bitLength n ≤ k ↔ n < 2 ^ k := by
  unfold bitLength
  by_cases hn : n = 0
  · rw [if_pos hn, hn]
    exact ⟨fun _ => Nat.two_pow_pos k, fun _ => Nat.zero_le k⟩
  · rw [if_neg hn, ← Nat.log2_lt hn]
    omega

theorem Reader.take_append (bytes rest : Bytes) :
    Reader.take bytes.length (bytes ++ rest) = .ok bytes rest := by
  have hle : ¬ (bytes ++ rest).length < bytes.length := by simp
  rw [Reader.take, if_neg hle, List.take_left, List.drop_left]

theorem Reader.take_self (bytes : Bytes) : Reader.take bytes.length bytes = .ok bytes [] := by
  have htake := Reader.take_append bytes []
  rwa [List.append_nil] at htake

theorem Reader.take_eq_ok {n : Nat} {data bytes rest : Bytes}
    (h : Reader.take n data = .ok bytes rest) : bytes.length = n ∧ data = bytes ++ rest := by
  rw [Reader.take] at h
  split at h
  · contradiction
  · injection h with hbytes hrest
    subst hbytes hrest
    refine ⟨?_, (List.take_append_drop n data).symm⟩
    rw [List.length_take]
    omega

namespace Unsigned

theorem minLength_le_iff (value : UInt64) (length : Nat) :
    minLength value ≤ length ↔ 1 ≤ length ∧ value.toNat < 256 ^ length := by
  have hbits := bitLength_le_iff value.toNat (8 * length)
  rw [Nat.pow_mul] at hbits
  change _ ↔ _ ∧ value.toNat < (2 ^ 8) ^ length
  rw [← hbits, minLength]
  omega

theorem minLength_bounds (value : UInt64) : 1 ≤ minLength value ∧ minLength value ≤ 8 := by
  refine ⟨?_, (minLength_le_iff value 8).mpr ⟨by decide, value.toNat_lt⟩⟩
  unfold minLength
  omega

/-- The bytes in front of the last eight are zero if the number fits a word. -/
theorem surplus_eq_zero_iff (bytes : Bytes) :
    (bytes.take (bytes.length - 8)).any (· ≠ 0) = false ↔ Bytes.toNat bytes < UInt64.size := by
  have hlt := Bytes.toNat_lt bytes
  by_cases hshort : bytes.length ≤ 8
  · -- There are no such bytes, and every number of this length fits.
    have hpow : 256 ^ bytes.length ≤ 256 ^ 8 := Nat.pow_le_pow_right (by decide) hshort
    rw [Nat.sub_eq_zero_of_le hshort]
    exact ⟨fun _ => Nat.lt_of_lt_of_le hlt hpow, fun _ => rfl⟩
  · have hsplit := Bytes.toNat_append (bytes.take (bytes.length - 8))
      (bytes.drop (bytes.length - 8))
    have hlow := Bytes.toNat_lt (bytes.drop (bytes.length - 8))
    have hdrop : (bytes.drop (bytes.length - 8)).length = 8 := by
      rw [List.length_drop]
      omega
    rw [List.take_append_drop, hdrop] at hsplit
    rw [hdrop] at hlow
    rw [← Bytes.toNat_eq_zero_iff, hsplit]
    change _ ↔ _ < 256 ^ 8
    omega

/-- Reading bytes that are there gives the number they spell, if it fits a word. -/
theorem read_append {bytes : Bytes} (hne : bytes ≠ []) (rest : Bytes) :
    read bytes.length (bytes ++ rest) =
      if Bytes.toNat bytes < UInt64.size then .ok (UInt64.ofNat (Bytes.toNat bytes)) rest
      else .error (.parse (.unsignedOverflow bytes.length)) rest := by
  have hzero : bytes.length ≠ 0 := fun h => hne (List.length_eq_zero_iff.mp h)
  have hsplit := Bytes.toNat_append (bytes.take (bytes.length - 8)) (bytes.drop (bytes.length - 8))
  rw [List.take_append_drop] at hsplit
  cases hsurplus : (bytes.take (bytes.length - 8)).any (· ≠ 0) with
  | false =>
      -- What stands in front is zero, so the last bytes spell the whole number.
      have hfits := (surplus_eq_zero_iff bytes).mp hsurplus
      have hvalue : Bytes.toNat bytes = Bytes.toNat (bytes.drop (bytes.length - 8)) := by
        rw [hsplit, (Bytes.toNat_eq_zero_iff _).mpr hsurplus, Nat.zero_mul, Nat.zero_add]
      rw [if_pos hfits, hvalue]
      simp only [read, if_neg hzero, Action.bind_apply, Reader.take_append, hsurplus]
      rfl
  | true =>
      have hlarge : ¬ Bytes.toNat bytes < UInt64.size := by
        rw [← surplus_eq_zero_iff, hsurplus]
        decide
      rw [if_neg hlarge]
      simp only [read, if_neg hzero, Action.bind_apply, Reader.take_append, hsurplus]
      rfl

/-- Reading accepts the bytes that spell a word, however many of them there are. -/
theorem read_eq_ok_iff {length : Nat} {data rest : Bytes} {value : UInt64} :
    read length data = .ok value rest ↔
      1 ≤ length ∧ ∃ bytes, bytes.length = length ∧ data = bytes ++ rest ∧
        Bytes.toNat bytes = value.toNat := by
  constructor
  · intro h
    by_cases hzero : length = 0
    · simp [read, hzero, Reader.fail] at h
    cases htake : Reader.take length data with
    | error e left => simp [read, hzero, htake] at h
    | ok bytes left =>
        obtain ⟨rfl, rfl⟩ := Reader.take_eq_ok htake
        have hne : bytes ≠ [] := fun hnil => hzero (List.length_eq_zero_iff.mpr hnil)
        rw [read_append hne] at h
        split at h
        · next hfits =>
            injection h with hvalue hrest
            subst hvalue hrest
            exact ⟨by omega, bytes, rfl, rfl, (UInt64.toNat_ofNat_of_lt' hfits).symm⟩
        · contradiction
  · rintro ⟨hpos, bytes, rfl, rfl, hvalue⟩
    have hne : bytes ≠ [] := List.ne_nil_of_length_pos hpos
    rw [read_append hne, hvalue, if_pos value.toNat_lt, UInt64.ofNat_toNat]

/-- The bytes of a number are read back if there are enough of them. -/
theorem read_ofNat {value : UInt64} {count : Nat} (h : minLength value ≤ count) (rest : Bytes) :
    read count (Bytes.ofNat count value.toNat ++ rest) = .ok value rest := by
  rcases (minLength_le_iff value count).mp h with ⟨hpos, hlt⟩
  refine read_eq_ok_iff.mpr ⟨hpos, _, Bytes.length_ofNat _ _, rfl, ?_⟩
  rw [Bytes.toNat_ofNat, Nat.mod_eq_of_lt hlt]

/-- Bytes that were read are those of the number in their length. -/
theorem eq_ofNat_of_read {bytes left : Bytes} {value : UInt64}
    (h : read bytes.length bytes = .ok value left) :
    minLength value ≤ bytes.length ∧ bytes = Bytes.ofNat bytes.length value.toNat := by
  rcases read_eq_ok_iff.mp h with ⟨hpos, field, hlength, heq, hvalue⟩
  obtain ⟨rfl, _⟩ := List.append_inj ((List.append_nil bytes).trans heq) hlength.symm
  rw [minLength_le_iff, ← hvalue]
  exact ⟨⟨hpos, Bytes.toNat_lt bytes⟩, (Bytes.ofNat_toNat bytes).symm⟩

theorem write_apply (value : UInt64) (length : Nat) (out : Bytes) :
    write value length out =
      if length < minLength value then .error (.value (.unsignedWidth value length)) out
      else .ok () (out ++ Bytes.ofNat length value.toNat) :=
  Writer.check_bind_apply ..

theorem appends_write {value : UInt64} {length : Nat} (h : minLength value ≤ length) :
    (write value length).Appends (Bytes.ofNat length value.toNat) := by
  intro out
  rw [write_apply, if_neg (Nat.not_lt.mpr h)]

end Unsigned

theorem Bytes.capacity_eq (count : Nat) : capacity count = 256 ^ count := by
  rw [capacity, Nat.one_shiftLeft, Nat.pow_mul]

theorem Bytes.capacity_succ (count : Nat) : capacity (count + 1) = 256 * capacity count := by
  rw [capacity_eq, capacity_eq, Nat.pow_succ, Nat.mul_comm]

theorem Bytes.capacity_pos (count : Nat) : 0 < capacity count := by
  rw [capacity_eq]
  exact Nat.pow_pos (by decide)

namespace Signed

/-- The number has a spelling of this length in two's complement. -/
def Fits (n : Int) (length : Nat) : Prop :=
  -(Bytes.capacity length : Int) ≤ 2 * n ∧ 2 * n < Bytes.capacity length

instance (n : Int) (length : Nat) : Decidable (Fits n length) := inferInstanceAs (Decidable (_ ∧ _))

/-- The byte that goes in front of a spelling to make it longer. -/
def sign (bytes : Bytes) : UInt8 := if isNegative bytes then 0xFF else 0x00

/-- The bytes of a number in two's complement. -/
def spelling (length : Nat) (n : Int) : Bytes :=
  Bytes.ofNat length (n % Bytes.capacity length).toNat

@[simp]
theorem length_spelling (length : Nat) (n : Int) : (spelling length n).length = length :=
  Bytes.length_ofNat _ _

-- The sign is the leading bit, which tells whether the bytes are in the upper half.
theorem isNegative_iff {bytes : Bytes} (hne : bytes ≠ []) :
    isNegative bytes = true ↔ Bytes.capacity bytes.length ≤ 2 * Bytes.toNat bytes := by
  cases bytes with
  | nil => contradiction
  | cons b bytes =>
      have hlt := Bytes.toNat_lt bytes
      have hle : (0x80 ≤ b) ↔ 128 ≤ b.toNat := UInt8.le_iff_toNat_le
      rw [← Bytes.capacity_eq] at hlt
      rw [List.length_cons, Bytes.capacity_succ, Bytes.toNat_cons, ← Bytes.capacity_eq, isNegative,
        decide_eq_true_eq, hle]
      generalize Bytes.capacity bytes.length = C at *
      constructor
      · intro hb
        have := Nat.mul_le_mul_right C hb
        omega
      · intro h
        by_cases hb : 128 ≤ b.toNat
        · exact hb
        · have hb' : b.toNat ≤ 127 := by omega
          have := Nat.mul_le_mul_right C hb'
          omega

theorem value_eq {bytes : Bytes} (hne : bytes ≠ []) :
    value bytes = if Bytes.capacity bytes.length ≤ 2 * Bytes.toNat bytes then
      (Bytes.toNat bytes : Int) - Bytes.capacity bytes.length else Bytes.toNat bytes := by
  simp only [value, isNegative_iff hne]

theorem fits_value {bytes : Bytes} (hne : bytes ≠ []) : Fits (value bytes) bytes.length := by
  have hlt := Bytes.toNat_lt bytes
  rw [← Bytes.capacity_eq] at hlt
  rw [Fits, value_eq hne]
  split <;> omega

/-- A number that fits is reduced by adding the capacity if it is negative. -/
theorem emod_capacity {n : Int} {length : Nat} (h : Fits n length) :
    n % Bytes.capacity length = if n < 0 then n + Bytes.capacity length else n := by
  unfold Fits at h
  split
  · rw [← Int.add_emod_right, Int.emod_eq_of_lt (by omega) (by omega)]
  · exact Int.emod_eq_of_lt (by omega) (by omega)

/-- The bytes spell a number that fits if they spell its remainder. -/
theorem value_eq_iff {bytes : Bytes} (hne : bytes ≠ []) {n : Int} (h : Fits n bytes.length) :
    value bytes = n ↔ (Bytes.toNat bytes : Int) = n % Bytes.capacity bytes.length := by
  have hlt := Bytes.toNat_lt bytes
  rw [← Bytes.capacity_eq] at hlt
  rw [emod_capacity h, value_eq hne]
  unfold Fits at h
  split <;> split <;> omega

theorem value_spelling {length : Nat} {n : Int} (hpos : 1 ≤ length) (h : Fits n length) :
    value (spelling length n) = n := by
  have hlength := length_spelling length n
  have hne : spelling length n ≠ [] := by
    rw [← List.length_pos_iff, hlength]
    exact hpos
  rw [value_eq_iff hne (by rwa [hlength]), hlength]
  have hcapacity := Bytes.capacity_pos length
  have hnonneg : 0 ≤ n % Bytes.capacity length := Int.emod_nonneg n (by omega)
  have hbound : n % Bytes.capacity length < Bytes.capacity length :=
    Int.emod_lt_of_pos n (by omega)
  rw [spelling, Bytes.toNat_ofNat, ← Bytes.capacity_eq, Nat.mod_eq_of_lt (by omega)]
  omega

/-- A run is the spelling of the number it spells. -/
theorem spelling_value {bytes : Bytes} (hne : bytes ≠ []) :
    spelling bytes.length (value bytes) = bytes := by
  have h := (value_eq_iff hne (fits_value hne)).mp rfl
  rw [spelling, ← h, Int.toNat_natCast, Bytes.ofNat_toNat]

/-- Runs of one length that spell the same number are the same. -/
theorem eq_of_value_eq {xs ys : Bytes} (hne : xs ≠ []) (hlength : xs.length = ys.length)
    (h : value xs = value ys) : xs = ys := by
  have hne' : ys ≠ [] := by
    rw [← List.length_pos_iff, ← hlength]
    exact List.length_pos_iff.mpr hne
  rw [← spelling_value hne, ← spelling_value hne', hlength, h]

theorem Fits.mono {n : Int} {length longer : Nat} (h : Fits n length) (hle : length ≤ longer) :
    Fits n longer := by
  have hpow : Bytes.capacity length ≤ Bytes.capacity longer := by
    rw [Bytes.capacity_eq, Bytes.capacity_eq]
    exact Nat.pow_le_pow_right (by decide) hle
  unfold Fits at *
  omega

/-- The sign in front changes neither the number nor the sign. -/
theorem value_sign_cons (bytes : Bytes) :
    value (sign bytes :: bytes) = value bytes ∧ sign (sign bytes :: bytes) = sign bytes := by
  have hsign : isNegative (sign bytes :: bytes) = isNegative bytes := by
    unfold sign
    cases isNegative bytes <;> rfl
  refine ⟨?_, by rw [sign, hsign, sign]⟩
  have hnumber := Bytes.toNat_cons (sign bytes) bytes
  rw [← Bytes.capacity_eq] at hnumber
  rw [value, hsign, List.length_cons, hnumber, Bytes.capacity_succ, value]
  cases hneg : isNegative bytes with
  | true =>
      -- The sign byte adds all but one of the capacities that are taken off.
      have hfirst : (sign bytes).toNat = 255 := by rw [sign, hneg]; rfl
      rw [hfirst, if_pos rfl, if_pos rfl]
      omega
  | false =>
      have hfirst : (sign bytes).toNat = 0 := by rw [sign, hneg]; rfl
      rw [hfirst, Nat.zero_mul, Nat.zero_add]
      rfl

/-- Neither do any number of signs. -/
theorem value_sign_append {surplus bytes : Bytes} (h : ∀ b ∈ surplus, b = sign bytes) :
    value (surplus ++ bytes) = value bytes ∧ sign (surplus ++ bytes) = sign bytes := by
  induction surplus with
  | nil => exact ⟨rfl, rfl⟩
  | cons b surplus ih =>
      rcases List.forall_mem_cons.mp h with ⟨hb, hrest⟩
      rcases ih hrest with ⟨hvalue, hsign⟩
      have hcons := value_sign_cons (surplus ++ bytes)
      rw [hb, ← hsign, List.cons_append]
      exact ⟨hcons.1.trans hvalue, hcons.2⟩

/-- The bytes in front of the last eight are signs if the number fits a word. -/
theorem surplus_eq_sign_iff {bytes : Bytes} (hne : bytes ≠ []) :
    (bytes.take (bytes.length - 8)).any (· ≠ sign (bytes.drop (bytes.length - 8))) = false ↔
      Fits (value bytes) 8 := by
  have hall (surplus : Bytes) (b : UInt8) :
      surplus.any (· ≠ b) = false ↔ ∀ c ∈ surplus, c = b := by simp
  rw [hall]
  by_cases hshort : bytes.length ≤ 8
  · -- There are no such bytes, and every number of this length fits.
    rw [Nat.sub_eq_zero_of_le hshort]
    exact ⟨fun _ => (fits_value hne).mono hshort, fun _ _ hb => absurd hb List.not_mem_nil⟩
  · have hdrop : (bytes.drop (bytes.length - 8)).length = 8 := by
      rw [List.length_drop]
      omega
    constructor
    · intro h
      have hne' : bytes.drop (bytes.length - 8) ≠ [] := by
        rw [← List.length_pos_iff, hdrop]
        decide
      have hvalue := (value_sign_append h).1
      have hfits := fits_value hne'
      rw [List.take_append_drop] at hvalue
      rwa [hdrop, ← hvalue] at hfits
    · intro h
      -- Eight bytes behind signs spell the number, and no other run of this length does.
      have hlength := length_spelling 8 (value bytes)
      have hvalue := value_spelling (by decide) h
      generalize spelling 8 (value bytes) = tail at hlength hvalue
      have hrun : bytes = List.replicate (bytes.length - 8) (sign tail) ++ tail := by
        refine eq_of_value_eq hne ?_ ?_
        · rw [List.length_append, List.length_replicate, hlength]
          omega
        · rw [(value_sign_append fun b hb => List.eq_of_mem_replicate hb).1, hvalue]
      have hfront := List.length_replicate (n := bytes.length - 8) (a := sign tail)
      generalize bytes.length - 8 = count at hrun hfront ⊢
      rw [hrun, List.take_left' hfront, List.drop_left' hfront]
      exact fun b hb => List.eq_of_mem_replicate hb

theorem fits_word (n : Int64) : Fits n.toInt 8 := by
  have hlow := n.le_toInt
  have hhigh := n.toInt_lt
  have hcapacity : Bytes.capacity 8 = 18446744073709551616 := by decide
  unfold Fits
  rw [hcapacity]
  omega

theorem toInt_ofInt {n : Int} (h : Fits n 8) : (Int64.ofInt n).toInt = n := by
  have hcapacity : Bytes.capacity 8 = 18446744073709551616 := by decide
  unfold Fits at h
  rw [hcapacity] at h
  exact Int64.toInt_ofInt_of_le (by omega) (by omega)

/-- Reading bytes that are there gives the number they spell, if it fits a word. -/
theorem read_append {bytes : Bytes} (hne : bytes ≠ []) (rest : Bytes) :
    read bytes.length (bytes ++ rest) =
      if Fits (value bytes) 8 then .ok (Int64.ofInt (value bytes)) rest
      else .error (.parse (.signedOverflow bytes.length)) rest := by
  have hzero : bytes.length ≠ 0 := fun h => hne (List.length_eq_zero_iff.mp h)
  cases hsurplus : (bytes.take (bytes.length - 8)).any
      (· ≠ sign (bytes.drop (bytes.length - 8))) with
  | false =>
      -- What stands in front are signs, so the last bytes spell the whole number.
      have hfits := (surplus_eq_sign_iff hne).mp hsurplus
      have hall : ∀ b ∈ bytes.take (bytes.length - 8),
          b = sign (bytes.drop (bytes.length - 8)) := by
        simpa using hsurplus
      have hvalue := (value_sign_append hall).1
      rw [List.take_append_drop] at hvalue
      rw [if_pos hfits, hvalue]
      unfold sign at hsurplus
      simp only [read, if_neg hzero, Action.bind_apply, Reader.take_append, hsurplus]
      rfl
  | true =>
      have hlarge : ¬ Fits (value bytes) 8 := by
        rw [← surplus_eq_sign_iff hne, hsurplus]
        decide
      rw [if_neg hlarge]
      unfold sign at hsurplus
      simp only [read, if_neg hzero, Action.bind_apply, Reader.take_append, hsurplus]
      rfl

/-- Reading accepts the bytes that spell a word, however many of them there are. -/
theorem read_eq_ok_iff {length : Nat} {data rest : Bytes} {n : Int64} :
    read length data = .ok n rest ↔
      1 ≤ length ∧ ∃ bytes, bytes.length = length ∧ data = bytes ++ rest ∧
        value bytes = n.toInt := by
  constructor
  · intro h
    by_cases hzero : length = 0
    · simp [read, hzero, Reader.fail] at h
    cases htake : Reader.take length data with
    | error e left => simp [read, hzero, htake] at h
    | ok bytes left =>
        obtain ⟨rfl, rfl⟩ := Reader.take_eq_ok htake
        have hne : bytes ≠ [] := fun hnil => hzero (List.length_eq_zero_iff.mpr hnil)
        rw [read_append hne] at h
        split at h
        · next hfits =>
            injection h with hvalue hrest
            subst hvalue hrest
            exact ⟨by omega, bytes, rfl, rfl, (toInt_ofInt hfits).symm⟩
        · contradiction
  · rintro ⟨hpos, bytes, rfl, rfl, hvalue⟩
    have hne : bytes ≠ [] := List.ne_nil_of_length_pos hpos
    rw [read_append hne, hvalue, if_pos (fits_word n), Int64.ofInt_toInt]

theorem one_le_minLength (n : Int64) : 1 ≤ minLength n := by
  unfold minLength
  dsimp only
  omega

theorem minLength_le_iff (n : Int64) {length : Nat} (hpos : 1 ≤ length) :
    minLength n ≤ length ↔ Fits n.toInt length := by
  obtain ⟨k, rfl⟩ := Nat.exists_eq_add_of_le' hpos
  -- One bit of the length is taken by the sign.
  have hpow : Bytes.capacity (k + 1) = 2 * 2 ^ (8 * k + 7) := by
    rw [Bytes.capacity, Nat.one_shiftLeft, ← Nat.pow_succ']
    rfl
  have hbits := fun m => bitLength_le_iff m (8 * k + 7)
  unfold minLength Fits
  rw [hpow]
  generalize 2 ^ (8 * k + 7) = half at *
  by_cases hneg : n.toInt < 0
  · have hmagnitude := hbits (-n.toInt - 1).toNat
    simp only [if_pos hneg]
    omega
  · have hmagnitude := hbits n.toInt.toNat
    simp only [if_neg hneg]
    omega

/-- The spelling of a number is read back if it is long enough. -/
theorem read_spelling {n : Int64} {length : Nat} (hpos : 1 ≤ length) (h : Fits n.toInt length)
    (rest : Bytes) : read length (spelling length n.toInt ++ rest) = .ok n rest :=
  read_eq_ok_iff.mpr ⟨hpos, _, length_spelling _ _, rfl, value_spelling hpos h⟩

/-- Bytes that were read are the spelling of the number in their length. -/
theorem eq_spelling_of_read {bytes left : Bytes} {n : Int64}
    (h : read bytes.length bytes = .ok n left) :
    minLength n ≤ bytes.length ∧ bytes = spelling bytes.length n.toInt := by
  rcases read_eq_ok_iff.mp h with ⟨hpos, field, hlength, heq, hvalue⟩
  obtain ⟨rfl, _⟩ := List.append_inj ((List.append_nil bytes).trans heq) hlength.symm
  have hne : bytes ≠ [] := List.ne_nil_of_length_pos hpos
  rw [minLength_le_iff n hpos, ← hvalue]
  exact ⟨fits_value hne, (spelling_value hne).symm⟩

theorem write_apply (n : Int64) (length : Nat) (out : Bytes) :
    write n length out =
      if length < minLength n then .error (.value (.signedWidth n length)) out
      else .ok () (out ++ spelling length n.toInt) :=
  Writer.check_bind_apply ..

theorem appends_write {n : Int64} {length : Nat} (h : minLength n ≤ length) :
    (write n length).Appends (spelling length n.toInt) := by
  intro out
  rw [write_apply, if_neg (Nat.not_lt.mpr h)]

end Signed

end KlvMetadata
