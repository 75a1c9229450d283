import KlvMetadata.Checksum
import Mathlib.Algebra.BigOperators.Fin

/-!
# What the Checksum Tells

Adding bytes to a sum adds a number that depends on the bytes and on the offset
at which they start, and on nothing that was added before. So a sum can be taken
apart at any place, and two sums over bytes that differ in one place differ by
what that one byte contributes.

A byte contributes itself to one half of the word, the upper or the lower one by
the parity of its offset. Neither half loses anything of it, and the word wraps
only beyond the upper half. So a byte that is changed changes the sum, by whatever
amount it is changed and wherever it stands.

What all bytes contribute together can be said without a sum that runs: each byte
counts for itself or for 256 times itself, by the parity of its place in the whole,
and only the total wraps. Pieces do not show in this, because a piece starts at the
offset where the last one ended.

## Main definitions

* `RunningSum.contribution`: What bytes add to a sum.

## Theorems

* `RunningSum.add_append`, `foldl_add`, `offset_add`: Adding piece by piece.
* `RunningSum.sum_add`: A sum grows by a contribution.
* `RunningSum.weight_injective`: A byte is known from what it contributes.
* `RunningSum.sum_add_ne`: A changed byte changes the sum.
* `RunningSum.toNat_contribution`: A contribution as a sum over places.
* `RunningSum.sum_of_pieces`: The checksum of pieces is that of the whole.
-/

namespace KlvMetadata

namespace RunningSum

theorem add_append (s : RunningSum) (xs ys : Bytes) : s.add (xs ++ ys) = (s.add xs).add ys :=
  List.foldl_append

/-- Pieces that are added one after the other add up to the whole. -/
theorem foldl_add (s : RunningSum) (pieces : List Bytes) :
    pieces.foldl add s = s.add pieces.flatten :=
  List.foldl_flatten.symm

theorem add_cons (s : RunningSum) (byte : UInt8) (bytes : Bytes) :
    s.add (byte :: bytes) = (s.push byte).add bytes :=
  List.foldl_cons ..

@[simp]
theorem offset_push (s : RunningSum) (byte : UInt8) : (s.push byte).offset = s.offset + 1 := by
  rfl

@[simp]
theorem sum_push (s : RunningSum) (byte : UInt8) :
    (s.push byte).sum = s.sum + weight s.offset byte := by
  rfl

theorem offset_add (s : RunningSum) (bytes : Bytes) :
    (s.add bytes).offset = s.offset + bytes.length := by
  induction bytes generalizing s with
  | nil => rfl
  | cons byte bytes ih =>
      rw [add_cons, ih, List.length_cons, offset_push]
      omega

/-- What bytes that start at an offset add to a sum. -/
def contribution : (offset : Nat) → Bytes → UInt16
  | _, [] => 0
  | offset, byte :: bytes => weight offset byte + contribution (offset + 1) bytes

/-- A sum grows by what the bytes contribute, whatever was added before. -/
theorem sum_add (s : RunningSum) (bytes : Bytes) :
    (s.add bytes).sum = s.sum + contribution s.offset bytes := by
  induction bytes generalizing s with
  | nil => exact (UInt16.add_zero s.sum).symm
  | cons byte bytes ih => rw [add_cons, ih, contribution, sum_push, offset_push, UInt16.add_assoc]

/-- A byte counts once or 256 times, and the word has room for either. -/
theorem toNat_weight (offset : Nat) (byte : UInt8) :
    (weight offset byte).toNat = if offset % 2 = 0 then byte.toNat * 256 else byte.toNat := by
  have hlt := byte.toNat_lt
  unfold weight
  split
  · simp only [UInt16.toNat_shiftLeft, UInt8.toNat_toUInt16, Nat.shiftLeft_eq]
    change byte.toNat * 256 % 65536 = byte.toNat * 256
    omega
  · exact UInt8.toNat_toUInt16 byte

/-- A byte is known from what it contributes. -/
theorem weight_injective (offset : Nat) : Function.Injective (weight offset) := by
  intro a b h
  have hnat := congrArg UInt16.toNat h
  rw [toNat_weight, toNat_weight] at hnat
  rw [← UInt8.toNat_inj]
  split at hnat <;> omega

/-- A changed byte changes the sum. -/
theorem sum_add_ne (s : RunningSum) (front behind : Bytes) {a b : UInt8} (h : a ≠ b) :
    (s.add (front ++ a :: behind)).sum ≠ (s.add (front ++ b :: behind)).sum := by
  simp only [add_append, sum_add, contribution]
  intro heq
  exact h (weight_injective _ (UInt16.add_left_inj _ |>.mp (UInt16.add_right_inj _ |>.mp heq)))

/-- Bytes contribute what they count for at their places, and only the total wraps. -/
theorem toNat_contribution (offset : Nat) (bytes : Bytes) :
    (contribution offset bytes).toNat = (∑ i : Fin bytes.length,
      if (offset + i) % 2 = 0 then bytes[i].toNat * 256 else bytes[i].toNat) % 2 ^ 16 := by
  induction bytes generalizing offset with
  | nil => rfl
  | cons byte bytes ih =>
      -- The first byte stands at the offset, and the others start one place further on.
      have hsplit := Fin.sum_univ_succ (n := bytes.length) fun i =>
        if (offset + i) % 2 = 0 then (byte :: bytes)[i].toNat * 256 else (byte :: bytes)[i].toNat
      have hplace (i : Fin bytes.length) : offset + (i.succ : Nat) = offset + 1 + i := by
        rw [Fin.val_succ, Nat.add_comm (i : Nat), Nat.add_assoc]
      simp only [hplace] at hsplit
      rw [contribution, UInt16.toNat_add, toNat_weight, ih, Nat.add_mod_mod]
      exact congrArg (· % 2 ^ 16) hsplit.symm

/-- However bytes are cut into pieces, adding these one after the other gives the checksum
    of the whole, and counts all bytes. It is the sum of the bytes, those at even places
    counted 256 times, as far as a word of sixteen bits can tell. -/
theorem sum_of_pieces (pieces : List Bytes) :
    let bytes := pieces.flatten
    let fed := pieces.foldl add empty
    fed = empty.add bytes ∧ fed.sum = checksum bytes ∧ fed.offset = bytes.length ∧
    (checksum bytes).toNat = (∑ i : Fin bytes.length,
      if (i : Nat) % 2 = 0 then bytes[i].toNat * 256 else bytes[i].toNat) % 2 ^ 16 := by
  intro bytes fed
  have hfed : fed = empty.add bytes := foldl_add empty pieces
  refine ⟨hfed, congrArg sum hfed, ?_, ?_⟩
  · rw [hfed, offset_add]
    exact Nat.zero_add _
  · have hplaces := toNat_contribution 0 bytes
    simp only [Nat.zero_add] at hplaces
    rw [← hplaces, checksum, sum_add]
    exact congrArg UInt16.toNat (UInt16.zero_add _)

end RunningSum

end KlvMetadata
