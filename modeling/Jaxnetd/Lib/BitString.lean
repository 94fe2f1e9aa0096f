import Mathlib

/-!
# Numbers as bit strings

Bits of a natural number set one by one, as a program does with a big integer in the place of an array
of bits, and the bytes of a number as its digits.
-/

namespace BitString
open List

def setBit (n i : Nat) (b : Bool) : Nat := if b then n ||| 2 ^ i else n ^^^ (n &&& 2 ^ i)

@[simp] theorem testBit_setBit (n i j : Nat) (b : Bool) :
    (setBit n i b).testBit j = if j = i then b else n.testBit j := by
  cases b with
  | true =>
    rw [setBit, if_pos rfl, Nat.testBit_or, Nat.testBit_two_pow]
    by_cases h : j = i
    · simp [h]
    · simp [h, Ne.symm h]
  | false =>
    rw [setBit, if_neg (by simp), Nat.testBit_xor, Nat.testBit_and, Nat.testBit_two_pow]
    by_cases h : j = i
    · simp [h]
    · simp [h, Ne.symm h]

/-- The number with the bits from `offset` on set to those of a list. -/
def writeBits : Nat → Nat → List Bool → Nat
  | n, _, [] => n
  | n, offset, b :: l => writeBits (setBit n offset b) (offset + 1) l

theorem writeBits_append (n offset : Nat) (l m : List Bool) :
    writeBits n offset (l ++ m) = writeBits (writeBits n offset l) (offset + l.length) m := by
  induction l generalizing n offset with
  | nil => rfl
  | cons b l ih => rw [cons_append, writeBits, ih, writeBits, length_cons, Nat.add_assoc, Nat.add_comm 1]

theorem testBit_writeBits (n offset : Nat) (l : List Bool) (j : Nat) : (writeBits n offset l).testBit j =
    if offset ≤ j ∧ j < offset + l.length then l.getD (j - offset) false else n.testBit j := by
  induction l generalizing n offset with
  | nil =>
    rw [writeBits, if_neg]
    simp
  | cons b l ih =>
    rw [writeBits, ih, testBit_setBit, length_cons]
    rcases Nat.lt_trichotomy j offset with h | rfl | h
    · rw [if_neg (by omega), if_neg (by omega), if_neg (by omega)]
    · rw [if_neg (by omega), if_pos rfl, if_pos (by omega), Nat.sub_self, getD_cons_zero]
    · obtain ⟨i, rfl⟩ : ∃ i, j = offset + 1 + i := ⟨j - offset - 1, by omega⟩
      rw [if_neg (show offset + 1 + i ≠ offset by omega), Nat.add_sub_cancel_left,
        show offset + 1 + i - offset = i + 1 by omega, getD_cons_succ]
      by_cases hi : i < l.length
      · rw [if_pos (by omega), if_pos (by omega)]
      · rw [if_neg (by omega), if_neg (by omega)]

theorem testBit_writeBits_zero (l : List Bool) (j : Nat) : (writeBits 0 0 l).testBit j = l.getD j false := by
  rw [testBit_writeBits]
  split
  · rw [Nat.sub_zero]
  · next h => rw [Nat.zero_testBit, getD_eq_default _ _ (by omega)]

theorem testBit_mul_add (n j : Nat) {b : Nat} (hb : b < 256) :
    (n * 256 + b).testBit j = if j < 8 then b.testBit j else n.testBit (j - 8) := by
  have h := Nat.testBit_two_pow_mul_add n (show b < 2 ^ 8 from hb) j
  rwa [Nat.mul_comm] at h

end BitString
