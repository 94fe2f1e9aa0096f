import Mathlib

/-!
# Variable length quantities

Numbers in groups of seven bits, the most significant first. Every byte but the last has its high bit set
and stands for one more than its group says, so that each number below `2^64` has exactly one form.
-/

namespace Vlq
open List

/-- The groups of a number, the least significant first; all but the first get the high bit. -/
def groups : Nat → Bool → Nat → List UInt8
  | 0, _, _ => []
  | fuel + 1, first, n =>
    let b := UInt8.ofNat (n % 128 + if first then 0 else 128)
    if n ≤ 127 then [b] else b :: groups fuel false (n / 128 - 1)

variable (n : Nat)

def encode : List UInt8 := (groups 10 true n).reverse

/-- The number that some bytes start with, and how many of them it takes. -/
def decodeFrom : Nat → List UInt8 → Nat × Nat
  | n, [] => (n, 0)
  | n, b :: bs =>
    let n := (n * 128 % 2 ^ 64 + b.toNat % 128) % 2 ^ 64
    if b.toNat < 128 then (n, 1)
    else
      let r := decodeFrom ((n + 1) % 2 ^ 64) bs
      (r.1, r.2 + 1)

def decode (bs : List UInt8) : Nat × Nat := decodeFrom 0 bs

def sizeLoop : Nat → Nat → Nat
  | 0, _ => 0
  | fuel + 1, n => if n ≤ 127 then 1 else sizeLoop fuel (n / 128 - 1) + 1

def size : Nat := sizeLoop 10 n

theorem length_groups (fuel : Nat) (first : Bool) (n : Nat) : (groups fuel first n).length = sizeLoop fuel n := by
  induction fuel generalizing first n with
  | zero => rfl
  | succ fuel ih =>
    simp only [groups, sizeLoop]
    split
    · rfl
    · rw [length_cons, ih]

@[simp] theorem length_encode : (encode n).length = size n := by
  rw [encode, length_reverse, length_groups, size]

theorem size_pos : 0 < size n := by
  unfold size sizeLoop
  split <;> omega

theorem sizeLoop_le (fuel n : Nat) : sizeLoop fuel n ≤ fuel := by
  induction fuel generalizing n with
  | zero => exact le_rfl
  | succ fuel ih =>
    have := ih (n / 128 - 1)
    unfold sizeLoop
    split <;> omega

theorem size_le : size n ≤ 10 := sizeLoop_le 10 n

theorem decodeFrom_cons {acc n : Nat} {more : Bool} (hacc : acc = n / 128) (hn : n < 2 ^ 64) (bs : List UInt8) :
    decodeFrom acc (UInt8.ofNat (n % 128 + if more then 128 else 0) :: bs) =
      if more then ((decodeFrom ((n + 1) % 2 ^ 64) bs).1, (decodeFrom ((n + 1) % 2 ^ 64) bs).2 + 1) else (n, 1) := by
  have hbyte : (UInt8.ofNat (n % 128 + if more then 128 else 0)).toNat = n % 128 + if more then 128 else 0 := by
    rw [UInt8.toNat_ofNat']
    split <;> omega
  have hvalue : (acc * 128 % 2 ^ 64 + (n % 128 + if more then 128 else 0) % 128) % 2 ^ 64 = n := by
    split <;> omega
  rw [decodeFrom, hbyte, hvalue]
  cases more
  · simp only [Bool.false_eq_true, if_false, Nat.add_zero]
    rw [if_pos (by omega)]
  · simp only [if_true]
    rw [if_neg (by omega)]

theorem decodeFrom_groups {fuel n : Nat} (hfuel : n < 128 ^ (fuel + 1)) (hn : n + 1 < 2 ^ 64) (bs : List UInt8) :
    decodeFrom 0 ((groups (fuel + 1) false n).reverse ++ bs) =
      ((decodeFrom (n + 1) bs).1, (decodeFrom (n + 1) bs).2 + sizeLoop (fuel + 1) n) := by
  induction fuel generalizing n bs with
  | zero =>
    have hle : n ≤ 127 := by omega
    have hone := @decodeFrom_cons 0 n true (by omega) (by omega) bs
    rw [Nat.mod_eq_of_lt hn] at hone
    simpa [groups, sizeLoop, hle] using hone
  | succ fuel ih =>
    rw [groups, sizeLoop]
    split
    · next hle =>
      have hone := @decodeFrom_cons 0 n true (by omega) (by omega) bs
      rw [Nat.mod_eq_of_lt hn] at hone
      simpa using hone
    · next hgt =>
      have hsmall : n / 128 - 1 < 128 ^ (fuel + 1) := by
        omega
      have hone := @decodeFrom_cons (n / 128 - 1 + 1) n true (by omega) (by omega) bs
      rw [Nat.mod_eq_of_lt hn] at hone
      rw [reverse_cons, append_assoc, singleton_append, ih hsmall (by omega)]
      simp only [Bool.false_eq_true, if_false, if_true] at hone ⊢
      rw [hone]
      simp only [Prod.mk.injEq, true_and]
      omega

theorem decode_encode_append {n : Nat} (hn : n < 2 ^ 64) (bs : List UInt8) : decode (encode n ++ bs) = (n, size n) := by
  unfold decode encode size
  by_cases hle : n ≤ 127
  · simpa [groups, sizeLoop, hle] using @decodeFrom_cons 0 n false (by omega) hn bs
  · have hsmall : n / 128 - 1 < 128 ^ (8 + 1) := by omega
    have hlast := @decodeFrom_cons (n / 128 - 1 + 1) n false (by omega) hn bs
    rw [groups, sizeLoop, if_neg hle, if_neg hle, reverse_cons, append_assoc, singleton_append,
      decodeFrom_groups hsmall (by omega)]
    simp only [Bool.false_eq_true, if_false, if_true] at hlast ⊢
    rw [hlast]
    exact Prod.ext rfl (Nat.add_comm _ _)

end Vlq
