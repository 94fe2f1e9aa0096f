import Jaxnetd.Blockchain.Subsidy

/-!
# Packed numbers (`types/pow/difficulty.go`)

A target, and a vote for K, is kept as a mantissa of 23 bits and an exponent that counts bytes. Packing keeps the three
leading bytes of a number, or two where the first would reach the bit of the sign, and clears the others. So it rounds down,
and what has been unpacked is packed without a loss.
-/

namespace Jaxnetd.Blockchain
variable {n : Nat}

theorem two_pow_le_scale (hn : n ≠ 0) (a i k : Nat) : 2 ^ a ≤ n * 2 ^ i / 2 ^ k ↔ a + k ≤ n.log2 + i := by
  rw [Nat.le_div_iff_mul_le (Nat.two_pow_pos k), ← Nat.pow_add]
  rcases Nat.le_total (a + k) i with h | h
  · have hle : 2 ^ (a + k) ≤ n * 2 ^ i :=
      (Nat.pow_le_pow_right (by decide) h).trans (Nat.le_mul_of_pos_left _ (Nat.pos_of_ne_zero hn))
    exact iff_of_true hle (by omega)
  · obtain ⟨d, hd⟩ := Nat.exists_eq_add_of_le' h
    rw [hd, Nat.pow_add, Nat.mul_le_mul_right_iff (Nat.two_pow_pos i), ← Nat.le_log2 hn]
    omega

theorem signBit_iff (x : Nat) : x &&& 0x00800000 ≠ 0 ↔ x / 2 ^ 23 % 2 = 1 := by
  rw [show 0x00800000 = 2 ^ 23 by rfl, Nat.and_two_pow, Nat.testBit_eq_decide_div_mod_eq]
  by_cases h : x / 2 ^ 23 % 2 = 1
  · simp
  · simp

theorem compactToBig_pack {mantissa : Nat} (hm : mantissa < 2 ^ 23) (e : Nat) :
    compactToBig (e * 2 ^ 24 ||| mantissa) = (mantissa * 2 ^ (8 * (e - 3)) / 2 ^ (8 * (3 - e)) : Nat) := by
  have hor : e * 2 ^ 24 ||| mantissa = 2 ^ 24 * e + mantissa := by
    rw [Nat.mul_comm, ← Nat.two_pow_add_eq_or_of_lt (by omega)]
  have hlow : (2 ^ 24 * e + mantissa) &&& 0x007fffff = mantissa := by
    rw [show 0x007fffff = 2 ^ 23 - 1 by rfl, Nat.and_two_pow_sub_one_eq_mod]
    omega
  have hhigh : (2 ^ 24 * e + mantissa) >>> 24 = e := by omega
  unfold compactToBig
  rw [hor]
  simp only [hlow, hhigh, signBit_iff]
  rw [if_neg (by omega)]
  split_ifs with hle
  · rw [Nat.shiftRight_eq_div_pow, Nat.sub_eq_zero_of_le hle, Nat.mul_zero, Nat.pow_zero, Nat.mul_one]
  · rw [Nat.shiftLeft_eq, Nat.sub_eq_zero_of_le (by omega : 3 ≤ e), Nat.mul_zero, Nat.pow_zero, Nat.div_one]

theorem bigToCompact_pack (hn : n ≠ 0) (hlog : n.log2 < 2039) {e : Nat} (he : e = (n.log2 + 1) / 8 + 1) :
    bigToCompact n = (e * 2 ^ 24 ||| n * 2 ^ (8 * (3 - e)) / 2 ^ (8 * (e - 3))) := by
  obtain ⟨l, hl⟩ : ∃ l, l = n.log2 / 8 + 1 := ⟨_, rfl⟩
  have hlen : (BinFloat.BigFloat.bitLen n + 7) / 8 = l := by
    rw [BinFloat.BigFloat.bitLen, if_neg (by omega), Int.natAbs_natCast]
    omega
  generalize hs : n * 2 ^ (8 * (3 - l)) / 2 ^ (8 * (l - 3)) = s
  have hpow (a : Nat) : 2 ^ a ≤ s ↔ a + 8 * (l - 3) ≤ n.log2 + 8 * (3 - l) := hs ▸ two_pow_le_scale hn a _ _
  have hfit : s < 2 ^ 24 := Nat.lt_of_not_le fun h => by have := (hpow 24).1 h; omega
  have hmantissa : (if l ≤ 3 then (n : Int).natAbs % 2 ^ 32 * 2 ^ (8 * (3 - l)) % 2 ^ 32
      else ((n : Int) / 2 ^ (8 * (l - 3))).natAbs % 2 ^ 32) = s := by
    split_ifs with hle
    · rw [Nat.sub_eq_zero_of_le hle, Nat.mul_zero, Nat.pow_zero, Nat.div_one] at hs
      have hsmall : n < 2 ^ 32 := by
        have := hs ▸ Nat.le_mul_of_pos_right n (Nat.two_pow_pos (8 * (3 - l)))
        omega
      rw [Int.natAbs_natCast, Nat.mod_eq_of_lt hsmall, hs, Nat.mod_eq_of_lt (by omega)]
    · rw [Nat.sub_eq_zero_of_le (by omega : 3 ≤ l), Nat.mul_zero, Nat.pow_zero, Nat.mul_one] at hs
      rw [show (n : Int) / 2 ^ (8 * (l - 3)) = s by rw [← hs]; push_cast; rfl, Int.natAbs_natCast,
        Nat.mod_eq_of_lt (by omega)]
  unfold bigToCompact
  rw [if_neg (by omega)]
  simp only [hlen, hmantissa, signBit_iff]
  rw [if_neg (by omega : ¬(n : Int) < 0)]
  have htop : s / 2 ^ 23 % 2 = 1 ↔ e = l + 1 := by
    have := hpow 23
    omega
  split_ifs with hbig
  · have hshift : s >>> 8 = n * 2 ^ (8 * (3 - e)) / 2 ^ (8 * (e - 3)) := by
      rw [htop.1 hbig, ← hs, Nat.shiftRight_eq_div_pow, Nat.div_div_eq_div_mul, ← Nat.pow_add]
      rcases Nat.lt_or_ge l 3 with hlt | hge
      · rw [Nat.sub_eq_zero_of_le hlt.le, Nat.sub_eq_zero_of_le hlt, show 8 * (3 - l) = 8 * (3 - (l + 1)) + 8 by omega,
          Nat.pow_add, ← Nat.mul_assoc]
        simp
      · rw [show 8 * (l - 3) + 8 = 8 * (l + 1 - 3) by omega, Nat.sub_eq_zero_of_le hge,
          Nat.sub_eq_zero_of_le (by omega : 3 ≤ l + 1)]
    rw [hshift, Nat.mod_eq_of_lt (by omega), ← htop.1 hbig]
  · obtain rfl : e = l := by omega
    rw [hs, Nat.mod_eq_of_lt (by omega)]

/-- The number `n` with all its bytes cleared but the leading three, or the leading two where the top bit of the first
is set. -/
def leadingBytes (n : Nat) : Nat :=
  let kept := if 128 ≤ n / 256 ^ (n.log2 / 8) then 2 else 3
  let cleared := n.log2 / 8 + 1 - kept
  n / 256 ^ cleared * 256 ^ cleared

theorem leadingBytes_eq (hn : n ≠ 0) {k : Nat} (hk : k = 8 * ((n.log2 + 1) / 8 - 2)) :
    leadingBytes n = n / 2 ^ k * 2 ^ k := by
  have htop := two_pow_le_scale hn 7 0 (8 * (n.log2 / 8))
  rw [Nat.pow_zero, Nat.mul_one, Nat.pow_mul] at htop
  have hcleared : 8 * (n.log2 / 8 + 1 - if 128 ≤ n / 256 ^ (n.log2 / 8) then 2 else 3) = k := by
    have : 128 ≤ n / 256 ^ (n.log2 / 8) ↔ 7 + 8 * (n.log2 / 8) ≤ n.log2 + 0 := htop
    split_ifs <;> omega
  unfold leadingBytes
  rw [← hcleared, Nat.pow_mul]

theorem unpack_pack (hn : n ≠ 0) (hlog : n.log2 < 2039) : compactToBig (bigToCompact n) = leadingBytes n := by
  obtain ⟨e, he⟩ : ∃ e, e = (n.log2 + 1) / 8 + 1 := ⟨_, rfl⟩
  have hm : n * 2 ^ (8 * (3 - e)) / 2 ^ (8 * (e - 3)) < 2 ^ 23 :=
    Nat.lt_of_not_le fun h => by have := (two_pow_le_scale hn 23 _ _).1 h; omega
  rw [bigToCompact_pack hn hlog he, compactToBig_pack hm, leadingBytes_eq hn (show 8 * (e - 3) = _ by omega)]
  rcases Nat.le_total e 3 with h | h
  · simp [Nat.sub_eq_zero_of_le h]
  · simp [Nat.sub_eq_zero_of_le h]

theorem leadingBytes_of_form {mantissa k : Nat} (hform : n = mantissa * 256 ^ k) (hm : mantissa < 2 ^ 23) (hn : n ≠ 0) :
    leadingBytes n = n ∧ n.log2 < 8 * k + 23 := by
  have hlog : n.log2 < 8 * k + 23 := by
    rw [Nat.log2_lt hn, hform, Nat.pow_add, Nat.pow_mul, Nat.mul_comm]
    exact Nat.mul_lt_mul_of_pos_left hm (Nat.pow_pos (by decide))
  refine ⟨?_, hlog⟩
  rw [leadingBytes_eq hn rfl, Nat.pow_mul]
  have hdvd : 256 ^ ((n.log2 + 1) / 8 - 2) ∣ 256 ^ k := pow_dvd_pow 256 (by omega)
  exact Nat.div_mul_cancel (hform.symm ▸ hdvd.mul_left mantissa)

theorem compactToBig_form (compact : Nat) : ∃ mantissa k : Nat, mantissa < 2 ^ 23 ∧ k ≤ compact >>> 24 - 3 ∧
    (compactToBig compact).natAbs = mantissa * 256 ^ k := by
  have hmantissa : compact &&& 0x007fffff < 2 ^ 23 := Nat.and_lt_two_pow _ (by decide)
  unfold compactToBig
  dsimp only
  generalize hbn : (if compact >>> 24 ≤ 3 then _ else _ : Nat) = bn
  have habs : (if compact &&& 0x00800000 ≠ 0 then -(bn : Int) else bn).natAbs = bn := by split <;> simp
  rw [habs, ← hbn]
  split_ifs
  · exact ⟨_, 0, (Nat.shiftRight_le _ _).trans_lt hmantissa, Nat.zero_le _, (Nat.mul_one _).symm⟩
  · exact ⟨_, compact >>> 24 - 3, hmantissa, le_rfl, by rw [Nat.shiftLeft_eq, Nat.pow_mul]⟩

theorem unpack_pack_unpack {compact : Nat} (hcompact : compact < 2 ^ 32) (hsign : 0 ≤ compactToBig compact) :
    compactToBig (bigToCompact (compactToBig compact)) = compactToBig compact := by
  obtain ⟨mantissa, k, hm, hk, hform⟩ := compactToBig_form compact
  obtain ⟨n, hn⟩ := Int.eq_ofNat_of_zero_le hsign
  rw [hn, Int.natAbs_natCast] at hform
  rw [hn]
  rcases eq_or_ne n 0 with rfl | hne
  · rfl
  obtain ⟨hkeep, hlog⟩ := leadingBytes_of_form hform hm hne
  rw [unpack_pack hne (by omega), hkeep]

theorem leadingBytes_le (n : Nat) : leadingBytes n ≤ n := Nat.div_mul_le_self _ _

theorem lt_leadingBytes (hn : n ≠ 0) : (n : ℚ) - n / 2 ^ 15 < leadingBytes n := by
  obtain ⟨k, hk⟩ : ∃ k, k = 8 * ((n.log2 + 1) / 8 - 2) := ⟨_, rfl⟩
  rw [leadingBytes_eq hn hk]
  have hrest : n % 2 ^ k * 2 ^ 15 < n := by
    rcases Nat.eq_zero_or_pos k with rfl | hpos
    · rw [Nat.pow_zero, Nat.mod_one, Nat.zero_mul]
      exact Nat.pos_of_ne_zero hn
    · calc n % 2 ^ k * 2 ^ 15 < 2 ^ k * 2 ^ 15 := by
            exact Nat.mul_lt_mul_of_pos_right (Nat.mod_lt _ (Nat.two_pow_pos k)) (by decide)
        _ ≤ n := by rw [← Nat.pow_add, ← Nat.le_log2 hn]; omega
  have hsplit : ((n / 2 ^ k * 2 ^ k : Nat) : ℚ) = n - (n % 2 ^ k : Nat) :=
    eq_sub_of_add_eq (by exact_mod_cast Nat.div_add_mod' n (2 ^ k))
  rw [hsplit, sub_lt_sub_iff_left, lt_div_iff₀ (by positivity)]
  exact_mod_cast hrest

/-- Where the larger number loses more bytes, a power of two that loses none of them stands between the two. -/
theorem leadingBytes_mono {m : Nat} (hn : n ≠ 0) (hle : n ≤ m) : leadingBytes n ≤ leadingBytes m := by
  have hm : m ≠ 0 := by omega
  have hlog : n.log2 ≤ m.log2 := (Nat.le_log2 hm).2 ((Nat.log2_self_le hn).trans hle)
  obtain ⟨q, hq⟩ : ∃ q, q = (m.log2 + 1) / 8 := ⟨_, rfl⟩
  have hmq := leadingBytes_eq hm (show 8 * (q - 2) = _ by rw [hq])
  by_cases hsame : (n.log2 + 1) / 8 - 2 = q - 2
  · rw [leadingBytes_eq hn (show 8 * (q - 2) = _ by rw [hsame]), hmq]
    exact Nat.mul_le_mul_right _ (Nat.div_le_div_right hle)
  · have hdvd : 2 ^ (8 * (q - 2)) ∣ 2 ^ (8 * q - 1) := pow_dvd_pow 2 (by omega)
    calc leadingBytes n ≤ n := leadingBytes_le n
      _ ≤ 2 ^ (8 * q - 1) := Nat.lt_log2_self.le.trans (Nat.pow_le_pow_right (by decide) (by omega))
      _ = 2 ^ (8 * q - 1) / 2 ^ (8 * (q - 2)) * 2 ^ (8 * (q - 2)) := (Nat.div_mul_cancel hdvd).symm
      _ ≤ leadingBytes m := by
        rw [hmq]
        exact Nat.mul_le_mul_right _ (Nat.div_le_div_right ((Nat.le_log2 hm).1 (by omega)))

theorem calcWork_antitone {bits bits' : Nat} (hpos : 0 < compactToBig bits) (hle : compactToBig bits ≤ compactToBig bits') :
    calcWork bits' ≤ calcWork bits := by
  unfold calcWork
  rw [if_neg (by omega), if_neg (by omega)]
  refine Int.mul_le_mul_of_nonneg_right ((Int.le_ediv_iff_mul_le (by omega)).2 ?_) (by decide)
  calc 2 ^ 256 / (compactToBig bits' + 1) * (compactToBig bits + 1)
      ≤ 2 ^ 256 / (compactToBig bits' + 1) * (compactToBig bits' + 1) :=
        Int.mul_le_mul_of_nonneg_left (by omega) (Int.ediv_nonneg (by decide) (by omega))
    _ ≤ 2 ^ 256 := Int.ediv_mul_le _ (by omega)

theorem compact_encoding :
    (∀ n : Nat, 0 < n → n < 2 ^ 256 → compactToBig (bigToCompact n) = leadingBytes n ∧
      compactToBig (bigToCompact n) ≤ n ∧ (n : ℚ) - n / 2 ^ 15 < compactToBig (bigToCompact n)) ∧
    (∀ n m : Nat, 0 < n → n ≤ m → m < 2 ^ 256 →
      compactToBig (bigToCompact n) ≤ compactToBig (bigToCompact m)) ∧
    (∀ compact < 2 ^ 32, compact &&& 0x00800000 = 0 →
      compactToBig (bigToCompact (compactToBig compact)) = compactToBig compact) ∧
    ∀ bits bits', 0 < compactToBig bits → compactToBig bits ≤ compactToBig bits' → calcWork bits' ≤ calcWork bits := by
  have hunpack {n : Nat} (hpos : 0 < n) (hlt : n < 2 ^ 256) : compactToBig (bigToCompact n) = leadingBytes n :=
    unpack_pack hpos.ne' (((Nat.log2_lt hpos.ne').2 hlt).trans (by decide))
  refine ⟨fun n hpos hlt => ?_, fun n m hpos hle hlt => ?_, fun compact hcompact hsign => ?_, fun _ _ => calcWork_antitone⟩
  · rw [hunpack hpos hlt]
    exact ⟨rfl, by exact_mod_cast leadingBytes_le n, by exact_mod_cast lt_leadingBytes hpos.ne'⟩
  · rw [hunpack hpos (by omega), hunpack (by omega) hlt]
    exact_mod_cast leadingBytes_mono hpos.ne' hle
  · refine unpack_pack_unpack hcompact ?_
    unfold compactToBig
    simp only [hsign]
    exact Int.natCast_nonneg _

end Jaxnetd.Blockchain
