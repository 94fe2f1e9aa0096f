import Jaxnetd.Lib.BinFloat

/-!
# How far a rounding is off

A number of at most `prec` bits is not rounded at all, and any other is moved by at most half of the last bit kept. The last
bit is found from a bound on the number.
-/

namespace BinFloat

/-! ## Powers of two -/

variable (e : Int)

theorem pow2_eq_zpow : pow2 e = (2 : Rat) ^ e := by
  unfold pow2
  split_ifs with he
  · obtain ⟨n, rfl⟩ := Int.eq_ofNat_of_zero_le he
    simp
  · obtain ⟨n, hn⟩ := Int.eq_ofNat_of_zero_le (show 0 ≤ -e by omega)
    obtain rfl : e = -(n : Int) := by omega
    simp

theorem pow2_pos : 0 < pow2 e := by
  rw [pow2_eq_zpow]
  exact zpow_pos (by norm_num) e

theorem pow2_add (a b : Int) : pow2 (a + b) = pow2 a * pow2 b := by
  rw [pow2_eq_zpow, pow2_eq_zpow, pow2_eq_zpow, zpow_add₀ (by norm_num)]

variable (x : Rat)

theorem div_pow2 (e : Int) : x / pow2 e = x * pow2 (-e) := by
  rw [pow2_eq_zpow, pow2_eq_zpow, zpow_neg, div_eq_mul_inv]

theorem pow2_natCast (n : Nat) : pow2 n = 2 ^ n := by rw [pow2_eq_zpow, zpow_natCast]

theorem pow2_le_pow2 {a b : Int} (h : a ≤ b) : pow2 a ≤ pow2 b := by
  rw [pow2_eq_zpow, pow2_eq_zpow]
  exact zpow_le_zpow_right₀ (by norm_num) h

theorem lt_of_pow2_lt {a b : Int} (h : pow2 a < pow2 b) : a < b := by
  by_contra hle
  exact absurd (pow2_le_pow2 (not_lt.1 hle)) (not_le.2 h)

theorem half_pow2 : pow2 e / 2 = pow2 (e - 1) := by
  rw [pow2_eq_zpow, pow2_eq_zpow, zpow_sub_one₀ (by norm_num), div_eq_mul_inv]

/-! ## Rounding to a bit -/

theorem floor_bounds : (x.floor : Rat) ≤ x ∧ x < x.floor + 1 := by
  have hceil := Rat.floor_lt_iff.1 (Int.lt_succ x.floor)
  push_cast at hceil
  exact ⟨Rat.le_floor_iff.1 le_rfl, hceil⟩

theorem abs_roundEven_sub_le : |(roundEven x : Rat) - x| ≤ 1 / 2 := by
  obtain ⟨hfloor, hceil⟩ := floor_bounds x
  unfold roundEven
  dsimp only
  rw [abs_le]
  split_ifs with h
  · rcases h with h | ⟨h, -⟩ <;> constructor <;> linarith
  · rw [not_or, not_lt] at h
    push_cast
    constructor <;> linarith [h.1]

theorem roundEven_intCast (n : Int) : roundEven n = n := by
  simp [roundEven]

theorem abs_roundAt_sub_le : |roundAt e x - x| ≤ pow2 (e - 1) := by
  have hpos := pow2_pos e
  have hsplit : roundAt e x - x = (roundEven (x / pow2 e) - x / pow2 e) * pow2 e := by
    unfold roundAt
    field_simp
  rw [hsplit, abs_mul, abs_of_pos hpos, ← half_pow2]
  calc |(roundEven (x / pow2 e) : Rat) - x / pow2 e| * pow2 e
      ≤ 1 / 2 * pow2 e := mul_le_mul_of_nonneg_right (abs_roundEven_sub_le _) hpos.le
    _ = pow2 e / 2 := by ring

variable {e : Int} {x : Rat}

theorem roundAt_of_le {f : Int} (h : e ≤ f) (n : Int) : roundAt e (n * pow2 f) = n * pow2 f := by
  obtain ⟨k, hk⟩ := Int.eq_ofNat_of_zero_le (show 0 ≤ f - e by omega)
  have hf : pow2 f = (2 ^ k : Int) * pow2 e := by
    rw [show f = (k : Int) + e by omega, pow2_add, pow2_natCast]
    push_cast
    rfl
  have hdiv : (n : Rat) * pow2 f / pow2 e = ((n * 2 ^ k : Int) : Rat) := by
    rw [hf, ← mul_assoc, mul_div_cancel_right₀ _ (pow2_pos e).ne']
    push_cast
    rfl
  rw [roundAt, hdiv, roundEven_intCast, hf, ← mul_assoc]
  push_cast
  rfl

/-! ## The leading bit -/

theorem pow2_leadingBit_le (hx : x ≠ 0) : pow2 (leadingBit x) ≤ |x| := by
  unfold leadingBit
  dsimp only
  split_ifs with h
  · -- the estimate from the numerator and the denominator is off by one at most
    have hnum : ((2 ^ x.num.natAbs.log2 : Nat) : Rat) ≤ x.num.natAbs := by
      exact_mod_cast Nat.log2_self_le (Int.natAbs_ne_zero.2 (Rat.num_ne_zero.2 hx))
    have hden : (x.den : Rat) < ((2 ^ (x.den.log2 + 1) : Nat) : Rat) := by
      exact_mod_cast Nat.lt_log2_self
    have habs : |x| = x.num.natAbs / x.den := by
      conv_lhs => rw [← Rat.num_div_den x]
      rw [abs_div, Nat.abs_cast, Nat.cast_natAbs, Int.cast_abs]
    have hpos : (0 : Rat) < x.den := by exact_mod_cast x.den_pos
    have hsplit : pow2 ((x.num.natAbs.log2 : Int) - x.den.log2 - 1) =
        ((2 ^ x.num.natAbs.log2 : Nat) : Rat) / ((2 ^ (x.den.log2 + 1) : Nat) : Rat) := by
      rw [pow2_eq_zpow, show (x.num.natAbs.log2 : Int) - x.den.log2 - 1 =
        (x.num.natAbs.log2 : Int) - ((x.den.log2 + 1 : Nat) : Int) by push_cast; ring, zpow_sub₀ (by norm_num),
        zpow_natCast, zpow_natCast]
      push_cast
      rfl
    rw [hsplit, habs]
    exact div_le_div₀ (by positivity) hnum hpos hden.le
  · exact not_lt.1 h

theorem leadingBit_le (hx : x ≠ 0) (h : |x| ≤ pow2 e) : leadingBit x ≤ e := by
  by_contra hlt
  have hle := pow2_leadingBit_le hx
  have hnext : pow2 (e + 1) ≤ pow2 e := (pow2_le_pow2 (by omega)).trans (hle.trans h)
  have hhalf := half_pow2 (e + 1)
  rw [Int.add_sub_cancel] at hhalf
  have hpos := pow2_pos e
  linarith

theorem leadingBit_lt (hx : x ≠ 0) (h : |x| < pow2 e) : leadingBit x < e :=
  lt_of_pow2_lt ((pow2_leadingBit_le hx).trans_lt h)

/-! ## The two formats -/

theorem BigFloat.rounded_exact {prec : Nat} {n : Int} (hn : |n| < 2 ^ prec) (e : Int) :
    (BigFloat.rounded prec (n * pow2 e)).val = n * pow2 e := by
  unfold BigFloat.rounded
  split_ifs with h
  · exact h.symm
  · refine roundAt_of_le ?_ n
    have habs : |(n : Rat) * pow2 e| < pow2 (prec + e) := by
      rw [abs_mul, abs_of_pos (pow2_pos e), pow2_add, pow2_natCast]
      refine mul_lt_mul_of_pos_right ?_ (pow2_pos e)
      exact_mod_cast hn
    have := leadingBit_lt h habs
    omega

theorem BigFloat.abs_rounded_sub_le {prec : Nat} (h : |x| ≤ pow2 e) :
    |(BigFloat.rounded prec x).val - x| ≤ pow2 (e - prec) := by
  unfold BigFloat.rounded
  split_ifs with hx
  · rw [hx, sub_zero, abs_zero]
    exact (pow2_pos _).le
  · have hbit := leadingBit_le hx h
    exact (abs_roundAt_sub_le _ x).trans (pow2_le_pow2 (by omega))

theorem abs_round64_sub_le (h : |x| ≤ pow2 e) (he : -1022 ≤ e) : |round64 x - x| ≤ pow2 (e - 53) := by
  unfold round64
  split_ifs with hx
  · rw [hx, sub_zero, abs_zero]
    exact (pow2_pos _).le
  · have hbit := leadingBit_le hx h
    exact (abs_roundAt_sub_le _ x).trans (pow2_le_pow2 (by omega))

theorem ofRat_eq (h : |x| ≤ pow2 e) (he : -1022 ≤ e) (he' : e < 1023) : Float64.ofRat x = .finite (round64 x) := by
  have hround := abs_round64_sub_le h he
  have hclose : |round64 x| ≤ pow2 (e + 1) := by
    have hsum : |round64 x| ≤ pow2 e + pow2 e := by
      have htri := abs_sub_abs_le_abs_sub (round64 x) x
      have hsmall : pow2 (e - 53) ≤ pow2 e := pow2_le_pow2 (by omega)
      linarith
    have hhalf := half_pow2 (e + 1)
    rw [Int.add_sub_cancel] at hhalf
    linarith
  have hlt : pow2 (e + 1) < pow2 1024 := by
    rw [pow2_eq_zpow, pow2_eq_zpow]
    exact zpow_lt_zpow_right₀ (by norm_num) (by omega)
  rw [Float64.ofRat, if_neg (not_le.2 (hclose.trans_lt hlt))]

theorem abs_roundAway_sub_le (x : Rat) : |(roundAway x : Rat) - x| ≤ 1 / 2 := by
  unfold roundAway
  rw [abs_le]
  split_ifs with hx
  · obtain ⟨hfloor, hceil⟩ := floor_bounds (x + 1 / 2)
    constructor <;> linarith
  · obtain ⟨hfloor, hceil⟩ := floor_bounds (1 / 2 - x)
    push_cast
    constructor <;> linarith

end BinFloat
