import Jaxnetd.TxScript.Stack

/-!
# Numbers on the stack

The number that a string of bytes stands for is its little-endian value without the top bit, and that bit is the sign. Of
the strings that stand for one number the minimal encoding allows exactly one, the one that is pushed.
-/

namespace Jaxnetd.TxScript
open Checks List

theorem leNat_append (a b : Bytes) : leNat (a ++ b) = leNat a + 256 ^ a.length * leNat b := by
  induction a with
  | nil => simp [leNat]
  | cons x a ih =>
    rw [cons_append, leNat, leNat, ih, length_cons, pow_succ]
    ring

theorem leNat_lt (bs : Bytes) : leNat bs < 256 ^ bs.length := by
  induction bs with
  | nil => simp [leNat]
  | cons b bs ih =>
    have := b.toNat_lt
    rw [leNat, length_cons, pow_succ]
    omega

theorem leBytes_leNat (bs : Bytes) : leBytes bs.length (leNat bs) = bs := by
  induction bs with
  | nil => rfl
  | cons b bs ih =>
    have := b.toNat_lt
    rw [length_cons, leBytes, leNat, show (b.toNat + 256 * leNat bs) % 256 = b.toNat by omega,
      show (b.toNat + 256 * leNat bs) / 256 = leNat bs by omega, ih, UInt8.ofNat_toNat]

theorem leNat_magnitudeBytes {fuel n : Nat} (h : (magnitudeBytes fuel n).length < fuel) :
    leNat (magnitudeBytes fuel n) = n := by
  induction fuel generalizing n with
  | zero => omega
  | succ fuel ih =>
    rw [magnitudeBytes] at h ⊢
    split
    · next h0 => rw [h0, leNat]
    · next h0 =>
      rw [if_neg h0, length_cons] at h
      rw [leNat, ih (by omega), UInt8.toNat_ofNat']
      omega

theorem magnitudeBytes_eq_nil {fuel n : Nat} (h : 0 < fuel) : magnitudeBytes fuel n = [] ↔ n = 0 := by
  obtain ⟨f, rfl⟩ : ∃ f, fuel = f + 1 := ⟨fuel - 1, by omega⟩
  rw [magnitudeBytes]
  split <;> simp_all

theorem length_magnitudeBytes_le (fuel n : Nat) : (magnitudeBytes fuel n).length ≤ fuel := by
  induction fuel generalizing n with
  | zero => simp [magnitudeBytes]
  | succ fuel ih =>
    rw [magnitudeBytes]
    split
    · simp
    · exact Nat.succ_le_succ (ih _)

@[simp] theorem msb_concat (v : Bytes) (b : UInt8) : msb (v ++ [b]) = b.toNat := by simp [msb]

theorem msb_lt (v : Bytes) : msb v < 256 := UInt8.toNat_lt _

variable {v w init : Bytes} {x : Int} {minimal : Bool}

theorem dropLast_concat_msb (h : v ≠ []) : v.dropLast ++ [UInt8.ofNat (msb v)] = v := by
  conv_rhs => rw [← dropLast_concat_getLast h]
  simp [msb, getLast?_eq_some_getLast h, getLastD_eq_getLast?]

theorem msb_cons {b : UInt8} (h : v ≠ []) : msb (b :: v) = msb v := by
  rw [msb, msb, getLastD_eq_getLast?, getLastD_eq_getLast?, getLast?_cons_of_ne_nil h]

theorem msb_magnitudeBytes_ne_zero {fuel n : Nat} (hn : n ≠ 0) (h : n < 256 ^ fuel) : msb (magnitudeBytes fuel n) ≠ 0 := by
  induction fuel generalizing n with
  | zero =>
    omega
  | succ fuel ih =>
    rw [magnitudeBytes, if_neg hn]
    by_cases hzero : n / 256 = 0
    · have hnil : magnitudeBytes fuel (n / 256) = [] := by
        rw [hzero]
        cases fuel <;> simp [magnitudeBytes]
      rw [hnil]
      simp only [msb, getLastD_cons, getLastD_nil, UInt8.toNat_ofNat']
      omega
    · rw [pow_succ] at h
      have hrest := ih hzero (by omega)
      rwa [msb_cons]
      intro hnil
      rw [hnil] at hrest
      exact hrest rfl

theorem length_magnitudeBytes {fuel n k : Nat} (h : n < 256 ^ k) : (magnitudeBytes fuel n).length ≤ k := by
  induction fuel generalizing n k with
  | zero => simp [magnitudeBytes]
  | succ fuel ih =>
    rw [magnitudeBytes]
    split
    · simp
    · next hn =>
      obtain ⟨k, rfl⟩ : ∃ m, k = m + 1 := ⟨k - 1, by cases k <;> simp_all⟩
      have := ih (n := n / 256) (k := k) (by omega)
      rw [length_cons]
      omega

theorem and_sign : ∀ m < 256, (m &&& 0x80 ≠ 0 ↔ 0x80 ≤ m) := by decide +kernel

theorem or_sign : ∀ m < 0x80, m ||| 0x80 = m + 0x80 := by decide

/-! ## Signs and magnitudes -/

def signMagnitude (v : Bytes) : Int :=
  let magnitude := leNat v.dropLast + 256 ^ (v.length - 1) * (msb v % 0x80)
  if 0x80 ≤ msb v then -magnitude else magnitude

theorem signMagnitude_concat (top : UInt8) : signMagnitude (init ++ [top]) =
    (if 0x80 ≤ top.toNat then -1 else 1) * ((leNat init + 256 ^ init.length * (top.toNat % 0x80) : Nat) : Int) := by
  simp only [signMagnitude, msb_concat, dropLast_concat, length_append, length_singleton, Nat.add_sub_cancel]
  split <;> simp

theorem signMagnitude_eq (v : Bytes) :
    (if 0x80 ≤ msb v then -((leNat v : Int) - 0x80 * 2 ^ (8 * (v.length - 1))) else leNat v) = signMagnitude v := by
  rcases eq_nil_or_concat' v with rfl | ⟨init, top, rfl⟩
  · rfl
  have htop := top.toNat_lt
  simp only [signMagnitude_concat, msb_concat, leNat_append, leNat, length_append, length_singleton, Nat.add_sub_cancel,
    Nat.mul_zero, Nat.add_zero]
  rw [pow_mul]
  split
  · obtain ⟨r, hr⟩ : ∃ r, top.toNat = r + 0x80 := ⟨top.toNat - 0x80, by omega⟩
    rw [hr, Nat.add_mod_right, Nat.mod_eq_of_lt (by omega)]
    push_cast
    ring
  · rw [Nat.mod_eq_of_lt (by omega), one_mul]

theorem makeScriptNum_iff {len : Nat} : makeScriptNum v minimal len = .ok x ↔
    v.length ≤ len ∧ (minimal → checkMinimalDataEncoding v = .ok ()) ∧ signMagnitude v = x := by
  have hread : (if 0x80 ≤ msb v then pure (-((leNat v : Int) - 0x80 * 2 ^ (8 * (v.length - 1))))
      else pure (leNat v : Int) : Except ScriptError Int) = .ok (signMagnitude v) := by
    rw [← signMagnitude_eq]
    split <;> rfl
  simp only [makeScriptNum, bind_eq_ok, failIf_eq_ok, exists_unit, Nat.not_lt, and_sign _ (msb_lt v), hread]
  cases minimal <;> simp

theorem minimal_concat {top : UInt8} : checkMinimalDataEncoding (init ++ [top]) = .ok () ↔
    (top.toNat % 0x80 = 0 → 0x80 ≤ msb init) := by
  have hmask : top.toNat &&& 0x7f = top.toNat % 0x80 := Nat.and_two_pow_sub_one_eq_mod _ 7
  have hsign := and_sign _ (msb_lt init)
  simp only [checkMinimalDataEncoding, failIf_eq_ok, msb_concat, dropLast_concat, length_append, length_singleton, hmask]
  rcases eq_or_ne init [] with rfl | hne
  · simp [msb]
  · have := length_pos_iff.2 hne
    rw [← hsign]
    simp [this.ne']

theorem natAbs_signMagnitude (v : Bytes) :
    (signMagnitude v).natAbs = leNat v.dropLast + 256 ^ (v.length - 1) * (msb v % 0x80) := by
  unfold signMagnitude
  split
  · rw [Int.natAbs_neg, Int.natAbs_natCast]
  · rw [Int.natAbs_natCast]

theorem natAbs_signMagnitude_lt (v : Bytes) : 2 * (signMagnitude v).natAbs < 256 ^ v.length := by
  rcases eq_nil_or_concat' v with rfl | ⟨init, top, rfl⟩
  · decide
  have hlow := leNat_lt init
  have htop : top.toNat % 0x80 ≤ 127 := by omega
  have := Nat.mul_le_mul_left (256 ^ init.length) htop
  rw [natAbs_signMagnitude, msb_concat, dropLast_concat, length_append, length_singleton, Nat.add_sub_cancel, pow_succ]
  omega

section
variable (hv : checkMinimalDataEncoding v = .ok ())
include hv

/-- A minimal encoding has no byte to spare. -/
theorem le_natAbs_signMagnitude (hne : v ≠ []) :
    256 ^ (v.length - 1) ≤ 2 * (signMagnitude v).natAbs := by
  obtain ⟨init, top, rfl⟩ := (eq_nil_or_concat' v).resolve_left hne
  rw [natAbs_signMagnitude, msb_concat, dropLast_concat, length_append, length_singleton, Nat.add_sub_cancel]
  by_cases hzero : top.toNat % 0x80 = 0
  · have hmsb := minimal_concat.1 hv hzero
    rcases eq_nil_or_concat' init with rfl | ⟨low, b, rfl⟩
    · exact absurd hmsb (by decide)
    rw [msb_concat] at hmsb
    have := Nat.mul_le_mul_left (256 ^ low.length) hmsb
    rw [leNat_append, leNat, leNat, Nat.mul_zero, Nat.add_zero, length_append, length_singleton, pow_succ]
    omega
  · have := Nat.le_mul_of_pos_right (256 ^ init.length) (Nat.pos_of_ne_zero hzero)
    omega

theorem length_le_of_minimal {k : Nat} (h : 2 * (signMagnitude v).natAbs < 256 ^ k) :
    v.length ≤ k := by
  rcases eq_or_ne v [] with rfl | hne
  · exact Nat.zero_le k
  · have := (Nat.pow_lt_pow_iff_right (by decide)).1 ((le_natAbs_signMagnitude hv hne).trans_lt h)
    omega

theorem signMagnitude_inj (hw : checkMinimalDataEncoding w = .ok ())
    (h : signMagnitude v = signMagnitude w) : v = w := by
  have hlen : v.length = w.length :=
    (length_le_of_minimal hv (h ▸ natAbs_signMagnitude_lt w)).antisymm
    (length_le_of_minimal hw (h ▸ natAbs_signMagnitude_lt v))
  rcases eq_nil_or_concat' v with rfl | ⟨a, s, rfl⟩
  · exact (length_eq_zero_iff.1 hlen.symm).symm
  obtain ⟨b, t, rfl⟩ := (eq_nil_or_concat' w).resolve_left (by rintro rfl; simp at hlen)
  rw [length_append, length_append, length_singleton, length_singleton, Nat.add_right_cancel_iff] at hlen
  have hpos := (Nat.pow_pos (by decide)).trans_le (le_natAbs_signMagnitude hv (by simp))
  have habs := congrArg Int.natAbs h
  rw [natAbs_signMagnitude] at hpos
  simp only [natAbs_signMagnitude, msb_concat, dropLast_concat, length_append, length_singleton, Nat.add_sub_cancel, ← hlen]
    at habs hpos
  have hdiv := congrArg (· / 256 ^ a.length) habs
  have hmod := congrArg (· % 256 ^ a.length) habs
  have hb : leNat b < 256 ^ a.length := hlen ▸ leNat_lt b
  simp only [Nat.add_mul_div_left _ _ (Nat.pow_pos (by decide : 0 < 256)), Nat.add_mul_mod_self_left,
    Nat.div_eq_of_lt (leNat_lt a), Nat.div_eq_of_lt hb, Nat.mod_eq_of_lt (leNat_lt a), Nat.mod_eq_of_lt hb] at hdiv hmod
  have hlow : a = b := by rw [← leBytes_leNat a, ← leBytes_leNat b, hlen, hmod]
  rw [signMagnitude_concat, signMagnitude_concat, ← hlen, ← habs] at h
  have htop : s.toNat = t.toNat := by
    have := s.toNat_lt
    have := t.toNat_lt
    split_ifs at h <;> omega
  rw [hlow, UInt8.toNat_inj.1 htop]

end

/-! ## What is pushed -/

/-- The bits of a number and its sign: a digit of seven bits takes the sign, or the sign has a byte of its own. -/
theorem scriptNumBytes_split (hx : x ≠ 0) :
    ∃ init t, scriptNumBytes x = init ++ [UInt8.ofNat (t + if x < 0 then 0x80 else 0)] ∧
    t < 0x80 ∧ leNat init + 256 ^ init.length * t = leNat (magnitudeBytes 9 x.natAbs) ∧
    (magnitudeBytes 9 x.natAbs).length ≤ init.length + 1 ∧ init.length ≤ (magnitudeBytes 9 x.natAbs).length ∧
    (t = 0 → msb (magnitudeBytes 9 x.natAbs) ≠ 0 → 0x80 ≤ msb init) := by
  have hne : magnitudeBytes 9 x.natAbs ≠ [] := by
    rw [Ne, magnitudeBytes_eq_nil (by decide)]
    omega
  generalize hd : magnitudeBytes 9 x.natAbs = d at hne
  simp only [scriptNumBytes, hd, if_neg hx, and_sign _ (msb_lt d)]
  by_cases hsign : 0x80 ≤ msb d
  · refine ⟨d, 0, ?_, by decide, by simp, by omega, le_rfl, fun _ _ => hsign⟩
    rw [if_pos hsign]
    split <;> rfl
  · have hdrop := dropLast_concat_msb hne
    have hlen := congrArg List.length hdrop
    rw [length_append, length_singleton] at hlen
    refine ⟨d.dropLast, msb d, ?_, by omega, ?_, hlen.ge, by omega, fun h0 h1 => absurd h0 h1⟩
    · rw [if_neg hsign, or_sign _ (by omega)]
      split
      · rfl
      · exact hdrop.symm
    · conv_rhs => rw [← hdrop]
      rw [leNat_append, leNat, leNat, UInt8.toNat_ofNat', Nat.mod_eq_of_lt (msb_lt d), Nat.mul_zero, Nat.add_zero]

theorem scriptNumBytes_spec (h : (magnitudeBytes 9 x.natAbs).length < 9) :
    signMagnitude (scriptNumBytes x) = x ∧ checkMinimalDataEncoding (scriptNumBytes x) = .ok () := by
  rcases eq_or_ne x 0 with rfl | hx
  · decide
  obtain ⟨init, t, heq, ht, hval, -, -, hmin⟩ := scriptNumBytes_split hx
  have hnum := leNat_magnitudeBytes h
  have hlt : x.natAbs < 256 ^ 9 := hnum ▸ (leNat_lt _).trans_le (Nat.pow_le_pow_right (by decide) h.le)
  have htop := msb_magnitudeBytes_ne_zero (by omega) hlt
  rw [heq, signMagnitude_concat, minimal_concat, UInt8.toNat_ofNat']
  by_cases hneg : x < 0
  · rw [if_pos hneg, if_pos (by omega), show (t + 0x80) % 2 ^ 8 % 0x80 = t by omega, hval, hnum]
    exact ⟨by omega, fun h0 => hmin h0 htop⟩
  · rw [if_neg hneg, if_neg (by omega), show (t + 0) % 2 ^ 8 % 0x80 = t by omega, hval, hnum]
    exact ⟨by omega, fun h0 => hmin h0 htop⟩

theorem makeScriptNum_scriptNumBytes {v : Int} {len : Nat} (hlen : len < 9)
    (h : makeScriptNum (scriptNumBytes x) minimal len = .ok v) : v = x := by
  obtain ⟨hle, -, rfl⟩ := makeScriptNum_iff.1 h
  rcases eq_or_ne x 0 with rfl | hx
  · rfl
  obtain ⟨init, t, heq, -, -, hdigits, -⟩ := scriptNumBytes_split hx
  rw [heq, length_append, length_singleton] at hle
  exact (scriptNumBytes_spec (by omega)).1

theorem scriptNumBytes_fits {k : Nat} (hk : k ≤ 8) (hx : 2 * x.natAbs < 256 ^ k) : (scriptNumBytes x).length ≤ k ∧
    ∀ minimal, makeScriptNum (scriptNumBytes x) minimal k = .ok x := by
  have hdigits : (magnitudeBytes 9 x.natAbs).length ≤ k := length_magnitudeBytes (by omega)
  obtain ⟨hval, hmin⟩ := @scriptNumBytes_spec x (by omega)
  have hlen := length_le_of_minimal hmin (hval.symm ▸ hx)
  exact ⟨hlen, fun _ => makeScriptNum_iff.2 ⟨hlen, fun _ => hmin, hval⟩⟩

theorem makeScriptNum_of_lt (hx : x.natAbs < 2 ^ 31) : ∀ minimal,
    makeScriptNum (scriptNumBytes x) minimal defaultScriptNumLen = .ok x :=
  (scriptNumBytes_fits (k := 4) (by decide) (by omega)).2

theorem makeScriptNum_minimal (h : makeScriptNum v true defaultScriptNumLen = .ok x) :
    (∀ minimal, makeScriptNum v minimal defaultScriptNumLen = .ok x) ∧ makeScriptNum v true 5 = .ok x := by
  simp only [makeScriptNum_iff] at h ⊢
  obtain ⟨hlen, hmin, hx⟩ := h
  exact ⟨fun _ => ⟨hlen, fun _ => hmin trivial, hx⟩, hlen.trans (by decide), hmin, hx⟩

/-- Numbers of 39 bits fit five bytes. -/
theorem scriptNum_codec : (∀ n : Int, n.natAbs < 2 ^ 39 → makeScriptNum (scriptNumBytes n) true 5 = .ok n ∧
      ∀ v : Bytes, makeScriptNum v true 5 = .ok n → v = scriptNumBytes n) ∧
    ∀ v : Bytes, v.length ≤ 5 → makeScriptNum v false 5 = .ok (signMagnitude v) := by
  refine ⟨fun n hn => ?_, fun v hlen => makeScriptNum_iff.2 ⟨hlen, nofun, rfl⟩⟩
  have hread := (@scriptNumBytes_fits n 5 (by decide) (by omega)).2 true
  obtain ⟨-, hmin, hval⟩ := makeScriptNum_iff.1 hread
  refine ⟨hread, fun v hv => ?_⟩
  obtain ⟨-, hvmin, hvval⟩ := makeScriptNum_iff.1 hv
  exact signMagnitude_inj (hvmin rfl) (hmin rfl) (hvval.trans hval.symm)

end Jaxnetd.TxScript
