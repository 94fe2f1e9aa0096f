import Mathlib

/-!
# Levels of a binary tree grown over a list

`pairUp` combines the entries of a level two by two and promotes an unpaired last entry; `level l`
is the `l`-th level over a list of leaves. A level only depends on the leaves below it, so its
prefix of complete entries survives cutting the list (`take_level`), and once the level fits into
one entry, further levels only promote it (`level_root`).
-/

namespace PairLevels
open List Nat
variable {α β : Type} (pair : α → α → α) (promote : α → α) {L : List α} {k l : Nat}

/-- One level up: entries `2i` and `2i+1` are paired, a last unpaired entry is promoted. -/
def pairUp : List α → List α
  | a :: b :: rest => pair a b :: pairUp rest
  | [a] => [promote a]
  | [] => []

@[simp] theorem pairUp_nil : pairUp pair promote [] = [] := rfl

def level (l : Nat) (L : List α) : List α := (pairUp pair promote)^[l] L

@[simp] theorem level_zero (L : List α) : level pair promote 0 L = L := rfl

theorem level_succ (l : Nat) (L : List α) :
    level pair promote (l + 1) L = pairUp pair promote (level pair promote l L) :=
  Function.iterate_succ_apply' _ _ _

theorem length_pairUp (L : List α) : (pairUp pair promote L).length = (L.length + 1) / 2 := by
  induction L using pairUp.induct with
  | case1 a b rest ih => simp only [pairUp, length_cons, ih]; omega
  | case2 a => simp [pairUp]
  | case3 => simp

theorem take_pairUp (L : List α) (j : Nat) : (pairUp pair promote L).take j = pairUp pair promote (L.take (2 * j)) := by
  induction L using pairUp.induct generalizing j with
  | case1 a b rest ih =>
    cases j with
    | zero => rfl
    | succ j =>
      rw [show 2 * (j + 1) = 2 * j + 1 + 1 from rfl]
      simp [pairUp, ih]
  | case2 a =>
    cases j with
    | zero => rfl
    | succ j => simp [pairUp, show 2 * (j + 1) = 2 * j + 1 + 1 from rfl]
  | case3 => simp

theorem getElem?_pairUp (L : List α) (i : Nat) : (pairUp pair promote L)[i]? = match L[2 * i]?, L[2 * i + 1]? with
      | some a, some b => some (pair a b)
      | some a, none => some (promote a)
      | none, _ => none := by
  induction L using pairUp.induct generalizing i with
  | case1 a b rest ih =>
    cases i with
    | zero => rfl
    | succ i =>
      rw [show 2 * (i + 1) = 2 * i + 1 + 1 from rfl]
      simp [pairUp, ih]
  | case2 a =>
    cases i with
    | zero => rfl
    | succ i => simp [pairUp, show 2 * (i + 1) = 2 * i + 1 + 1 from rfl]
  | case3 => simp

theorem length_level (l : Nat) (L : List α) : (level pair promote l L).length = (L.length + (2 ^ l - 1)) / 2 ^ l := by
  induction l with
  | zero => simp
  | succ l ih =>
    rw [level_succ, length_pairUp, ih, pow_succ]
    have h2 : 0 < 2 ^ l := Nat.two_pow_pos l
    have h : (L.length + (2 ^ l - 1)) / 2 ^ l + 1 = (L.length + (2 ^ l * 2 - 1)) / 2 ^ l := by
      rw [← Nat.add_div_right _ h2]; congr 1; omega
    rw [h, Nat.div_div_eq_div_mul]

theorem take_level (l h : Nat) (L : List α) :
    (level pair promote l (L.take h)).take (h / 2 ^ l) = (level pair promote l L).take (h / 2 ^ l) := by
  induction l with
  | zero => simp [take_take]
  | succ l ih =>
    have e : 2 * (h / 2 ^ (l + 1)) ≤ h / 2 ^ l := by
      rw [Nat.pow_succ, ← Nat.div_div_eq_div_mul]; omega
    simp only [level_succ, take_pairUp]
    rw [← Nat.min_eq_left e, ← take_take, ih, take_take]

theorem length_level_eq_one (h : L ≠ []) (hk : L.length ≤ 2 ^ k) : (level pair promote k L).length = 1 := by
  have hL : 0 < L.length := length_pos_iff.2 h
  rw [length_level, Nat.div_eq_of_lt_le] <;> omega

theorem level_root (f : α → β) (hf : ∀ a, f (promote a) = f a) (d : Nat) (h : L ≠ []) (hk : L.length ≤ 2 ^ k) :
    (level pair promote (k + d) L).map f = (level pair promote k L).map f := by
  induction d with
  | zero => rfl
  | succ d ih =>
    rw [← add_assoc, level_succ, ← ih]
    have hk' : L.length ≤ 2 ^ (k + d) := Nat.le_trans hk (Nat.pow_le_pow_right (by omega) (by omega))
    obtain ⟨a, ha⟩ := length_eq_one_iff.1 (length_level_eq_one pair promote h hk')
    simp [ha, pairUp, hf]

/-! ## The leaves below an entry -/

def slice (l i : Nat) (L : List α) : List α := (L.drop (i * 2 ^ l)).take (2 ^ l)

omit pair promote in
theorem slice_succ (l i : Nat) (L : List α) : slice (l + 1) i L = slice l (2 * i) L ++ slice l (2 * i + 1) L := by
  unfold slice
  rw [show i * 2 ^ (l + 1) = 2 * i * 2 ^ l by rw [pow_succ]; ring, add_mul, one_mul, ← drop_drop,
    ← take_add]
  congr 1
  omega

variable {i : Nat} {pair' : β → β → β}

theorem slice_eq_nil (h : (level pair promote l L)[i]? = none) : slice l i L = [] := by
  rw [getElem?_eq_none_iff, length_level] at h
  have hle : L.length ≤ i * 2 ^ l := by
    have hlt := (Nat.div_le_iff_le_mul_add_pred (Nat.two_pow_pos l)).1 h
    rw [Nat.mul_comm] at hlt
    omega
  rw [slice, drop_eq_nil_of_le hle, take_nil]

theorem entry_succ {e : α} (h : (level pair promote (l + 1) L)[i]? = some e) :
    (∃ a b, (level pair promote l L)[2 * i]? = some a ∧ (level pair promote l L)[2 * i + 1]? = some b ∧ e = pair a b) ∨
      ∃ a, (level pair promote l L)[2 * i]? = some a ∧ (level pair promote l L)[2 * i + 1]? = none ∧ e = promote a := by
  rw [level_succ, getElem?_pairUp] at h
  cases hleft : (level pair promote l L)[2 * i]? with
  | none =>
    rw [hleft] at h
    cases h
  | some a =>
    cases hright : (level pair promote l L)[2 * i + 1]? with
    | none =>
      rw [hleft, hright] at h
      cases h
      exact .inr ⟨a, rfl, rfl, rfl⟩
    | some b =>
      rw [hleft, hright] at h
      cases h
      exact .inl ⟨a, b, rfl, rfl, rfl⟩

theorem entry_induction {P : List α → α → Prop} (leaf : ∀ a, P [a] a)
    (hpair : ∀ s s' a b, P s a → P s' b → P (s ++ s') (pair a b)) (hpromote : ∀ s a, P s a → P s (promote a))
    {e : α} (h : (level pair promote l L)[i]? = some e) : P (slice l i L) e := by
  induction l generalizing i e with
  | zero =>
    have hslice : slice 0 i L = [e] := by
      rw [level_zero] at h
      obtain ⟨hi, rfl⟩ := List.getElem?_eq_some_iff.1 h
      rw [slice, pow_zero, mul_one, drop_eq_getElem_cons hi]
      rfl
    rw [hslice]
    exact leaf e
  | succ l ih =>
    rw [slice_succ]
    rcases entry_succ pair promote h with ⟨a, b, ha, hb, rfl⟩ | ⟨a, ha, hb, rfl⟩
    · exact hpair _ _ a b (ih ha) (ih hb)
    · rw [slice_eq_nil pair promote hb, append_nil]
      exact hpromote _ a (ih ha)

theorem map_level {promote' : β → β} (f : α → β) (hpair : ∀ a b, f (pair a b) = pair' (f a) (f b))
    (hpromote : ∀ a, f (promote a) = promote' (f a)) (l : Nat) (L : List α) :
    (level pair promote l L).map f = level pair' promote' l (L.map f) := by
  have hup : ∀ L : List α, (pairUp pair promote L).map f = pairUp pair' promote' (L.map f) := by
    intro L
    induction L using pairUp.induct with
    | case1 a b rest ih => simp [pairUp, hpair, ih]
    | case2 a => simp [pairUp, hpromote]
    | case3 => rfl
  induction l with
  | zero => rfl
  | succ l ih => rw [level_succ, level_succ, hup, ih]

/-! ## The root by halves

Where promotion changes nothing, the root of `L` is the pair of the roots over the two parts of `L`, the first one as
long as the largest power of two below the length. -/

/-- The root of a list, split at the largest power of two below its length. -/
def splitRoot (L : List α) : Option α :=
  if L.length ≤ 1 then L.head?
  else
    Option.map₂ pair (splitRoot (L.take (2 ^ log2 (L.length - 1)))) (splitRoot (L.drop (2 ^ log2 (L.length - 1))))
termination_by L.length
decreasing_by
  all_goals
    have hle : 2 ^ log2 (L.length - 1) ≤ L.length - 1 := log2_self_le (by omega)
    have hpos : 0 < 2 ^ Nat.log2 (L.length - 1) := Nat.two_pow_pos _
    simp only [length_take, length_drop]
    omega

theorem splitRoot_of_length_le (h : L.length ≤ 1) : splitRoot pair L = L.head? := by
  rw [splitRoot, if_pos h]

theorem splitRoot_of_lt (hlt : 2 ^ k < L.length) (hle : L.length ≤ 2 ^ (k + 1)) :
    splitRoot pair L = Option.map₂ pair (splitRoot pair (L.take (2 ^ k))) (splitRoot pair (L.drop (2 ^ k))) := by
  have hlog : log2 (L.length - 1) = k := by
    rw [log2_eq_iff (by omega)]
    omega
  rw [splitRoot, if_neg (by omega), hlog]

theorem splitRoot_eq_none (h : splitRoot pair L = none) : L = [] := by
  induction L using splitRoot.induct with
  | case1 L hle =>
    rw [splitRoot_of_length_le pair hle] at h
    exact head?_eq_none_iff.1 h
  | case2 L hgt ih₁ ih₂ =>
    have hle : 2 ^ log2 (L.length - 1) ≤ L.length - 1 := log2_self_le (by omega)
    have hpos : 0 < 2 ^ Nat.log2 (L.length - 1) := Nat.two_pow_pos _
    rw [splitRoot, if_neg hgt, Option.map₂_eq_none_iff] at h
    rcases h with h | h
    · have hnil := congrArg List.length (ih₁ h)
      rw [length_take, length_nil] at hnil
      omega
    · have hnil := congrArg List.length (ih₂ h)
      rw [length_drop, length_nil] at hnil
      omega

theorem splitRoot_map (f : α → β) (hpair : ∀ a b, f (pair a b) = pair' (f a) (f b)) (L : List α) :
    (splitRoot pair L).map f = splitRoot pair' (L.map f) := by
  induction L using splitRoot.induct with
  | case1 L hle =>
    rw [splitRoot_of_length_le pair hle, splitRoot_of_length_le pair' (by rwa [length_map]), head?_map]
  | case2 L hgt ih₁ ih₂ =>
    have hmap : splitRoot pair' (L.map f) = Option.map₂ pair' (splitRoot pair' ((L.take (2 ^ log2 (L.length - 1))).map f))
        (splitRoot pair' ((L.drop (2 ^ log2 (L.length - 1))).map f)) := by
      rw [splitRoot, if_neg (by rwa [length_map]), length_map, map_take, map_drop]
    rw [splitRoot, if_neg hgt, hmap, ← ih₁, ← ih₂]
    exact Option.map_map₂_distrib hpair

/-- Two roots side by side; the left one alone stays as it is. -/
def join : Option α → Option α → Option α
  | some a, some b => some (pair a b)
  | a, _ => a

theorem splitRoot_halves (h : L.length ≤ 2 ^ (k + 1)) :
    splitRoot pair L = join pair (splitRoot pair (L.take (2 ^ k))) (splitRoot pair (L.drop (2 ^ k))) := by
  rcases lt_or_ge (2 ^ k) L.length with hlt | hge
  · rw [splitRoot_of_lt pair hlt h]
    cases hleft : splitRoot pair (L.take (2 ^ k)) with
    | none => rfl
    | some a =>
      cases hright : splitRoot pair (L.drop (2 ^ k)) with
      | none =>
        have hnil := congrArg List.length (splitRoot_eq_none pair hright)
        rw [length_drop, length_nil] at hnil
        omega
      | some b => rfl
  · rw [take_of_length_le hge, drop_of_length_le hge, splitRoot_of_length_le pair (L := []) (by simp)]
    cases splitRoot pair L <;> rfl

theorem pairUp_append {A : List α} (hA : A.length % 2 = 0) (B : List α) :
    pairUp pair promote (A ++ B) = pairUp pair promote A ++ pairUp pair promote B := by
  induction A using pairUp.induct with
  | case1 a b rest ih =>
    simp only [length_cons] at hA
    simp [pairUp, ih (by omega)]
  | case2 a => simp at hA
  | case3 => rfl

theorem level_append {A : List α} (hA : A.length % 2 ^ l = 0) (B : List α) :
    level pair promote l (A ++ B) = level pair promote l A ++ level pair promote l B := by
  induction l with
  | zero => rfl
  | succ l ih =>
    obtain ⟨q, hq⟩ := dvd_of_mod_eq_zero hA
    have hpos : 0 < 2 ^ l := Nat.two_pow_pos l
    have hlen : A.length = 2 ^ l * (2 * q) := by rw [hq, Nat.pow_succ, Nat.mul_assoc]
    have heven : (level pair promote l A).length = 2 * q := by
      rw [length_level, hlen, mul_add_div hpos, div_eq_of_lt (by omega), add_zero]
    rw [level_succ, level_succ, level_succ, ih (by rw [hlen]; exact mul_mod_right _ _),
      pairUp_append pair promote (by omega)]

theorem level_eq_splitRoot (h : L.length ≤ 2 ^ k) : level pair id k L = (splitRoot pair L).toList := by
  induction k generalizing L with
  | zero =>
    rw [splitRoot_of_length_le pair h]
    match L, h with
    | [], _ => rfl
    | [a], _ => rfl
  | succ k ih =>
    rcases lt_or_ge (2 ^ k) L.length with hlt | hge
    · have htake : (L.take (2 ^ k)).length = 2 ^ k := by rw [length_take]; omega
      have hdrop : (L.drop (2 ^ k)).length ≤ 2 ^ k := by rw [length_drop]; rw [pow_succ] at h; omega
      rw [splitRoot_halves pair h, level_succ]
      conv_lhs => rw [← take_append_drop (2 ^ k) L]
      rw [level_append pair id (by rw [htake, mod_self]), ih (le_of_eq htake), ih hdrop]
      cases hleft : splitRoot pair (L.take (2 ^ k)) with
      | none =>
        rw [splitRoot_eq_none pair hleft, length_nil] at htake
        exact absurd htake.symm (Nat.two_pow_pos k).ne'
      | some a => cases splitRoot pair (L.drop (2 ^ k)) <;> rfl
    · rw [level_succ, ih hge]
      cases splitRoot pair L <;> rfl

/-! ## What the root determines

An unpaired last entry is paired with itself here. The pairs determine their entries, so a level determines the level
below it as long as no entry occurs twice there. -/

section Doubled
variable {pair} (hpair : ∀ a b c d, pair a b = pair c d → a = c ∧ b = d)
include hpair

theorem fst_mem_of_mem_pairUp {a b : α} (h : pair a b ∈ pairUp pair (fun a => pair a a) L) : a ∈ L := by
  induction L using pairUp.induct with
  | case1 c d rest ih =>
    rcases mem_cons.1 h with h | h
    · rw [(hpair a b c d h).1]
      exact mem_cons_self
    · exact mem_cons_of_mem _ (mem_cons_of_mem _ (ih h))
  | case2 c =>
    rw [(hpair a b c c (mem_singleton.1 h)).1]
    exact mem_cons_self
  | case3 => exact nomatch h

theorem nodup_pairUp (h : L.Nodup) : (pairUp pair (fun a => pair a a) L).Nodup := by
  induction L using pairUp.induct with
  | case1 a b rest ih =>
    rw [nodup_cons, nodup_cons] at h
    refine nodup_cons.2 ⟨fun hmem => ?_, ih h.2.2⟩
    exact h.1 (mem_cons_of_mem _ (fst_mem_of_mem_pairUp hpair hmem))
  | case2 a => exact nodup_cons.2 ⟨not_mem_nil, nodup_nil⟩
  | case3 => exact nodup_nil

variable {L' : List α}

theorem pairUp_inj (h : L.Nodup) (h' : L'.Nodup)
    (heq : pairUp pair (fun a => pair a a) L = pairUp pair (fun a => pair a a) L') : L = L' := by
  induction L using pairUp.induct generalizing L' with
  | case1 a b rest ih =>
    match L' with
    | [] => cases heq
    | [c] =>
      -- the pair of two different entries is not the double of one
      obtain ⟨rfl, rfl⟩ := hpair a b c c (List.cons.inj heq).1
      exact absurd mem_cons_self (nodup_cons.1 h).1
    | c :: d :: rest' =>
      obtain ⟨hhead, hrest⟩ := List.cons.inj heq
      obtain ⟨rfl, rfl⟩ := hpair a b c d hhead
      have hnodup : rest'.Nodup := (nodup_cons.1 (nodup_cons.1 h').2).2
      rw [ih h.tail.tail hnodup hrest]
  | case2 a =>
    match L' with
    | [] => cases heq
    | [c] => rw [(hpair a a c c (List.cons.inj heq).1).1]
    | c :: d :: rest' =>
      obtain ⟨rfl, rfl⟩ := hpair a a c d (List.cons.inj heq).1
      exact absurd mem_cons_self (nodup_cons.1 h').1
  | case3 =>
    match L' with
    | [] => rfl
    | [_] => cases heq
    | _ :: _ :: _ => cases heq

theorem nodup_level (l : Nat) (h : L.Nodup) : (level pair (fun a => pair a a) l L).Nodup := by
  induction l with
  | zero => exact h
  | succ l ih =>
    rw [level_succ]
    exact nodup_pairUp hpair ih

theorem level_inj (h : L.Nodup) (h' : L'.Nodup)
    (heq : level pair (fun a => pair a a) l L = level pair (fun a => pair a a) l L') : L = L' := by
  induction l with
  | zero => exact heq
  | succ l ih =>
    rw [level_succ, level_succ] at heq
    exact ih (pairUp_inj hpair (nodup_level hpair l h) (nodup_level hpair l h') heq)

omit hpair in
theorem exists_pair_of_mem_pairUp {a : α} (h : a ∈ pairUp pair (fun a => pair a a) L) : ∃ b c, pair b c = a := by
  induction L using pairUp.induct with
  | case1 b c rest ih =>
    rcases mem_cons.1 h with rfl | h
    · exact ⟨b, c, rfl⟩
    · exact ih h
  | case2 b => exact ⟨b, b, (mem_singleton.1 h).symm⟩
  | case3 => exact nomatch h

theorem eq_of_level_eq_add {d : Nat} (h : L.Nodup) (h' : L'.Nodup) (hne : L ≠ []) (hleaf : ∀ a ∈ L, ∀ b c, pair b c ≠ a)
    (heq : level pair (fun a => pair a a) k L = level pair (fun a => pair a a) (k + d) L') : d = 0 ∧ L = L' := by
  have hsplit : level pair (fun a => pair a a) (k + d) L' =
      level pair (fun a => pair a a) k (level pair (fun a => pair a a) d L') := Function.iterate_add_apply _ _ _ _
  rw [hsplit] at heq
  have hL := level_inj hpair h (nodup_level hpair d h') heq
  cases d with
  | zero => exact ⟨rfl, hL⟩
  | succ d =>
    obtain ⟨a, rest, rfl⟩ := exists_cons_of_ne_nil hne
    rw [level_succ] at hL
    have hmem : a ∈ pairUp pair (fun a => pair a a) (level pair (fun a => pair a a) d L') := by
      rw [← hL]
      exact mem_cons_self
    obtain ⟨b, c, hbc⟩ := exists_pair_of_mem_pairUp hmem
    exact absurd hbc (hleaf a mem_cons_self b c)

theorem leaves_of_root {k' : Nat} (h : L.Nodup) (h' : L'.Nodup) (hne : L ≠ []) (hne' : L' ≠ [])
    (hleaf : ∀ a ∈ L, ∀ b c, pair b c ≠ a) (hleaf' : ∀ a ∈ L', ∀ b c, pair b c ≠ a)
    (heq : level pair (fun a => pair a a) k L = level pair (fun a => pair a a) k' L') : L = L' := by
  rcases le_total k k' with hle | hle
  · obtain ⟨d, rfl⟩ := Nat.exists_eq_add_of_le hle
    exact (eq_of_level_eq_add hpair h h' hne hleaf heq).2
  · obtain ⟨d, rfl⟩ := Nat.exists_eq_add_of_le hle
    exact (eq_of_level_eq_add hpair h' h hne' hleaf' heq.symm).2.symm

end Doubled

variable (n : Nat)

def pad (L : List α) : List (Option α) := L.map some ++ List.replicate (n - L.length) none

theorem pad_succ (L : List α) : pad (n + 1) L = L.head? :: pad n L.tail := by
  cases L <;> simp [pad, replicate_succ]

theorem length_pad {n : Nat} (h : L.length ≤ n) : (pad n L).length = n := by
  simp [pad]; omega

theorem getElem?_pad (L : List α) (i : Nat) :
    (pad n L)[i]? = if i < L.length then some L[i]? else if i < n then some none else none := by
  unfold pad
  by_cases h : i < L.length
  · simp [h, getElem?_append_left]
  · rw [getElem?_append_right (by simpa using Nat.le_of_not_lt h)]
    simp only [length_map, h, if_false, getElem?_replicate]
    by_cases hn : i < n
    · rw [if_pos hn, if_pos (by omega)]
    · rw [if_neg hn, if_neg (by omega)]

theorem getD_pad (L : List α) (i : Nat) : (pad n L).getD i none = L[i]? := by
  rw [getD_eq_getElem?_getD, getElem?_pad]
  by_cases h : i < L.length
  · simp [h]
  · simp only [h, if_false]
    rw [getElem?_eq_none (by omega)]
    split <;> rfl

end PairLevels
