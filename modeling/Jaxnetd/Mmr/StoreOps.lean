import Jaxnetd.Mmr.StoreInv

/-!
# Appending and dropping leaves

What `appendLeaf` and `dropNodeFromTree` do to a store that holds a list of leaves. The rows above
are cut either at the level's length (after a rebuild) or at the complete entries (after a drop).
-/

namespace Jaxnetd.Mmr.TreeStore
open PairLevels List Nat

variable {H : Type} {N L : List (TreeNode H)} {x : TreeNode H} {s : TreeStore H} {k : Nat}

theorem nextPowerOfTwo_succ (k : Nat) : nextPowerOfTwo (2 ^ k + 1) = 2 ^ (k + 1) := by
  unfold nextPowerOfTwo
  cases k with
  | zero => rfl
  | succ k =>
    have hlog : log2 (2 ^ (k + 1) + 1) = k + 1 := by
      have h1 : 1 < 2 ^ (k + 1) := Nat.one_lt_two_pow (by omega)
      rw [Nat.log2_eq_iff (by omega)]
      exact ⟨by omega, by rw [Nat.pow_succ 2 (k + 1)]; omega⟩
    have hand : (2 ^ (k + 1) + 1) &&& (2 ^ (k + 1) + 1 - 1) ≠ 0 := by
      intro h
      have ht := congrArg (testBit · (k + 1)) h
      have h1 : 1 < 2 ^ (k + 1) := Nat.one_lt_two_pow (by omega)
      simp [Nat.testBit_and, Nat.testBit_two_pow_self, Nat.testBit_two_pow_add_eq, Nat.testBit_lt_two_pow h1] at ht
    rw [if_neg hand, hlog]

theorem pad_grow {m m' : Nat} (h : N.length ≤ m) (hm : m ≤ m') :
    pad m N ++ List.replicate (m' - (pad m N).length) none = pad m' N := by
  rw [length_pad h, pad, pad, append_assoc, replicate_append_replicate]
  congr 2; omega

theorem set_pad {m : Nat} (x : TreeNode H) (h : L.length < m) : (pad m L).set L.length (some x) = pad m (L ++ [x]) := by
  have e : m - L.length = m - (L.length + 1) + 1 := by omega
  simp [pad, set_append_right, e, replicate_succ]

theorem NoFinal.append (h : NoFinal L) (hx : x.final = false) : NoFinal (L ++ [x]) := by
  intro n hn
  rcases mem_append.1 hn with hn | hn
  · exact h n hn
  · rw [mem_singleton.1 hn, hx]

theorem take_pad {m i : Nat} (hN : N.length ≤ m) (hi : i ≤ m) :
    (pad m N).take i ++ List.replicate ((pad m N).length - i) none = pad m (N.take i) := by
  apply ext_getElem?
  intro j
  rw [getElem?_pad, getElem?_append, length_take, length_pad hN, getElem?_take, getElem?_pad,
    getElem?_replicate, length_take, getElem?_take]
  split_ifs <;> first | rfl | omega

theorem dropRows_eq (startIdx : Nat) (rows : List (List (Cell H))) : dropRows startIdx rows =
      ((rows.mapIdx fun l r => r.drop (startIdx / 2 ^ l)).flatten, rows.mapIdx fun l (r : List (Cell H)) =>
          r.take (startIdx / 2 ^ l) ++ List.replicate (r.length - startIdx / 2 ^ l) none) := by
  induction rows generalizing startIdx with
  | nil => rfl
  | cons r rest ih =>
    have e (l : Nat) : startIdx / 2 / 2 ^ l = startIdx / 2 ^ (l + 1) := by
      rw [Nat.div_div_eq_div_mul, Nat.pow_succ, Nat.mul_comm]
    simp [dropRows, ih, mapIdx_cons, e]

theorem row_setLeaf_succ (s : TreeStore H) (i : Nat) (x : TreeNode H) (l : Nat) :
    (s.setLeaf i x).row (l + 1) = s.row (l + 1) := by
  simp [row, setLeaf, getD_eq_getElem?_getD]

theorem row_setLeaf_zero (s : TreeStore H) (i : Nat) (x : TreeNode H) :
    (s.setLeaf i x).row 0 = (s.row 0).set i (some x) := by
  cases h : s.nodes <;> simp [row, setLeaf, h]

theorem allocate_eq (hlen : s.nodes.length = k + 1) (h0 : (s.row 0).length = 2 ^ k) :
    s.allocate = ⟨(s.nodes ++ [[]]).mapIdx fun i (r : List (Cell H)) =>
      r ++ List.replicate (2 ^ (k + 1) / 2 ^ i - r.length) none⟩ := by
  have hlog : log2 (2 ^ (k + 1)) = k + 1 := log2_two_pow
  unfold allocate
  simp only [h0, nextPowerOfTwo_succ, hlog, hlen]
  simp

theorem row_allocate (hlen : s.nodes.length = k + 1) (h0 : (s.row 0).length = 2 ^ k) :
    s.allocate.nodes.length = k + 2 ∧ ∀ l ≤ k + 1, s.allocate.row l =
      s.row l ++ List.replicate (2 ^ (k + 1 - l) - (s.row l).length) none := by
  have e := allocate_eq hlen h0
  refine ⟨by rw [e]; simp [hlen], fun l hl => ?_⟩
  have hdiv : 2 ^ (k + 1) / 2 ^ l = 2 ^ (k + 1 - l) := Nat.pow_div hl (by omega)
  have hrow : (s.nodes ++ [[]])[l]? = some (s.row l) := by
    rw [row, getD_eq_getElem?_getD]
    rcases lt_or_ge l (k + 1) with h | h
    · rw [getElem?_append_left (by omega), getElem?_eq_getElem (by omega)]; rfl
    · obtain rfl : l = k + 1 := by omega
      simp [← hlen]
  rw [e]
  show List.getD (List.mapIdx _ _) l [] = _
  rw [getD_eq_getElem?_getD, getElem?_mapIdx, hrow]
  simp [hdiv]

variable [ChainHash H] {l : Nat} {full : Bool}

def Part (L : List (TreeNode H)) (l : Nat) (N : List (TreeNode H)) : Prop :=
  N.map TreeNode.erase <+: nodeLevel l L

theorem length_nodeLevel_append (l : Nat) (L : List (TreeNode H)) (x : TreeNode H) :
    (nodeLevel l L).length ≤ (nodeLevel l (L ++ [x])).length := by
  rw [length_level, length_level, length_append]
  exact Nat.div_le_div_right (by omega)

theorem Part.within_append (h : Part L l N) (x : TreeNode H) : Within (L ++ [x]) l N := by
  have := h.length_le
  rw [length_map] at this
  exact le_trans this (length_nodeLevel_append l L x)

theorem Part.length_le_pow (h : Part L l N) (hcap : L.length ≤ 2 ^ k) (hl : l ≤ k) : N.length ≤ 2 ^ (k - l) := by
  have hN := h.length_le
  rw [length_map, length_level] at hN
  refine le_trans hN (le_of_lt_succ ?_)
  have e : 2 ^ k = 2 ^ l * 2 ^ (k - l) := by rw [← pow_add]; congr 1; omega
  rw [Nat.div_lt_iff_lt_mul (Nat.two_pow_pos _), Nat.succ_mul, Nat.mul_comm, ← e]
  have := Nat.two_pow_pos l
  omega

theorem nodeUp_append_head (h : 2 ≤ L.length) (x : TreeNode H) : (nodeUp (L ++ [x]))[0]? = (nodeUp L)[0]? := by
  obtain ⟨a, b, L, rfl⟩ : ∃ a b L', L = a :: b :: L' := by
    match L, h with
    | a :: b :: L, _ => exact ⟨a, b, L, rfl⟩
  rfl

section
variable (h : Holds k L (Part L) s)
include h

theorem Holds.setLeaf (hx : x.final = false) (hlt : L.length < 2 ^ k) :
    Holds k (L ++ [x]) (Within (L ++ [x])) (s.setLeaf L.length x) where
  cap := by rw [length_append]; exact hlt
  noFinal := NoFinal.append h.noFinal hx
  len := by simp [TreeStore.setLeaf, h.len]
  leaves := by rw [row_setLeaf_zero, h.leaves, set_pad x hlt]
  inner l hl := by
    obtain ⟨N, hN, hP, hf⟩ := h.inner l hl
    refine ⟨N, by rw [row_setLeaf_succ, hN], hP.within_append x, fun j n hn hfn => ?_⟩
    obtain ⟨h1, h2, h3 | ⟨h3, h4⟩⟩ := hf j n hn hfn
    · exact ⟨h1, h2, .inl h3⟩
    · exact ⟨h1, h2, .inr ⟨by rw [length_append]; omega, by rw [nodeUp_append_head h3]; exact h4⟩⟩

theorem Holds.allocate (hfull : L.length = 2 ^ k) : Holds (k + 1) L (Part L) s.allocate := by
  have h0 : (s.row 0).length = 2 ^ k := by rw [h.leaves, length_pad h.cap]
  obtain ⟨hlen, hrow⟩ := row_allocate h.len h0
  refine ⟨by rw [pow_succ]; have := h.cap; omega, h.noFinal, hlen, ?_, fun l hl => ?_⟩
  · rw [hrow 0 (by omega), h.leaves, pad_grow h.cap]
    · rfl
    · exact Nat.pow_le_pow_right (by omega) (by omega)
  · rcases Nat.lt_or_ge l k with hlk | hlk
    · obtain ⟨N, hN, hP, hf⟩ := h.inner l hlk
      have hNl : N.length ≤ 2 ^ (k - 1 - l) := by
        have := hP.length_le_pow h.cap hlk
        rwa [show k - (l + 1) = k - 1 - l by omega] at this
      refine ⟨N, ?_, hP, fun j n hn hfn => ?_⟩
      · rw [hrow (l + 1) (by omega), hN, pad_grow hNl (Nat.pow_le_pow_right (by omega) (by omega))]
        congr 2; omega
      · obtain ⟨rfl, rfl, h3⟩ := hf j n hn hfn
        refine ⟨rfl, rfl, .inr ⟨?_, ?_⟩⟩
        · rw [hfull]; exact le_self_pow (by omega) 2
        · obtain ⟨t, ht⟩ := hP
          show (nodeLevel 1 L)[0]? = _
          rw [← ht, getElem?_append_left (by have := length_pos_of_mem (mem_of_getElem? hn); simpa),
            getElem?_map, hn]; rfl
    · obtain rfl : l = k := by omega
      refine ⟨[], ?_, nil_prefix, by simp⟩
      have hnone : s.row (l + 1) = [] := by
        rw [row, getD_eq_getElem?_getD, getElem?_eq_none (by rw [h.len])]; rfl
      rw [hrow (l + 1) (by omega), hnone]
      simp [pad]

theorem Holds.appendLeaf_grow (hx : x.final = false) :
    Holds (if L.length < 2 ^ k then k else k + 1) (L ++ [x]) (Within (L ++ [x])) (s.appendLeaf L.length x) := by
  have h0 : (s.row 0).length = 2 ^ k := by rw [h.leaves, length_pad h.cap]
  have hcap := h.cap
  unfold TreeStore.appendLeaf
  rw [h0]
  rcases lt_or_ge L.length (2 ^ k) with hlt | hge
  · rw [if_pos hlt, if_pos (succ_le_of_lt hlt)]
    exact h.setLeaf hx hlt
  · rw [if_neg (by omega), if_neg (by omega)]
    have hfull : L.length = 2 ^ k := by omega
    refine (h.allocate hfull).setLeaf hx ?_
    have := Nat.two_pow_pos k
    omega

theorem Holds.appendLeaf (hx : x.final = false) :
    ∃ k', Holds k' (L ++ [x]) (Within (L ++ [x])) (s.appendLeaf L.length x) := ⟨_, h.appendLeaf_grow hx⟩

end

/-- The number of entries of level `l` over `n` leaves: all of them, or the complete ones. -/
def entries (full : Bool) (n l : Nat) : Nat := if full then (n + (2 ^ l - 1)) / 2 ^ l else n / 2 ^ l

def Cut (full : Bool) (L : List (TreeNode H)) (l : Nat) (N : List (TreeNode H)) : Prop :=
  N.map TreeNode.erase = (nodeLevel l L).take (entries full L.length l)

theorem Cut.part (h : Cut full L l N) : Part L l N := by
  rw [Part, h]; exact take_prefix _ _

theorem Level.cut (h : Level L l N) : Cut true L l N := by
  rw [Cut, h, take_of_length_le]
  rw [length_level]; rfl

theorem Holds.mono {P Q : Nat → List (TreeNode H) → Prop}
    (h : Holds k L P s) (hPQ : ∀ l N, P l N → Q l N) : Holds k L Q s :=
  ⟨h.cap, h.noFinal, h.len, h.leaves, fun l hl =>
    let ⟨N, hN, hP, hf⟩ := h.inner l hl
    ⟨N, hN, hPQ _ _ hP, hf⟩⟩

theorem div_le_entries (full : Bool) (n l : Nat) : n / 2 ^ l ≤ entries full n l := by
  cases full with
  | false => exact le_refl _
  | true => exact Nat.div_le_div_right (by omega)

theorem Cut.length_le (h : Cut full L l N)
    (hcap : L.length ≤ 2 ^ k) (hl : l ≤ k) : N.length ≤ 2 ^ (k - l) := h.part.length_le_pow hcap hl

/-- Dropping the leaves from `h` on leaves the complete entries over the first `h` leaves. -/
theorem Holds.drop (h : Holds k L (Cut full L) s) {i : Nat} (hi : i < L.length) :
    Holds k (L.take i) (Cut false (L.take i)) (s.dropNodeFromTree 0 i).2 := by
  have hcap := h.cap
  have hrow (l : Nat) (hl : l ≤ k) : (s.dropNodeFromTree 0 i).2.row l =
      (s.row l).take (i / 2 ^ l) ++ List.replicate ((s.row l).length - i / 2 ^ l) none := by
    rw [dropNodeFromTree, dropRows_eq, row, getD_eq_getElem?_getD]
    simp only [take_zero, drop_zero, nil_append, getElem?_mapIdx]
    rw [getElem?_eq_getElem (by rw [h.len]; omega), row, getD_eq_getElem?_getD,
      getElem?_eq_getElem (by rw [h.len]; omega)]
    rfl
  have hdiv (l : Nat) (hl : l ≤ k) : i / 2 ^ l ≤ 2 ^ (k - l) := by
    rw [← Nat.pow_div hl (by omega)]
    exact Nat.div_le_div_right (by omega)
  refine ⟨by rw [length_take]; omega, fun n hn => h.noFinal n (mem_of_mem_take hn), ?_, ?_, fun l hl => ?_⟩
  · rw [dropNodeFromTree, dropRows_eq]; simp [h.len]
  · rw [hrow 0 (by omega), h.leaves, Nat.pow_zero, Nat.div_one, take_pad hcap (by omega)]
  · obtain ⟨N, hN, hP, hf⟩ := h.inner l hl
    have e : k - (l + 1) = k - 1 - l := by omega
    have hNl : N.length ≤ 2 ^ (k - 1 - l) := by rw [← e]; exact hP.length_le hcap hl
    refine ⟨N.take (i / 2 ^ (l + 1)), ?_, ?_, fun j n hn hfn => ?_⟩
    · rw [hrow (l + 1) hl, hN, take_pad hNl (by rw [← e]; exact hdiv (l + 1) hl)]
    · have hle : i / 2 ^ (l + 1) ≤ entries full L.length (l + 1) :=
        Nat.le_trans (Nat.div_le_div_right (by omega)) (div_le_entries full _ _)
      rw [Cut, map_take, hP, take_take, Nat.min_eq_left hle, length_take, Nat.min_eq_left (by omega)]
      exact (take_level hashPair promote (l + 1) i L).symm
    · rw [getElem?_take] at hn
      split at hn
      · obtain ⟨rfl, rfl, h3⟩ := hf j n hn hfn
        -- the final cell survives only when both leaves below it do
        refine ⟨rfl, rfl, h3.imp_right fun h4 => ⟨by rw [length_take]; omega, ?_⟩⟩
        have ht := take_level hashPair promote 1 i L
        have hg := congrArg (fun X => X[0]?) ht
        simp only [getElem?_take] at hg
        have hpos : 0 < i / 2 ^ 1 := by omega
        rw [if_pos hpos, if_pos hpos] at hg
        exact hg.trans h4.2
      · cases hn

end Jaxnetd.Mmr.TreeStore
