import Jaxnetd.Lib.PairLevels
import Jaxnetd.Mmr.TreeStore

/-!
# The store after a rebuild

`calcRoot` refills the rows above the leaves two by two, skipping cells already marked final. The
only cell ever marked final is the first one above the leaves, while the store holds two
leaves; so after a rebuild every row is the level of the leaves below it (`calcRoot_holds`), whatever
the rows held before.
-/

namespace Jaxnetd.Mmr
open PairLevels List TreeNode

variable {H : Type} {L : List (TreeNode H)} (n : TreeNode H)

def TreeNode.erase : TreeNode H := { n with final := false }

@[simp] theorem erase_hash : n.erase.hash = n.hash := rfl
variable (a : TreeNode H)

@[simp] theorem promote_erase : promote a.erase = promote a := rfl

theorem erase_of_not_final {n : TreeNode H} (h : n.final = false) : n.erase = n := by
  cases n; simp_all [erase]

def NoFinal (L : List (TreeNode H)) : Prop := ∀ n ∈ L, n.final = false

theorem NoFinal.map_erase (h : NoFinal L) : L.map erase = L := by
  have e : L.map erase = L.map id := map_congr_left fun n hn => erase_of_not_final (h n hn)
  rwa [map_id] at e

theorem TreeStore.isFinal_some : TreeStore.isFinal (some n) = n.final := rfl

theorem getD_append_length (pre : List (Cell H)) (c : Cell H) (xs : List (Cell H)) :
    (pre ++ c :: xs).getD pre.length none = c := by
  simp [getD_eq_getElem?_getD]

namespace TreeStore

/-- The `j` rows over level `l`, the last one of a single cell: `P` says what the row of a level holds, and a cell is
final only where `may` allows it. -/
structure Rows (may : Nat → Nat → Prop) (P : Nat → List (TreeNode H) → Prop) (l j : Nat) (rows : List (List (Cell H))) :
    Prop where
  len : rows.length = j
  row : ∀ i < j, ∃ N, rows[i]? = some (pad (2 ^ (j - 1 - i)) N) ∧ P (l + 1 + i) N ∧
    ∀ (p : Nat) (n : TreeNode H), N[p]? = some n → n.final = true → may (l + 1 + i) p

section Rows
variable {may : Nat → Nat → Prop} {P : Nat → List (TreeNode H) → Prop} {l j : Nat} {r : List (Cell H)}
  {rows : List (List (Cell H))}

theorem Rows.head (h : Rows may P l (j + 1) (r :: rows)) : ∃ N, r = pad (2 ^ j) N ∧ P (l + 1) N ∧
    ∀ (p : Nat) (n : TreeNode H), N[p]? = some n → n.final = true → may (l + 1) p := by
  obtain ⟨N, h1, h2, h3⟩ := h.row 0 (by omega)
  exact ⟨N, by simpa using h1, h2, h3⟩

theorem Rows.tail (h : Rows may P l (j + 1) (r :: rows)) : Rows may P (l + 1) j rows where
  len := by simpa using h.len
  row i hi := by
    obtain ⟨N, h1, h2⟩ := h.row (i + 1) (by omega)
    rw [show l + 1 + (i + 1) = l + 1 + 1 + i by omega] at h2
    exact ⟨N, by rw [getElem?_cons_succ] at h1; rw [h1]; congr 3; omega, h2⟩

theorem Rows.cons {N : List (TreeNode H)} (hP : P (l + 1) N)
    (hN : ∀ (p : Nat) (n : TreeNode H), N[p]? = some n → n.final = true → may (l + 1) p) (h : Rows may P (l + 1) j rows) :
    Rows may P l (j + 1) (pad (2 ^ j) N :: rows) where
  len := by simp [h.len]
  row i hi := by
    cases i with
    | zero => exact ⟨N, rfl, hP, hN⟩
    | succ i =>
      obtain ⟨N', h1, h2⟩ := h.row i (by omega)
      rw [show l + 1 + 1 + i = l + 1 + (i + 1) by omega] at h2
      exact ⟨N', by rw [getElem?_cons_succ, h1]; congr 3; omega, h2⟩

end Rows

end TreeStore

variable [ChainHash H]

abbrev nodeLevel (l : Nat) (L : List (TreeNode H)) : List (TreeNode H) := level hashPair promote l L

abbrev nodeUp (L : List (TreeNode H)) : List (TreeNode H) := pairUp hashPair promote L

@[simp] theorem hashPair_erase (a b : TreeNode H) : hashPair a.erase b.erase = hashPair a b := rfl

def up (right : Cell H) : TreeNode H := right.elim (promote a) (hashPair a)

theorem hashLeafs_some (right : Cell H) : hashLeafs (some a) right = some (up a right) := by
  cases right <;> rfl

theorem nodeUp_cons (L : List (TreeNode H)) : nodeUp (a :: L) = up a L.head? :: nodeUp L.tail := by
  cases L <;> rfl

theorem nodeUp_map_erase (L : List (TreeNode H)) : nodeUp (L.map erase) = nodeUp L := by
  induction L using pairUp.induct with
  | case1 a b rest ih => simp only [nodeUp, pairUp, map_cons, hashPair_erase] at ih ⊢; rw [ih]
  | case2 a => simp [nodeUp, pairUp]
  | case3 => rfl

namespace TreeStore

theorem calcRow_empty (n : Nat) (next : List (Cell H)) (hashID : Nat) (root : Cell H)
    (h : isFinal (next.getD hashID none) = false) : calcRow (pad (2 * n) []) next hashID root = (next, root) := by
  induction n with
  | zero => rfl
  | succ n ih =>
    rw [show 2 * (n + 1) = 2 * n + 1 + 1 from rfl, pad_succ, pad_succ, calcRow, h]
    simpa using ih

theorem calcRow_pair (a : TreeNode H) (right : Cell H) (rest pre xs : List (Cell H)) (c root : Cell H) :
    ∃ r root', calcRow (some a :: right :: rest) (pre ++ c :: xs) pre.length root =
        calcRow rest (pre ++ some r :: xs) (pre.length + 1) root' ∧
      ((isFinal c = true ∧ c = some r) ∨
        (isFinal c = false ∧ root' = some r ∧ r.erase = up a right ∧ r.final = (a.final && isFinal right))) := by
  rw [calcRow, getD_append_length]
  cases hc : isFinal c with
  | true =>
    cases c with
    | none => simp [isFinal] at hc
    | some n => exact ⟨n, root, by simp, .inl ⟨rfl, rfl⟩⟩
  | false =>
    refine ⟨{ up a right with final := a.final && isFinal right }, _, ?_, .inr ⟨rfl, rfl, ?_, rfl⟩⟩
    · simp [hashLeafs_some, isFinal_some]
    · cases right <;> rfl

/-- A pass of the inner loop: the row above becomes the level above, and a cell of it is final only
when it was before or both cells below are. -/
theorem calcRow_pad (m : Nat) (M N : List (TreeNode H)) (pre : List (Cell H)) (root : Cell H)
    (hM : M.length ≤ 2 * m) (hN : N.length ≤ (nodeUp M).length)
    (hfin : ∀ (j : Nat) (n : TreeNode H), N[j]? = some n → n.final = true → (nodeUp M)[j]? = some n.erase) :
    ∃ N', (calcRow (pad (2 * m) M) (pre ++ pad m N) pre.length root).1 = pre ++ pad m N' ∧ N'.map erase = nodeUp M ∧
      ∀ (j : Nat) (n : TreeNode H), N'[j]? = some n → n.final = true → N[j]? = some n ∨
        ∃ a b, M[2 * j]? = some a ∧ M[2 * j + 1]? = some b ∧ a.final = true ∧ b.final = true := by
  induction m generalizing M N pre root with
  | zero =>
    obtain rfl : M = [] := by simpa using hM
    obtain rfl : N = [] := by simpa using hN
    exact ⟨[], rfl, rfl, by simp⟩
  | succ m ih =>
    cases M with
    | nil =>
      obtain rfl : N = [] := by simpa using hN
      refine ⟨[], ?_, rfl, by simp⟩
      rw [calcRow_empty]
      rw [pad_succ, getD_append_length]; rfl
    | cons a M =>
      rw [show 2 * (m + 1) = 2 * m + 1 + 1 from rfl, pad_succ, pad_succ, pad_succ m N]
      obtain ⟨r, root', hstep, hr⟩ := calcRow_pair a M.head? (pad (2 * m) M.tail) pre (pad m N.tail) N.head? root
      have hM' : M.tail.length ≤ 2 * m := by simp only [length_cons, length_tail] at hM ⊢; omega
      have hN' : N.tail.length ≤ (nodeUp M.tail).length := by
        rw [nodeUp_cons] at hN
        simp only [length_cons, length_tail] at hN ⊢; omega
      have hfin' : ∀ (j : Nat) (n : TreeNode H), N.tail[j]? = some n → n.final = true →
          (nodeUp M.tail)[j]? = some n.erase := by
        intro j n hn hf
        have := hfin (j + 1) n (by simpa using hn) hf
        rwa [nodeUp_cons, getElem?_cons_succ] at this
      obtain ⟨N', h1, h2, h3⟩ := ih M.tail N.tail (pre ++ [some r]) root' hM' hN' hfin'
      refine ⟨r :: N', ?_, ?_, ?_⟩
      · rw [pad_succ, head?_cons, tail_cons]
        simpa [hstep] using h1
      · rw [nodeUp_cons, map_cons, h2]
        obtain ⟨hc, he⟩ | ⟨-, -, he, -⟩ := hr
        · rw [he] at hc
          have := hfin 0 r (by rw [← head?_eq_getElem?, he]) hc
          rw [nodeUp_cons, getElem?_cons_zero, Option.some.injEq] at this
          rw [this]
        · rw [he]
      · intro j n hn hfn
        cases j with
        | zero =>
          obtain rfl : r = n := by simpa using hn
          obtain ⟨-, he⟩ | ⟨-, -, -, hf⟩ := hr
          · left; rw [← head?_eq_getElem?, he]
          · rw [hf, Bool.and_eq_true] at hfn
            cases M with
            | nil => simp [isFinal] at hfn
            | cons b M => exact .inr ⟨a, b, rfl, rfl, hfn.1, hfn.2⟩
        | succ j =>
          obtain h | ⟨x, y, hx, hy, hh⟩ := h3 j n (by simpa using hn) hfn
          · left; simpa using h
          · exact .inr ⟨x, y, by simpa [Nat.mul_succ] using hx, by simpa [Nat.mul_succ] using hy, hh⟩

theorem calcRow_root (M N : List (TreeNode H)) (root : Cell H) (hne : M ≠ []) (hM : M.length ≤ 2)
    (hN : NoFinal N) : ∃ r, (calcRow (pad 2 M) (pad 1 N) 0 root).2 = some r ∧ nodeUp M = [r.erase] := by
  cases M with
  | nil => exact absurd rfl hne
  | cons a M =>
    obtain ⟨r, root', hstep, hr⟩ := calcRow_pair a M.head? [] [] (pad 0 N.tail) N.head? root
    have ht : M.tail = [] := eq_nil_of_length_eq_zero (by simp at hM ⊢; omega)
    obtain ⟨hc, -⟩ | ⟨-, hr, he, -⟩ := hr
    · cases N with
      | nil => simp [isFinal] at hc
      | cons n N => simp [isFinal_some, hN n (by simp)] at hc
    · refine ⟨r, ?_, by rw [nodeUp_cons, ht, he]; rfl⟩
      rw [pad_succ 1, pad_succ 0 (a :: M).tail, pad_succ 0 N, tail_cons, ht, ← hr]
      exact congrArg Prod.snd hstep

/-- A pass over the rows above `M` fills each with its level. Final cells are kept, so they have to hold what their level
has there; `was` and `may` bound the final cells before and behind the pass. -/
theorem calcLevels_level (was may : Nat → Nat → Prop) (hsub : ∀ l p, was l p → may l p)
    (hup : ∀ l p, may l (2 * p) → may l (2 * p + 1) → may (l + 1) p) (j l : Nat)
    (M : List (TreeNode H)) (rest : List (List (Cell H))) (root : Cell H) (htop : ¬was (l + j) 0)
    (hM : nodeUp M = nodeLevel (l + 1) L) (hne : M ≠ []) (hcap : M.length ≤ 2 ^ j)
    (hfinal : ∀ (p : Nat) (n : TreeNode H), M[p]? = some n → n.final = true → may l p)
    (hrest : Rows was (fun i N => N.length ≤ (nodeLevel i L).length ∧
      ∀ (p : Nat) (n : TreeNode H), N[p]? = some n → n.final = true → (nodeLevel i L)[p]? = some n.erase) l j rest) :
    ∃ rows, (calcLevels (pad (2 ^ j) M) rest root).1 = pad (2 ^ j) M :: rows ∧
      Rows may (fun i N => N.map erase = nodeLevel i L) l j rows ∧
      (0 < j → (calcLevels (pad (2 ^ j) M) rest root).2.map erase = (nodeLevel (l + j) L).head?) := by
  induction j generalizing l M rest root with
  | zero =>
    obtain rfl : rest = [] := eq_nil_of_length_eq_zero hrest.len
    exact ⟨[], rfl, ⟨rfl, by simp⟩, by simp⟩
  | succ j ih =>
    cases rest with
    | nil => simpa using hrest.len
    | cons next rest =>
      obtain ⟨N, rfl, ⟨hNl, hNv⟩, hNf⟩ := hrest.head
      have h2 : 2 ^ (j + 1) = 2 * 2 ^ j := by rw [Nat.pow_succ, Nat.mul_comm]
      obtain ⟨N', h1, he, hf⟩ := calcRow_pad (2 ^ j) M N [] root (h2 ▸ hcap) (hM ▸ hNl) (hM ▸ hNv)
      simp only [nil_append, length_nil] at h1
      have hfinal' : ∀ (p : Nat) (n : TreeNode H), N'[p]? = some n → n.final = true → may (l + 1) p := by
        intro p n hn hnf
        rcases hf p n hn hnf with h | ⟨a, b, ha, hb, haf, hbf⟩
        · exact hsub _ _ (hNf p n h hnf)
        · exact hup l p (hfinal _ a ha haf) (hfinal _ b hb hbf)
      have hlen : N'.length = (nodeUp M).length := by rw [← he, length_map]
      have hne' : N' ≠ [] := by
        apply ne_nil_of_length_pos
        rw [hlen, length_pairUp]
        have := length_pos_iff.2 hne
        omega
      have hcap' : N'.length ≤ 2 ^ j := by rw [hlen, length_pairUp]; omega
      have hM' : nodeUp N' = nodeLevel (l + 1 + 1) L := by
        rw [← nodeUp_map_erase, he, hM]
        exact (level_succ hashPair promote (l + 1) L).symm
      have htop' : ¬was (l + 1 + j) 0 := by rwa [show l + 1 + j = l + (j + 1) by omega]
      rw [h2, calcLevels]
      simp only [h1]
      obtain ⟨rows, hrows, hdone, hroot⟩ := ih (l + 1) N' rest (calcRow (pad (2 * 2 ^ j) M) (pad (2 ^ j) N) 0 root).2 htop'
        hM' hne' hcap' hfinal' hrest.tail
      refine ⟨pad (2 ^ j) N' :: rows, by rw [hrows], Rows.cons (he.trans hM) hfinal' hdone, fun _ => ?_⟩
      cases j with
      | zero =>
        obtain rfl : rest = [] := eq_nil_of_length_eq_zero hrest.tail.len
        have hopen : NoFinal N := by
          intro n hn
          obtain ⟨p, hp⟩ := getElem?_of_mem hn
          cases hnf : n.final with
          | false => rfl
          | true =>
            -- the row on top has one cell
            have hlt := (List.getElem?_eq_some_iff.1 hp).1
            rw [← hM, length_pairUp] at hNl
            obtain rfl : p = 0 := by omega
            exact absurd (hNf 0 n hp hnf) htop
        obtain ⟨r, hr, hru⟩ := calcRow_root M N root hne hcap hopen
        have hr' : (calcRow (pad (2 * 2 ^ 0) M) (pad (2 ^ 0) N) 0 root).2 = some r := hr
        rw [hr', calcLevels]
        rw [← hM, hru]
        rfl
      | succ j => rw [hroot (by omega), show l + 1 + (j + 1) = l + (j + 1 + 1) by omega]

theorem hashOf_erase (c : Cell H) : hashOf (c.map erase) = hashOf c := by
  cases c <;> rfl

/-- A store of `2^k` leaf cells that holds the leaves `L`; `P l` says what the row `l` above them holds.
Only the first cell above the leaves may be final, and it then is the pair of the first two leaves,
or the top of a store of two cells. -/
structure Holds (k : Nat) (L : List (TreeNode H)) (P : Nat → List (TreeNode H) → Prop) (s : TreeStore H) :
    Prop where
  cap : L.length ≤ 2 ^ k
  noFinal : NoFinal L
  len : s.nodes.length = k + 1
  leaves : s.row 0 = pad (2 ^ k) L
  inner : ∀ l < k, ∃ N, s.row (l + 1) = pad (2 ^ (k - 1 - l)) N ∧ P (l + 1) N ∧
    ∀ (j : Nat) (n : TreeNode H), N[j]? = some n → n.final = true →
      l = 0 ∧ j = 0 ∧ (k = 1 ∨ 2 ≤ L.length ∧ (nodeUp L)[0]? = some n.erase)

def Within (L : List (TreeNode H)) (l : Nat) (N : List (TreeNode H)) : Prop :=
  N.length ≤ (nodeLevel l L).length

def Level (L : List (TreeNode H)) (l : Nat) (N : List (TreeNode H)) : Prop :=
  N.map erase = nodeLevel l L

def mmrRoot (L : List (TreeNode H)) : H := hashOf (nodeLevel (Nat.clog 2 L.length) L).head?

variable {rest : List (List (Cell H))} {s : TreeStore H} {k : Nat}

theorem hashOf_top (hne : L ≠ []) (hk : L.length ≤ 2 ^ k) : hashOf (nodeLevel k L).head? = mmrRoot L := by
  obtain ⟨d, hd⟩ := Nat.exists_eq_add_of_le (Nat.clog_le_of_le_pow hk)
  have e := level_root hashPair promote hash (fun _ => rfl) d hne (Nat.le_pow_clog (by omega) L.length)
  rw [← hd] at e
  have e' : (nodeLevel k L).head?.map hash = (nodeLevel (Nat.clog 2 L.length) L).head?.map hash := by
    rw [← head?_map, ← head?_map]; exact congrArg List.head? e
  have hash_eq (c : Cell H) : hashOf c = (c.map hash).getD ChainHash.zeroHash := by cases c <;> rfl
  rw [mmrRoot, hash_eq, e', ← hash_eq]

theorem calcLevels_holds {cur : List (Cell H)}
    (h : Holds (k + 2) L (Within L) s) (hne : L ≠ []) (hs : s.nodes = cur :: rest) :
    Holds (k + 2) L (Level L) ⟨(calcLevels cur rest none).1⟩ ∧ hashOf (calcLevels cur rest none).2 = mmrRoot L := by
  have hcur : cur = pad (2 ^ (k + 2)) L := by rw [← h.leaves, row, hs]; rfl
  have hrow (i : Nat) : s.row (i + 1) = rest.getD i [] := by rw [row, hs]; rfl
  have hlen : rest.length = k + 2 := by simpa [hs] using h.len
  -- only the first cell above the leaves is ever final
  obtain ⟨rows, hrows, hdone, hroot⟩ := calcLevels_level (fun l p => l = 1 ∧ p = 0 ∧ 2 ≤ L.length)
    (fun l p => l = 1 ∧ p = 0 ∧ 2 ≤ L.length) (fun _ _ => id) (fun l p _ h => absurd h.2.1 (by omega)) (k + 2) 0 L rest none
    (by omega) rfl hne h.cap (fun p n hn hf => by rw [h.noFinal n (mem_of_getElem? hn)] at hf; cases hf)
    ⟨hlen, fun i hi => by
      obtain ⟨N, hN, hle, hfin⟩ := h.inner i hi
      rw [hrow, getD_eq_getElem?_getD, getElem?_eq_getElem (by omega), Option.getD_some] at hN
      rw [Nat.zero_add, Nat.add_comm 1 i]
      refine ⟨N, by rw [getElem?_eq_getElem (by omega), hN], ⟨hle, fun p n hn hf => ?_⟩, fun p n hn hf => ?_⟩ <;>
        obtain ⟨rfl, rfl, hk | ⟨htwo, hup⟩⟩ := hfin p n hn hf
      · omega
      · exact hup
      · omega
      · exact ⟨rfl, rfl, htwo⟩⟩
  rw [hcur, hrows]
  refine ⟨⟨h.cap, h.noFinal, by simp [hdone.len], rfl, fun l hl => ?_⟩, ?_⟩
  · obtain ⟨N, hN, he, hf⟩ := hdone.row l hl
    rw [Nat.zero_add, Nat.add_comm 1 l] at he hf
    refine ⟨N, by simp [row, hN], he, fun j n hn hfn => ?_⟩
    obtain ⟨hl, rfl, htwo⟩ := hf j n hn hfn
    obtain rfl : l = 0 := by omega
    refine ⟨rfl, rfl, .inr ⟨htwo, ?_⟩⟩
    rw [show nodeUp L = nodeLevel 1 L from rfl, ← he, getElem?_map, hn]
    rfl
  · rw [← hashOf_erase, hroot (by omega), Nat.zero_add]
    exact hashOf_top hne h.cap

theorem nodeLevel_one {a : TreeNode H} {rest : List (TreeNode H)} (h : rest.length ≤ 1) :
    nodeLevel 1 (a :: rest) = [up a rest.head?] := by
  match rest, h with
  | [], _ => rfl
  | [b], _ => rfl

theorem calcRoot_two {a : TreeNode H} {rest : List (TreeNode H)} (h : rest.length ≤ 1) (c : Cell H) :
    (⟨[pad 2 (a :: rest), [c]]⟩ : TreeStore H).calcRoot =
      (⟨[pad 2 (a :: rest), [some { up a rest.head? with final := true }]]⟩, some
      { up a rest.head? with final := true }) := by
  match rest, h with
  | [], _ => rfl
  | [b], _ => rfl

theorem calcRoot_more (hs : s.nodes = pad (2 ^ (k + 2)) L :: rest) (hcap : L.length ≤ 2 ^ (k + 2)) : s.calcRoot =
      (⟨(calcLevels (pad (2 ^ (k + 2)) L) rest none).1⟩, (calcLevels (pad (2 ^ (k + 2)) L) rest none).2) := by
  have hrow : (s.row 0).length = 2 ^ (k + 2) := by rw [row, hs, getD_cons_zero, length_pad hcap]
  have hbig := Nat.lt_two_pow_self (n := k + 2)
  unfold calcRoot
  split
  · omega
  · omega
  · simp [hs]

theorem calcRoot_holds (h : Holds k L (Within L) s)
    (hne : L ≠ []) : Holds k L (Level L) s.calcRoot.1 ∧ hashOf s.calcRoot.2 = mmrRoot L := by
  have hcap := h.cap
  match k with
  | 0 =>
    rw [calcRoot, h.leaves, length_pad hcap]
    refine ⟨⟨h.cap, h.noFinal, h.len, h.leaves, by simp⟩, ?_⟩
    rw [← hashOf_top hne h.cap, cell, h.leaves, getD_pad]
    exact congrArg hashOf head?_eq_getElem?.symm
  | 1 =>
    obtain ⟨nodes⟩ := s
    obtain ⟨r, r', rfl⟩ := length_eq_two.1 h.len
    obtain ⟨a, rest, rfl⟩ := exists_cons_of_ne_nil hne
    have hrest : rest.length ≤ 1 := Nat.le_of_succ_le_succ hcap
    obtain ⟨N, hN, hNl, -⟩ := h.inner 0 (by omega)
    rw [Within, Nat.zero_add, nodeLevel_one hrest, length_singleton] at hNl
    obtain rfl : r = pad 2 (a :: rest) := h.leaves
    obtain ⟨c, rfl⟩ : ∃ c, r' = [c] := length_eq_one_iff.1 (by rw [show r' = pad 1 N from hN, length_pad hNl])
    rw [calcRoot_two hrest]
    refine ⟨⟨hcap, h.noFinal, rfl, rfl, fun l hl => ?_⟩, ?_⟩
    · obtain rfl : l = 0 := by omega
      refine ⟨[{ up a rest.head? with final := true }], rfl, ?_, fun j n hn _ => ?_⟩
      · rw [Level, nodeLevel_one hrest]
        cases rest <;> rfl
      · cases j with
        | zero => exact ⟨rfl, rfl, .inl rfl⟩
        | succ j => simp at hn
    · rw [← hashOf_top hne hcap, nodeLevel_one hrest]
      rfl
  | k + 2 =>
    obtain ⟨cur, rest, hs⟩ := exists_cons_of_ne_nil (ne_nil_of_length_pos (l := s.nodes) (by rw [h.len]; omega))
    obtain rfl : cur = pad (2 ^ (k + 2)) L := by rw [← h.leaves, row, hs]; rfl
    rw [calcRoot_more hs hcap]
    exact calcLevels_holds h hne hs

end TreeStore

end Jaxnetd.Mmr
