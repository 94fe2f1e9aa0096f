import Jaxnetd.Chaindata.Validate
import Jaxnetd.MergeMining.Soundness
import Jaxnetd.Mmr.Quick

/-!
# The Merkle tree of a block

`BuildMerkleTreeStore` (`chainhash/merkle_tree.go`) fills one array with the levels of the tree: the children of the
node written next are the next two of the nodes already there. The array is the list of levels, each padded to
a power of two, so the root is that of the tree over the hashes, and the root determines the hashes.
-/

namespace Jaxnetd.Chaindata
open Wire TxScript PairLevels List MergeMining

variable {H : Type} [ChainHash H] {k : Nat} {hashes : List H}

/-! ## The array holds the levels -/

/-- One level of the Merkle tree from the level below it. A node without a right sibling is hashed with
itself. -/
def merkleLevel : List (Option H) → List (Option H)
  | l :: r :: rest => (l.map fun l => hashMerkleBranches l (r.getD l)) :: merkleLevel rest
  | _ => []

/-- The levels above a level of `2^n` nodes. -/
def merkleLevels : Nat → List (Option H) → List (Option H)
  | 0, _ => []
  | n + 1, level => merkleLevel level ++ merkleLevels n (merkleLevel level)

def levels (k : Nat) (level : List (Option H)) : List (Option H) := level ++ merkleLevels k level

theorem length_merkleLevel (level : List (Option H)) : (merkleLevel level).length = level.length / 2 := by
  induction level using merkleLevel.induct with
  | case1 l r rest ih =>
    rw [merkleLevel, length_cons, length_cons, length_cons, ih]
    omega
  | case2 level h =>
    rw [merkleLevel.eq_2 level h]
    match level, h with
    | [], _ => simp
    | [_], _ => simp
    | l :: r :: rest, h => exact absurd rfl (h l r rest)

theorem length_levels {level : List (Option H)} (h : level.length = 2 ^ k) :
    (levels k level).length = 2 ^ k * 2 - 1 := by
  induction k generalizing level with
  | zero => simp [levels, merkleLevels, h]
  | succ k ih =>
    have hup : (merkleLevel level).length = 2 ^ k := by rw [length_merkleLevel, h, Nat.pow_succ]; omega
    have hlen := ih hup
    rw [levels, length_append] at hlen
    rw [levels, length_append, merkleLevels, length_append, h, Nat.pow_succ 2]
    omega

theorem getElem?_merkleLevel {level : List (Option H)} {j : Nat} (h : 2 * j + 1 < level.length) :
    (merkleLevel level)[j]? = some (parentAt level (2 * j)) := by
  induction level using merkleLevel.induct generalizing j with
  | case1 l r rest ih =>
    cases j with
    | zero => cases l <;> cases r <;> rfl
    | succ j =>
      rw [merkleLevel, getElem?_cons_succ, ih (by simp only [length_cons] at h; omega)]
      rfl
  | case2 level hshort =>
    match level, hshort with
    | [], _ => simp at h
    | [_], _ => simp at h
    | l :: r :: rest, hshort => exact absurd rfl (hshort l r rest)

theorem parentAt_append_left {front back : List (Option H)} {i : Nat} (h : i + 1 < front.length) :
    parentAt (front ++ back) i = parentAt front i := by
  unfold parentAt
  rw [getD_append _ _ _ _ (by omega), getD_append _ _ _ _ h]

theorem parentAt_append_right (front back : List (Option H)) (i : Nat) :
    parentAt (front ++ back) (front.length + i) = parentAt back i := by
  unfold parentAt
  rw [getD_append_right _ _ _ _ (by omega), getD_append_right _ _ _ _ (by omega),
    Nat.add_sub_cancel_left, Nat.add_assoc, Nat.add_sub_cancel_left]

theorem getElem?_levels {level : List (Option H)} (h : level.length = 2 ^ k) {j : Nat} (hj : j < 2 ^ k - 1) :
    (levels k level)[2 ^ k + j]? = some (parentAt (levels k level) (2 * j)) := by
  induction k generalizing level j with
  | zero => exact absurd hj (Nat.not_lt_zero j)
  | succ k ih =>
    have hpow : 2 ^ (k + 1) = 2 * 2 ^ k := Nat.pow_succ'
    have hup : (merkleLevel level).length = 2 ^ k := by rw [length_merkleLevel, h, hpow]; omega
    have hsplit : levels (k + 1) level = level ++ levels k (merkleLevel level) := rfl
    rw [hsplit, getElem?_append_right (by omega), h, Nat.add_sub_cancel_left]
    rcases Nat.lt_or_ge j (2 ^ k) with hlt | hge
    · -- a node of the level right above
      rw [levels, getElem?_append_left (by omega), getElem?_merkleLevel (by omega), parentAt_append_left (by omega)]
    · obtain ⟨j', rfl⟩ := Nat.exists_eq_add_of_le hge
      rw [ih hup (by omega), Nat.mul_add, ← hpow, ← h, parentAt_append_right]

theorem storeLoop_eq {store : List (Option H)} (hlen : store.length = 2 ^ k * 2 - 1)
    (hparent : ∀ j < 2 ^ k - 1, store[2 ^ k + j]? = some (parentAt store (2 * j))) {n j : Nat} (hn : j + n = 2 ^ k - 1) :
    storeLoop n (2 * j) (2 ^ k + j) (store.take (2 ^ k + j) ++ List.replicate n none) = store := by
  induction n generalizing j with
  | zero =>
    rw [storeLoop, replicate_zero, append_nil]
    exact take_of_length_le (by omega)
  | succ n ih =>
    have htake : (store.take (2 ^ k + j)).length = 2 ^ k + j := by rw [length_take]; omega
    -- both children of the node written in this round are in place
    have hbefore : 2 * j + 1 < (store.take (2 ^ k + j)).length := by omega
    have hchildren : parentAt (store.take (2 ^ k + j) ++ List.replicate (n + 1) none) (2 * j) = parentAt store (2 * j) := by
      conv_rhs => rw [← take_append_drop (2 ^ k + j) store]
      rw [parentAt_append_left hbefore, parentAt_append_left hbefore]
    have hset : (store.take (2 ^ k + j) ++ List.replicate (n + 1) none).set (2 ^ k + j) (parentAt store (2 * j)) =
        store.take (2 ^ k + (j + 1)) ++ List.replicate n none := by
      rw [set_append_right _ _ htake.le, htake, Nat.sub_self, replicate_succ, set_cons_zero,
        ← Nat.add_assoc, take_add_one, hparent j (by omega), append_assoc]
      rfl
    rw [storeLoop, hchildren, hset]
    exact ih (j := j + 1) (by omega)

theorem buildMerkleTreeStore_eq (hk : nextPowerOfTwo hashes.length = 2 ^ k)
    (hle : hashes.length ≤ 2 ^ k) : buildMerkleTreeStore hashes = levels k (pad (2 ^ k) hashes) := by
  have hpad := length_pad hle
  have hstart : hashes.map some ++ List.replicate (2 ^ k * 2 - 1 - hashes.length) none =
      (levels k (pad (2 ^ k) hashes)).take (2 ^ k + 0) ++ List.replicate (2 ^ k - 1) none := by
    rw [levels, Nat.add_zero, take_left' hpad, pad, append_assoc, ← replicate_add]
    congr 2
    omega
  have hrounds : (2 ^ k * 2 - 1) / 2 = 2 ^ k - 1 := by omega
  show storeLoop ((nextPowerOfTwo hashes.length * 2 - 1) / 2) 0 (nextPowerOfTwo hashes.length)
    (hashes.map some ++ List.replicate (nextPowerOfTwo hashes.length * 2 - 1 - hashes.length) none) = _
  rw [hk, hrounds, hstart]
  exact storeLoop_eq (length_levels hpad) (fun j hj => getElem?_levels hpad hj) (Nat.zero_add _)

/-! ## The root -/

abbrev double (h : H) : H := hashMerkleBranches h h

theorem merkleLevel_pad {n : Nat} {L : List H} (h : L.length ≤ 2 * n) :
    merkleLevel (pad (2 * n) L) = pad n (pairUp hashMerkleBranches double L) := by
  induction n generalizing L with
  | zero =>
    obtain rfl := length_eq_zero_iff.1 (Nat.le_zero.1 h)
    rfl
  | succ n ih =>
    rw [show 2 * (n + 1) = 2 * n + 1 + 1 from rfl, pad_succ, pad_succ, pad_succ, merkleLevel]
    match L, h with
    | [], _ => rw [tail_nil, tail_nil, ih (Nat.zero_le _)]; rfl
    | [a], _ => rw [tail_cons, tail_nil, ih (Nat.zero_le _)]; rfl
    | a :: b :: rest, h =>
      rw [tail_cons, tail_cons, ih (by simp only [length_cons] at h; omega)]
      rfl

theorem getLast?_levels {L : List H} (h : L.length ≤ 2 ^ k) :
    (levels k (pad (2 ^ k) L)).getLast? = some (level hashMerkleBranches double k L).head? := by
  induction k generalizing L with
  | zero =>
    match L, h with
    | [], _ => rfl
    | [a], _ => rfl
  | succ k ih =>
    have hpow : 2 ^ (k + 1) = 2 * 2 ^ k := Nat.pow_succ'
    have hup : (pairUp hashMerkleBranches double L).length ≤ 2 ^ k := by rw [length_pairUp]; omega
    have hlast := ih hup
    have hsplit : levels (k + 1) (pad (2 ^ (k + 1)) L) =
        pad (2 ^ (k + 1)) L ++ levels k (pad (2 ^ k) (pairUp hashMerkleBranches double L)) := by
      rw [← merkleLevel_pad (by omega), ← hpow]
      rfl
    rw [hsplit, getLast?_append, hlast]
    rfl

theorem buildMerkleTreeStore_root (h : hashes ≠ []) : ∃ root, (buildMerkleTreeStore hashes).getLast? = some (some root) ∧
    level hashMerkleBranches double (Nat.clog 2 hashes.length) hashes = [root] := by
  have hk := Mmr.TreeStore.nextPowerOfTwo_eq (length_pos_iff.2 h)
  have hle := Nat.le_pow_clog (show 1 < 2 by decide) hashes.length
  obtain ⟨root, hroot⟩ := length_eq_one_iff.1 (length_level_eq_one hashMerkleBranches double h hle)
  refine ⟨root, ?_, hroot⟩
  rw [buildMerkleTreeStore_eq hk hle, getLast?_levels hle, hroot]
  rfl

/-- Lists of distinct hashes with the same root are equal, whatever their lengths. -/
theorem merkleRoot_binds (hpair : ∀ a b c d : H, hashMerkleBranches a b = hashMerkleBranches c d → a = c ∧ b = d)
    {hashes hashes' : List H} (hne : hashes ≠ []) (hne' : hashes' ≠ []) (hnodup : hashes.Nodup) (hnodup' : hashes'.Nodup)
    (hleaf : ∀ h ∈ hashes, ∀ a b, hashMerkleBranches a b ≠ h) (hleaf' : ∀ h ∈ hashes', ∀ a b, hashMerkleBranches a b ≠ h)
    (hroot : (buildMerkleTreeStore hashes).getLast? = (buildMerkleTreeStore hashes').getLast?) : hashes = hashes' := by
  obtain ⟨root, hlast, hlevel⟩ := buildMerkleTreeStore_root hne
  obtain ⟨root', hlast', hlevel'⟩ := buildMerkleTreeStore_root hne'
  rw [hlast, hlast', Option.some.injEq, Option.some.injEq] at hroot
  subst hroot
  exact leaves_of_root hpair hnodup hnodup' hne hne' hleaf hleaf' (hlevel.trans hlevel'.symm)

section Sample
attribute [local instance] unaryHash

theorem hashMerkleBranches_unary (a b : Nat) : hashMerkleBranches a b = 2 * (2 * Nat.pair a b + 2) + 1 := by
  have hsplit : ∀ n : Nat, splitUnary 0 (ChainHash.bytes n) = [n] := by
    intro n
    show splitUnary 0 (List.replicate n 1 ++ [0]) = _
    rw [splitUnary_bytes, Nat.zero_add]
    rfl
  have hpair : (ChainHash.hashH (ChainHash.bytes a ++ ChainHash.bytes b) : Nat) = 2 * Nat.pair a b + 2 :=
    pairHash_unary a b
  rw [hashMerkleBranches, doubleHashH, hpair]
  simp only [ChainHash.hashH, hsplit]
  rfl

theorem hashMerkleBranches_unary_inj (a b c d : Nat) (h : hashMerkleBranches a b = hashMerkleBranches c d) :
    a = c ∧ b = d := by
  rw [hashMerkleBranches_unary, hashMerkleBranches_unary] at h
  exact Nat.pair_eq_pair.1 (by omega)

/-- A list of three hashes, and the same with its last hash repeated, which has the same root. -/
theorem merkleRoot_binds_three : (buildMerkleTreeStore [2, 4, 6]).getLast? = (buildMerkleTreeStore [2, 4, 6, 6]).getLast? ∧
    ∀ hashes : List Nat, hashes ≠ [] → hashes.Nodup → (∀ h ∈ hashes, h % 2 = 0) →
      (buildMerkleTreeStore hashes).getLast? = (buildMerkleTreeStore [2, 4, 6]).getLast? → hashes = [2, 4, 6] := by
  have heven : ∀ h : Nat, h % 2 = 0 → ∀ a b : Nat, hashMerkleBranches a b ≠ h := by
    intro h hh a b
    rw [hashMerkleBranches_unary]
    omega
  refine ⟨rfl, fun hashes hne hnodup hall hroot => ?_⟩
  refine merkleRoot_binds hashMerkleBranches_unary_inj hne (by decide) hnodup (by decide) (fun h hh => heven h (hall h hh))
    (fun h hh => heven h ?_) hroot
  revert h
  decide

end Sample

end Jaxnetd.Chaindata
