import Jaxnetd.MergeMining.Tree

/-!
# Shard Merkle proofs

The path that `MerkleProofPath` reads leads to the root of the tree (`pathData_root`), since no node beside the
way of a filled slot is without data. The validator takes the length of the path from the logarithm of the
number of shards, the tree has at least two slots: a single shard has a path of one hash and none is expected.
-/

namespace Jaxnetd.MergeMining
open ChainHash Checks SlotTree

theorem alignSlots_lt {n fuel e d : Nat} (h : alignSlots n fuel e = some d) : d < e + fuel := by
  induction fuel generalizing e with
  | zero => cases h
  | succ fuel ih =>
    rw [alignSlots] at h
    split at h
    · cases h
      omega
    · have := ih h
      omega

theorem alignSlots_none {n fuel e : Nat} (h : alignSlots n fuel e = none) (hf : 0 < fuel) : 2 ^ (e + fuel - 1) < n := by
  induction fuel generalizing e with
  | zero => cases hf
  | succ fuel ih =>
    rw [alignSlots] at h
    split at h
    · cases h
    · next hlt =>
      rcases Nat.eq_zero_or_pos fuel with rfl | hpos
      · exact Nat.not_le.1 hlt
      · have := ih h hpos
        rwa [show e + (fuel + 1) - 1 = e + 1 + fuel - 1 by omega]

theorem heightWithoutRoot_le {n d : Nat} (h : heightWithoutRoot n = some d) : d ≤ 31 := by
  have := alignSlots_lt h
  omega

theorem heightWithoutRoot_isSome {n : Nat} : (∃ d, heightWithoutRoot n = some d) ↔ n ≤ 2 ^ 31 := by
  constructor
  · rintro ⟨d, hd⟩
    exact (heightWithoutRoot_some hd).2.1.trans (Nat.pow_le_pow_right (by decide) (heightWithoutRoot_le hd))
  · intro hn
    cases hd : heightWithoutRoot n with
    | some d => exact ⟨d, rfl⟩
    | none => exact absurd (alignSlots_none hd (by decide)) (Nat.not_lt.2 hn)

variable {H : Type} [ChainHash H] [DecidableEq H]

section
variable {s : Nat → Option H}

omit [DecidableEq H]

theorem collapse_parent_ne {e x y : Nat} (hx : x = 2 * y ∨ x = 2 * y + 1)
    (h : collapse pairHash s e x ≠ leaf none) : collapse pairHash s (e + 1) y ≠ leaf none := by
  intro hy
  obtain ⟨hl, hr⟩ := join_eq_empty.1 hy
  rcases hx with rfl | rfl
  · exact h hl
  · exact h hr

/-- The path from a nonempty node leads to the root. The induction is on the number of levels above. -/
theorem pathData_root {d n e pos : Nat} {nodes : Nat → Node H} (h : Shown s d nodes 1 2)
    (hd : n + e = d) (hpos : pos < 2 ^ n) (hne : collapse pairHash s e (2 ^ n + pos) ≠ leaf none) :
    ∃ path, SparseMerkleTree.pathData nodes n (2 ^ n + pos) = some path ∧ path.length = n ∧
      pathRoot pairHash pos path (treeHash (collapse pairHash s e (2 ^ n + pos))) =
        treeHash (collapse pairHash s d 1) := by
  induction n generalizing e pos with
  | zero =>
    obtain rfl : pos = 0 := by omega
    obtain rfl : e = d := by omega
    exact ⟨[], rfl, rfl, rfl⟩
  | succ n ih =>
    have hhalf : (2 ^ (n + 1) + pos) / 2 = 2 ^ n + pos / 2 := by omega
    have hat : AtHeight d (e + 1) (2 ^ n + pos / 2) := ⟨n, by omega, by omega, by omega⟩
    have hchild : 2 ^ (n + 1) + pos = 2 * (2 ^ n + pos / 2) ∨ 2 ^ (n + 1) + pos = 2 * (2 ^ n + pos / 2) + 1 := by omega
    have hne' := collapse_parent_ne hchild hne
    obtain ⟨hleft, hright⟩ := (h.done e _ hat (by omega)).2.filled hne'
    obtain ⟨path, hpath, hlen, hroot⟩ := ih (e := e + 1) (by omega) (by omega) hne'
    rw [treeHash_succ hne'] at hroot
    have hpair (data : H) (hdata : (nodes (sibling (2 ^ (n + 1) + pos))).data = some data) :
        SparseMerkleTree.pathData nodes (n + 1) (2 ^ (n + 1) + pos) = some (data :: path) := by
      simp [SparseMerkleTree.pathData, hdata, hhalf, hpath]
    rcases hchild with hx | hx
    · refine ⟨_ :: path, hpair _ (by rw [sibling, if_pos (by omega), hx]; exact hright), congrArg (· + 1) hlen, ?_⟩
      rw [pathRoot, if_pos (by omega), hx]
      exact hroot
    · refine ⟨_ :: path, hpair _ (by rw [sibling, if_neg (by omega), hx]; exact hleft), congrArg (· + 1) hlen, ?_⟩
      rw [pathRoot, if_neg (by omega), hx]
      exact hroot

end

variable {t : SparseMerkleTree H}

theorem root_fresh (hmagic : NoMagicNode t.slotHash t.height) (h : Fresh t)
    (hne : collapse pairHash t.slotHash t.height 1 ≠ leaf none) :
    t.root = .ok (t.calculate, treeHash (collapse pairHash t.slotHash t.height 1)) ∧ t.calculate.root = t.root := by
  have hshown := SparseMerkleTree.shown_calculate hmagic h
  have hdata := (hshown.shows (atHeight_root _) (by omega)).full hne
  have hroot : t.root = .ok (t.calculate, treeHash (collapse pairHash t.slotHash t.height 1)) := by
    rw [SparseMerkleTree.root, hdata]
    rfl
  refine ⟨hroot, ?_⟩
  rw [SparseMerkleTree.root, SparseMerkleTree.root, SparseMerkleTree.calculate_calculate h]

/-- The hash of the node `x` of the complete tree, `e` levels above the slots: the magic hash where no slot
below is mined. -/
def sparseHash (s : Nat → Option H) : Nat → Nat → H
  | 0, x => (s x).getD magicHash
  | e + 1, x =>
    if ∀ i < 2 ^ (e + 1), s (x * 2 ^ (e + 1) + i) = none then magicHash
    else pairHash (sparseHash s e (2 * x)) (sparseHash s e (2 * x + 1))

omit [DecidableEq H] in
theorem treeHash_collapse (s : Nat → Option H) (e x : Nat) : treeHash (collapse pairHash s e x) = sparseHash s e x := by
  induction e generalizing x with
  | zero => rfl
  | succ e ih =>
    rw [sparseHash]
    split_ifs with hnone
    · rw [collapse_eq_empty.2 hnone]
      rfl
    · rw [treeHash_succ fun h => hnone (collapse_eq_empty.1 h), ih, ih]

/-- The number of levels below the root, of a tree whose slots are aligned to a power of two, at least two. -/
def alignedHeight (n : Nat) : Nat := max 1 (Nat.clog 2 n)

theorem heightWithoutRoot_eq {n d : Nat} (h : heightWithoutRoot n = some d) : alignedHeight n = d := by
  obtain ⟨h1, -, hclog⟩ := heightWithoutRoot_some h
  rcases Nat.lt_or_ge n 2 with hn | hn
  · have hone : ∀ n < 2, heightWithoutRoot n = some 1 := by decide
    obtain rfl := Option.some.inj (h.symm.trans (hone n hn))
    rw [alignedHeight, Nat.clog_of_right_le_one (by omega), Nat.max_zero]
  · rw [alignedHeight, hclog hn, Nat.max_eq_right h1]

/-- Past `2 ^ 31` shards the 32-bit count of slots, which is doubled until it is large enough, becomes zero. -/
theorem filledTree_stop {n : Nat} (hmax : ¬n ≤ 2 ^ 31) (sets : List (Nat × H)) :
    filledTree n sets = .error (.stop "NewSparseMerkleTree does not return") := by
  have hnone : heightWithoutRoot n = none := by
    cases hd : heightWithoutRoot n with
    | none => rfl
    | some d => exact absurd (heightWithoutRoot_isSome.1 ⟨d, hd⟩) hmax
  have hnew : newSparseMerkleTree (H := H) n = .error (.stop "NewSparseMerkleTree does not return") := by
    unfold newSparseMerkleTree
    split
    · rfl
    · next d hd => rw [hnone] at hd; cases hd
  simp only [filledTree, hnew, bind, Except.bind]

/-- The slots of a tree of height `d` by their node: the hash set last, where it is not the magic one. -/
def minedSlots (d : Nat) (sets : List (Nat × H)) (x : Nat) : Option H :=
  if held sets (x - 2 ^ d) = magicHash then none else some (held sets (x - 2 ^ d))

/-- `Root` gives the hash of the complete tree over the aligned slots, and the orange nodes are those with mined and
unmined slots below. -/
def SparseRoot (n : Nat) (sets : List (Nat × H)) : Prop :=
  ∃ t t' : SparseMerkleTree H, filledTree n sets = .ok t ∧
    t.root = .ok (t', sparseHash (minedSlots (alignedHeight n) sets) (alignedHeight n) 1) ∧
    ∀ e x, AtHeight (alignedHeight n) e x → ((t'.nodes x).isOrange = true ↔
      (∃ i < 2 ^ e, minedSlots (alignedHeight n) sets (x * 2 ^ e + i) ≠ none) ∧
        ∃ i < 2 ^ e, minedSlots (alignedHeight n) sets (x * 2 ^ e + i) = none)

theorem AtHeight.slot {d e x i : Nat} (h : AtHeight d e x) (hi : i < 2 ^ e) : ∃ j < 2 ^ d, x * 2 ^ e + i = 2 ^ d + j := by
  obtain ⟨level, rfl, hge, hlt⟩ := h
  have hle := Nat.mul_le_mul_right (2 ^ e) hge
  have hlt' := Nat.mul_le_mul_right (2 ^ e) (Nat.succ_le_of_lt hlt)
  rw [Nat.succ_mul, Nat.pow_succ, Nat.mul_right_comm, ← Nat.pow_add] at hlt'
  rw [← Nat.pow_add] at hle
  exact ⟨x * 2 ^ e + i - 2 ^ (level + e), by omega, by omega⟩

section
variable {sets : List (Nat × H)}

theorem collapse_filled {t : SparseMerkleTree H} {e x : Nat}
    (hslots : ∀ i < 2 ^ t.height, (t.nodes (2 ^ t.height + i)).data = some (held sets i)) (hat : AtHeight t.height e x) :
    collapse pairHash t.slotHash e x = collapse pairHash (minedSlots t.height sets) e x := by
  refine collapse_congr fun i hi => ?_
  obtain ⟨j, hj, hnode⟩ := hat.slot hi
  rw [hnode, SparseMerkleTree.slotHash, hslots j hj, Option.filter_some, minedSlots, Nat.add_sub_cancel_left]
  by_cases hm : held sets j = magicHash <;> simp [hm]

theorem collapse_mined {d : Nat} (hmined : ∃ i < 2 ^ d, held sets i ≠ magicHash) :
    collapse pairHash (minedSlots d sets) d 1 ≠ leaf none := by
  obtain ⟨i, hi, hm⟩ := hmined
  intro hempty
  have hnone := collapse_eq_empty.1 hempty i hi
  rw [Nat.one_mul, minedSlots, Nat.add_sub_cancel_left, if_neg hm] at hnone
  cases hnone

end

/-- On a new tree with a mined slot, of which no node above a mined slot has the magic hash, `Root` gives the hash of
the complete tree exactly if there are at most `2 ^ 31` shards. -/
theorem root_sparse_iff {n : Nat} {sets : List (Nat × H)} (hsets : ∀ set ∈ sets, set.1 < 2 ^ alignedHeight n)
    (hmined : ∃ i < 2 ^ alignedHeight n, held sets i ≠ magicHash)
    (hmagic : NoMagicNode (minedSlots (alignedHeight n) sets) (alignedHeight n)) :
    SparseRoot n sets ↔ n ≤ 2 ^ 31 := by
  constructor
  · rintro ⟨t, t', ht, -⟩
    by_contra hmax
    rw [filledTree_stop hmax] at ht
    cases ht
  intro hmax
  obtain ⟨d, hd⟩ := heightWithoutRoot_isSome.2 hmax
  rw [SparseRoot]
  rw [heightWithoutRoot_eq hd] at hsets hmined hmagic ⊢
  obtain ⟨t, ht, hfresh, rfl, hslots⟩ := filledTree_ok hd hsets
  have hcollapse : ∀ e x, AtHeight t.height e x →
      collapse pairHash t.slotHash e x = collapse pairHash (minedSlots t.height sets) e x :=
    fun e x => collapse_filled hslots
  have hfree : NoMagicNode t.slotHash t.height := by
    intro e x hat
    rw [hcollapse e x hat]
    exact hmagic e x hat
  have htop := hcollapse _ _ (atHeight_root t.height)
  have hne := htop.trans_ne (collapse_mined hmined)
  have hroot := (root_fresh hfree hfresh hne).1
  rw [htop, treeHash_collapse] at hroot
  refine ⟨t, t.calculate, ht, hroot, fun e x hat => ?_⟩
  have hone : 1 ≤ x := by
    obtain ⟨level, -, hge, -⟩ := hat
    exact Nat.one_le_two_pow.trans hge
  rw [((SparseMerkleTree.shown_calculate hfree hfresh).shows hat (by omega)).orange, hcollapse e x hat, isNode_collapse]

section Sample
attribute [local instance] unaryHash

/-- With one shard more than `2 ^ 31` the tree is not made. -/
theorem root_sparse_stop : held [(0, 3)] 0 ≠ (magicHash : Nat) ∧ ¬SparseRoot (2 ^ 31 + 1) [(0, (3 : Nat))] := by
  refine ⟨by decide, ?_⟩
  rintro ⟨t, t', ht, -⟩
  rw [filledTree_stop (by decide)] at ht
  cases ht

theorem root_sparse_three : held [(1, 3), (2, 5)] 1 ≠ (magicHash : Nat) ∧ SparseRoot 3 [(1, (3 : Nat)), (2, 5)] := by
  have hheight : alignedHeight 3 = 2 := heightWithoutRoot_eq (by decide)
  have hone : held [(1, 3), (2, 5)] 1 ≠ (magicHash : Nat) := by decide
  refine ⟨hone, (root_sparse_iff ?_ ⟨1, ?_, hone⟩ (MagicFree.noMagicNode unaryHash_ideal.magic fun x => ?_)).2 (by decide)⟩
  · rw [hheight]
    decide
  · rw [hheight]
    decide
  · rw [minedSlots]
    split_ifs with hx
    · simp
    · simpa using hx

end Sample

/-- The calls of a miner for one shard, and the validation of the path. -/
def proveShard (shardsCount : Nat) (sets : List (Nat × H)) (position : Nat) : Except Fault Unit := do
  let tree ← filledTree shardsCount sets
  let (tree, path) ← tree.merkleProofPath position
  let (_, root) ← tree.root
  validateShardMerkleProofPath position shardsCount path (held sets position) root

theorem merkleProofPath_fresh (hmagic : NoMagicNode t.slotHash t.height) (h : Fresh t) {position : Nat}
    (hp : position < 2 ^ t.height) {a : H} (hdata : (t.nodes (2 ^ t.height + position)).data = some a)
    (ha : a ≠ magicHash) : ∃ path root, t.merkleProofPath position = .ok (t.calculate, path) ∧
      t.calculate.root = .ok (t.calculate, root) ∧ path.length = t.height ∧ proofRoot position path a = root := by
  have hslot : collapse pairHash t.slotHash 0 (2 ^ t.height + position) = leaf (some a) := by
    rw [collapse, SparseMerkleTree.slotHash, hdata, Option.filter_some, if_pos (by simpa using ha)]
  have hshown := SparseMerkleTree.shown_calculate hmagic h
  have hne : collapse pairHash t.slotHash 0 (2 ^ t.height + position) ≠ leaf none := by
    rw [hslot]
    simp
  have hroot : collapse pairHash t.slotHash t.height 1 ≠ leaf none := by
    intro hempty
    have := collapse_eq_empty.1 hempty position hp
    rw [Nat.one_mul] at this
    exact hne (by rw [collapse, this])
  obtain ⟨path, hpath, hlen, hpathRoot⟩ := pathData_root hshown rfl hp hne
  obtain ⟨hcalc, hagain⟩ := root_fresh hmagic h hroot
  refine ⟨path, _, ?_, hagain.trans hcalc, hlen, ?_⟩
  · have hnode : (t.nodes (2 ^ t.height + position)).containsData = true := by
      simp [Node.containsData, hdata, ha]
    have hget : t.getNode position = .ok (t.nodes (2 ^ t.height + position)) := by
      simp only [SparseMerkleTree.getNode, ok_rules]
      exact ⟨Nat.not_le.2 hp, rfl⟩
    have hpath' : SparseMerkleTree.pathData t.calculate.nodes t.calculate.height (t.calculate.slotsCount + position) =
        some path := by
      rw [SparseMerkleTree.slotsCount, SparseMerkleTree.height_calculate]
      exact hpath
    simp only [SparseMerkleTree.merkleProofPath, hget, hcalc, ok_rules, exists_eq_left', hnode, hpath',
      Option.some.injEq]
    simp
  · rw [proofRoot_eq_pathRoot, ← hpathRoot, hslot]
    rfl

/-- The path of a shard with a hash is accepted, whatever the other slots hold, exactly if there are at least two
shards and the tree for them can be made. -/
theorem proveShard_iff (hpair : MagicFree H) {n : Nat} (hn : 1 ≤ n) {sets : List (Nat × H)}
    (hsets : ∀ d, heightWithoutRoot n = some d → ∀ set ∈ sets, set.1 < 2 ^ d) {p : Nat} (hp : p < n)
    (hheld : held sets p ≠ magicHash) : proveShard n sets p = .ok () ↔ 2 ≤ n ∧ n ≤ 2 ^ 31 := by
  by_cases hmax : n ≤ 2 ^ 31
  · obtain ⟨d, hd⟩ := heightWithoutRoot_isSome.2 hmax
    obtain ⟨hd1, hnd, hclog⟩ := heightWithoutRoot_some hd
    obtain ⟨t, ht, hfresh, rfl, hslots⟩ := filledTree_ok hd (hsets d hd)
    have hp' : p < 2 ^ t.height := by omega
    obtain ⟨path, root, hpath, hroot, hlen, hproof⟩ := merkleProofPath_fresh (hpair.noMagicNode t.slotHash_ne) hfresh hp'
      (hslots p hp') hheld
    have hverdict : proveShard n sets p = validateShardMerkleProofPath p n path (held sets p) root := by
      simp only [proveShard, ht, hpath, hroot, bind, Except.bind]
    rw [hverdict]
    simp only [validateShardMerkleProofPath, ok_rules, hproof, hlen]
    refine ⟨fun h => ⟨?_, hmax⟩, fun h => ⟨?_, by simp⟩⟩
    · by_contra hlt
      obtain rfl : n = 1 := by omega
      rw [Nat.clog_one_right] at h
      omega
    · have := hclog h.1
      omega
  · refine ⟨fun h => ?_, fun h => absurd h.2 hmax⟩
    simp only [proveShard, filledTree_stop hmax, bind, Except.bind] at h
    cases h

section Sample

/-- The only shard is mined: its path is the magic hash in the other slot, and the validator expects no path. -/
theorem proveShard_single : letI := unaryHash
    held [(0, 3)] 0 ≠ (magicHash : Nat) ∧ proveShard 1 [(0, 3)] 0 ≠ .ok () := by
  let _ := unaryHash
  decide

theorem proveShard_three : letI := unaryHash
    proveShard 3 [(0, 3), (2, 5), (0, 7)] 2 = .ok () := by
  let _ := unaryHash
  refine (proveShard_iff unaryHash_ideal.magic (by decide) (fun d hd => ?_) (by decide) (by decide)).2 (by decide)
  obtain rfl : 2 = d := Option.some.inj ((show heightWithoutRoot 3 = some 2 by decide).symm.trans hd)
  decide

end Sample

end Jaxnetd.MergeMining
