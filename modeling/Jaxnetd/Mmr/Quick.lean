import Jaxnetd.Mmr.Container

/-!
# Package `mmr`: adding blocks without a rebuild (`tree.go`, `container.go`)

When a chain is loaded, the tree is allocated once, the blocks are added with the roots stored for
them, and the root over all leaves is computed only at the end and compared with the last stored one.
-/

namespace Jaxnetd.Mmr
open PairLevels List Nat

variable {H : Type} [ChainHash H] [DecidableEq H]

namespace BlocksMMRTree

omit [DecidableEq H] in
def preAllocateTree (t : BlocksMMRTree H) (blockCount : Nat) : BlocksMMRTree H :=
  { t with store := .new blockCount, rootToHeight := .empty, hashToHeight := .empty }

/-- `RebuildTreeAndAssert`: the tree with its inner nodes, or `none` when its root is not the computed one. -/
def rebuildTreeAndAssert (t : BlocksMMRTree H) : Option (BlocksMMRTree H) :=
  let built := (t.store.appendLeaf t.lastNode.height t.lastNode).calcRoot
  if t.rootHash = hashOf built.2 then some { t with store := built.1 } else none

end BlocksMMRTree

/-! ## A store with leaves only -/

variable {n : Nat} {x : TreeNode H}

namespace TreeStore

theorem nextPowerOfTwo_eq (hn : 0 < n) : nextPowerOfTwo n = 2 ^ clog 2 n := by
  have hlo : 2 ^ log2 n ≤ n := log2_self_le (by omega)
  have hhi : n < 2 ^ (log2 n + 1) := lt_log2_self
  unfold nextPowerOfTwo
  rcases eq_or_lt_of_le hlo with heq | hlt
  · -- a power of two passes the test
    have hand : n &&& (n - 1) = 0 := by
      conv_lhs => rw [← heq]
      rw [and_two_pow_sub_one_eq_mod, mod_self]
    rw [if_pos hand, ← heq, clog_pow 2 _ (by omega)]
  · -- otherwise both numbers have the top bit
    have htop (m : Nat) (h1 : 2 ^ log2 n ≤ m) (h2 : m < 2 ^ (log2 n + 1)) : m.testBit (log2 n) = true := by
      obtain ⟨r, rfl⟩ := Nat.exists_eq_add_of_le h1
      rw [Nat.testBit_two_pow_add_eq, Nat.testBit_lt_two_pow (by omega)]
      rfl
    have hand : n &&& (n - 1) ≠ 0 := by
      intro hand
      have hbit := congrArg (testBit · (log2 n)) hand
      simp [testBit_and, htop n hlo hhi, htop (n - 1) (by omega) (by omega)] at hbit
    rw [if_neg hand]
    congr 1
    exact le_antisymm ((lt_clog_iff_pow_lt (by omega)).2 hlt) (clog_le_of_le_pow hhi.le)

structure Bare (k : Nat) (L : List (TreeNode H)) (s : TreeStore H) : Prop where
  cap : L.length ≤ 2 ^ k
  noFinal : NoFinal L
  len : s.nodes.length = k + 1
  leaves : s.row 0 = pad (2 ^ k) L
  inner : ∀ l < k, s.row (l + 1) = pad (2 ^ (k - 1 - l)) []

variable {k : Nat} {L : List (TreeNode H)} {s : TreeStore H}

section
omit [ChainHash H] [DecidableEq H]

theorem bare_new (hn : 0 < n) : ∃ k, n ≤ 2 ^ k ∧ Bare k [] (.new n : TreeStore H) := by
  obtain ⟨k, hk, hle⟩ : ∃ k, nextPowerOfTwo n = 2 ^ k ∧ n ≤ 2 ^ k := ⟨_, nextPowerOfTwo_eq hn, le_pow_clog (by omega) n⟩
  have hrow (i : Nat) (hi : i ≤ k) : (.new n : TreeStore H).row i = pad (2 ^ (k - i)) [] := by
    have hlt : i < k + 1 := by omega
    simp [new, row, getD_eq_getElem?_getD, hk, hlt, Nat.pow_div hi, pad]
  refine ⟨k, hle, by simp, by simp [NoFinal], by simp [new, hk], hrow 0 (by omega), fun l hl => ?_⟩
  rw [hrow (l + 1) (by omega), Nat.sub_sub, Nat.add_comm 1]

theorem Bare.appendLeaf (h : Bare k L s) (hx : x.final = false) (hlt : L.length < 2 ^ k) :
    Bare k (L ++ [x]) (s.appendLeaf L.length x) := by
  have hspace : L.length + 1 ≤ (s.row 0).length := by rw [h.leaves, length_pad h.cap]; omega
  rw [TreeStore.appendLeaf, if_pos hspace]
  exact {
    cap := by rw [length_append]; exact hlt
    noFinal := NoFinal.append h.noFinal hx
    len := by simp [setLeaf, h.len]
    leaves := by rw [row_setLeaf_zero, h.leaves, set_pad x hlt]
    inner := fun l hl => by rw [row_setLeaf_succ, h.inner l hl] }

theorem appendLeaf_same {i : Nat} (h : s.cell 0 i = some x) : s.appendLeaf i x = s := by
  have hget : (s.row 0)[i]? = some (some x) := by
    rw [cell, getD_eq_getElem?_getD] at h
    cases hi : (s.row 0)[i]? with
    | none => rw [hi] at h; cases h
    | some c => rw [hi] at h; exact congrArg some h
  have hlt := (List.getElem?_eq_some_iff.1 hget).1
  rw [TreeStore.appendLeaf, if_pos (by omega)]
  obtain ⟨nodes⟩ := s
  cases nodes with
  | nil => cases hget
  | cons r rest =>
    have hset : r.set i (some x) = r := by
      apply ext_getElem?
      intro j
      rw [getElem?_set]
      split
      next heq =>
        subst heq
        rw [if_pos (show i < r.length from hlt)]
        exact hget.symm
      next => rfl
    simp [setLeaf, hset]

end

omit [DecidableEq H] in
theorem Bare.holds (h : Bare k L s) : Holds k L (Within L) s :=
  ⟨h.cap, h.noFinal, h.len, h.leaves, fun l hl => ⟨[], h.inner l hl, zero_le _, by simp⟩⟩

end TreeStore

/-! ## A loaded tree -/

namespace BlocksMMRTree
open TreeStore

/-- A tree to which the blocks `bs` were added without a rebuild, the last one with the root `root`. -/
structure Loaded (k : Nat) (bs : List (Block H)) (root : H) (t : BlocksMMRTree H) : Prop where
  store : Bare k (leafNodes bs) t.store
  root : t.currentRoot = root
  weight : t.currenWeight = (bs.map Prod.snd).sum
  last : t.lastNode = (leafNodes bs).getLast?.getD .zero

variable {k : Nat} {bs : List (Block H)} {t : BlocksMMRTree H} {root : H}

omit [DecidableEq H] in
theorem loaded_preAllocateTree (hn : 0 < n) :
    ∃ k, n ≤ 2 ^ k ∧ Loaded k [] ChainHash.zeroHash ((newTree : BlocksMMRTree H).preAllocateTree n) := by
  obtain ⟨k, hle, hbare⟩ := bare_new (H := H) hn
  exact ⟨k, hle, hbare, rfl, rfl, rfl⟩

theorem Loaded.add (h : Loaded k bs root t) (hash root' : H) (weight : Int) {height : Nat} (hheight : height = bs.length)
    (hlt : bs.length < 2 ^ k) :
    Loaded k (bs ++ [(hash, weight)]) root' (t.addBlockWithoutRebuild hash root' height weight) := by
  subst hheight
  have hadd := h.store.appendLeaf (x := ⟨hash, weight, bs.length, false⟩) rfl (by rwa [length_leafNodes])
  rw [length_leafNodes, ← leafNodes_append bs (hash, weight)] at hadd
  refine ⟨hadd, rfl, ?_, by simp [leafNodes_append, addBlockWithoutRebuild]⟩
  have hweight := h.weight
  simp only [currenWeight] at hweight
  simp [addBlockWithoutRebuild, currenWeight, hweight]

section
variable (hstore : Holds k (leafNodes bs) (Within (leafNodes bs)) t.store) (hne : bs ≠ [])
  (hlast : t.lastNode = (leafNodes bs).getLast?.getD .zero)
include hstore hne hlast

theorem rebuild_eq : t.rebuildTreeAndAssert =
      if t.currentRoot = mmrRoot (leafNodes bs) then some { t with store := t.store.calcRoot.1 } else none := by
  have hcell : t.store.cell 0 t.lastNode.height = some t.lastNode := by
    obtain ⟨bs, b, rfl⟩ : ∃ bs' b, bs = bs' ++ [b] := ⟨_, _, (dropLast_concat_getLast hne).symm⟩
    have hnode : t.lastNode = ⟨b.1, b.2, bs.length, false⟩ := by rw [hlast, leafNodes_append]; simp
    rw [cell, hstore.leaves, getD_pad, hnode, getElem?_leafNodes]
    simp
  have hcalc := (calcRoot_holds hstore (by simpa [← length_pos_iff] using hne)).2
  unfold rebuildTreeAndAssert
  simp only [appendLeaf_same hcell, hcalc]
  rfl

theorem rebuild_of_holds (hroot : t.currentRoot = mmrRoot (leafNodes bs)) :
    ∃ store, t.rebuildTreeAndAssert = some { t with store } :=
  ⟨_, by rw [rebuild_eq hstore hne hlast, if_pos hroot]⟩

end

theorem Loaded.rebuild (h : Loaded k bs (mmrRoot (leafNodes bs)) t) (hne : bs ≠ []) :
    ∃ store, t.rebuildTreeAndAssert = some { t with store } :=
  rebuild_of_holds h.store.holds hne h.last h.root

theorem Inv.rebuild (h : Inv bs t) (hne : bs ≠ []) : ∃ store, t.rebuildTreeAndAssert = some { t with store } := by
  obtain ⟨k, full, hstore⟩ := h.store
  refine rebuild_of_holds (hstore.mono fun l N hcut => ?_) hne h.last h.root
  simpa [Within] using hcut.part.length_le

end BlocksMMRTree

/-! ## Setting a node over leaves not final

`LookupNodeByRoot` reports a node only when its leaf is final, and no leaf ever is. So a node that does not
come next has its whole chain added again. -/

namespace TreeStore

variable {s : TreeStore H}

def LeavesOpen (s : TreeStore H) : Prop := ∀ i, isFinal (s.cell 0 i) = false

section
omit [ChainHash H] [DecidableEq H]

theorem row_zero_allocate (s : TreeStore H) : ∃ n, s.allocate.row 0 = s.row 0 ++ List.replicate n none := by
  unfold allocate
  dsimp only
  split
  · exact ⟨0, by simp⟩
  · obtain ⟨_ | ⟨r, rows⟩⟩ := s
    · rw [row, getD_eq_getElem?_getD, getElem?_mapIdx, nil_append, getElem?_replicate]
      split
      · exact ⟨_, rfl⟩
      · exact ⟨0, rfl⟩
    · rw [row, cons_append, mapIdx_cons]
      exact ⟨_, rfl⟩

theorem LeavesOpen.setLeaf (h : LeavesOpen s) (index : Nat) (hx : x.final = false) :
    LeavesOpen (s.setLeaf index x) := by
  intro i
  have hi := h i
  rw [cell, getD_eq_getElem?_getD] at hi ⊢
  rw [row_setLeaf_zero, getElem?_set]
  split
  · split
    · exact hx
    · rfl
  · exact hi

theorem LeavesOpen.appendLeaf (h : LeavesOpen s) (index : Nat) (hx : x.final = false) :
    LeavesOpen (s.appendLeaf index x) := by
  unfold TreeStore.appendLeaf
  split
  · exact h.setLeaf index hx
  · refine LeavesOpen.setLeaf (fun i => ?_) index hx
    have hi := h i
    obtain ⟨n, hrow⟩ := row_zero_allocate s
    rw [cell, getD_eq_getElem?_getD] at hi ⊢
    rw [hrow, getElem?_append]
    split
    · exact hi
    · rw [getElem?_replicate]
      split <;> rfl

end

omit [DecidableEq H] in
theorem Holds.leavesOpen {k : Nat} {L : List (TreeNode H)} {P : Nat → List (TreeNode H) → Prop}
    (h : Holds k L P s) : LeavesOpen s := by
  intro i
  rw [cell, h.leaves, getD_pad]
  cases hi : L[i]? with
  | none => rfl
  | some n => exact h.noFinal n (mem_of_getElem? hi)

end TreeStore

namespace TreeContainer
open TreeStore

variable {c : TreeContainer H} {node : BlockNode H}

theorem walkBack_open (h : LeavesOpen c.tree.store) (node : BlockNode H) (root : H) (lifo : List (PendingNode H)) :
    c.walkBack node root lifo = some (lifo ++ node.chain.reverse.map c.pending, c.tree) := by
  have hlookup (root : H) : (c.tree.lookupNodeByRoot root).2 = false := by
    unfold BlocksMMRTree.lookupNodeByRoot
    split
    · rfl
    · exact h _
  induction node generalizing root lifo with
  | root d =>
    have hl := hlookup root
    unfold walkBack
    split
    next heq => rw [heq] at hl; cases hl
    next => rfl
  | child d p ih =>
    have hl := hlookup root
    unfold walkBack
    split
    next heq => rw [heq] at hl; cases hl
    next =>
      dsimp only
      rw [ih]
      simp [BlockNode.chain]

theorem setNode_open (h : LeavesOpen c.tree.store) (hprev : node.prevMMRRoot ≠ c.tree.currentRoot)
    (hroot : ∀ d, node = .root d → d.height = 0) : c.setNodeToMmrWithReorganization node =
      (true, (node.chain.map c.pending).foldl (addPending node) c) := by
  unfold setNodeToMmrWithReorganization
  rw [if_neg hprev]
  cases node with
  | root d =>
    have hheight := hroot d rfl
    simp [hheight, BlockNode.chain]
  | child d p => simp [walkBack_open h, BlockNode.chain]

theorem foldl_addPending (h : LeavesOpen c.tree.store) {ps : List (PendingNode H)} (hne : ps ≠ [])
    (hps : ∀ p ∈ ps, p.actualMMRRoot ≠ ChainHash.zeroHash) : let c' := ps.foldl (addPending node) c
    c'.actualMMRRoot = c.actualMMRRoot ∧ LeavesOpen c'.tree.store ∧
      c'.tree.currentRoot = (ps.getLast hne).actualMMRRoot := by
  induction ps generalizing c with
  | nil => exact absurd rfl hne
  | cons p ps ih =>
    have hstep : addPending node c p = { c with
        tree := c.tree.addBlockWithoutRebuild p.hash p.actualMMRRoot c.tree.nextHeight p.weight
        rootToBlock := c.rootToBlock.set p.actualMMRRoot p.hash } := by
      rw [addPending, if_neg (hps p (by simp))]
    have hopen : LeavesOpen (addPending node c p).tree.store := by
      rw [hstep]
      exact h.appendLeaf _ rfl
    rw [foldl_cons]
    cases ps with
    | nil =>
      refine ⟨by rw [hstep]; rfl, hopen, ?_⟩
      rw [hstep]
      rfl
    | cons q ps =>
      have htail := ih hopen (by simp) fun p hp => hps p (mem_cons_of_mem _ hp)
      refine ⟨htail.1.trans (by rw [hstep]), htail.2.1, ?_⟩
      exact htail.2.2

theorem actual_setNode (c : TreeContainer H) (node : BlockNode H) {hash : H} (hne : hash ≠ node.getHash) :
    (c.setNodeToMmrWithReorganization node).2.actualMMRRoot.get hash = c.actualMMRRoot.get hash := by
  have hpush (c : TreeContainer H) (h : H) (w : Int) :
      (c.push node h w).actualMMRRoot.get hash = c.actualMMRRoot.get hash := GoMap.get_set_ne _ _ hne
  have hfold (ps : List (PendingNode H)) (c : TreeContainer H) :
      (ps.foldl (addPending node) c).actualMMRRoot.get hash = c.actualMMRRoot.get hash := by
    induction ps generalizing c with
    | nil => rfl
    | cons p ps ih =>
      rw [foldl_cons, ih]
      unfold addPending
      split
      · exact hpush ..
      · rfl
  unfold setNodeToMmrWithReorganization
  split
  · exact hpush ..
  · dsimp only
    split
    · rfl
    · exact hfold _ _

end TreeContainer

end Jaxnetd.Mmr
