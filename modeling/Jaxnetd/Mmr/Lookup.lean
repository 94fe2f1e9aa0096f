import Jaxnetd.Mmr.History
import Jaxnetd.Mmr.Quick

/-!
# Looking blocks up in the tree

`LookupNodeByRoot` and `LeafByHash` read a height from a map and then return what `getNode` says about the leaf at that
height: the leaf and its final flag. No call ever sets the flag of a leaf, so neither lookup finds anything, in any
history. The tests of the store build their leaves with the flag set.
-/

namespace Jaxnetd.Mmr
open BlocksMMRTree List

variable {H : Type}

namespace TreeStore

variable {s : TreeStore H}

theorem LeavesOpen.of_row (h : LeavesOpen s) {s' : TreeStore H} (hrow : s'.row 0 = s.row 0) : LeavesOpen s' := by
  intro i
  rw [cell, hrow]
  exact h i

theorem row_zero_calcLevels [ChainHash H] (cur : List (Cell H)) (rest : List (List (Cell H))) (root : Cell H) :
    (calcLevels cur rest root).1.getD 0 [] = cur := by
  cases rest <;> rfl

theorem row_zero_calcRoot [ChainHash H] (s : TreeStore H) : s.calcRoot.1.row 0 = s.row 0 := by
  unfold calcRoot
  split
  · rfl
  · obtain ⟨_ | ⟨r, rows⟩⟩ := s <;> rfl
  · obtain ⟨_ | ⟨r, rows⟩⟩ := s
    · rfl
    · exact row_zero_calcLevels r rows none

theorem LeavesOpen.dropNodeFromTree (h : LeavesOpen s) (index : Nat) : LeavesOpen (s.dropNodeFromTree 0 index).2 := by
  intro i
  obtain ⟨_ | ⟨r, rows⟩⟩ := s
  · rfl
  · have hi := h i
    simp only [cell, row, getD_eq_getElem?_getD, TreeStore.dropNodeFromTree, dropRows, take_zero, drop_zero,
      nil_append, getElem?_cons_zero, Option.getD_some] at hi ⊢
    rw [getElem?_append, getElem?_take, getElem?_replicate]
    split
    · split
      · exact hi
      · rfl
    · split <;> rfl

end TreeStore

open TreeStore

variable [ChainHash H] [DecidableEq H] {t : BlocksMMRTree H}

omit [ChainHash H] in
theorem foldl_forget_store (D : List (Cell H)) (t : BlocksMMRTree H) : (D.foldl forget t).store = t.store := by
  induction D generalizing t with
  | nil => rfl
  | cons c D ih =>
    rw [foldl_cons, ih]
    unfold forget
    split
    · rfl
    · dsimp only
      split <;> split <;> rfl

theorem leavesOpen_rmBlock (h : LeavesOpen t.store) (height : Nat) : LeavesOpen (t.rmBlock height).store := by
  unfold rmBlock
  split
  · exact h
  · have hdrop := h.dropNodeFromTree height
    split
    all_goals
      rw [foldl_forget_store]
      exact hdrop

theorem leavesOpen_apply (h : LeavesOpen t.store) (op : TreeOp H) : LeavesOpen (op.apply t).store := by
  cases op with
  | append hash difficulty =>
    show LeavesOpen (t.appendBlock hash difficulty).store
    unfold appendBlock
    split
    · exact h
    · exact (h.appendLeaf _ rfl).of_row (row_zero_calcRoot _)
  | rm hash height => exact leavesOpen_rmBlock h height
  | resetRootTo hash height =>
    show LeavesOpen (t.resetRootTo hash height).store
    unfold resetRootTo
    split
    · exact h
    · exact leavesOpen_rmBlock h (height + 1)

theorem leavesOpen_runOps (ops : List (TreeOp H)) : LeavesOpen (runOps ops : BlocksMMRTree H).store := by
  induction ops using reverseRecOn with
  | nil =>
    obtain ⟨k, full, hstore⟩ := (newTree_inv : Inv [] (newTree : BlocksMMRTree H)).store
    exact hstore.leavesOpen
  | append_singleton ops op ih =>
    rw [runOps, foldl_concat]
    exact leavesOpen_apply ih op

/-- The blocks that stand after a call that may name any block: a known hash is not appended again, and a reset to an
unknown one does nothing. -/
def TreeOp.leave (bs : List (Block H)) : TreeOp H → List (Block H)
  | append hash difficulty => if hash ∈ bs.map Prod.fst then bs else bs ++ [(hash, difficulty)]
  | rm _ height => bs.take height
  | resetRootTo hash height => if hash ∈ bs.map Prod.fst then bs.take (height + 1) else bs

def standing (ops : List (TreeOp H)) : List (Block H) := ops.foldl TreeOp.leave []

/-- `LookupNodeByRoot` of a root reports the leaf of the block at a height exactly where the root is that of the blocks up
to this height. -/
def LookupExact (t : BlocksMMRTree H) (bs : List (Block H)) (root : H) : Prop :=
  ∀ height, (∃ leaf, (leafNodes bs)[height]? = some leaf ∧ t.lookupNodeByRoot root = (some leaf, true)) ↔
    height < bs.length ∧ root = mmrRoot (leafNodes (bs.take (height + 1)))

def LeafExact (t : BlocksMMRTree H) (bs : List (Block H)) (hash : H) : Prop :=
  (∃ leaf ∈ leafNodes bs, leaf.hash = hash ∧ t.leafByHash hash = (some leaf, true)) ↔ hash ∈ bs.map Prod.fst

omit [DecidableEq H] in
theorem not_found (h : LeavesOpen t.store) (hash : H) :
    (t.lookupNodeByRoot hash).2 = false ∧ (t.leafByHash hash).2 = false := by
  constructor
  · unfold lookupNodeByRoot
    split
    · rfl
    · exact h _
  · unfold leafByHash
    split
    · rfl
    · exact h _

/-- The lookups are right just where there is nothing to be found. -/
theorem lookups_exact_iff (ops : List (TreeOp H)) : (∀ root, LookupExact (runOps ops) (standing ops) root ↔
      ∀ height < (standing ops).length, root ≠ mmrRoot (leafNodes ((standing ops).take (height + 1)))) ∧
    ∀ hash, LeafExact (runOps ops) (standing ops) hash ↔ hash ∉ (standing ops).map Prod.fst := by
  have hopen := not_found (leavesOpen_runOps ops)
  constructor
  · intro root
    have hnone : ∀ leaf, (runOps ops).lookupNodeByRoot root ≠ (some leaf, true) := fun leaf heq => by
      have hfound := (hopen root).1
      rw [heq] at hfound
      cases hfound
    simp [LookupExact, hnone]
  · intro hash
    have hnone : ∀ leaf, (runOps ops).leafByHash hash ≠ (some leaf, true) := fun leaf heq => by
      have hfound := (hopen hash).2
      rw [heq] at hfound
      cases hfound
    simp [LeafExact, hnone]

/-- One block: neither its root nor its hash is found. -/
theorem lookups_of_one_block : letI := sumHash
    standing [TreeOp.append 1 5] = [((1 : Nat), 5)] ∧ (runOps [TreeOp.append (1 : Nat) 5]).currentRoot = 1 ∧
      ((runOps [TreeOp.append (1 : Nat) 5]).lookupNodeByRoot 1) = (some ⟨1, 5, 0, false⟩, false) ∧
      ((runOps [TreeOp.append (1 : Nat) 5]).leafByHash 1) = (some ⟨1, 5, 0, false⟩, false) := by
  let _ := sumHash
  exact ⟨by decide, by decide, by decide, by decide⟩

end Jaxnetd.Mmr
