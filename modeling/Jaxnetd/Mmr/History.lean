import Jaxnetd.Lib.Runs
import Jaxnetd.Mmr.TreeInv

/-!
# Histories of the tree

Appends, removals and resets in any order leave a tree that cannot be told from the one built from
the surviving blocks alone.
-/

namespace Jaxnetd.Mmr
open BlocksMMRTree List

variable {H : Type}

/-- A call on the tree: `AppendBlock`, `RmBlock` or `ResetRootTo`. -/
inductive TreeOp (H : Type) where
  | append (hash : H) (difficulty : Int)
  | rm (hash : H) (height : Nat)
  | resetRootTo (hash : H) (height : Nat)
deriving DecidableEq

namespace TreeOp

def appended : TreeOp H → List H
  | append hash _ => [hash]
  | _ => []

def survive (bs : List (Block H)) : TreeOp H → List (Block H)
  | append hash difficulty => bs ++ [(hash, difficulty)]
  | rm _ height => bs.take height
  | resetRootTo _ height => bs.take (height + 1)

/-- `RmBlock` and `ResetRootTo` name a block of the tree by its hash and height. -/
def Names (bs : List (Block H)) : TreeOp H → Prop
  | append _ _ => True
  | rm hash height => (bs.map Prod.fst)[height]? = some hash
  | resetRootTo hash height => (bs.map Prod.fst)[height]? = some hash

instance decidableNames [DecidableEq H] (bs : List (Block H)) : (op : TreeOp H) → Decidable (op.Names bs)
  | append _ _ => isTrue trivial
  | rm hash height => inferInstanceAs (Decidable ((bs.map Prod.fst)[height]? = some hash))
  | resetRootTo hash height => inferInstanceAs (Decidable ((bs.map Prod.fst)[height]? = some hash))

variable [ChainHash H] [DecidableEq H]

def apply (t : BlocksMMRTree H) : TreeOp H → BlocksMMRTree H
  | append hash difficulty => t.appendBlock hash difficulty
  | rm _ height => t.rmBlock height
  | resetRootTo hash height => t.resetRootTo hash height

end TreeOp

variable (ops : List (TreeOp H))

def surviving : List (Block H) := ops.foldl TreeOp.survive []

variable [ChainHash H] [DecidableEq H] {bs : List (Block H)}

def runOps : BlocksMMRTree H := ops.foldl TreeOp.apply newTree

def treeOf (bs : List (Block H)) : BlocksMMRTree H := bs.foldl (fun t b => t.appendBlock b.1 b.2) newTree

/-- What can be read from a tree: `CurrentRoot`, `CurrenWeight`, `Current`, `Block`, `RootForHeight` and
`ActualRootForLeafByHash`. -/
structure SameReads (t t' : BlocksMMRTree H) : Prop where
  currentRoot : t.currentRoot = t'.currentRoot
  currenWeight : t.currenWeight = t'.currenWeight
  current : t.current = t'.current
  block : ∀ height, t.block height = t'.block height
  rootForHeight : ∀ height, t.rootForHeight height = t'.rootForHeight height
  actualRootForLeafByHash : ∀ hash, t.actualRootForLeafByHash hash = t'.actualRootForLeafByHash hash

/-- A history whose appended hashes are pairwise distinct and differ from every inner hash the store
computes, and whose removals and resets name a block then in the tree. -/
structure Legal (ops : List (TreeOp H)) : Prop where
  distinct : (ops.flatMap TreeOp.appended).Nodup
  notInner : ∀ pre, pre <+: ops → ∀ hash ∈ ops.flatMap TreeOp.appended, hash ∉ (runOps pre).store.innerHashes
  names : ∀ pre op, pre ++ [op] <+: ops → op.Names (surviving pre)

theorem Legal.init {ops : List (TreeOp H)} {op : TreeOp H} (h : Legal (ops ++ [op])) : Legal ops where
  distinct := h.distinct.sublist (by rw [flatMap_append]; exact sublist_append_left _ _)
  notInner pre hpre hash hh :=
    h.notInner pre (hpre.trans (prefix_append _ _)) hash (by rw [flatMap_append]; exact mem_append_left _ hh)
  names pre op' hpre := h.names pre op' (hpre.trans (prefix_append _ _))

omit [ChainHash H] [DecidableEq H] in
theorem surviving_subset : ∀ b ∈ surviving ops, b.1 ∈ ops.flatMap TreeOp.appended := by
  induction ops using List.reverseRecOn with
  | nil => simp [surviving]
  | append_singleton ops op ih =>
    intro b hb
    rw [surviving, foldl_concat] at hb
    rw [flatMap_append, mem_append]
    cases op with
    | append hash w =>
      rcases mem_append.1 hb with hb | hb
      · exact .inl (ih b hb)
      · rw [mem_singleton.1 hb]; exact .inr (by simp [TreeOp.appended])
    | rm hash i => exact .inl (ih b (mem_of_mem_take hb))
    | resetRootTo hash i => exact .inl (ih b (mem_of_mem_take hb))

theorem apply_inv {t : BlocksMMRTree H} (h : Inv bs t) {op : TreeOp H}
    (hnew : ∀ hash ∈ op.appended, hash ∉ bs.map Prod.fst) (hinner : ∀ b ∈ bs, b.1 ∉ t.store.innerHashes)
    (hnames : op.Names bs) : Inv (op.survive bs) (op.apply t) := by
  cases op with
  | append hash w => exact h.appendBlock (hnew hash (mem_singleton.2 rfl)) w
  | rm hash i =>
    have hi := (List.getElem?_eq_some_iff.1 hnames).1
    exact h.rmBlock (by simpa using hi) hinner
  | resetRootTo hash i => exact h.resetRootTo hnames hinner

theorem runOps_inv {ops : List (TreeOp H)} (h : Legal ops) : Inv (surviving ops) (runOps ops) := by
  induction ops using List.reverseRecOn with
  | nil => exact newTree_inv
  | append_singleton ops op ih =>
    rw [surviving, runOps, foldl_concat, foldl_concat]
    refine apply_inv (ih h.init) ?_ ?_ (h.names ops op prefix_rfl)
    · intro hash hh hmem
      obtain ⟨b, hb, rfl⟩ := mem_map.1 hmem
      have hd := h.distinct
      rw [flatMap_append, nodup_append] at hd
      exact hd.2.2 _ (surviving_subset ops b hb) b.1 (by simpa using hh) rfl
    · intro b hb
      refine h.notInner ops (prefix_append _ _) b.1 ?_
      rw [flatMap_append]
      exact mem_append_left _ (surviving_subset ops b hb)

theorem treeOf_inv (h : (bs.map Prod.fst).Nodup) : Inv bs (treeOf bs) := by
  induction bs using List.reverseRecOn with
  | nil => exact newTree_inv
  | append_singleton bs b ih =>
    rw [map_append, nodup_append] at h
    rw [treeOf, foldl_concat]
    exact (ih h.1).appendBlock (fun hm => h.2.2 _ hm b.1 (by simp) rfl) b.2

omit [DecidableEq H] in
theorem BlocksMMRTree.Inv.sameReads {t t' : BlocksMMRTree H} (h : Inv bs t) (h' : Inv bs t') : SameReads t t' := by
  have hroots (i : Nat) : t.heightToRoot.get i = t'.heightToRoot.get i := by rw [h.roots, h'.roots]
  obtain ⟨k, full, hs⟩ := h.store
  obtain ⟨k', full', hs'⟩ := h'.store
  refine ⟨?_, ?_, ?_, fun i => ?_, fun i => ?_, fun hash => ?_⟩
  · rw [currentRoot, currentRoot, h.root, h'.root]
  · rw [currenWeight, currenWeight, h.weight, h'.weight]
  · rw [current, current, h.last, h'.last]
  · rw [block, block, hs.cell_zero, hs'.cell_zero]
  · rw [rootForHeight, rootForHeight, hroots]
  · have hh : t.hashToHeight.get hash = t'.hashToHeight.get hash :=
      Option.ext fun i => by rw [h.hashes, h'.hashes]
    simp only [actualRootForLeafByHash, hh, hroots]

/-- Any legal history reads as the tree of its surviving blocks. -/
theorem runOps_reads (ops : List (TreeOp H)) (h : Legal ops) : SameReads (runOps ops) (treeOf (surviving ops)) :=
  (runOps_inv h).sameReads (treeOf_inv (runOps_inv h).nodup)

def sampleOps : List (TreeOp Nat) :=
  [.append 1 5, .append 2 7, .append 3 9, .rm 2 1, .append 4 2, .append 5 3, .resetRootTo 4 1]

theorem runOps_reads_sample : letI := sumHash
    Legal sampleOps ∧ SameReads (runOps sampleOps) (treeOf [(1, 5), (4, 2)]) := by
  let _ := sumHash
  have hl : Legal sampleOps := by
    refine ⟨by decide, fun pre hpre => ?_, fun pre op hpre => ?_⟩
    · have hall : ∀ pre ∈ sampleOps.inits, ∀ hash ∈ sampleOps.flatMap TreeOp.appended,
          hash ∉ (runOps pre).store.innerHashes := by decide
      exact hall pre ((mem_inits _ _).2 hpre)
    · have hall : ∀ pre ∈ sampleOps.inits, ∀ op ∈ sampleOps[pre.length]?, op.Names (surviving pre) := by decide
      obtain ⟨h1, h2⟩ := Runs.mem_of_concat_prefix hpre
      exact hall pre h1 op h2
  exact ⟨hl, runOps_reads sampleOps hl⟩

end Jaxnetd.Mmr
