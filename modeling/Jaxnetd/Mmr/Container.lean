import Jaxnetd.Lib.Runs
import Jaxnetd.Mmr.TreeInv

/-!
# Package `mmr`: the tree container (`container.go`)

`SetNodeToMmrWithReorganization` either appends a block node to the tree, when the node's
`PrevMMRRoot` is the current root, or walks back through the parents to the fork point, cuts the
tree there and adds the branch. The actual MMR root of a block node is mutable; here it is a map
from block hashes, with the zero hash for a node never set.
-/

namespace Jaxnetd.Mmr
open List

structure NodeData (H : Type) where
  hash : H
  prevMMRRoot : H
  height : Nat
  powWeight : Int
deriving DecidableEq

/-- `IBlockNode`: a node without or with a parent. -/
inductive BlockNode (H : Type) where
  | root (data : NodeData H)
  | child (data : NodeData H) (parent : BlockNode H)
deriving DecidableEq

namespace BlockNode
variable {H : Type}

def data : BlockNode H → NodeData H
  | root d => d
  | child d _ => d

def parent : BlockNode H → Option (BlockNode H)
  | root _ => none
  | child _ p => some p

variable (node : BlockNode H)

def getHash : H := node.data.hash

def prevMMRRoot : H := node.data.prevMMRRoot

def height : Nat := node.data.height

def powWeight : Int := node.data.powWeight

def chain : BlockNode H → List (BlockNode H)
  | root d => [root d]
  | child d p => p.chain ++ [child d p]

end BlockNode

/-- `TreeContainer`, with the actual MMR roots of the block nodes. -/
structure TreeContainer (H : Type) where
  tree : BlocksMMRTree H
  rootToBlock : GoMap H H
  actualMMRRoot : GoMap H H

structure PendingNode (H : Type) where
  hash : H
  weight : Int
  actualMMRRoot : H

namespace TreeContainer
variable {H : Type} [ChainHash H] (c : TreeContainer H) (node : BlockNode H)

def actualOf : H :=
  (c.actualMMRRoot.get node.getHash).getD ChainHash.zeroHash

def pending : PendingNode H :=
  ⟨node.getHash, node.powWeight, c.actualOf node⟩

variable [DecidableEq H]

def new : TreeContainer H := ⟨newTree, .empty, .empty⟩

variable (blockNode : BlockNode H)

/-- The good case: `AppendBlock` and the new root recorded for `blockNode`. -/
def push (hash : H) (weight : Int) : TreeContainer H :=
  let tree := c.tree.appendBlock hash weight
  { tree
    rootToBlock := c.rootToBlock.set tree.currentRoot hash
    actualMMRRoot := c.actualMMRRoot.set blockNode.getHash tree.currentRoot }

/-- The loop over the parents: the nodes to add and the tree cut at the fork point, or `none` when the
lookup finds another block. -/
def walkBack (c : TreeContainer H) : BlockNode H → H → List (PendingNode H) →
    Option (List (PendingNode H) × BlocksMMRTree H)
  | iterNode, iterMMRRoot, lifoToAdd =>
    match c.tree.lookupNodeByRoot iterMMRRoot with
    | (some bNode, true) =>
      if bNode.hash ≠ iterNode.getHash ∨ iterNode.height ≠ bNode.height then none
      else some (lifoToAdd, c.tree.resetRootTo bNode.hash bNode.height)
    | _ =>
      let lifoToAdd := lifoToAdd ++ [c.pending iterNode]
      match iterNode with
      | .root _ => some (lifoToAdd, c.tree)
      | .child d parent => walkBack c parent d.prevMMRRoot lifoToAdd

/-- One turn of the loop that adds the branch. -/
def addPending (c : TreeContainer H) (bNode : PendingNode H) : TreeContainer H :=
  if bNode.actualMMRRoot = ChainHash.zeroHash then c.push blockNode bNode.hash bNode.weight
  else
    { c with
      tree := c.tree.addBlockWithoutRebuild bNode.hash bNode.actualMMRRoot c.tree.nextHeight bNode.weight
      rootToBlock := c.rootToBlock.set bNode.actualMMRRoot bNode.hash }

def setNodeToMmrWithReorganization : Bool × TreeContainer H :=
  if blockNode.prevMMRRoot = c.tree.currentRoot then
    (true, c.push blockNode blockNode.getHash blockNode.powWeight)
  else
    let lifoToAdd := [c.pending blockNode]
    let walked := match blockNode with
      | .root d => if d.height > 0 then none else some (lifoToAdd, c.tree)
      | .child d parent => c.walkBack parent d.prevMMRRoot lifoToAdd
    match walked with
    | none => (false, c)
    | some (lifoToAdd, tree) => (true, lifoToAdd.reverse.foldl (addPending blockNode) { c with tree })

end TreeContainer

namespace BlockNode
variable {H : Type} (node : BlockNode H)

def blocks : List (Block H) := node.chain.map fun n => (n.getHash, n.powWeight)

theorem chain_length_pos : 0 < node.chain.length := by
  cases node <;> simp [chain]

theorem length_chain_le {m node : BlockNode H} (h : m ∈ node.chain) : m.chain.length ≤ node.chain.length := by
  induction node with
  | root d => simp only [chain, mem_singleton] at h; rw [h]
  | child d p ih =>
    rcases mem_append.1 h with h | h
    · exact Nat.le_trans (ih h) (by simp [chain])
    · rw [mem_singleton.1 h]

theorem blocks_child (d : NodeData H) (p : BlockNode H) : (child d p).blocks = p.blocks ++ [(d.hash, d.powWeight)] := by
  simp [blocks, chain]; exact ⟨rfl, rfl⟩

end BlockNode

open BlocksMMRTree TreeStore

/-- A tree of block nodes: with a node its parent is in it, nodes are told apart by their hashes, heights
count from genesis, and `PrevMMRRoot` is the root over the parent's chain, zero at genesis. -/
structure NodeTree {H : Type} [ChainHash H] (S : Set (BlockNode H)) : Prop where
  parent : ∀ d p, BlockNode.child d p ∈ S → p ∈ S
  hash_inj : ∀ n ∈ S, ∀ m ∈ S, n.getHash = m.getHash → n = m
  height : ∀ n ∈ S, n.height + 1 = n.chain.length
  prev_root : ∀ d, BlockNode.root d ∈ S → d.prevMMRRoot = ChainHash.zeroHash
  prev_child : ∀ d p, BlockNode.child d p ∈ S → d.prevMMRRoot = mmrRoot (leafNodes p.blocks)

namespace NodeTree
variable {H : Type} [ChainHash H] {S : Set (BlockNode H)}

theorem chain_subset (hS : NodeTree S) {node : BlockNode H} (h : node ∈ S) : ∀ m ∈ node.chain, m ∈ S := by
  induction node with
  | root d => intro m hm; rw [mem_singleton.1 hm]; exact h
  | child d p ih =>
    intro m hm
    rcases mem_append.1 hm with hm | hm
    · exact ih (hS.parent d p h) m hm
    · rw [mem_singleton.1 hm]; exact h

theorem hash_not_mem (hS : NodeTree S) {d : NodeData H} {p : BlockNode H} (h : BlockNode.child d p ∈ S) :
    d.hash ∉ p.blocks.map Prod.fst := by
  intro hm
  simp only [BlockNode.blocks, map_map, mem_map] at hm
  obtain ⟨m, hmem, he⟩ := hm
  have hmS := hS.chain_subset (hS.parent d p h) m hmem
  have heq := hS.hash_inj m hmS _ h he
  have hle := BlockNode.length_chain_le hmem
  rw [heq, BlockNode.chain, length_append, length_singleton] at hle
  omega

end NodeTree

namespace TreeContainer
variable {H : Type} [ChainHash H] (c : TreeContainer H)

def tip : Option H := if c.tree.nextHeight = 0 then none else some c.tree.current.hash

/-- The node comes next: its parent is the last leaf, or it is a genesis and the container is empty. -/
def Extends (node : BlockNode H) : Prop := c.tip = node.parent.map BlockNode.getHash

/-- The container holds exactly the chain from genesis to the node. -/
structure HoldsChain (c : TreeContainer H) (node : BlockNode H) : Prop where
  leaf : ∀ height, c.tree.store.cell 0 height =
    node.chain[height]?.map fun ancestor => ⟨ancestor.getHash, ancestor.powWeight, height, false⟩
  weight : c.tree.currenWeight = (node.chain.map BlockNode.powWeight).sum
  root : c.tree.currentRoot = mmrRoot (leafNodes node.blocks)
  actual : c.actualOf node = c.tree.currentRoot

variable [DecidableEq H] {c : TreeContainer H} {node : BlockNode H}

instance (c : TreeContainer H) (node : BlockNode H) : Decidable (c.Extends node) :=
  inferInstanceAs (Decidable (c.tip = _))

def after (calls : List (BlockNode H)) : TreeContainer H :=
  calls.foldl (fun c node => (c.setNodeToMmrWithReorganization node).2) new

theorem after_concat (calls : List (BlockNode H)) (node : BlockNode H) :
    after (calls ++ [node]) = ((after calls).setNodeToMmrWithReorganization node).2 := by
  rw [after, foldl_concat]; rfl

theorem setNode_of_prev (h : node.prevMMRRoot = c.tree.currentRoot) :
    c.setNodeToMmrWithReorganization node = (true, c.push node node.getHash node.powWeight) := by
  simp [setNodeToMmrWithReorganization, h]

theorem setNode_false
    (h : (c.setNodeToMmrWithReorganization node).1 = false) : (c.setNodeToMmrWithReorganization node).2 = c := by
  unfold setNodeToMmrWithReorganization at h ⊢
  split at h
  · cases h
  · rename_i hp
    rw [if_neg hp]
    dsimp only at h ⊢
    split at h
    · rfl
    · cases h

theorem isSome_addPending {root : H} (blockNode : BlockNode H) (bNode : PendingNode H)
    (h : (c.rootToBlock.get root).isSome) : ((c.addPending blockNode bNode).rootToBlock.get root).isSome := by
  unfold addPending
  split
  · exact GoMap.isSome_set _ _ h
  · exact GoMap.isSome_set _ _ h

theorem isSome_setNode {root : H} (blockNode : BlockNode H) (h : (c.rootToBlock.get root).isSome) :
    ((c.setNodeToMmrWithReorganization blockNode).2.rootToBlock.get root).isSome := by
  unfold setNodeToMmrWithReorganization
  split
  · exact GoMap.isSome_set _ _ h
  · dsimp only
    split
    · exact h
    next lifoToAdd tree _ =>
      generalize lifoToAdd.reverse = nodes
      have hfold : ∀ c : TreeContainer H, (c.rootToBlock.get root).isSome →
          ((nodes.foldl (addPending blockNode) c).rootToBlock.get root).isSome := by
        induction nodes with
        | nil => exact fun c hc => hc
        | cons bNode nodes ih => exact fun c hc => ih _ (isSome_addPending blockNode bNode hc)
      exact hfold _ h

def Holding (S : Set (BlockNode H)) (c : TreeContainer H) (last : Option (BlockNode H)) : Prop :=
  (∀ n ∈ last, n ∈ S) ∧ Inv (last.elim [] BlockNode.blocks) c.tree

theorem Holding.step {S : Set (BlockNode H)} (hS : NodeTree S) {last : Option (BlockNode H)}
    (hc : Holding S c last) (hn : node ∈ S) (hext : c.Extends node) :
    c.setNodeToMmrWithReorganization node = (true, c.push node node.getHash node.powWeight) ∧
      Inv node.blocks (c.push node node.getHash node.powWeight).tree := by
  obtain ⟨hlast, hinv⟩ := hc
  cases last with
  | none =>
    have h0 : c.tip = none := by rw [tip, if_pos (show c.tree.nextHeight = 0 from hinv.nextHeight)]
    rw [Extends, h0] at hext
    cases node with
    | child d p => cases hext
    | root d =>
      have hprev : (BlockNode.root d).prevMMRRoot = c.tree.currentRoot := by
        rw [currentRoot, hinv.root]
        exact (hS.prev_root d hn).trans mmrRoot_nil.symm
      exact ⟨setNode_of_prev hprev, hinv.appendBlock (by simp) d.powWeight⟩
  | some q =>
    have hq := hlast q rfl
    have hlen : q.blocks.length = q.chain.length := by simp [BlockNode.blocks]
    have hpos := q.chain_length_pos
    have hnext : c.tree.nextHeight ≠ 0 := by rw [hinv.nextHeight]; show q.blocks.length ≠ 0; omega
    have hcur : c.tree.current.hash = q.getHash := by
      rw [current, hinv.last]
      show ((leafNodes q.blocks).getLast?.getD .zero).hash = _
      cases q with
      | root d => rfl
      | child d p => rw [BlockNode.blocks_child, leafNodes_append]; simp; rfl
    rw [Extends, tip, if_neg hnext, hcur] at hext
    cases node with
    | root d => cases hext
    | child d p =>
      have hp := hS.parent d p hn
      obtain rfl : q = p := hS.hash_inj q hq p hp (Option.some.inj hext)
      have hprev : (BlockNode.child d q).prevMMRRoot = c.tree.currentRoot := by
        rw [currentRoot, hinv.root]
        exact hS.prev_child d q hn
      refine ⟨setNode_of_prev hprev, ?_⟩
      rw [BlockNode.blocks_child]
      exact hinv.appendBlock (hS.hash_not_mem hn) d.powWeight

theorem holdsChain_push (h : Inv node.blocks (c.push node node.getHash node.powWeight).tree) :
    HoldsChain (c.push node node.getHash node.powWeight) node := by
  obtain ⟨k, full, hs⟩ := h.store
  refine ⟨fun height => ?_, ?_, h.root, ?_⟩
  · rw [hs.cell_zero, getElem?_leafNodes, BlockNode.blocks, getElem?_map, Option.map_map]; rfl
  · rw [currenWeight, h.weight, BlockNode.blocks, map_map]; rfl
  · rw [actualOf, push, GoMap.get_set_self]; rfl

theorem after_holding {S : Set (BlockNode H)} (hS : NodeTree S) {calls : List (BlockNode H)}
    (hmem : ∀ n ∈ calls, n ∈ S) (hext : ∀ pre n, pre ++ [n] <+: calls → (after pre).Extends n) :
    Holding S (after calls) calls.getLast? := by
  induction calls using List.reverseRecOn with
  | nil => exact ⟨by simp, newTree_inv⟩
  | append_singleton calls n ih =>
    have hprev := ih (fun m hm => hmem m (mem_append_left _ hm))
      (fun pre m hp => hext pre m (hp.trans (prefix_append _ _)))
    have hn := hmem n (by simp)
    obtain ⟨hstep, hinv⟩ := hprev.step hS hn (hext calls n prefix_rfl)
    rw [after_concat, hstep]
    refine ⟨by simpa using hn, ?_⟩
    rw [getLast?_concat]
    exact hinv

/-- Runs in which every call extends the chain keep the container exact. -/
theorem setNode_run (S : Set (BlockNode H)) (hS : NodeTree S) (calls : List (BlockNode H))
    (hmem : ∀ n ∈ calls, n ∈ S) (hext : ∀ pre n, pre ++ [n] <+: calls → (after pre).Extends n) :
    (∀ pre n, pre ++ [n] <+: calls → ((after pre).setNodeToMmrWithReorganization n).1 = true ∧
      HoldsChain (after (pre ++ [n])) n) ∧
    ∀ (c : TreeContainer H) (n : BlockNode H), (c.setNodeToMmrWithReorganization n).1 = false →
      (c.setNodeToMmrWithReorganization n).2 = c := by
  refine ⟨fun pre n hp => ?_, fun c n => setNode_false⟩
  have hsub : ∀ m ∈ pre ++ [n], m ∈ S := fun m hm => hmem m (hp.subset hm)
  have hhold : Holding S (after pre) pre.getLast? := after_holding hS (fun m hm => hsub m (mem_append_left _ hm))
    (fun pre' m hp' => hext pre' m (hp'.trans ((prefix_append _ _).trans hp)))
  obtain ⟨hstep, hinv⟩ := hhold.step hS (hsub n (by simp)) (hext pre n hp)
  rw [after_concat, hstep]
  exact ⟨rfl, holdsChain_push hinv⟩

section Sample

def genesis : BlockNode Nat := .root ⟨1, 0, 0, 5⟩
def blockA : BlockNode Nat := .child ⟨2, 1, 1, 7⟩ genesis
def blockB : BlockNode Nat := .child ⟨3, 1, 1, 9⟩ genesis

theorem sample_nodeTree : letI := sumHash; NodeTree {genesis, blockA, blockB} := by
  let _ := sumHash
  have hroot : mmrRoot (leafNodes genesis.blocks) = 1 := (hashOf_top (k := 0) (by decide) (by decide)).symm
  refine ⟨?_, ?_, ?_, ?_, ?_⟩
  · rintro d p (h | h | h)
    all_goals cases h; try exact .inl rfl
  · rintro n (rfl | rfl | rfl) m (rfl | rfl | rfl) h
    all_goals first | rfl | (revert h; decide)
  · rintro n (rfl | rfl | rfl) <;> decide
  · rintro d (h | h | h)
    all_goals cases h
    rfl
  · rintro d p (h | h | h) <;> cases h <;> exact hroot.symm

theorem setNode_run_two : letI := sumHash
    HoldsChain (after [genesis, blockA]) blockA := by
  let _ := sumHash
  have hrun := setNode_run _ sample_nodeTree [genesis, blockA]
    (by intro n hn; simp only [mem_cons, not_mem_nil, or_false] at hn
        rcases hn with rfl | rfl
        · exact .inl rfl
        · exact .inr (.inl rfl))
    (by
      intro pre n hp
      have hall : ∀ pre ∈ [genesis, blockA].inits, ∀ n ∈ [genesis, blockA][pre.length]?,
          (after pre).Extends n := by decide
      obtain ⟨h1, h2⟩ := Runs.mem_of_concat_prefix hp
      exact hall pre h1 n h2)
  exact (hrun.1 [genesis] blockA prefix_rfl).2

/-- Two branches over one genesis: setting the second adds the whole chain again on top of the first. -/
theorem setNode_branch : letI := sumHash
    NodeTree {genesis, blockA, blockB} ∧ ((after [genesis, blockA]).setNodeToMmrWithReorganization blockB).1 = true ∧
      (List.range 5).map ((after [genesis, blockA, blockB]).tree.block · |>.hash) = [1, 2, 1, 3, 0] ∧
      ¬ HoldsChain (after [genesis, blockA, blockB]) blockB := by
  let _ := sumHash
  refine ⟨sample_nodeTree, by decide, by decide, fun h => ?_⟩
  have hleaf := h.leaf 1
  revert hleaf
  decide

end Sample

end TreeContainer

end Jaxnetd.Mmr
