import Jaxnetd.Blockchain.Locate

/-!
# The view of the best chain under changes of its tip

`SetTip` keeps the slots in place already, on whatever branch the former tips were. After any calls the slots are the
ancestors of the last tip, so `findFork` and `getReorganizeNodes` walk along the right nodes (`view_follows_tips`). The map
from MMR roots to blocks is only ever added to: it is exact as long as every tip is a child of the one before
(`roots_of_chain`).
-/

namespace Jaxnetd.Blockchain
open Wire Chaindata List ChainView

variable {H : Type} [DecidableEq H]

/-! ## Calls -/

namespace ChainView

def findFork (c : ChainView H) (node : ChainNode H) : Option (ChainNode H) :=
  let chainHeight : Int := c.nodes.length - 1
  let node := if chainHeight < node.height then node.ancestor chainHeight else some node
  -- the loop over the parents
  node.bind fun node => node.chain.reverse.find? c.contains

def hashByMMR (c : ChainView H) (root : H) : Option H := c.mmrTree.rootToBlock.get root

end ChainView

/-- A call of `setTip`, with the actual MMR roots of the nodes then; the block index sets them too. -/
structure TipCall (H : Type) where
  node : Option (ChainNode H)
  quickAdd : Bool
  actual : GoMap H H

namespace ChainView
variable [ChainHash H]

def setTipTo (c : ChainView H) (call : TipCall H) : ChainView H :=
  match call.node with
  | none => { c with nodes := [] }
  | some node =>
    if call.quickAdd then
      let root := (call.actual.get node.getHash).getD ChainHash.zeroHash
      ⟨placeNodes (resize c.nodes (node.height + 1).toNat) node.toNodeInfo node.ancestors,
        ⟨c.mmrTree.tree.addBlockWithoutRebuild node.getHash root node.height.toNat node.powWeight,
          c.mmrTree.rootToBlock.set root node.getHash⟩⟩
    else (c.setTip call.actual node).1

def afterCalls (calls : List (TipCall H)) : ChainView H := calls.foldl setTipTo .new

end ChainView

namespace BlockStorage

/-- The loop of `getReorganizeNodes` over the parents: whether an invalid node was met, and the nodes to attach. -/
def attachLoop (bi : BlockIndex H) (forkNode : Option (ChainNode H)) :
    List (ChainNode H) → List (ChainNode H) → Bool × List (ChainNode H)
  | [], attachNodes => (false, attachNodes)
  | n :: parents, attachNodes =>
    if some n = forkNode then (false, attachNodes)
    else if (bi.nodeStatus n).knownInvalid then (true, attachNodes)
    else attachLoop bi forkNode parents (n :: attachNodes)

/-- `getReorganizeNodes`: the index, whose statuses may change, the nodes to detach and the nodes to attach. The status of
a nil parent is a panic. -/
def getReorganizeNodes (s : BlockStorage H) (node : ChainNode H) :
    Option (BlockIndex H × List (ChainNode H) × List (ChainNode H)) :=
  node.parent.map fun parent =>
    let invalidAncestor : BlockStatus := ⟨false, false, false, true⟩
    if (s.index.nodeStatus parent).knownInvalid then (s.index.setStatusFlags node invalidAncestor, [], [])
    else
      let forkNode := s.bestChain.findFork node
      match attachLoop s.index forkNode node.chain.reverse [] with
      | (true, attachNodes) => (attachNodes.foldl (·.setStatusFlags · invalidAncestor) s.index, [], [])
      | (false, attachNodes) =>
        (s.index, s.bestChain.tip.elim [] fun tip => tip.chain.reverse.takeWhile (some · ≠ forkNode), attachNodes)

/-- The hash of the block with the root, if it is found, and whether the view of the best chain has it. -/
def getBlockParentHash (s : BlockStorage H) (prevMMRRoot : H) : Option H × Bool :=
  match s.bestChain.hashByMMR prevMMRRoot with
  | some prevHash => (some prevHash, true)
  | none => (s.index.mmrTree.rootToBlock.get prevMMRRoot, false)

end BlockStorage

/-! ## Trees of block nodes -/

structure BlockTree (S : Set (ChainNode H)) : Prop where
  parent : ∀ n ∈ S, ∀ p, n.parent = some p → p ∈ S
  numbered : ∀ n ∈ S, Numbered n.toNodeInfo n.ancestors
  genesis : ∀ n ∈ S, ∀ m ∈ S, n.parent = none → m.parent = none → n = m

section
open ChainNode
variable {S : Set (ChainNode H)} {tip node f g : ChainNode H}

def HighestCommon (f node tip : ChainNode H) : Prop :=
  f ∈ node.chain ∧ f ∈ tip.chain ∧ ∀ g ∈ node.chain, g ∈ tip.chain → g.height ≤ f.height

section
omit [DecidableEq H]

theorem BlockTree.exists_genesis (h : BlockTree S) (hnode : node ∈ S) : ∃ g ∈ S, g.parent = none ∧ g ∈ node.chain := by
  induction node using parentInduction with
  | root node hp => exact ⟨node, hnode, hp, self_mem_chain node⟩
  | child node p hp ih =>
    obtain ⟨g, hg, hroot, hmem⟩ := ih (h.parent _ hnode _ hp)
    refine ⟨g, hg, hroot, ?_⟩
    rw [chain_child hp]
    exact mem_append_left _ hmem

theorem chain_eq (node : ChainNode H) : node.chain = node.parent.elim [] chain ++ [node] := by
  cases hp : node.parent with
  | none => exact chain_root hp
  | some p => exact chain_child hp

theorem chain_split (hn : Numbered tip.toNodeInfo tip.ancestors) (hf : f ∈ tip.chain) :
    ∃ above, tip.chain = f.chain ++ above ∧ f ∉ above := by
  obtain ⟨hget, hnonneg⟩ := getElem?_of_mem_chain hn hf
  refine ⟨tip.chain.drop (f.height.toNat + 1), ?_, fun hmem => ?_⟩
  · rw [chain_take hget, take_append_drop]
  · obtain ⟨j, hj⟩ := getElem?_of_mem hmem
    rw [getElem?_drop] at hj
    have hheight := (of_getElem?_chain hn hj).1
    omega

theorem height_le_of_mem_chain (hn : Numbered node.toNodeInfo node.ancestors) (hg : g ∈ node.chain) :
    g.height ≤ node.height := by
  obtain ⟨i, hi⟩ := getElem?_of_mem hg
  have hheight := (of_getElem?_chain hn hi).1
  have hlt := (List.getElem?_eq_some_iff.1 hi).1
  have hlength := height_chain hn
  omega

end

/-! ## The fork -/

namespace ChainView.Shows
variable {c : ChainView H}

/-- Going down to the height of the tip first does not change where the walk ends. -/
theorem findFork_eq (h : c.Shows tip) (hn : Numbered node.toNodeInfo node.ancestors) :
    c.findFork node = node.chain.reverse.find? c.contains := by
  have hlength := height_chain h.numbered
  have htip : (c.nodes.length : Int) - 1 = tip.height.toNat := by
    rw [h.nodes, length_map]
    omega
  rw [findFork, htip]
  split
  next hlt =>
    rw [ancestor_eq hn (by omega)]
    have hlen := height_chain hn
    obtain ⟨m, hm⟩ : ∃ m, node.chain[tip.height.toNat]? = some m :=
      ⟨_, getElem?_eq_getElem (show tip.height.toNat < node.chain.length by omega)⟩
    have habove : (node.chain.drop (tip.height.toNat + 1)).reverse.find? c.contains = none := by
      rw [find?_eq_none]
      intro g hg hcontains
      obtain ⟨j, hj⟩ := getElem?_of_mem (mem_reverse.1 hg)
      rw [getElem?_drop] at hj
      have hheight := (of_getElem?_chain hn hj).1
      have hle := height_le_of_mem_chain h.numbered (h.contains_iff.1 hcontains)
      omega
    have hsplit : node.chain = m.chain ++ node.chain.drop (tip.height.toNat + 1) := by
      rw [chain_take hm, take_append_drop]
    rw [hm, Option.bind_some, hsplit, reverse_append, find?_append, habove, Option.none_or]
  next => rfl

theorem findFork_some (h : c.Shows tip) (hn : Numbered node.toNodeInfo node.ancestors) (hf : c.findFork node = some f) :
    ∃ attach detach, node.chain = f.chain ++ attach ∧ f ∉ attach ∧ tip.chain = f.chain ++ detach ∧ f ∉ detach ∧
      ∀ g ∈ attach, g ∉ tip.chain := by
  rw [h.findFork_eq hn] at hf
  have hmem : f ∈ node.chain := mem_reverse.1 (mem_of_find?_eq_some hf)
  have hshown : f ∈ tip.chain := h.contains_iff.1 (find?_some hf)
  obtain ⟨attach, hattach, hnot⟩ := chain_split hn hmem
  obtain ⟨detach, hdetach, hnot'⟩ := chain_split h.numbered hshown
  refine ⟨attach, detach, hattach, hnot, hdetach, hnot', fun g hg hgtip => ?_⟩
  rw [hattach, reverse_append, find?_append] at hf
  cases hfind : attach.reverse.find? c.contains with
  | none => exact find?_eq_none.1 hfind g (mem_reverse.2 hg) (h.contains_iff.2 hgtip)
  | some x =>
    rw [hfind, Option.some_or, Option.some.injEq] at hf
    exact hnot (hf ▸ mem_reverse.1 (mem_of_find?_eq_some hfind))

theorem findFork_highest (h : c.Shows tip) (hn : Numbered node.toNodeInfo node.ancestors) (hf : c.findFork node = some f) :
    HighestCommon f node tip := by
  obtain ⟨attach, detach, hattach, -, hdetach, -, hdisjoint⟩ := h.findFork_some hn hf
  have hself := self_mem_chain f
  have hmem : f ∈ node.chain := by simp [hattach, hself]
  refine ⟨hmem, by simp [hdetach, hself], fun g hg hgtip => ?_⟩
  rw [hattach, mem_append] at hg
  rcases hg with hg | hg
  · exact height_le_of_mem_chain (numbered_of_mem_chain hn hmem) hg
  · exact absurd hgtip (hdisjoint g hg)

theorem findFork_isSome (h : c.Shows tip) (hS : BlockTree S) (htip : tip ∈ S) (hnode : node ∈ S) :
    (c.findFork node).isSome := by
  obtain ⟨g, hg, hroot, hmem⟩ := hS.exists_genesis hnode
  obtain ⟨g', hg', hroot', hmem'⟩ := hS.exists_genesis htip
  obtain rfl := hS.genesis g hg g' hg' hroot hroot'
  rw [h.findFork_eq (hS.numbered _ hnode), find?_isSome]
  exact ⟨g, mem_reverse.2 hmem, h.contains_iff.2 hmem'⟩

end ChainView.Shows

/-! ## Reorganising -/

theorem attachLoop_eq {bi : BlockIndex H} {below attach acc : List (ChainNode H)} (hnot : f ∉ attach)
    (hvalid : ∀ n ∈ attach, (bi.nodeStatus n).knownInvalid = false) :
    BlockStorage.attachLoop bi (some f) (attach ++ f :: below) acc = (false, attach.reverse ++ acc) := by
  induction attach generalizing acc with
  | nil => simp [BlockStorage.attachLoop]
  | cons n attach ih =>
    rw [mem_cons, not_or] at hnot
    rw [forall_mem_cons] at hvalid
    have hne : ¬(some n = some f) := fun heq => hnot.1 (Option.some.inj heq).symm
    rw [cons_append, BlockStorage.attachLoop, if_neg hne, hvalid.1, if_neg (by simp), ih hnot.2 hvalid.2]
    simp

theorem ChainView.Shows.getReorganizeNodes_eq {s : BlockStorage H} (h : s.bestChain.Shows tip)
    (hn : Numbered node.toNodeInfo node.ancestors) (hparent : node.parent.isSome) (hf : s.bestChain.findFork node = some f)
    (hvalid : ∀ n ∈ node.chain, (s.index.nodeStatus n).knownInvalid = false) :
    ∃ detach attach, s.getReorganizeNodes node = some (s.index, detach, attach) ∧
      tip.chain = f.chain ++ detach.reverse ∧ node.chain = f.chain ++ attach := by
  obtain ⟨attach, detach, hattach, hnot, hdetach, hnot', -⟩ := h.findFork_some hn hf
  obtain ⟨parent, hp⟩ := Option.isSome_iff_exists.1 hparent
  have hreverse (above : List (ChainNode H)) :
      (f.chain ++ above).reverse = above.reverse ++ f :: (f.parent.elim [] chain).reverse := by
    rw [chain_eq f]
    simp
  have hloop : BlockStorage.attachLoop s.index (some f) node.chain.reverse [] = (false, attach) := by
    rw [hattach, hreverse, attachLoop_eq (by simpa using hnot), reverse_reverse, append_nil]
    intro n hmem
    exact hvalid n (by simp [hattach, mem_reverse.1 hmem])
  have htake : tip.chain.reverse.takeWhile (some · ≠ some f) = detach.reverse := by
    rw [hdetach, hreverse, takeWhile_append_of_pos, takeWhile_cons_of_neg (by simp), append_nil]
    intro n hmem
    have hne : n ≠ f := fun heq => hnot' (heq ▸ mem_reverse.1 hmem)
    simpa using hne
  have hparentValid : (s.index.nodeStatus parent).knownInvalid = false :=
    hvalid parent (by rw [chain_child hp]; exact mem_append_left _ (self_mem_chain parent))
  refine ⟨detach.reverse, attach, ?_, by rw [reverse_reverse, hdetach], hattach⟩
  simp only [BlockStorage.getReorganizeNodes, hp, Option.map_some, hparentValid, Bool.false_eq_true, if_false, hf, hloop,
    h.tip_eq, Option.elim_some, htake]

/-! ## Any calls -/

section Calls
variable [ChainHash H] {calls : List (TipCall H)}

def Slots (tip : Option (ChainNode H)) (c : ChainView H) : Prop :=
  match tip with
  | none => c.nodes = []
  | some tip => c.Shows tip

variable {c : ChainView H} {tip : Option (ChainNode H)}

omit [ChainHash H] in
theorem Slots.place (h : Slots tip c) (hn : Numbered node.toNodeInfo node.ancestors) :
    placeNodes (resize c.nodes (node.height + 1).toNat) node.toNodeInfo node.ancestors = node.chain.map some := by
  cases tip with
  | none => rw [show c.nodes = [] from h, placeNodes_empty hn]
  | some tip =>
    rw [show c.nodes = tip.chain.map some from Shows.nodes h]
    exact placeNodes_resize hn fun i m hm => chain_take hm

theorem Slots.step (h : Slots tip c) {call : TipCall H}
    (hn : ∀ n ∈ call.node, Numbered n.toNodeInfo n.ancestors) : Slots call.node (c.setTipTo call) := by
  obtain ⟨_ | n, quickAdd, actual⟩ := call
  · rfl
  · refine ⟨hn n rfl, ?_⟩
    cases quickAdd <;> exact h.place (hn n rfl)

theorem slots_afterCalls (hS : BlockTree S) (hcalls : ∀ call ∈ calls, ∀ n ∈ call.node, n ∈ S) :
    Slots (calls.getLast?.bind TipCall.node) (afterCalls calls) := by
  induction calls using List.reverseRecOn with
  | nil => rfl
  | append_singleton calls call ih =>
    have hprev := ih fun call hcall => hcalls call (mem_append_left _ hcall)
    rw [getLast?_concat, Option.bind_some, afterCalls, foldl_concat]
    exact hprev.step fun n hmem => hS.numbered n (hcalls call (by simp) n hmem)

/-- After any calls the slots are the ancestors of the last tip, the fork with a node is their highest common ancestor, and a
node that has a parent and is valid with its ancestors is reached by the paths through the fork. -/
theorem view_follows_tips (hS : BlockTree S) (calls : List (TipCall H)) (hcalls : ∀ call ∈ calls, ∀ n ∈ call.node, n ∈ S)
    (tip : ChainNode H) (htip : calls.getLast?.bind TipCall.node = some tip) :
    (afterCalls calls).tip = some tip ∧
    (∀ height : Nat, (height : Int) ≤ tip.height → ∃ n, (afterCalls calls).nodeByHeight height = some n ∧
      tip.ancestor height = some n) ∧
    ∀ node ∈ S, ∃ fork, (afterCalls calls).findFork node = some fork ∧ HighestCommon fork node tip ∧
      ∀ s : BlockStorage H, s.bestChain = afterCalls calls → node.parent.isSome →
        (∀ n ∈ node.chain, (s.index.nodeStatus n).knownInvalid = false) →
        ∃ detach attach, s.getReorganizeNodes node = some (s.index, detach, attach) ∧
          tip.chain = fork.chain ++ detach.reverse ∧ node.chain = fork.chain ++ attach := by
  have hslots := slots_afterCalls hS hcalls
  rw [htip] at hslots
  have hshows : (afterCalls calls).Shows tip := hslots
  have htipS : tip ∈ S := by
    obtain ⟨call, hcall, hnode⟩ := Option.bind_eq_some_iff.1 htip
    exact hcalls call (mem_of_getLast? hcall) tip hnode
  refine ⟨hshows.tip_eq, fun height hle => ?_, fun node hnode => ?_⟩
  · have hlength := height_chain hshows.numbered
    have hget := getElem?_eq_getElem (show height < tip.chain.length by omega)
    exact ⟨_, (hshows.nodeByHeight height).trans hget, (ancestor_eq hshows.numbered hle).trans hget⟩
  · obtain ⟨fork, hfork⟩ := Option.isSome_iff_exists.1 (hshows.findFork_isSome hS htipS hnode)
    have hn := hS.numbered node hnode
    refine ⟨fork, hfork, hshows.findFork_highest hn hfork, fun s hs hparent hvalid => ?_⟩
    rw [← hs] at hshows hfork
    exact hshows.getReorganizeNodes_eq hn hparent hfork hvalid

/-! ## Roots -/

/-- A tree of block nodes whose `PrevMMRRoot` is the root over the chain of the parent. Neither hashes nor roots collide. -/
structure RootedTree (S : Set (ChainNode H)) : Prop extends BlockTree S where
  prevMMRRoot : ∀ n ∈ S, n.prevMMRRoot = n.parent.elim ChainHash.zeroHash chainRoot
  hash_inj : ∀ n ∈ S, ∀ m ∈ S, n.getHash = m.getHash → n = m
  root_inj : ∀ n ∈ S, ∀ m ∈ S, n.chainRoot = m.chainRoot → n = m

def shown (calls : List (TipCall H)) : List (ChainNode H) := (calls.getLast?.bind TipCall.node).elim [] chain

def RootsExact (calls : List (TipCall H)) : Prop :=
  ∀ root hash, (afterCalls calls).hashByMMR root = some hash ↔
    ∃ n ∈ shown calls, n.chainRoot = root ∧ n.getHash = hash

/-- Every call is `SetTip` of a child of the current tip, the first one of genesis. -/
def Extending (calls : List (TipCall H)) : Prop :=
  ∀ pre call, pre ++ [call] <+: calls →
    call.quickAdd = false ∧ ∃ n, call.node = some n ∧ n.parent = pre.getLast?.bind TipCall.node

omit [DecidableEq H] [ChainHash H] in
theorem shown_subset (hS : BlockTree S) (hcalls : ∀ call ∈ calls, ∀ n ∈ call.node, n ∈ S) :
    ∀ n ∈ shown calls, n ∈ S := by
  have hsub : ∀ node ∈ S, ∀ n ∈ node.chain, n ∈ S := by
    intro node
    induction node using parentInduction with
    | root node hp => simp [chain_root hp]
    | child node p hp ih =>
      intro hnode n hn
      rw [chain_child hp, mem_append, mem_singleton] at hn
      rcases hn with hn | rfl
      · exact ih (hS.parent _ hnode _ hp) n hn
      · exact hnode
  unfold shown
  cases htip : calls.getLast?.bind TipCall.node with
  | none => simp
  | some tip =>
    obtain ⟨call, hcall, hnode⟩ := Option.bind_eq_some_iff.1 htip
    exact hsub tip (hcalls call (mem_of_getLast? hcall) tip hnode)

theorem isSome_hashByMMR {root : H} (calls more : List (TipCall H)) (h : ((afterCalls calls).hashByMMR root).isSome) :
    ((afterCalls (calls ++ more)).hashByMMR root).isSome := by
  induction more using List.reverseRecOn with
  | nil => rwa [append_nil]
  | append_singleton more call ih =>
    rw [← append_assoc, afterCalls, foldl_concat]
    obtain ⟨_ | node, _ | _, actual⟩ := call
    · exact ih
    · exact ih
    · exact Mmr.TreeContainer.isSome_setNode _ ih
    · exact GoMap.isSome_set _ _ ih

structure Rooted (parent : Option (ChainNode H)) (c : ChainView H) : Prop where
  tree : Mmr.BlocksMMRTree.Inv (parent.elim [] leaves) c.mmrTree.tree
  roots : ∀ root hash, c.hashByMMR root = some hash ↔ ∃ n ∈ parent.elim [] chain, n.chainRoot = root ∧ n.getHash = hash

omit [DecidableEq H] in
theorem RootedTree.hash_fresh (hS : RootedTree S) (hnode : node ∈ S) (hsub : ∀ n ∈ node.chain, n ∈ S) :
    node.getHash ∉ (node.parent.elim [] leaves).map Prod.fst := by
  cases hp : node.parent with
  | none => simp
  | some p =>
    intro hmem
    simp only [Option.elim_some, leaves, map_map, mem_map] at hmem
    obtain ⟨m, hm, heq⟩ := hmem
    have hmS := hsub m (by rw [chain_child hp]; exact mem_append_left _ hm)
    obtain rfl := hS.hash_inj m hmS node hnode heq
    have hn := hS.numbered m hnode
    have hle := height_le_of_mem_chain (numbered_parent hn hp).1 hm
    have hlength := height_chain hn
    have hparent := height_chain (numbered_parent hn hp).1
    rw [chain_child hp, length_append, length_singleton] at hlength
    omega

theorem Rooted.step (hS : RootedTree S) (hnode : node ∈ S) (hsub : ∀ n ∈ node.chain, n ∈ S)
    (h : Rooted node.parent c) (actual : GoMap H H) : Rooted (some node) (c.setTip actual node).1 := by
  have hprev : node.prevMMRRoot = c.mmrTree.tree.currentRoot := by
    rw [hS.prevMMRRoot node hnode, Mmr.BlocksMMRTree.currentRoot, h.tree.root]
    cases node.parent with
    | none => exact Mmr.mmrRoot_nil.symm
    | some p => rfl
  have hleaves : node.leaves = node.parent.elim [] leaves ++ [(node.getHash, node.powWeight)] := by
    rw [leaves, chain_eq, map_append]
    cases node.parent <;> rfl
  have htree := h.tree.appendBlock (hS.hash_fresh hnode hsub) node.powWeight
  rw [← hleaves] at htree
  have hset := MmrTree.setNode_of_prev actual hprev
  have hroot : (c.mmrTree.tree.appendBlock node.getHash node.powWeight).currentRoot = node.chainRoot := htree.root
  simp only [hroot] at hset
  constructor
  · simp only [setTip, hset]
    exact htree
  · intro root hash
    simp only [setTip, hset, hashByMMR, GoMap.get_set, Option.elim_some]
    rw [chain_eq]
    simp only [mem_append, mem_singleton, or_and_right, exists_or, exists_eq_left]
    split
    next heq =>
      subst heq
      constructor
      · rintro ⟨rfl⟩
        exact .inr ⟨rfl, rfl⟩
      · rintro (⟨n, hn, hr, rfl⟩ | ⟨-, rfl⟩)
        · have hnS := hsub n (by rw [chain_eq]; exact mem_append_left _ hn)
          rw [hS.root_inj n hnS node hnode hr]
        · rfl
    next hne =>
      refine (h.roots root hash).trans ⟨.inl, ?_⟩
      rintro (hn | ⟨rfl, -⟩)
      · exact hn
      · exact absurd rfl hne

theorem rooted_of_extending (hS : RootedTree S) (hcalls : ∀ call ∈ calls, ∀ n ∈ call.node, n ∈ S)
    (hext : Extending calls) : Rooted (calls.getLast?.bind TipCall.node) (afterCalls calls) := by
  induction calls using List.reverseRecOn with
  | nil =>
    exact ⟨Mmr.BlocksMMRTree.newTree_inv, by simp [ChainView.afterCalls, ChainView.new, MmrTree.new, ChainView.hashByMMR]⟩
  | append_singleton calls call ih =>
    have hprev := ih (fun call hcall => hcalls call (mem_append_left _ hcall))
      fun pre call hpre => hext pre call (hpre.trans (prefix_append _ _))
    obtain ⟨hslow, n, hn, hparent⟩ := hext calls call prefix_rfl
    have hsub := shown_subset hS.toBlockTree hcalls
    rw [shown, getLast?_concat, Option.bind_some, hn] at hsub
    rw [getLast?_concat, Option.bind_some, hn, afterCalls, foldl_concat, setTipTo, hn, hslow]
    rw [← hparent] at hprev
    exact hprev.step hS (hcalls call (by simp) n hn) hsub call.actual

/-- While every tip is a child of the one before, the roots that are resolved are those of the chain. Roots are never
forgotten, so they can be exact again only behind a tip that has the tips of all such moments on its chain. -/
theorem roots_of_chain (hS : RootedTree S) :
    (∀ calls, (∀ call ∈ calls, ∀ n ∈ call.node, n ∈ S) → Extending calls → RootsExact calls ∧
      ∀ (s : BlockStorage H) (root hash : H), s.bestChain = afterCalls calls →
        s.getBlockParentHash root = (some hash, true) → ∃ n ∈ shown calls, n.chainRoot = root ∧ n.getHash = hash) ∧
    ∀ calls more, (∀ call ∈ calls ++ more, ∀ n ∈ call.node, n ∈ S) → RootsExact calls → RootsExact (calls ++ more) →
      ∀ tip, calls.getLast?.bind TipCall.node = some tip → tip ∈ shown (calls ++ more) := by
  refine ⟨fun calls hcalls hext => ?_, fun calls more hcalls hexact hexact' tip htip => ?_⟩
  · have hexact : RootsExact calls := (rooted_of_extending hS hcalls hext).roots
    refine ⟨hexact, fun s root hash hs hfound => ?_⟩
    rw [BlockStorage.getBlockParentHash, hs] at hfound
    split at hfound
    next prevHash hget =>
      cases hfound
      exact (hexact root hash).1 hget
    next => simp at hfound
  · have hmem : tip ∈ shown calls := by
      rw [shown, htip]
      exact self_mem_chain tip
    have hsome := isSome_hashByMMR calls more (Option.isSome_of_eq_some ((hexact _ _).2 ⟨tip, hmem, rfl, rfl⟩))
    obtain ⟨hash, hhash⟩ := Option.isSome_iff_exists.1 hsome
    obtain ⟨n, hn, hroot, -⟩ := (hexact' _ _).1 hhash
    have htipS := shown_subset hS.toBlockTree (fun call hcall => hcalls call (mem_append_left _ hcall)) tip hmem
    rwa [← hS.root_inj n (shown_subset hS.toBlockTree hcalls n hn) tip htipS hroot]

end Calls

end

section Sample
attribute [local instance] sumHash

def storeSide : ChainNode Nat := ⟨⟨storeHeader 1 3 1 1, 14, 9, 2⟩, [storeGenesis.toNodeInfo]⟩

def smallTree : Set (ChainNode Nat) := {storeGenesis, storeNext, storeSide}

theorem smallTree_rooted : RootedTree smallTree where
  parent := by
    rintro n (rfl | rfl | rfl) p hp
    all_goals
      cases hp
      try exact .inl rfl
  numbered := by
    rintro n (rfl | rfl | rfl)
    exacts [rfl, ⟨rfl, rfl⟩, ⟨rfl, rfl⟩]
  genesis := by
    rintro n (rfl | rfl | rfl) m (rfl | rfl | rfl) hn hm
    all_goals first | rfl | exact absurd hn (by decide) | exact absurd hm (by decide)
  prevMMRRoot := by rintro n (rfl | rfl | rfl) <;> decide +kernel
  hash_inj := by
    rintro n (rfl | rfl | rfl) m (rfl | rfl | rfl) h
    all_goals first | rfl | (revert h; decide)
  root_inj := by
    rintro n (rfl | rfl | rfl) m (rfl | rfl | rfl) h
    all_goals first | rfl | (revert h; decide +kernel)

def slowCalls (c : ChainView Nat) (actual : GoMap Nat Nat) : List (ChainNode Nat) → List (TipCall Nat)
  | [] => []
  | n :: nodes => ⟨some n, false, actual⟩ :: slowCalls (c.setTip actual n).1 (c.setTip actual n).2 nodes

variable (nodes : List (ChainNode Nat))

theorem smallTree_calls (h : ∀ n ∈ nodes, n = storeGenesis ∨ n = storeNext ∨ n = storeSide) :
    ∀ call ∈ slowCalls .new .empty nodes, ∀ n ∈ call.node, n ∈ smallTree := by
  generalize (new : ChainView Nat) = c, (GoMap.empty : GoMap Nat Nat) = actual
  induction nodes generalizing c actual with
  | nil => simp [slowCalls]
  | cons m nodes ih =>
    rw [forall_mem_cons] at h
    rw [slowCalls, forall_mem_cons]
    refine ⟨fun n hn => ?_, ih h.2 _ _⟩
    cases hn
    exact h.1

def viewStore (status : GoMap Nat BlockStatus) : BlockStorage Nat :=
  { genesisStore with
    bestChain := .afterCalls (slowCalls .new .empty nodes)
    index := { genesisStore.index with status } }

theorem view_follows_tips_side :
    ∃ fork, (viewStore [storeNext, storeGenesis, storeSide] .empty).bestChain.findFork storeNext = some fork ∧
      HighestCommon fork storeNext storeSide ∧ ∃ detach attach,
        (viewStore [storeNext, storeGenesis, storeSide] .empty).getReorganizeNodes storeNext =
          some (genesisStore.index, detach, attach) ∧
        storeSide.chain = fork.chain ++ detach.reverse ∧ storeNext.chain = fork.chain ++ attach := by
  obtain ⟨fork, hfork, hcommon, hnodes⟩ :=
    (view_follows_tips smallTree_rooted.toBlockTree (slowCalls .new .empty [storeNext, storeGenesis, storeSide])
      (smallTree_calls _ (by decide)) storeSide rfl).2.2 storeNext (.inr (.inl rfl))
  exact ⟨fork, hfork, hcommon, hnodes (viewStore [storeNext, storeGenesis, storeSide] .empty) rfl rfl (by decide)⟩

/-- There is no way to genesis: the status of its parent is asked for. A block that is invalid itself has empty lists. -/
theorem reorganize_to_genesis : (viewStore [storeGenesis, storeNext] .empty).bestChain.tip = some storeNext ∧
    (∀ n ∈ storeGenesis.chain, ((viewStore [storeGenesis, storeNext] .empty).index.nodeStatus n).knownInvalid = false) ∧
    (viewStore [storeGenesis, storeNext] .empty).getReorganizeNodes storeGenesis = none ∧
    ((viewStore [storeGenesis, storeNext] (GoMap.empty.set 3 ⟨false, false, true, false⟩)).getReorganizeNodes
      storeSide).map Prod.snd = some ([], []) := by
  decide +kernel

theorem roots_of_chain_next : RootsExact (slowCalls .new .empty [storeGenesis, storeNext]) := by
  refine ((roots_of_chain smallTree_rooted).1 _ (smallTree_calls _ (by decide)) fun pre call hpre => ?_).1
  obtain ⟨hmem, hget⟩ := Runs.mem_of_concat_prefix hpre
  have hinits : pre = [] ∨ pre = [⟨some storeGenesis, false, .empty⟩] ∨ pre.length = 2 := by
    rcases pre with _ | ⟨a, _ | ⟨b, _ | ⟨_, pre⟩⟩⟩ <;> simp_all [slowCalls]
  rcases hinits with rfl | rfl | hlength
  · cases hget
    exact ⟨rfl, storeGenesis, rfl, rfl⟩
  · cases hget
    exact ⟨rfl, storeNext, rfl, rfl⟩
  · rw [hlength] at hget
    cases hget

/-- Behind a change of the branch the root of the block that was left is still resolved, that of the new tip is not. -/
theorem roots_of_branch : RootedTree smallTree ∧ storeNext ∉ storeSide.chain ∧
    (viewStore [storeGenesis, storeNext, storeSide] .empty).bestChain.tip = some storeSide ∧
    (viewStore [storeGenesis, storeNext, storeSide] .empty).getBlockParentHash storeNext.chainRoot = (some 2, true) ∧
    (viewStore [storeGenesis, storeNext, storeSide] .empty).bestChain.hashByMMR storeSide.chainRoot = none ∧
    ¬RootsExact (slowCalls .new .empty [storeGenesis, storeNext, storeSide]) := by
  have hget : (viewStore [storeGenesis, storeNext, storeSide] .empty).bestChain.hashByMMR storeNext.chainRoot = some 2 := by
    decide +kernel
  refine ⟨smallTree_rooted, by decide, by decide +kernel, by decide +kernel, by decide +kernel, fun h => ?_⟩
  obtain ⟨n, hn, -, hhash⟩ := (h _ _).1 hget
  have hside : ∀ n ∈ storeSide.chain, n.getHash ≠ 2 := by decide
  exact hside n hn hhash

end Sample

end Jaxnetd.Blockchain
