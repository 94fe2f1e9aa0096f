import Jaxnetd.Blockchain.Restart

/-!
# What the chain keeps while it runs

The invariants of the storage along connects, disconnects and saves, on which a restart depends. The nodes of
the index are found again in the buckets of the database, and the view of the best chain is the chain of its tip
with the roots of the MMR trees over its prefixes.
-/

namespace Jaxnetd.Blockchain
open Wire TxScript Chaindata Checks List BlockStorage ChainNode GoMap

/-! ## The chain of a node -/

namespace ChainNode
variable {H : Type} {node p : ChainNode H}

def chainFrom (n : NodeInfo H) : List (NodeInfo H) → List (ChainNode H)
  | [] => [⟨n, []⟩]
  | p :: ancestors => chainFrom p ancestors ++ [⟨n, p :: ancestors⟩]

def chain (node : ChainNode H) : List (ChainNode H) := chainFrom node.toNodeInfo node.ancestors

def leaves (node : ChainNode H) : List (Mmr.Block H) := node.chain.map fun n => (n.getHash, n.powWeight)

def chainRoot [ChainHash H] (node : ChainNode H) : H := Mmr.TreeStore.mmrRoot (Mmr.leafNodes node.leaves)

@[elab_as_elim] theorem parentInduction {motive : ChainNode H → Prop} (root : ∀ n, n.parent = none → motive n)
    (child : ∀ n p, n.parent = some p → motive p → motive n) (node : ChainNode H) : motive node := by
  obtain ⟨n, ancestors⟩ := node
  induction ancestors generalizing n with
  | nil => exact root _ rfl
  | cons p ancestors ih => exact child _ ⟨p, ancestors⟩ rfl (ih p)

theorem chain_root (h : node.parent = none) : node.chain = [node] := by
  obtain ⟨n, _ | ⟨p, ancestors⟩⟩ := node
  · rfl
  · cases h

theorem chain_child (h : node.parent = some p) : node.chain = p.chain ++ [node] := by
  obtain ⟨n, _ | ⟨p, ancestors⟩⟩ := node
  · cases h
  · cases h
    rfl

theorem leaves_root (h : node.parent = none) : node.leaves = [(node.getHash, node.powWeight)] := by
  simp [leaves, chain_root h]

theorem leaves_child (h : node.parent = some p) : node.leaves = p.leaves ++ [(node.getHash, node.powWeight)] := by
  simp [leaves, chain_child h]

theorem length_chain (node : ChainNode H) : node.chain.length = node.ancestors.length + 1 := by
  obtain ⟨n, ancestors⟩ := node
  induction ancestors generalizing n with
  | nil => rfl
  | cons p ancestors ih =>
    show (chain ⟨p, ancestors⟩ ++ [_]).length = _
    rw [length_append, ih p]
    rfl

theorem chain_take {i : Nat} (h : node.chain[i]? = some p) : p.chain = node.chain.take (i + 1) := by
  induction node using parentInduction with
  | root node hp =>
    rw [chain_root hp] at h ⊢
    cases i with
    | zero =>
      obtain rfl : node = p := Option.some.inj h
      exact chain_root hp
    | succ i => cases h
  | child node q hq ih =>
    rw [chain_child hq] at h ⊢
    rcases Nat.lt_or_ge i q.chain.length with hi | hi
    · rw [getElem?_append_left hi] at h
      rw [take_append_of_le_length (by omega)]
      exact ih h
    · have hlt := (List.getElem?_eq_some_iff.1 h).1
      rw [length_append, length_singleton] at hlt
      obtain rfl : i = q.chain.length := by omega
      rw [getElem?_concat_length, Option.some.injEq] at h
      subst h
      rw [chain_child hq, take_of_length_le (by simp)]

theorem getLast?_chain (node : ChainNode H) : node.chain.getLast? = some node := by
  cases h : node.parent with
  | none => simp [chain_root h]
  | some p => simp [chain_child h]

theorem self_mem_chain (node : ChainNode H) : node ∈ node.chain := mem_of_getLast? node.getLast?_chain

theorem height_chain (hn : Numbered node.toNodeInfo node.ancestors) :
    node.height.toNat + 1 = node.chain.length ∧ 0 ≤ node.height := by
  have hheight := hn.height
  rw [length_chain]
  exact ⟨by rw [show node.height = node.header.height from rfl, hheight.1], hheight.2⟩

theorem getElem?_chain (node : ChainNode H) : node.chain[node.ancestors.length]? = some node := by
  have hlength := length_chain node
  cases h : node.parent with
  | none =>
    rw [chain_root h] at hlength ⊢
    simp [hlength]
  | some p =>
    rw [chain_child h] at hlength ⊢
    rw [length_append, length_singleton, Nat.add_right_cancel_iff] at hlength
    simp [← hlength]

end ChainNode

/-! ## Placing a chain in the view -/

section
variable {H : Type} [DecidableEq H]
open ChainNode

/-- The walk over slots each of which is the last of a chain: it may stop at the first node in place. -/
theorem placeNodes_eq {nodes : List (Option (ChainNode H))} {n : NodeInfo H} {ancestors : List (NodeInfo H)}
    (hn : Numbered n ancestors) (hlen : ancestors.length < nodes.length)
    (hchain : ∀ i ≤ ancestors.length, ∀ m : ChainNode H, nodes[i]? = some (some m) →
      ∀ j ≤ i, nodes[j]? = m.chain[j]?.map some) :
    placeNodes nodes n ancestors = (chainFrom n ancestors).map some ++ nodes.drop (ancestors.length + 1) := by
  induction ancestors generalizing nodes n with
  | nil =>
    have hheight : n.header.height.toNat = 0 := hn.height.1
    rw [placeNodes, hheight]
    cases nodes with
    | nil => cases hlen
    | cons c nodes => rfl
  | cons p ancestors ih =>
    have hheight : n.header.height.toNat = ancestors.length + 1 := hn.height.1
    rw [length_cons] at hlen hchain ⊢
    rw [placeNodes, hheight]
    split
    next hplaced =>
      have hlength := length_chain (⟨n, p :: ancestors⟩ : ChainNode H)
      have htake : nodes.take (ancestors.length + 1 + 1) = (chainFrom n (p :: ancestors)).map some := by
        apply ext_getElem?
        intro j
        rw [getElem?_take, getElem?_map]
        split
        next hj => exact hchain _ (Nat.le_refl _) _ hplaced j (by omega)
        next hj =>
          rw [getElem?_eq_none (by
            show (chain ⟨n, p :: ancestors⟩).length ≤ j
            rw [hlength, length_cons]
            omega)]
          rfl
      rw [← htake, take_append_drop]
    next =>
      have hbelow : ∀ j ≤ ancestors.length, (nodes.set (ancestors.length + 1) (some ⟨n, p :: ancestors⟩))[j]? = nodes[j]? :=
        fun j hj => getElem?_set_ne (by omega)
      rw [ih hn.2 (by rw [length_set]; omega) fun i hi m hm j hj => by
        rw [hbelow j (by omega)]
        rw [hbelow i hi] at hm
        exact hchain i (by omega) m hm j hj]
      have hdrop : (nodes.set (ancestors.length + 1) (some ⟨n, p :: ancestors⟩)).drop (ancestors.length + 1) =
          some ⟨n, p :: ancestors⟩ :: nodes.drop (ancestors.length + 1 + 1) := by
        rw [drop_eq_getElem_cons (by rw [length_set]; omega), getElem_set_self, drop_set_of_lt (by omega)]
      rw [hdrop, chainFrom, map_append]
      simp

variable {node p : ChainNode H}

theorem placeNodes_resize (hn : Numbered node.toNodeInfo node.ancestors) {shown : List (ChainNode H)}
    (hshown : ∀ (i : Nat) (m : ChainNode H), shown[i]? = some m → m.chain = shown.take (i + 1)) :
    placeNodes (resize (shown.map some) (node.height + 1).toNat) node.toNodeInfo node.ancestors = node.chain.map some := by
  have hheight := height_chain hn
  have hlength := length_chain node
  have hget : ∀ (i : Nat) (m : ChainNode H), (resize (shown.map some) (node.height + 1).toNat)[i]? = some (some m) →
    shown[i]? = some m := by
    intro i m hm
    rw [resize, getElem?_append, getElem?_take, getElem?_map, getElem?_replicate] at hm
    split at hm
    · split at hm
      · simpa using hm
      · cases hm
    · split at hm <;> cases hm
  rw [placeNodes_eq hn (by rw [length_resize]; omega), drop_of_length_le (by rw [length_resize]; omega), append_nil]
  · rfl
  · intro i hi m hm j hj
    have hm' := hget i m hm
    have hlt := (List.getElem?_eq_some_iff.1 hm').1
    rw [resize, getElem?_append_left (by rw [length_take, length_map]; omega), getElem?_take,
      if_pos (by omega), getElem?_map, hshown i m hm', getElem?_take, if_pos (by omega)]

theorem placeNodes_empty (hn : Numbered node.toNodeInfo node.ancestors) :
    placeNodes (resize [] (node.height + 1).toNat) node.toNodeInfo node.ancestors = node.chain.map some := by
  show placeNodes (resize (([] : List (ChainNode H)).map some) _) _ _ = _
  exact placeNodes_resize hn (by simp)

end

/-! ## The nodes of the index -/

variable {H : Type} [DecidableEq H] [ChainHash H] {env : ChainEnv H} {s s' : BlockStorage H}
  {node tip prev : ChainNode H} {block : StoredBlock H}

/-- A node of the index is found again in the buckets of the database, and its header commits to the root of the
MMR tree over the chain of its parent. -/
structure KeptNode (s : BlockStorage H) (node : ChainNode H) : Prop where
  numbered : Numbered node.toNodeInfo node.ancestors
  built : node = .new node.header node.parent node.serialID
  parent : ∀ p, node.parent = some p → s.index.index.get p.getHash = some p ∧ node.prevHash = p.getHash
  root : node.prevMMRRoot = node.parent.elim ChainHash.zeroHash chainRoot
  block : ∃ block, s.db.blocks.get node.getHash = some block ∧ block.header = node.header
  serial : ∃ prev, s.db.serialIDToPrev.get node.serialID = some (node.getHash, prev)
  bound : node.serialID ≤ s.lastSerialID

structure Stored (s : BlockStorage H) : Prop where
  key : ∀ hash node, s.index.index.get hash = some node → node.getHash = hash
  node : ∀ hash node, s.index.index.get hash = some node → KeptNode s node
  indexed : ∀ hash block, s.db.blocks.get hash = some block → ∃ node, s.index.index.get hash = some node

structure Grows (s s' : BlockStorage H) : Prop where
  index : ∀ hash node, s.index.index.get hash = some node → s'.index.index.get hash = some node
  blocks : ∀ hash block, s.db.blocks.get hash = some block → s'.db.blocks.get hash = some block
  serial : ∀ serialID hash prev, serialID ≤ s.lastSerialID → s.db.serialIDToPrev.get serialID = some (hash, prev) →
    ∃ prev', s'.db.serialIDToPrev.get serialID = some (hash, prev')
  lastSerialID : s.lastSerialID ≤ s'.lastSerialID

omit [DecidableEq H] in
theorem KeptNode.mono (h : KeptNode s node) (hgrows : Grows s s') : KeptNode s' node where
  numbered := h.numbered
  built := h.built
  parent p hp := ⟨hgrows.index _ _ (h.parent p hp).1, (h.parent p hp).2⟩
  root := h.root
  block := by
    obtain ⟨block, hblock, hheader⟩ := h.block
    exact ⟨block, hgrows.blocks _ _ hblock, hheader⟩
  serial := by
    obtain ⟨prev, hserial⟩ := h.serial
    exact hgrows.serial _ _ _ h.bound hserial
  bound := le_trans h.bound hgrows.lastSerialID

section
variable {index : GoMap H (ChainNode H)}

omit [DecidableEq H] [ChainHash H]

theorem chain_indexed
    (hparent : ∀ n p, index.get n.getHash = some n → n.parent = some p → index.get p.getHash = some p)
    (hnode : index.get node.getHash = some node) : ∀ n ∈ node.chain, index.get n.getHash = some n := by
  induction node using parentInduction with
  | root node hp =>
    intro n hn
    rw [chain_root hp, mem_singleton] at hn
    rw [hn, hnode]
  | child node p hp ih =>
    intro n hn
    rw [chain_child hp, mem_append, mem_singleton] at hn
    rcases hn with hn | rfl
    · exact ih (hparent node p hnode hp) n hn
    · exact hnode

theorem hash_fresh_of_indexed (hnode : index.get node.getHash = some node)
    (hp : node.parent = some prev) (hchain : ∀ n ∈ prev.chain, index.get n.getHash = some n) :
    node.getHash ∉ prev.leaves.map Prod.fst := by
  intro hmem
  simp only [leaves, map_map, mem_map, Function.comp_apply] at hmem
  obtain ⟨n, hn, hhash⟩ := hmem
  have hprev := hchain n hn
  rw [hhash, hnode, Option.some.injEq] at hprev
  subst hprev
  -- a node is not in the chain of its own parent, which is shorter
  have hle (q : ChainNode H) : ∀ n ∈ q.chain, n.chain.length ≤ q.chain.length := by
    induction q using parentInduction with
    | root q hq =>
      intro n hn
      rw [chain_root hq, mem_singleton] at hn
      rw [hn]
    | child q p hq ih =>
      intro n hn
      rw [chain_child hq, mem_append, mem_singleton] at hn
      rcases hn with hn | rfl
      · exact Nat.le_trans (ih n hn) (by rw [chain_child hq, length_append]; omega)
      · exact Nat.le_refl _
  have hlength := hle prev node hn
  rw [chain_child hp, length_append, length_singleton] at hlength
  omega

end

section
omit [DecidableEq H]

section
variable (h : Stored s) (hnode : s.index.index.get node.getHash = some node)
include h hnode

theorem Stored.chain :
    ∀ n ∈ node.chain, s.index.index.get n.getHash = some n :=
  chain_indexed (fun n p hn hp => ((h.node _ n hn).parent p hp).1) hnode

theorem Stored.hash_fresh (hp : node.parent = some prev) :
    node.getHash ∉ prev.leaves.map Prod.fst :=
  hash_fresh_of_indexed hnode hp (h.chain ((h.node _ _ hnode).parent prev hp).1)

end

end

/-! ## What the operations change -/

theorem flushToDB_eq (h : s.flushToDB env = .ok s') : ∃ rows dirty, s' =
    { s with db := { s.db with blockIndex := rows }, index := { s.index with dirty } } := by
  have hrows (nodes : List (ChainNode H)) (db : ChainDB H) :
      ∃ rows, nodes.foldl (storeBlockNode s.index) db = { db with blockIndex := rows } := by
    induction nodes generalizing db with
    | nil => exact ⟨_, rfl⟩
    | cons n nodes ih =>
      obtain ⟨rows, hrows⟩ := ih (storeBlockNode s.index db n)
      exact ⟨rows, by rw [foldl_cons, hrows]; rfl⟩
  unfold flushToDB at h
  split at h
  · cases h
    exact ⟨_, _, rfl⟩
  · simp only [ok_rules] at h
    obtain ⟨-, rfl⟩ := h
    obtain ⟨rows, hrows⟩ := hrows s.index.dirty s.db
    exact ⟨rows, _, by rw [hrows]⟩

structure Accepted (s s' : BlockStorage H) (block : StoredBlock H) (node prev : ChainNode H) : Prop where
  index : s'.index.index = s.index.index.set node.getHash node
  bestChain : s'.bestChain = s.bestChain
  lastSerialID : s'.lastSerialID = s.lastSerialID + 1
  bestState : s'.db.bestState = s.db.bestState
  blocks : s'.db.blocks =
    if (s.db.blocks.get block.hash).isSome then s.db.blocks else s.db.blocks.set block.hash block
  serial : s'.db.serialIDToPrev = s.db.serialIDToPrev.set node.serialID (node.getHash, prev.serialID)
  list : s'.db.bestChainSerialIDs = s.db.bestChainSerialIDs
  roots : ∀ hash ≠ node.getHash, s'.db.hashToMMRRoot.get hash = s.db.hashToMMRRoot.get hash
  actual : ∀ hash ≠ node.getHash, s'.actualMMRRoot.get hash = s.actualMMRRoot.get hash

theorem acceptBlock_ok (h : s.acceptBlock env block prev = .ok s') :
    Accepted s s' block (.new block.header (some prev) (s.lastSerialID + 1)) prev := by
  simp only [acceptBlock, ChainDB.update, ChainDB.storeBlock, writeNode, ChainDB.putMMRRoot, ChainDB.putSerialID,
    ok_rules] at h
  obtain ⟨db, ⟨-, ⟨-, rfl⟩, -, rfl⟩, s₁, hflush, -, ⟨-, ⟨-, ⟨-, rfl⟩, -, rfl⟩, -, rfl⟩, rfl⟩ := h
  obtain ⟨rows, dirty, rfl⟩ := flushToDB_eq hflush
  refine ⟨rfl, rfl, rfl, ?_, ?_, ?_, ?_, fun hash hne => ?_, fun hash hne => ?_⟩
  · simp only [addNode, setStatus]
    split <;> rfl
  · simp only [addNode, setStatus]
    split <;> rfl
  · simp only [addNode, setStatus]
    split <;> rfl
  · simp only [addNode, setStatus]
    split <;> rfl
  · simp only [addNode, setStatus]
    rw [get_set_ne _ _ hne]
    split <;> rfl
  · have hne' : hash ≠ (new block.header (some prev) (s.lastSerialID + 1)).mmrNode.getHash := by
      rwa [MmrTree.getHash_mmrNode]
    exact Mmr.TreeContainer.actual_setNode _ _ hne'

/-- The block is new, it comes behind `prev`, and its header commits to the root over the chain of `prev`. -/
structure Fits (s : BlockStorage H) (block : StoredBlock H) (prev : ChainNode H) : Prop where
  fresh : s.index.index.get block.hash = none
  parent : s.index.index.get prev.getHash = some prev
  prevHash : block.header.prevBlockHash = prev.getHash
  height : block.header.height = prev.height + 1
  root : block.header.prevBlocksMMRRoot = prev.chainRoot

theorem Accepted.grows (hfits : Fits s block prev)
    (h : Accepted s s' block (.new block.header (some prev) (s.lastSerialID + 1)) prev) : Grows s s' where
  index hash node hnode := by
    rw [h.index]
    rw [get_set_ne _ _ (fun heq => ?_), hnode]
    rw [heq] at hnode
    exact absurd (hfits.fresh.symm.trans hnode) (by simp)
  blocks hash stored hstored := by
    rw [h.blocks]
    split
    · exact hstored
    next hnone =>
      rw [get_set_ne _ _ (fun heq => ?_), hstored]
      rw [heq] at hstored
      simp [hstored] at hnone
  serial serialID hash prev' hle hserial := by
    refine ⟨prev', ?_⟩
    rw [h.serial, get_set_ne _ _ (fun heq => ?_), hserial]
    rw [show (new block.header (some prev) (s.lastSerialID + 1)).serialID = s.lastSerialID + 1 from rfl] at heq
    omega
  lastSerialID := by rw [h.lastSerialID]; omega

theorem Accepted.stored (hstored : Stored s) (hfits : Fits s block prev)
    (h : Accepted s s' block (.new block.header (some prev) (s.lastSerialID + 1)) prev) : Stored s' := by
  have hgrows := h.grows hfits
  have hnew : s'.index.index.get block.hash = some (.new block.header (some prev) (s.lastSerialID + 1)) := by
    rw [h.index]
    exact get_set_self ..
  have hblocks : s'.db.blocks.get block.hash = some block := by
    rw [h.blocks]
    split
    next hsome =>
      obtain ⟨stored, hget⟩ := Option.isSome_iff_exists.1 hsome
      obtain ⟨node, hnode⟩ := hstored.indexed _ _ hget
      exact absurd (hfits.fresh.symm.trans hnode) (by simp)
    next => exact get_set_self ..
  have hkept : KeptNode s' (.new block.header (some prev) (s.lastSerialID + 1)) := {
    numbered := ⟨hfits.height, (hstored.node _ _ hfits.parent).numbered⟩
    built := rfl
    parent := fun p hp => by
      cases hp
      exact ⟨hgrows.index _ _ hfits.parent, hfits.prevHash⟩
    root := hfits.root
    block := ⟨block, hblocks, rfl⟩
    serial := ⟨prev.serialID, by rw [h.serial]; exact get_set_self ..⟩
    bound := h.lastSerialID.ge }
  refine ⟨fun hash node hnode => ?_, fun hash node hnode => ?_, fun hash stored hget => ?_⟩
  · rcases get_set_cases (h.index ▸ hnode) with ⟨rfl, rfl⟩ | hnode
    · rfl
    · exact hstored.key hash node hnode
  · rcases get_set_cases (h.index ▸ hnode) with ⟨-, rfl⟩ | hnode
    · exact hkept
    · exact (hstored.node hash node hnode).mono hgrows
  · have hcases : hash = block.hash ∨ s.db.blocks.get hash = some stored := by
      rw [h.blocks] at hget
      split at hget
      · exact .inr hget
      · exact (get_set_cases hget).imp_left And.left
    rcases hcases with rfl | hget
    · exact ⟨_, hnew⟩
    · obtain ⟨node, hnode⟩ := hstored.indexed _ _ hget
      exact ⟨node, hgrows.index _ _ hnode⟩

/-! ## The best chain -/

/-- The best chain is the chain of `tip`: its nodes, their actual roots and the stored best state. -/
structure Best (s : BlockStorage H) (tip : ChainNode H) : Prop where
  indexed : s.index.index.get tip.getHash = some tip
  nodes : s.bestChain.nodes = tip.chain.map some
  actual : ∀ n ∈ tip.chain, s.actualMMRRoot.get n.getHash = some n.chainRoot
  root : s.bestChain.mmrTree.tree.currentRoot = tip.chainRoot
  leavesOpen : Mmr.TreeStore.LeavesOpen s.bestChain.mmrTree.tree.store
  state : ∃ state, s.db.bestState = some state ∧ state.hash = tip.getHash ∧
    state.height = (tip.height % 2 ^ 32).toNat ∧ state.mmrRoot = tip.chainRoot

/-- The saved list is that of the chain of `tip`, and the roots of its nodes are stored. -/
structure Saved (s : BlockStorage H) (tip : ChainNode H) : Prop where
  indexed : s.index.index.get tip.getHash = some tip
  list : s.db.bestChainSerialIDs = some (tip.chain.map fun n => n.serialID)
  roots : ∀ n ∈ tip.chain, s.db.hashToMMRRoot.get n.getHash = some n.chainRoot

section
omit [DecidableEq H]

theorem Best.tip_eq (h : Best s tip) : s.bestChain.tip = some tip := by
  rw [ChainView.tip, h.nodes, getLast?_map, tip.getLast?_chain]
  rfl

theorem Fits.ne_of_mem (hstored : Stored s) (hfits : Fits s block prev)
    (htip : s.index.index.get tip.getHash = some tip) : ∀ n ∈ tip.chain, n.getHash ≠ block.hash := by
  intro n hn heq
  have hget := hstored.chain htip n hn
  rw [heq, hfits.fresh] at hget
  cases hget

end

theorem Best.accept (h : Best s tip) (hstored : Stored s) (hfits : Fits s block prev)
    (haccepted : Accepted s s' block (.new block.header (some prev) (s.lastSerialID + 1)) prev) : Best s' tip where
  indexed := (haccepted.grows hfits).index _ _ h.indexed
  nodes := by rw [haccepted.bestChain, h.nodes]
  actual n hn := by rw [haccepted.actual _ (hfits.ne_of_mem hstored h.indexed n hn), h.actual n hn]
  root := by rw [haccepted.bestChain, h.root]
  leavesOpen := by rw [haccepted.bestChain]; exact h.leavesOpen
  state := by rw [haccepted.bestState]; exact h.state

theorem Saved.accept (h : Saved s tip) (hstored : Stored s) (hfits : Fits s block prev)
    (haccepted : Accepted s s' block (.new block.header (some prev) (s.lastSerialID + 1)) prev) : Saved s' tip where
  indexed := (haccepted.grows hfits).index _ _ h.indexed
  list := by rw [haccepted.list, h.list]
  roots n hn := by rw [haccepted.roots _ (hfits.ne_of_mem hstored h.indexed n hn), h.roots n hn]

end Jaxnetd.Blockchain
