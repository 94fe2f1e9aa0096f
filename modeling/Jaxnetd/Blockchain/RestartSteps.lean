import Jaxnetd.Blockchain.RestartInv

/-!
# Connects, disconnects and saves keep the invariants

A connect appends the node to the MMR tree of the best chain while the tree is the one over the chain. A disconnect finds no
fork point in the tree and adds the whole chain again, which leaves the nodes, their actual roots and the current root
right, but not the leaves. So only connects need a tree never cut back.
-/

namespace Jaxnetd.Blockchain
open Wire TxScript Chaindata Checks List ChainNode BlockStorage GoMap BlockChain

variable {H : Type} [DecidableEq H] [ChainHash H]
  {b : BlockChain H} {env : ChainEnv H} {s s' : BlockStorage H} {node tip prev : ChainNode H} {block : StoredBlock H}
  {view committed : UtxoViewpoint H} {stxos : List SpentTxOut} {forkRoot : Option (ChainNode H)}

/-! ## Operations of a run

A run stores blocks behind nodes of the index and moves the tip to nodes of the index and back. Runs differ in what they ask
of a header and in when a move counts.
-/

namespace BlockStorage
variable (s : BlockStorage H) (env : ChainEnv H)

def storeBehind (block : StoredBlock H) (check : ChainNode H → Except ChainError Unit) :
    Except ChainError (BlockStorage H) := do
  failIf (s.index.index.get block.hash).isSome (.other ("already have block " ++ hashString block.hash))
  let prevNode ← orFail (.other "orphan") (s.index.index.get block.header.prevBlockHash)
  check prevNode
  s.acceptBlock env block prevNode

/-- A move to a node of the index that has a parent. -/
def withIndexed (hash : H) (move : ChainNode H → StoredBlock H → Except ChainError (BlockStorage H)) :
    Except ChainError (BlockStorage H) := do
  let node ← orFail (.other "unknown block") (s.index.index.get hash)
  let _ ← orFail (.other "no parent") node.parent
  let block ← s.db.fetchBlock env hash
  move node block

def withTip (move : ChainNode H → StoredBlock H → Except ChainError (BlockStorage H)) :
    Except ChainError (BlockStorage H) := do
  let node ← orFail (.other "no tip") s.bestChain.tip
  let block ← s.db.fetchBlock env node.getHash
  move node block

end BlockStorage

/-! ## Moves of the tip -/

structure Moved (s s' : BlockStorage H) (target : ChainNode H) (root : H) : Prop where
  index : s'.index.index = s.index.index
  lastSerialID : s'.lastSerialID = s.lastSerialID
  blocks : s'.db.blocks = s.db.blocks
  serial : ∀ serialID hash prev, s.db.serialIDToPrev.get serialID = some (hash, prev) →
    ∃ prev', s'.db.serialIDToPrev.get serialID = some (hash, prev')
  list : s'.db.bestChainSerialIDs = s.db.bestChainSerialIDs
  roots : s'.db.hashToMMRRoot = s.db.hashToMMRRoot
  bestChain : s'.bestChain = (s.bestChain.setTip s.actualMMRRoot target).1
  actual : s'.actualMMRRoot = (s.bestChain.setTip s.actualMMRRoot target).2
  state : ∃ state, s'.db.bestState = some state ∧ state.hash = target.getHash ∧
    state.height = (target.height % 2 ^ 32).toNat ∧ state.mmrRoot = root

variable {root : H} {genesis : StoredBlock H}

theorem Moved.grows (h : Moved s s' node root) : Grows s s' where
  index hash n hn := by rw [h.index, hn]
  blocks hash block hblock := by rw [h.blocks, hblock]
  serial serialID hash prev _ := h.serial serialID hash prev
  lastSerialID := h.lastSerialID.ge

theorem Moved.stored (h : Moved s s' node root) (hstored : Stored s) : Stored s' where
  key hash n hn := hstored.key hash n (by rwa [h.index] at hn)
  node hash n hn := (hstored.node hash n (by rwa [h.index] at hn)).mono h.grows
  indexed hash block hblock := by
    rw [h.blocks] at hblock
    obtain ⟨n, hn⟩ := hstored.indexed hash block hblock
    exact ⟨n, by rw [h.index, hn]⟩

theorem Moved.saved {t : ChainNode H} (h : Moved s s' node root) (hsaved : Saved s t) : Saved s' t where
  indexed := h.grows.index _ _ hsaved.indexed
  list := by rw [h.list, hsaved.list]
  roots n hn := by rw [h.roots, hsaved.roots n hn]

/-! ## Connecting -/

section Connect
variable [Primitives]

theorem connectBlock_moved (henv : ∀ op, env.fails op = none)
    (h : b.connectBlock env s node block view stxos = (.ok committed, s')) :
    s.bestChain.tip.map getHash = some node.prevHash ∧ Moved s s' node s'.bestChain.mmrTree.tree.currentRoot := by
  unfold connectBlock at h
  split at h
  next => cases h
  next s₁ hprepared =>
    dsimp only at h
    split at h
    next => cases h
    next db hdb =>
      cases h
      have hstate := bestState_connect hdb
      simp only [prepareConnect, ok_rules] at hprepared
      obtain ⟨htip, -, -, hflush⟩ := hprepared
      obtain ⟨rows, dirty, rfl⟩ := flushToDB_eq hflush
      simp only [ChainDB.update, writeConnect, ChainDB.putBestState, ChainDB.putBlockIndex, ChainDB.putView,
        ChainDB.putSpendJournalEntry, ok_rules, attempt_eq_ok] at hdb
      obtain ⟨-, ⟨-, ⟨-, rfl⟩, -, ⟨-, -, rfl⟩, -, ⟨-, rfl⟩, -, rfl⟩, -, rfl⟩ := hdb
      rw [if_pos (henv _)] at hstate
      have hput : env.attempt .putBestState = .ok () := by rw [attempt_eq_ok]; exact henv _
      refine ⟨htip, rfl, rfl, ?_, fun serialID hash prev hserial => ⟨prev, ?_⟩, ?_, ?_, rfl, rfl, _, hstate, rfl, rfl, rfl⟩
      all_goals rw [hput]; first | rfl | exact hserial

omit [Primitives] in
theorem Best.connect (h : Best s tip) (hstored : Stored s) (htree : Mmr.BlocksMMRTree.Inv tip.leaves s.bestChain.mmrTree.tree)
    (hnode : s.index.index.get node.getHash = some node) (hchild : node.parent.isSome)
    (htip : s.bestChain.tip.map getHash = some node.prevHash)
    (hmoved : Moved s s' node s'.bestChain.mmrTree.tree.currentRoot) :
    Best s' node ∧ Mmr.BlocksMMRTree.Inv node.leaves s'.bestChain.mmrTree.tree := by
  have hkept := hstored.node _ _ hnode
  rw [h.tip_eq, Option.map_some, Option.some.injEq] at htip
  have hparent : node.parent = some tip := by
    cases hp : node.parent with
    | none => rw [hp] at hchild; cases hchild
    | some p =>
      obtain ⟨hindexed, hprev⟩ := hkept.parent p hp
      rw [← hprev, ← htip, h.indexed] at hindexed
      exact hindexed.symm
  have hroot : node.prevMMRRoot = s.bestChain.mmrTree.tree.currentRoot := by
    rw [hkept.root, hparent, h.root]
    rfl
  have hset := MmrTree.setNode_of_prev s.actualMMRRoot hroot
  have hinv := htree.appendBlock (hstored.hash_fresh hnode hparent) node.powWeight
  rw [← leaves_child hparent] at hinv
  have htree' : s'.bestChain.mmrTree.tree = s.bestChain.mmrTree.tree.appendBlock node.getHash node.powWeight := by
    rw [hmoved.bestChain, ChainView.setTip, hset]
  have hactual : s'.actualMMRRoot = s.actualMMRRoot.set node.getHash node.chainRoot := by
    rw [hmoved.actual, ChainView.setTip, hset]
    exact congrArg (s.actualMMRRoot.set node.getHash) hinv.root
  rw [← htree'] at hinv
  refine ⟨⟨by rw [hmoved.index, hnode], ?_, fun n hn => ?_, hinv.root, ?_, ?_⟩, hinv⟩
  · rw [hmoved.bestChain, ChainView.setTip, h.nodes]
    exact placeNodes_resize hkept.numbered fun _ _ => chain_take
  · rw [hactual]
    rw [chain_child hparent, mem_append, mem_singleton] at hn
    rcases hn with hn | rfl
    · have hne : n.getHash ≠ node.getHash := by
        intro heq
        refine hstored.hash_fresh hnode hparent ?_
        rw [← heq, leaves, map_map]
        exact mem_map_of_mem hn
      rw [get_set_ne _ _ hne, h.actual n hn]
    · rw [get_set_self]
  · obtain ⟨k, full, hstore⟩ := hinv.store
    exact hstore.leavesOpen
  · obtain ⟨state, hstate, hhash, hheight, hmmr⟩ := hmoved.state
    exact ⟨state, hstate, hhash, hheight, hmmr.trans hinv.root⟩

end Connect

/-! ## Disconnecting -/

/-- The roots of the chains in the index are told apart by their nodes, and none is zero. -/
structure Apart (s : BlockStorage H) : Prop where
  inj : ∀ hash n hash' n', s.index.index.get hash = some n → s.index.index.get hash' = some n' →
    n.chainRoot = n'.chainRoot → n = n'
  nonzero : ∀ hash n, s.index.index.get hash = some n → n.chainRoot ≠ ChainHash.zeroHash

omit [DecidableEq H] in
theorem Apart.of_index (h : Apart s')
    (hindex : ∀ hash n, s.index.index.get hash = some n → s'.index.index.get hash = some n) : Apart s where
  inj hash n hash' n' hn hn' := h.inj hash n hash' n' (hindex _ _ hn) (hindex _ _ hn')
  nonzero hash n hn := h.nonzero hash n (hindex _ _ hn)

omit [DecidableEq H] [ChainHash H] in
theorem chain_mmrNode (node : ChainNode H) : node.mmrNode.chain = node.chain.map mmrNode := by
  obtain ⟨n, ancestors⟩ := node
  induction ancestors generalizing n with
  | nil => rfl
  | cons p ancestors ih =>
    show _ = (chain ⟨p, ancestors⟩ ++ [_]).map _
    rw [map_append, ← ih p]
    rfl

/-- Setting a node whose chain is known, but which does not come next, moves the root to it and nothing else. -/
theorem setNode_known {m : MmrTree H} {actual : GoMap H H} (hopen : Mmr.TreeStore.LeavesOpen m.tree.store)
    (hn : Numbered node.toNodeInfo node.ancestors) (hprev : node.prevMMRRoot ≠ m.tree.currentRoot)
    (hactual : ∀ n ∈ node.chain, actual.get n.getHash = some n.chainRoot)
    (hnonzero : ∀ n ∈ node.chain, n.chainRoot ≠ ChainHash.zeroHash) :
    (m.setNode actual node).2 = actual ∧ Mmr.TreeStore.LeavesOpen (m.setNode actual node).1.tree.store ∧
      (m.setNode actual node).1.tree.currentRoot = node.chainRoot := by
  let c : Mmr.TreeContainer H := ⟨m.tree, m.rootToBlock, actual⟩
  have hpending (n : ChainNode H) (hn : n ∈ node.chain) : (c.pending n.mmrNode).actualMMRRoot = n.chainRoot := by
    show (actual.get n.mmrNode.getHash).getD _ = _
    rw [MmrTree.getHash_mmrNode, hactual n hn]
    rfl
  have hset : c.setNodeToMmrWithReorganization node.mmrNode = _ := Mmr.TreeContainer.setNode_open hopen
    (by rwa [MmrTree.prevMMRRoot_mmrNode]) fun d hd => by
      obtain ⟨n, _ | ⟨p, ancestors⟩⟩ := node
      · cases hd
        exact hn.height.1
      · cases hd
  rw [chain_mmrNode, map_map] at hset
  have hne : node.chain.map (c.pending ∘ mmrNode) ≠ [] := by
    have hmem := node.self_mem_chain
    intro hnil
    rw [map_eq_nil_iff] at hnil
    rw [hnil] at hmem
    cases hmem
  have hfold := @Mmr.TreeContainer.foldl_addPending _ _ _ c node.mmrNode hopen _ hne fun p hp => by
    obtain ⟨n, hn, rfl⟩ := mem_map.1 hp
    rw [Function.comp_apply, hpending n hn]
    exact hnonzero n hn
  have hlast : (List.getLast _ hne).actualMMRRoot = node.chainRoot := by
    rw [getLast_map, Function.comp_apply]
    have hself : node.chain.getLast (by simpa using hne) = node := by
      cases hp : node.parent with
      | none => simp [chain_root hp]
      | some p => simp [chain_child hp]
    rw [hself]
    exact hpending node node.self_mem_chain
  simp only [MmrTree.setNode, show c.setNodeToMmrWithReorganization node.mmrNode = _ from hset, c] at hfold ⊢
  exact ⟨hfold.1, hfold.2.1, hfold.2.2.trans hlast⟩

theorem Best.disconnect (h : Best s tip) (hstored : Stored s) (hapart : Apart s) (hparent : tip.parent = some prev)
    (hmoved : Moved s s' prev tip.prevMMRRoot) : Best s' prev := by
  have hkept := hstored.node _ _ h.indexed
  have hprev := (hkept.parent prev hparent).1
  have hprevKept := hstored.node _ _ hprev
  have hroot : tip.prevMMRRoot = prev.chainRoot := by rw [hkept.root, hparent]; rfl
  have hactual : ∀ n ∈ prev.chain, s.actualMMRRoot.get n.getHash = some n.chainRoot := fun n hn =>
    h.actual n (by rw [chain_child hparent]; exact mem_append_left _ hn)
  -- the tree is at the root of the tip, which the parent does not build on
  have hne : prev.prevMMRRoot ≠ s.bestChain.mmrTree.tree.currentRoot := by
    rw [hprevKept.root, h.root]
    cases hp : prev.parent with
    | none => exact (hapart.nonzero _ _ h.indexed).symm
    | some g =>
      intro heq
      have hg := hapart.inj _ _ _ _ (hprevKept.parent g hp).1 h.indexed heq
      have hlength := congrArg (fun n : ChainNode H => n.chain.length) hg
      simp only [chain_child hparent, chain_child hp, length_append, length_singleton] at hlength
      omega
  have hset := setNode_known h.leavesOpen hprevKept.numbered hne hactual fun n hn =>
    hapart.nonzero _ _ (hstored.chain hprev n hn)
  refine ⟨by rw [hmoved.index, hprev], ?_, fun n hn => ?_, ?_, ?_, ?_⟩
  · rw [hmoved.bestChain, ChainView.setTip, h.nodes]
    exact placeNodes_resize (numbered_parent hkept.numbered hparent).1 fun _ _ => chain_take
  · rw [hmoved.actual, ChainView.setTip, hset.1, hactual n hn]
  · rw [hmoved.bestChain, ChainView.setTip]
    exact hset.2.2
  · rw [hmoved.bestChain, ChainView.setTip]
    exact hset.2.1
  · obtain ⟨state, hstate, hhash, hheight, hmmr⟩ := hmoved.state
    exact ⟨state, hstate, hhash, hheight, hmmr.trans hroot⟩

theorem disconnectBlock_moved [Primitives] (h : b.disconnectBlock env s node block view forkRoot = (.ok committed, s')) :
    s'.index.index = s.index.index ∧ ((∃ prev, s.db.serialIDToPrev.get node.serialID = some (node.getHash, prev)) →
        ∃ prev, node.parent = some prev ∧ Moved s s' prev node.prevMMRRoot) := by
  unfold disconnectBlock at h
  split at h
  next => cases h
  next prev prevBlock s₁ hprepared =>
    dsimp only at h
    split at h
    next => cases h
    next db hdb =>
      cases h
      simp only [prepareDisconnect, ok_rules] at hprepared
      obtain ⟨-, p, hparent, stored, -, s₂, hflush, rfl, rfl, rfl⟩ := hprepared
      obtain ⟨rows, dirty, rfl⟩ := flushToDB_eq hflush
      simp only [ChainDB.update, writeDisconnect, ChainDB.putBestState, ChainDB.removeBlockIndex,
        ChainDB.putView, ChainDB.removeSpendJournalEntry, ok_rules] at hdb
      obtain ⟨db₁, ⟨-, ⟨-, rfl⟩, -, ⟨-, rfl⟩, -, ⟨-, -, rfl⟩, -, -, -, ⟨-, rfl⟩, -, hroot⟩, -, rfl⟩ := hdb
      refine ⟨rfl, fun hserial => ⟨p, hparent, ?_⟩⟩
      cases forkRoot with
      | none =>
        cases hroot
        exact ⟨rfl, rfl, rfl, fun serialID hash prev hget => ⟨prev, hget⟩, rfl, rfl, rfl, rfl, _, rfl, rfl, rfl, rfl⟩
      | some root =>
        simp only [ChainDB.putSerialID, ok_rules] at hroot
        obtain ⟨-, rfl⟩ := hroot
        refine ⟨rfl, rfl, rfl, fun serialID hash prev hget => ?_, rfl, rfl, rfl, rfl, _, rfl, rfl, rfl, rfl⟩
        by_cases heq : serialID = node.serialID
        · obtain ⟨prev', hnode⟩ := hserial
          rw [heq, hnode] at hget
          cases hget
          exact ⟨root.serialID, by rw [heq]; exact get_set_self ..⟩
        · exact ⟨prev, (get_set_ne _ _ heq).trans hget⟩

/-! ## Saving -/

theorem foldlM_saveNode {actual : GoMap H H} {db db' : ChainDB H} (nodes : List (ChainNode H))
    (h : (nodes.map some).foldlM (saveNode env actual) db = .ok db') :
    ∃ roots, db' = { db with hashToMMRRoot := roots } ∧ ∀ n ∈ nodes, ∀ root, actual.get n.getHash = some root →
      roots.get n.getHash = some root := by
  induction nodes using List.reverseRecOn generalizing db' with
  | nil =>
    cases h
    exact ⟨_, rfl, by simp⟩
  | append_singleton nodes n ih =>
    rw [map_append, foldlM_append] at h
    simp only [map_cons, map_nil, foldlM_cons, foldlM_nil, saveNode, ChainDB.putMMRRoot, ok_rules,
      Option.some.injEq] at h
    obtain ⟨db₁, hnodes, -, ⟨-, rfl, -, rfl⟩, rfl⟩ := h
    obtain ⟨roots, rfl, hroots⟩ := ih hnodes
    refine ⟨_, rfl, fun m hm root hroot => ?_⟩
    by_cases heq : m.getHash = n.getHash
    · rw [heq, get_set_self, ← heq, hroot]
      rfl
    · rw [get_set_ne _ _ heq]
      rcases mem_append.1 hm with hm | hm
      · exact hroots m hm root hroot
      · rw [mem_singleton.1 hm] at heq
        exact absurd rfl heq

theorem save_ok (hbest : Best s tip) (hstored : Stored s) (h : s.saveBestChainSerialIDs env = .ok s') :
    Stored s' ∧ Best s' tip ∧ Saved s' tip ∧ s'.bestChain = s.bestChain := by
  simp only [saveBestChainSerialIDs, ChainDB.update, ok_rules] at h
  obtain ⟨-, ⟨-, ⟨db, hfold, -, rfl⟩, -, rfl⟩, rfl⟩ := h
  rw [hbest.nodes] at hfold
  obtain ⟨roots, rfl, hroots⟩ := foldlM_saveNode tip.chain hfold
  refine ⟨?_, ?_, ?_, rfl⟩
  · exact ⟨hstored.key, fun hash node hnode => (hstored.node hash node hnode).mono
      ⟨fun _ _ h => h, fun _ _ h => h, fun _ _ prev _ h => ⟨prev, h⟩, le_refl _⟩, hstored.indexed⟩
  · exact ⟨hbest.indexed, hbest.nodes, hbest.actual, hbest.root, hbest.leavesOpen, hbest.state⟩
  · refine ⟨hbest.indexed, ?_, fun n hn => hroots n hn _ (hbest.actual n hn)⟩
    rw [hbest.nodes, filterMap_map, ← filterMap_eq_map]
    rfl

/-! ## The first start -/

/-- The genesis block is at height 0 and commits to no earlier tree. -/
structure GenesisHeader (header : IndexHeader H) : Prop where
  height : header.height = 0
  root : header.prevBlocksMMRRoot = ChainHash.zeroHash

theorem withGenesis_eq (genesis : StoredBlock H) (node : ChainNode H) (hroot : node.prevMMRRoot = ChainHash.zeroHash) :
    (opened .empty genesis).withGenesis node = let tree := Mmr.newTree.appendBlock node.getHash node.powWeight
      let mmrTree : MmrTree H := ⟨tree, empty.set tree.currentRoot node.getHash⟩
      { opened .empty genesis with
        index := ⟨empty.set node.getHash node, empty.set node.getHash ⟨true, true, false, false⟩, [], mmrTree⟩
        bestChain := ⟨placeNodes (resize [] (node.height + 1).toNat) node.toNodeInfo node.ancestors, mmrTree⟩
        actualMMRRoot := (empty.set node.getHash tree.currentRoot).set node.getHash tree.currentRoot } := by
  have hset (actual : GoMap H H) := MmrTree.setNode_of_prev (m := .new) actual hroot
  simp only [withGenesis, addNode, setTip, setStatus, ChainView.setTip, opened, ChainView.new, hset]
  rfl

structure GenesisRows (snapshot : BestState H) (node : ChainNode H) (genesis : StoredBlock H) (db : ChainDB H) : Prop where
  bestState : ∃ state, db.bestState = some state ∧ state.hash = snapshot.hash ∧
    state.height = (snapshot.height % 2 ^ 32).toNat ∧ state.mmrRoot = snapshot.currentMMRRoot
  blocks : db.blocks = empty.set genesis.hash genesis
  serial : db.serialIDToPrev = empty.set 0 (genesis.hash, 0)
  rows : ∃ status, db.blockIndex = [⟨node.header, status, node.serialID⟩]
  list : db.bestChainSerialIDs = none
  roots : db.hashToMMRRoot = .empty

theorem writeGenesis_ok [Primitives] {snapshot : BestState H} {index : BlockIndex H}
    {db : ChainDB H} (h : ChainDB.empty.update env (b.writeGenesis env snapshot index node genesis) = .ok db) :
    GenesisRows snapshot node genesis db := by
  simp only [ChainDB.update, writeGenesis, ChainDB.putSerialID, storeBlockNode, ChainDB.putBlockIndex,
    ChainDB.putBestState, ChainDB.storeBlock, ok_rules] at h
  obtain ⟨db₁, ⟨-, ⟨-, rfl⟩, -, -, ⟨-, rfl⟩, -, ⟨-, rfl⟩, -, ⟨-, rfl⟩, hview⟩, -, rfl⟩ := h
  split at hview
  · cases hview
    exact ⟨⟨_, rfl, rfl, rfl, rfl⟩, rfl, rfl, ⟨_, rfl⟩, rfl, rfl⟩
  · simp only [ok_rules] at hview
    obtain ⟨-, rfl⟩ := hview
    exact ⟨⟨_, rfl, rfl, rfl, rfl⟩, rfl, rfl, ⟨_, rfl⟩, rfl, rfl⟩

theorem createChainState_ok [Primitives] (hgenesis : GenesisHeader genesis.header)
    (h : b.createChainState env (.opened .empty genesis) genesis = .ok s) :
    let genesisNode := new genesis.header none 0
    Stored s ∧ Best s genesisNode ∧ Mmr.BlocksMMRTree.Inv genesisNode.leaves s.bestChain.mmrTree.tree ∧
      ∃ snapshot, GenesisRows snapshot genesisNode genesis s.db ∧ snapshot.hash = genesisNode.getHash ∧
        snapshot.currentMMRRoot = genesisNode.chainRoot := by
  intro genesisNode
  have hparent : genesisNode.parent = none := rfl
  have hnumbered : Numbered genesisNode.toNodeInfo genesisNode.ancestors := hgenesis.height
  have hinv : Mmr.BlocksMMRTree.Inv genesisNode.leaves
    (Mmr.newTree.appendBlock genesisNode.getHash genesisNode.powWeight) := by
    exact Mmr.BlocksMMRTree.newTree_inv.appendBlock (by simp) _
  simp only [createChainState, ok_rules] at h
  obtain ⟨db, hdb, rfl⟩ := h
  rw [withGenesis_eq genesis (.new genesis.header none 0) hgenesis.root] at hdb ⊢
  have hrows := writeGenesis_ok hdb
  have hone {V : Type} {k k' : H} {v v' : V} (hget : (empty.set k v).get k' = some v') : k' = k ∧ v' = v :=
    (get_set_cases hget).resolve_right (by simp)
  refine ⟨⟨fun hash node hnode => ?_, fun hash node hnode => ?_, fun hash block hblock => ?_⟩,
    ⟨?_, ?_, ?_, hinv.root, ?_, ?_⟩,
    hinv, _, hrows, rfl, hinv.root⟩
  · obtain ⟨rfl, rfl⟩ := hone hnode
    rfl
  · obtain ⟨rfl, rfl⟩ := hone hnode
    exact ⟨hnumbered, rfl, fun p hp => (by cases hp), hgenesis.root,
      ⟨genesis, by rw [hrows.blocks]; exact get_set_self .., rfl⟩,
      ⟨0, by rw [hrows.serial]; exact get_set_self ..⟩, le_refl _⟩
  · rw [hrows.blocks] at hblock
    obtain ⟨rfl, rfl⟩ := hone hblock
    exact ⟨_, get_set_self ..⟩
  · exact get_set_self ..
  · exact placeNodes_empty hnumbered
  · intro n hn
    rw [chain_root hparent, mem_singleton] at hn
    rw [hn]
    exact (get_set_self ..).trans (congrArg some hinv.root)
  · obtain ⟨k, full, hstore⟩ := hinv.store
    exact hstore.leavesOpen
  · obtain ⟨state, hstate, hhash, hheight, hroot⟩ := hrows.bestState
    exact ⟨state, hstate, hhash, hheight, hroot.trans hinv.root⟩

end Jaxnetd.Blockchain
