import Jaxnetd.Blockchain.RestartSteps

/-!
# Restarting after a run

A run starts with `createChainState`, stores, connects and disconnects blocks and saves the list of the best chain. After
any of these steps the process can stop, and `initChainState` then finds the database as it is. It comes back when the saved
list is that of the best chain. A list of another tip, or none, is not made up for: loading along the list compares the last
node with the stored tip, and loading over all rows has no root of the genesis block to start from.
-/

namespace Jaxnetd.Blockchain
open Wire TxScript Chaindata Checks List ChainNode BlockStorage BlockChain BlockIndexCache

variable {H : Type} [DecidableEq H] [ChainHash H]

section Main

/-! ## Loading along the saved list -/

def BlockStorage.loadChain (s : BlockStorage H) (nodes : List (ChainNode H)) : BlockStorage H :=
  nodes.foldl (fun s n => s.quickAdd n n.chainRoot) s

def records (node : ChainNode H) : List (Int × H) := node.chain.map fun n => (n.serialID, n.getHash)

variable {b : BlockChain H} {env : ChainEnv H} {s s' s₀ : BlockStorage H} {node tip : ChainNode H}
  {block : StoredBlock H} {db : ChainDB H}

theorem db_loadChain (s : BlockStorage H) (nodes : List (ChainNode H)) : (s.loadChain nodes).db = s.db := by
  unfold loadChain
  induction nodes generalizing s with
  | nil => rfl
  | cons n nodes ih => rw [foldl_cons, ih]; rfl

theorem loadChain_concat (s : BlockStorage H) (nodes : List (ChainNode H)) (n : ChainNode H) :
    s.loadChain (nodes ++ [n]) = (s.loadChain nodes).quickAdd n n.chainRoot := by
  simp [loadChain]

section
variable (henv : ∀ op, env.fails op = none)
include henv

omit [DecidableEq H] in
theorem fetchBlock_ok {hash : H}
    (h : db.blocks.get hash = some block) : db.fetchBlock env hash = .ok block := by
  simp [ChainDB.fetchBlock, henv, h]

theorem loadRecords_cons (hdb : s₀.db = s.db)
    (hkept : KeptNode s node) (hroot : s.db.hashToMMRRoot.get node.getHash = some node.chainRoot)
    (rest : List (Int × H)) :
    loadRecords env s₀ node.parent ((node.serialID, node.getHash) :: rest) =
      loadRecords env (s₀.quickAdd node node.chainRoot) (some node) rest := by
  obtain ⟨block, hblock, hheader⟩ := hkept.block
  have hfetch : s₀.db.fetchBlock env node.getHash = .ok block := fetchBlock_ok henv (by rw [hdb, hblock])
  have hcheck : checkPrev node.parent block.header = .ok () := by
    cases hp : node.parent with
    | none => rfl
    | some p =>
      have hprev := (hkept.parent p hp).2
      rw [checkPrev, failIf_eq_ok, not_not, ← hprev, hheader]
      rfl
  have hnew : new block.header node.parent node.serialID = node := by rw [hheader, ← hkept.built]
  have hstored : storedRoot s₀.db node = some node.chainRoot := by
    rw [storedRoot, hdb, hroot]
  simp only [loadRecords, hfetch, hcheck, hnew, hstored, bind, Except.bind]

theorem loadRecords_chain (hdb : s₀.db = s.db)
    (hstored : Stored s) (hnode : s.index.index.get node.getHash = some node)
    (hroots : ∀ n ∈ node.chain, s.db.hashToMMRRoot.get n.getHash = some n.chainRoot) (rest : List (Int × H)) :
    loadRecords env s₀ none (records node ++ rest) = loadRecords env (s₀.loadChain node.chain) (some node) rest := by
  have hkept := hstored.node _ _ hnode
  have hroot := hroots node node.self_mem_chain
  induction node using parentInduction generalizing rest with
  | root node hp =>
    rw [records, chain_root hp]
    have hcons := loadRecords_cons henv hdb hkept hroot rest
    rwa [hp] at hcons
  | child node p hp ih =>
    have hpnode := (hkept.parent p hp).1
    have hproots : ∀ n ∈ p.chain, s.db.hashToMMRRoot.get n.getHash = some n.chainRoot := fun n hn =>
      hroots n (by rw [chain_child hp]; exact mem_append_left _ hn)
    have hcons := loadRecords_cons henv ((db_loadChain s₀ p.chain).trans hdb) hkept hroot rest
    rw [hp] at hcons
    have hrecords : records node ++ rest = records p ++ (node.serialID, node.getHash) :: rest := by
      simp [records, chain_child hp]
    rw [hrecords, ih hpnode hproots _ (hstored.node _ _ hpnode) (hproots p p.self_mem_chain), hcons,
      chain_child hp, loadChain_concat]

end

omit [DecidableEq H] in
theorem getBestChainSerialIDs_ok (hstored : Stored s) (h : Saved s tip) :
    getBestChainSerialIDs s.db = .ok (records tip) := by
  have hmap (nodes : List (ChainNode H)) (hnodes : ∀ n ∈ nodes, KeptNode s n) :
      (nodes.map fun n => n.serialID).mapM (fun serialID =>
        (orFail (.other "chain serial id is empty or invalid") (s.db.serialIDToPrev.get serialID)).map
          fun r => (serialID, r.1)) = (.ok (nodes.map fun n => (n.serialID, n.getHash)) : Except ChainError _) := by
    induction nodes with
    | nil => rfl
    | cons n nodes ih =>
      obtain ⟨prev, hserial⟩ := (hnodes n (by simp)).serial
      rw [map_cons, mapM_cons, ih fun m hm => hnodes m (mem_cons_of_mem _ hm), hserial]
      rfl
  rw [getBestChainSerialIDs, h.list]
  exact hmap tip.chain fun n hn => hstored.node _ _ (hstored.chain h.indexed n hn)

structure LoadedChain (k : Nat) (s : BlockStorage H) (node : ChainNode H) : Prop where
  nodes : s.bestChain.nodes = node.chain.map some
  bestTree : Mmr.BlocksMMRTree.Loaded k node.leaves node.chainRoot s.bestChain.mmrTree.tree
  indexTree : Mmr.BlocksMMRTree.Loaded k node.leaves node.chainRoot s.index.mmrTree.tree
  indexed : s.index.index.get node.getHash = some node
  dirty : s.index.dirty = []

theorem loadedChain {k : Nat} (hstored : Stored s) (hnode : s.index.index.get node.getHash = some node)
    (hk : node.chain.length ≤ 2 ^ k) (hnodes : s₀.bestChain.nodes = []) (hdirty : s₀.index.dirty = [])
    (hbest : Mmr.BlocksMMRTree.Loaded k [] ChainHash.zeroHash s₀.bestChain.mmrTree.tree)
    (hindex : Mmr.BlocksMMRTree.Loaded k [] ChainHash.zeroHash s₀.index.mmrTree.tree) :
    LoadedChain k (s₀.loadChain node.chain) node := by
  have hkept := hstored.node _ _ hnode
  have hheight := height_chain hkept.numbered
  induction node using parentInduction with
  | root node hp =>
    rw [chain_root hp, length_singleton] at hheight hk
    have hzero : node.height.toNat = ([] : List (Mmr.Block H)).length := by simpa using hheight.1
    refine ⟨?_, ?_, ?_, ?_, ?_⟩ <;> rw [chain_root hp]
    · show placeNodes (resize s₀.bestChain.nodes _) _ _ = _
      rw [hnodes, placeNodes_empty hkept.numbered, chain_root hp]
    · rw [leaves_root hp]
      exact hbest.add node.getHash node.chainRoot node.powWeight hzero hk
    · rw [leaves_root hp]
      exact hindex.add node.getHash node.chainRoot node.powWeight hzero hk
    · exact GoMap.get_set_self ..
    · exact hdirty
  | child node p hp ih =>
    have hpnode := (hkept.parent p hp).1
    have hpkept := hstored.node _ _ hpnode
    rw [chain_child hp, length_append, length_singleton] at hheight hk
    have hloaded := ih hpnode (by omega) hpkept (height_chain hpkept.numbered)
    have hlength : p.leaves.length = p.chain.length := length_map ..
    have hplace : node.height.toNat = p.leaves.length := by omega
    rw [chain_child hp, loadChain_concat]
    refine ⟨?_, ?_, ?_, ?_, ?_⟩
    · show placeNodes (resize (s₀.loadChain p.chain).bestChain.nodes _) _ _ = _
      rw [hloaded.nodes, placeNodes_resize hkept.numbered fun _ _ => chain_take]
    · rw [leaves_child hp]
      exact hloaded.bestTree.add node.getHash node.chainRoot node.powWeight hplace (by omega)
    · rw [leaves_child hp]
      exact hloaded.indexTree.add node.getHash node.chainRoot node.powWeight hplace (by omega)
    · exact GoMap.get_set_self ..
    · exact hloaded.dirty

theorem rebuilt_ok {m : MmrTree H} {tree : Mmr.BlocksMMRTree H} (h : m.tree.rebuildTreeAndAssert = some tree)
    (message : String) : rebuilt m message = .ok { m with tree } := by
  rw [rebuilt, h]
  rfl

theorem flushToDB_clean (h : s.index.dirty = []) : s.flushToDB env = .ok s := by
  rw [flushToDB, h]
  rfl

def ComesBack (start : Except ChainError (BlockStorage H)) (tip : ChainNode H) : Prop :=
  ∃ s', start = .ok s' ∧ s'.bestChain.nodes = tip.chain.map some ∧ s'.bestChain.mmrTree.tree.currentRoot = tip.chainRoot

variable {state : BestChainState H} {view : UtxoViewpoint H}

theorem finishFastInit_ok (henv : ∀ op, env.fails op = none) {k : Nat} (h : LoadedChain k s tip)
    (hhash : state.hash = tip.getHash) (hblock : s.db.blocks.get tip.getHash = some block) :
    ComesBack (b.finishFastInit env s state (some tip)) tip := by
  have hne : tip.leaves ≠ [] := by
    rw [leaves, ne_eq, map_eq_nil_iff]
    exact ne_nil_of_mem tip.self_mem_chain
  obtain ⟨indexStore, hindex⟩ := h.indexTree.rebuild hne
  obtain ⟨bestStore, hbest⟩ := h.bestTree.rebuild hne
  have hfetch : s.db.fetchBlock env state.hash = .ok block := fetchBlock_ok henv (by rw [hhash, hblock])
  have hindexed : s.index.index.get state.hash = some tip := by rw [hhash, h.indexed]
  let loaded : BlockStorage H := { s with
    lastSerialID := state.lastSerialID
    index := { s.index with mmrTree := { s.index.mmrTree with tree := { s.index.mmrTree.tree with store := indexStore } } }
    bestChain := { s.bestChain with
      mmrTree := { s.bestChain.mmrTree with tree := { s.bestChain.mmrTree.tree with store := bestStore } } }
    stateSnapshot := b.loadedState s state tip tip block }
  refine ⟨loaded, ?_, h.nodes, h.bestTree.root⟩
  simp only [finishFastInit, ok_rules]
  exact ⟨tip, rfl, hhash.symm, tip, hindexed, block, hfetch, _, rebuilt_ok hindex _, _, rebuilt_ok hbest _,
    flushToDB_clean (s := loaded) h.dirty⟩

variable [Primitives] {genesis : StoredBlock H}

theorem initChainState_of_fast {full : Bool} (hstate : db.bestState = some state)
    (h : b.fastInitChainState env (.opened db genesis) state = .ok (full, s)) :
    b.initChainState env (.opened db genesis) genesis false =
      if full then b.fullInitChainState env s genesis.hash state else .ok s := by
  rw [initChainState, show (opened db genesis).db.bestState = some state from hstate]
  simp only [Bool.false_eq_true, if_false, h]
  cases full <;> rfl

theorem init_of_saved (henv : ∀ op, env.fails op = none) (hstored : Stored s) (hbest : Best s tip) (hsaved : Saved s tip)
    (genesis : StoredBlock H) : ComesBack (b.initChainState env (.opened s.db genesis) genesis false) tip := by
  obtain ⟨state, hstate, hhash, -, -⟩ := hbest.state
  obtain ⟨block, hblock, -⟩ := (hstored.node _ _ hsaved.indexed).block
  have hlist := getBestChainSerialIDs_ok hstored hsaved
  have hlength : (records tip).length = tip.chain.length := length_map ..
  obtain ⟨r, rest, hr⟩ : ∃ r rest, records tip = r :: rest := by
    cases hr : records tip with
    | nil => rw [hr, length_chain] at hlength; cases hlength
    | cons r rest => exact ⟨r, rest, rfl⟩
  rw [hr] at hlist hlength
  obtain ⟨k, hk, hnew⟩ := Mmr.BlocksMMRTree.loaded_preAllocateTree (H := H) (n := (r :: rest).length) (by simp)
  let s₀ := (opened s.db genesis).preAllocateTrees (r :: rest).length
  have hload := loadRecords_chain henv (show s₀.db = s.db from rfl) hstored hsaved.indexed hsaved.roots []
  rw [append_nil, hr] at hload
  have hloaded : LoadedChain k (s₀.loadChain tip.chain) tip :=
    loadedChain hstored hsaved.indexed (by omega) rfl rfl hnew hnew
  obtain ⟨s', hfinish, hnodes, hroot⟩ := finishFastInit_ok (b := b) henv hloaded hhash
    (by rw [db_loadChain]; exact hblock)
  have hfast : b.fastInitChainState env (.opened s.db genesis) state = .ok (false, s') := by
    simp only [fastInitChainState, bind_eq_ok]
    refine ⟨r :: rest, hlist, ?_⟩
    simp only [bind_eq_ok, Prod.exists]
    refine ⟨_, _, _, hload, ?_⟩
    simp only [bind_eq_ok, pure_eq_ok]
    exact ⟨s', hfinish, rfl⟩
  exact ⟨s', initChainState_of_fast hstate hfast, hnodes, hroot⟩

/-! ## Loading a fresh database over all rows -/

section
omit [Primitives]

theorem flushToDB_total (henv : ∀ op, env.fails op = none) (s : BlockStorage H) :
    ∃ s', s.flushToDB env = .ok s' ∧ s'.bestChain = s.bestChain := by
  unfold flushToDB
  split
  · exact ⟨s, rfl, rfl⟩
  · simp only [ok_rules, attempt_eq_ok]
    exact ⟨_, ⟨henv _, rfl⟩, rfl⟩

theorem load_genesis {header : IndexHeader H} {status : BlockStatus} (hrows : db.blockIndex = [⟨header, status, 0⟩]) :
    ∃ cache, loadBlockChainFromDB db header.blockHash = .ok cache ∧
      cache.index.get header.blockHash = some (.new header none 0) := by
  rw [loadBlockChainFromDB, hrows]
  simp only [foldlM_cons, foldlM_nil, loadRow, parentOf, ok_rules]
  exact ⟨_, ⟨_, ⟨none, ⟨trivial, rfl⟩, rfl, rfl⟩, rfl⟩, GoMap.get_set_self ..⟩

theorem full_of_root (henv : ∀ op, env.fails op = none)
    {cache : BlockIndexCache H} (hcache : loadBlockChainFromDB db genesis.hash = .ok cache)
    (htip : cache.index.get state.hash = some tip) (hparent : tip.parent = none)
    (hn : Numbered tip.toNodeInfo tip.ancestors) (hprev : tip.prevMMRRoot = ChainHash.zeroHash)
    (hblock : db.blocks.get state.hash = some block) :
    ComesBack (b.fullInitChainState env (.opened db genesis) genesis.hash state) tip := by
  have hinv : Mmr.BlocksMMRTree.Inv tip.leaves (Mmr.newTree.appendBlock tip.getHash tip.powWeight) := by
    rw [leaves_root hparent]
    exact Mmr.BlocksMMRTree.newTree_inv.appendBlock (by simp) _
  obtain ⟨store, hrebuild⟩ := hinv.rebuild (by simp [leaves_root hparent])
  have hset (actual : GoMap H H) := MmrTree.setNode_of_prev (m := .new) actual hprev
  have hfetch : db.fetchBlock env state.hash = .ok block := fetchBlock_ok henv hblock
  let s₀ : BlockStorage H := { opened db genesis with lastSerialID := state.lastSerialID }
  obtain ⟨s₁, hfrom⟩ : ∃ s₁, s₀.setFromCache cache tip = .ok s₁ := by
    simp only [setFromCache, ok_rules]
    exact ⟨_, _, by rw [show s₀.index.mmrTree = .new from rfl, hset]; exact rebuilt_ok hrebuild _, rfl⟩
  have hkept : s₁.bestChain = .new ∧ s₁.db = db := by
    simp only [setFromCache, ok_rules] at hfrom
    obtain ⟨mmrTree, -, rfl⟩ := hfrom
    exact ⟨rfl, rfl⟩
  have htree : (s₁.setTip tip).bestChain.mmrTree.tree = Mmr.newTree.appendBlock tip.getHash tip.powWeight := by
    rw [setTip, hkept.1, ChainView.setTip]
    simp only [ChainView.new, hset]
    rfl
  have hplaced : (s₁.setTip tip).bestChain.nodes = tip.chain.map some := by
    rw [setTip, hkept.1, ChainView.setTip]
    exact placeNodes_empty hn
  rw [← htree] at hrebuild
  obtain ⟨s', hflush, hview⟩ := flushToDB_total henv { s₁.setTip tip with
    index := markValid (s₁.setTip tip).index tip.toNodeInfo tip.ancestors
    bestChain := { (s₁.setTip tip).bestChain with
      mmrTree := { (s₁.setTip tip).bestChain.mmrTree with tree := { (s₁.setTip tip).bestChain.mmrTree.tree with store } } }
    stateSnapshot := b.loadedState (s₁.setTip tip) state tip tip block }
  refine ⟨s', ?_, by rw [hview, hplaced], ?_⟩
  · simp only [fullInitChainState, ok_rules]
    exact ⟨cache, hcache, tip, htip, s₁, hfrom, _, rebuilt_ok hrebuild _, block,
      by rw [show (s₁.setTip tip).db = s₁.db from rfl, hkept.2, hfetch], hflush⟩
  · rw [hview]
    rw [htree]
    exact hinv.root

end

theorem init_of_genesis (henv : ∀ op, env.fails op = none) (hgenesis : GenesisHeader genesis.header)
    (h : b.createChainState env (.opened .empty genesis) genesis = .ok s) :
    ComesBack (b.initChainState env (.opened s.db genesis) genesis false) (.new genesis.header none 0) := by
  obtain ⟨-, -, -, snapshot, hrows, hhash, -⟩ := createChainState_ok hgenesis h
  obtain ⟨state, hstate, hstateHash, -, -⟩ := hrows.bestState
  obtain ⟨status, hindex⟩ := hrows.rows
  obtain ⟨cache, hcache, htip⟩ := load_genesis hindex
  have htip' : cache.index.get state.hash = some (.new genesis.header none 0) := by rw [hstateHash, hhash]; exact htip
  have hblock : s.db.blocks.get state.hash = some genesis := by
    rw [hrows.blocks, hstateHash, hhash]
    exact GoMap.get_set_self ..
  have hlist : getBestChainSerialIDs s.db = .ok [] := by
    rw [getBestChainSerialIDs, hrows.list]
    rfl
  have hfast : b.fastInitChainState env (.opened s.db genesis) state = .ok (true, .opened s.db genesis) := by
    simp only [fastInitChainState, bind_eq_ok]
    exact ⟨[], hlist, rfl⟩
  rw [initChainState_of_fast hstate hfast]
  exact full_of_root henv hcache htip' rfl hgenesis.height hgenesis.root hblock

/-! ## Runs -/

inductive ChainOp (H : Type) where
  | accept (block : StoredBlock H)
  | connect (hash : H) (view : UtxoViewpoint H) (stxos : List SpentTxOut)
  | disconnect (view : UtxoViewpoint H) (forkRoot : Option (ChainNode H))
  | save

/-- One operation whose transactions are all committed. A block is stored with the next height. -/
def BlockChain.step (b : BlockChain H) (env : ChainEnv H) (s : BlockStorage H) : ChainOp H →
    Except ChainError (BlockStorage H)
  | .accept block => s.storeBehind env block fun prevNode =>
    failIf (block.header.height ≠ prevNode.height + 1) (.other "block height is invalid")
  | .connect hash view stxos => s.withIndexed env hash fun node block => do
    let (result, s) := b.connectBlock env s node block view stxos
    let _ ← result
    return s
  | .disconnect view forkRoot => s.withTip env fun node block => do
    let (result, s) := b.disconnectBlock env s node block view forkRoot
    let _ ← result
    return s
  | .save => s.saveBestChainSerialIDs env

/-- What a run has been through: whether nothing yet, whether a block was disconnected, and one connected after that, and
the tip at the last save. -/
structure ChainLog (H : Type) where
  fresh : Bool
  disconnected : Bool
  reconnected : Bool
  saved : Option (ChainNode H)

def ChainLog.start : ChainLog H := ⟨true, false, false, none⟩

def ChainLog.next (log : ChainLog H) (s : BlockStorage H) : ChainOp H → ChainLog H
  | .accept _ => { log with fresh := false }
  | .connect _ _ _ => { log with fresh := false, reconnected := log.reconnected || log.disconnected }
  | .disconnect _ _ => { log with fresh := false, disconnected := true }
  | .save => { log with fresh := false, saved := s.bestChain.tip }

/-- The header of a stored block commits to the root over the chain of its parent. -/
def Commits (s : BlockStorage H) : ChainOp H → Prop
  | .accept block => ∀ prev, s.index.index.get block.header.prevBlockHash = some prev →
      block.header.prevBlocksMMRRoot = prev.chainRoot
  | _ => True

inductive Reached (b : BlockChain H) (env : ChainEnv H) (genesis : StoredBlock H) : ChainLog H → BlockStorage H → Prop
  | create {s : BlockStorage H} (h : b.createChainState env (.opened .empty genesis) genesis = .ok s) :
    Reached b env genesis .start s
  | step {log : ChainLog H} {s s' : BlockStorage H} (op : ChainOp H) (h : Reached b env genesis log s)
    (hcommits : Commits s op)
      (hstep : b.step env s op = .ok s') : Reached b env genesis (log.next s op) s'

/-- A start on the database of the storage comes back with the stored best state. -/
def Restarts (b : BlockChain H) (env : ChainEnv H) (genesis : StoredBlock H) (s : BlockStorage H) : Prop :=
  ∃ s' state tip, b.initChainState env (.opened s.db genesis) genesis false = .ok s' ∧ s.db.bestState = some state ∧
    s'.bestChain.tip = some tip ∧ tip.getHash = state.hash ∧ (tip.height % 2 ^ 32).toNat = state.height ∧
    s'.bestChain.mmrTree.tree.currentRoot = state.mmrRoot

/-- The invariant of the runs in which no block is connected after a disconnect. -/
structure RunInv (log : ChainLog H) (s : BlockStorage H) : Prop where
  stored : Stored s
  best : ∃ tip, Best s tip ∧ (log.disconnected = false → Mmr.BlocksMMRTree.Inv tip.leaves s.bestChain.mmrTree.tree)
  saved : ∀ tip, log.saved = some tip → Saved s tip

variable {log : ChainLog H}

theorem accept_step (hinv : RunInv log s) (hcommits : Commits s (.accept block))
    (hstep : b.step env s (.accept block) = .ok s') : RunInv (log.next s (.accept block)) s' := by
  simp only [BlockChain.step, storeBehind, ok_rules, Bool.not_eq_true, Option.isSome_eq_false_iff,
    Option.isNone_iff_eq_none] at hstep
  obtain ⟨hfresh, prev, hprev, hheight, hstep⟩ := hstep
  have hhash := hinv.stored.key _ _ hprev
  have hfits : Fits s block prev := ⟨hfresh, by rw [hhash, hprev], hhash.symm, hheight, hcommits prev hprev⟩
  have haccepted := acceptBlock_ok hstep
  obtain ⟨tip, hbest, htree⟩ := hinv.best
  refine ⟨haccepted.stored hinv.stored hfits, ⟨tip, hbest.accept hinv.stored hfits haccepted, ?_⟩,
    fun t ht => (hinv.saved t ht).accept hinv.stored hfits haccepted⟩
  rw [haccepted.bestChain]
  exact htree

theorem connect_step (henv : ∀ op, env.fails op = none) (hinv : RunInv log s) {hash : H}
    {stxos : List SpentTxOut} (hlog : (log.next s (.connect hash view stxos)).reconnected = false)
    (hstep : b.step env s (.connect hash view stxos) = .ok s') : RunInv (log.next s (.connect hash view stxos)) s' := by
  simp only [BlockChain.step, withIndexed, ok_rules] at hstep
  obtain ⟨node, hnode, p, hp, block, -, committed, hresult, rfl⟩ := hstep
  have hhash := hinv.stored.key _ _ hnode
  rw [← hhash] at hnode
  obtain ⟨htip, hmoved⟩ := connectBlock_moved henv (Prod.ext hresult rfl)
  obtain ⟨tip, hbest, htree⟩ := hinv.best
  have hnot : log.reconnected = false ∧ log.disconnected = false := by simpa [ChainLog.next] using hlog
  obtain ⟨hbest', htree'⟩ := hbest.connect hinv.stored (htree hnot.2) hnode (by rw [hp]; rfl) htip hmoved
  exact ⟨hmoved.stored hinv.stored, ⟨node, hbest', fun _ => htree'⟩, fun t ht => hmoved.saved (hinv.saved t ht)⟩

theorem disconnect_step (hinv : RunInv log s) (hapart : Apart s) {forkRoot : Option (ChainNode H)}
    (hstep : b.step env s (.disconnect view forkRoot) = .ok s') :
    RunInv (log.next s (.disconnect view forkRoot)) s' := by
  simp only [BlockChain.step, withTip, ok_rules] at hstep
  obtain ⟨node, hnode, block, -, committed, hresult, rfl⟩ := hstep
  obtain ⟨tip, hbest, -⟩ := hinv.best
  obtain rfl : tip = node := by
    rw [hbest.tip_eq, Option.some.injEq] at hnode
    exact hnode
  obtain ⟨prev, hparent, hmoved⟩ :=
    (disconnectBlock_moved (Prod.ext hresult rfl)).2 (hinv.stored.node _ _ hbest.indexed).serial
  exact ⟨hmoved.stored hinv.stored, ⟨prev, hbest.disconnect hinv.stored hapart hparent hmoved, fun h => by cases h⟩,
    fun t ht => hmoved.saved (hinv.saved t ht)⟩

theorem save_step (hinv : RunInv log s) (hstep : b.step env s .save = .ok s') : RunInv (log.next s .save) s' := by
  obtain ⟨tip, hbest, htree⟩ := hinv.best
  obtain ⟨hstored, hbest', hsaved, hchain⟩ := save_ok hbest hinv.stored hstep
  refine ⟨hstored, ⟨tip, hbest', ?_⟩, fun t ht => ?_⟩
  · rw [hchain]
    exact htree
  · have heq : s.bestChain.tip = some t := ht
    rw [hbest.tip_eq, Option.some.injEq] at heq
    exact heq ▸ hsaved

theorem index_step (henv : ∀ op, env.fails op = none) {op : ChainOp H} (hstep : b.step env s op = .ok s') :
    ∀ hash n, s.index.index.get hash = some n → s'.index.index.get hash = some n := by
  intro hash n hn
  cases op with
  | accept block =>
    simp only [BlockChain.step, storeBehind, ok_rules] at hstep
    obtain ⟨hfresh, prev, -, -, hstep⟩ := hstep
    rw [(acceptBlock_ok hstep).index]
    refine (GoMap.get_set_ne _ _ fun heq => hfresh ?_).trans hn
    rw [show block.hash = hash from heq.symm, hn]
    rfl
  | connect h view stxos =>
    simp only [BlockChain.step, withIndexed, ok_rules] at hstep
    obtain ⟨node, -, p, -, block, -, committed, hresult, rfl⟩ := hstep
    rw [(connectBlock_moved henv (Prod.ext hresult rfl)).2.index, hn]
  | disconnect view forkRoot =>
    simp only [BlockChain.step, withTip, ok_rules] at hstep
    obtain ⟨node, -, block, -, committed, hresult, rfl⟩ := hstep
    rw [(disconnectBlock_moved (Prod.ext hresult rfl)).1, hn]
  | save =>
    simp only [BlockChain.step, saveBestChainSerialIDs, ok_rules] at hstep
    obtain ⟨db, -, rfl⟩ := hstep
    exact hn

theorem runInv_reached (henv : ∀ op, env.fails op = none) (hgenesis : GenesisHeader genesis.header)
    (h : Reached b env genesis log s) (hlog : log.reconnected = false) (hapart : log.disconnected = true → Apart s) :
    RunInv log s := by
  induction h with
  | create h =>
    obtain ⟨hstored, hbest, htree, -⟩ := createChainState_ok hgenesis h
    exact ⟨hstored, ⟨_, hbest, fun _ => htree⟩, fun t ht => nomatch ht⟩
  | step op h hcommits hstep ih =>
    have hbefore (happ : Apart _) := happ.of_index (index_step henv hstep)
    cases op with
    | accept block => exact accept_step (ih hlog fun hd => hbefore (hapart hd)) hcommits hstep
    | connect hash view stxos =>
      have hnot := (Bool.or_eq_false_iff.1 hlog).1
      exact connect_step henv (ih hnot fun hd => hbefore (hapart hd)) hlog hstep
    | disconnect view forkRoot =>
      have happ := hbefore (hapart rfl)
      exact disconnect_step (ih hlog fun _ => happ) happ hstep
    | save => exact save_step (ih hlog fun hd => hbefore (hapart hd)) hstep

omit [DecidableEq H] [ChainHash H] [Primitives] in
theorem ChainLog.next_fresh (log : ChainLog H) (s : BlockStorage H) (op : ChainOp H) : (log.next s op).fresh = false := by
  cases op <;> rfl

/-- A start after a run in which no block is connected after a disconnect comes back when the saved list is that
of the best chain, and on a database on which nothing happened yet. -/
theorem restarts_of_saved (b : BlockChain H) (env : ChainEnv H) (henv : ∀ op, env.fails op = none) (genesis : StoredBlock H)
    (hgenesis : GenesisHeader genesis.header) (log : ChainLog H) (s : BlockStorage H) (h : Reached b env genesis log s)
    (hconnect : log.reconnected = false) (hapart : log.disconnected = true → Apart s)
    (hsaved : log.saved = s.bestChain.tip ∨ log.fresh = true) : Restarts b env genesis s := by
  have hinv := runInv_reached henv hgenesis h hconnect hapart
  obtain ⟨tip, hbest, -⟩ := hinv.best
  obtain ⟨state, hstate, hhash, hheight, hroot⟩ := hbest.state
  have hback : ComesBack (b.initChainState env (.opened s.db genesis) genesis false) tip := by
    rcases hsaved with hsaved | hfresh
    · exact init_of_saved henv hinv.stored hbest (hinv.saved tip (hsaved.trans hbest.tip_eq)) genesis
    · have hcreated : b.createChainState env (.opened .empty genesis) genesis = .ok s := by
        cases h with
        | create h => exact h
        | step op => rw [ChainLog.next_fresh] at hfresh; cases hfresh
      have heq := (createChainState_ok hgenesis hcreated).2.1.tip_eq
      rw [hbest.tip_eq, Option.some.injEq] at heq
      rw [heq]
      exact init_of_genesis henv hgenesis hcreated
  obtain ⟨s', hok, hnodes, hcurrent⟩ := hback
  refine ⟨s', state, tip, hok, hstate, ?_, hhash.symm, hheight.symm, hcurrent.trans hroot.symm⟩
  rw [ChainView.tip, hnodes, getLast?_map, tip.getLast?_chain]
  rfl

end Main

section Sample
attribute [local instance] sumHash toyPrimitives

def restartGenesis : StoredBlock Nat := storeBlock storeGenesis

def behindGenesis (hash : Nat) : ChainOp Nat := .accept ⟨storeHeader 1 hash 1 1, restartGenesis.txs⟩

def connectHash (hash : Nat) : ChainOp Nat := .connect hash storeView []

def restartRun (ops : List (ChainOp Nat)) : Except ChainError (ChainLog Nat × BlockStorage Nat) := do
  let s ← (toyChain Nat).createChainState (refusing []) (.opened .empty restartGenesis) restartGenesis
  ops.foldlM (fun (log, s) op => do return (log.next s op, ← (toyChain Nat).step (refusing []) s op)) (.start, s)

theorem reached_restartRun (ops : List (ChainOp Nat))
    (hops : ∀ block, .accept block ∈ ops → block.header.prevBlockHash = 1 ∧ block.header.prevBlocksMMRRoot = 1)
    {log : ChainLog Nat} {s : BlockStorage Nat} (h : restartRun ops = .ok (log, s)) :
    Reached (toyChain Nat) (refusing []) restartGenesis log s ∧
      s.index.index.get 1 = some (.new restartGenesis.header none 0) := by
  have hroot : (new restartGenesis.header none 0).chainRoot = 1 :=
    (Mmr.TreeStore.hashOf_top (k := 0) (by decide) (by decide)).symm
  simp only [restartRun, bind_eq_ok] at h
  obtain ⟨s₀, hcreate, h⟩ := h
  induction ops using List.reverseRecOn generalizing log s with
  | nil =>
    cases h
    refine ⟨.create hcreate, ?_⟩
    have hget : ((toyChain Nat).createChainState (refusing []) (.opened .empty restartGenesis) restartGenesis).toOption.bind
      (fun s => s.index.index.get 1) = some (.new restartGenesis.header none 0) := by decide
    rwa [hcreate] at hget
  | append_singleton ops op ih =>
    simp only [foldlM_append, foldlM_cons, foldlM_nil, ok_rules] at h
    obtain ⟨log₁, s₁, hrun, log₂, s₃, ⟨s₂, hstep, rfl, rfl⟩, rfl, rfl⟩ := h
    obtain ⟨hreached, hget⟩ := ih (fun block hb => hops block (mem_append_left _ hb)) hrun
    refine ⟨.step op hreached ?_ hstep, index_step (fun op => by cases op <;> rfl) hstep _ _ hget⟩
    cases op with
    | accept block =>
      obtain ⟨hprev, hmmr⟩ := hops block (by simp)
      intro prev hindex
      rw [hprev, hget, Option.some.injEq] at hindex
      rw [hmmr, ← hindex, hroot]
    | connect | disconnect | save => exact trivial

theorem restarts_of_saved_next : ∃ log s, restartRun [behindGenesis 2, connectHash 2, .save] = .ok (log, s) ∧
    Restarts (toyChain Nat) (refusing []) restartGenesis s := by
  have hlog : (restartRun [behindGenesis 2, connectHash 2, .save]).toOption.map
      (fun r => (r.1.reconnected, r.1.disconnected, decide (r.1.saved = r.2.bestChain.tip))) = some (false, false, true) := by
    decide
  obtain ⟨⟨log, s⟩, hrun, hlog⟩ := toOption_map_eq_some.1 hlog
  simp only [Prod.mk.injEq, decide_eq_true_eq] at hlog
  obtain ⟨hrec, hdis, hsaved⟩ := hlog
  have hreached := (reached_restartRun _ (fun block hb => by
    simp only [behindGenesis, connectHash, mem_cons, not_mem_nil, or_false, ChainOp.accept.injEq, reduceCtorEq] at hb
    subst hb
    exact ⟨rfl, rfl⟩) hrun).1
  exact ⟨log, s, hrun, restarts_of_saved _ _ (fun op => by cases op <;> rfl) restartGenesis ⟨rfl, rfl⟩ log s hreached hrec
    (fun hd => absurd hd (by rw [hdis]; decide)) (.inl hsaved)⟩

/-- The list was saved at genesis and a block connected behind it; the list was never saved; and a block was
connected after a disconnect, which makes a root that is not that of its chain. -/
def restartFailures : List (List (ChainOp Nat)) :=
  [[.save, behindGenesis 2, connectHash 2], [behindGenesis 2, connectHash 2],
    [behindGenesis 2, behindGenesis 3, connectHash 2, .disconnect storeView none, connectHash 3, .save]]

theorem restart_fails : restartFailures.length = 3 ∧ ∀ ops ∈ restartFailures, ∃ log s, restartRun ops = .ok (log, s) ∧
    Reached (toyChain Nat) (refusing []) restartGenesis log s ∧
    ¬Restarts (toyChain Nat) (refusing []) restartGenesis s := by
  have hfails : ∀ ops ∈ restartFailures, (restartRun ops).toOption.map (fun r => ((toyChain Nat).initChainState (refusing [])
      (.opened r.2.db restartGenesis) restartGenesis false).isOk) = some false := by
    decide +kernel
  refine ⟨rfl, fun ops hops => ?_⟩
  obtain ⟨⟨log, s⟩, hrun, hfail⟩ := toOption_map_eq_some.1 (hfails ops hops)
  refine ⟨log, s, hrun, (reached_restartRun ops (fun block hb => ?_) hrun).1, ?_⟩
  · simp only [restartFailures, mem_cons, not_mem_nil, or_false] at hops
    rcases hops with rfl | rfl | rfl <;>
    · simp only [behindGenesis, connectHash, mem_cons, not_mem_nil, or_false, false_or, ChainOp.accept.injEq,
        reduceCtorEq] at hb
      first | (subst hb; exact ⟨rfl, rfl⟩) | (rcases hb with rfl | rfl <;> exact ⟨rfl, rfl⟩)
  · rintro ⟨s', state, tip, hok, -⟩
    exact absurd (isOk_iff.2 ⟨_, hok⟩) (by simp [hfail])

end Sample

end Jaxnetd.Blockchain
