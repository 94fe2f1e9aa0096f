import Jaxnetd.Blockchain.BlockStore

/-!
# Connecting and disconnecting a block of the best chain

`connectBlock` and `disconnectBlock` (`chain.go`). Both make their checks, move the tip of the best chain and its MMR tree,
and only then update the database and the snapshot of the state. This order decides what happens when the database refuses.
-/

namespace Jaxnetd.Blockchain
open Wire TxScript Chaindata Checks BlockChain ChainDB ChainView

variable {H : Type} [DecidableEq H] [ChainHash H]

namespace BlockChain
variable (b : BlockChain H) (env : ChainEnv H) (s : BlockStorage H) (node : ChainNode H) (block : StoredBlock H)

/-- What `connectBlock` does before it moves the tip. -/
def prepareConnect (stxos : List SpentTxOut) :
    Except ChainError (BlockStorage H) := do
  failIf (s.bestChain.tip.map ChainNode.getHash ≠ some node.prevHash)
    (.assert "connectBlock must be called with a block that extends the main chain")
  failIf (stxos.length ≠ UtxoViewpoint.countSpentOutputs block.txs)
    (.assert "connectBlock called with inconsistent spent transaction out information")
  checkWhen env.isCurrent (do env.warnUnknownRuleActivations node; env.warnUnknownVersions node)
  s.flushToDB env

def connectedState : BestState H :=
  .new node s.bestChain.mmrTree.tree.currentRoot .bestChain block.txs.length
    ((s.stateSnapshot.totalTxns + block.txs.length) % 2 ^ 64) (b.calcPastMedianTime node.blockNode) s.lastSerialID

variable [Primitives] (state : BestState H)

/-- The transaction of `connectBlock`. The error of `PutBestState` is overwritten by the next one. -/
def writeConnect (node : ChainNode H) (block : StoredBlock H) (view : UtxoViewpoint H)
    (stxos : List SpentTxOut) (db : ChainDB H) : Except ChainError (ChainDB H) := do
  let db := (db.putBestState env state node.workSum).toOption.getD db
  let db ← db.putBlockIndex env block.hash node.height
  let db ← db.putView env view
  let db ← db.putSpendJournalEntry env block.hash stxos
  env.attempt .indexes
  return db

variable (view : UtxoViewpoint H)

/-- `connectBlock`: the view as it is committed, or an error, and the state it leaves. -/
def connectBlock (stxos : List SpentTxOut) : Except ChainError (UtxoViewpoint H) × BlockStorage H :=
  match prepareConnect env s node block stxos with
  | .error e => (.error e, s)
  | .ok s =>
    let s := s.setTip node
    let state := b.connectedState s node block
    match s.db.update env (writeConnect env state node block view stxos) with
    | .error e => (.error e, s) -- the tip stays where it is
    | .ok db => (.ok view.commit, { s with db, stateSnapshot := state })

section
omit [Primitives]

/-- What `disconnectBlock` does before it moves the tip, with the parent, its block and the state. -/
def prepareDisconnect (s : BlockStorage H) (node : ChainNode H) :
    Except ChainError (ChainNode H × StoredBlock H × BlockStorage H) := do
  failIf (s.bestChain.tip.map ChainNode.getHash ≠ some node.getHash)
    (.assert "disconnectBlock must be called with the block at the end of the main chain")
  let prevNode ← orFail (.other "nil pointer dereference") node.parent
  let prevBlock ← s.db.fetchBlock env prevNode.getHash
  let s ← s.flushToDB env
  return (prevNode, prevBlock, s)

/-- The moves of `disconnectBlock` in memory: the block leaves the MMR tree of the index, and the parent is the
tip of the best chain. -/
def moveBack (s : BlockStorage H) (node prevNode : ChainNode H) : BlockStorage H :=
  let mmrTree := { s.index.mmrTree with tree := s.index.mmrTree.tree.rmBlock node.height.toNat }
  { s with index := { s.index with mmrTree } }.setTip prevNode

end

omit [Primitives] [DecidableEq H] [ChainHash H] in
def disconnectedState (node prevNode : ChainNode H) (block prevBlock : StoredBlock H) :
    BestState H :=
  .new prevNode node.prevMMRRoot .bestChain prevBlock.txs.length
    ((s.stateSnapshot.totalTxns + (2 ^ 64 - block.txs.length % 2 ^ 64)) % 2 ^ 64)
    (b.calcPastMedianTime prevNode.blockNode) s.lastSerialID

def writeDisconnect (node : ChainNode H) (block : StoredBlock H) (view : UtxoViewpoint H)
    (forkRoot : Option (ChainNode H)) (db : ChainDB H) : Except ChainError (ChainDB H) := do
  let db ← db.putBestState env state node.workSum
  let db ← db.removeBlockIndex env block.hash node.height
  let db ← db.putView env view
  let _ ← db.fetchSpendJournalEntry env block
  let db ← db.removeSpendJournalEntry env block.hash
  env.attempt .indexes
  match forkRoot with
  | none => return db
  | some root => db.putSerialID env node.getHash node.serialID root.serialID

/-- `disconnectBlock`: the view as it is committed, or an error, and the state it leaves. -/
def disconnectBlock (forkRoot : Option (ChainNode H)) : Except ChainError (UtxoViewpoint H) × BlockStorage H :=
  match prepareDisconnect env s node with
  | .error e => (.error e, s)
  | .ok (prevNode, prevBlock, s) =>
    let s := moveBack s node prevNode
    let state := b.disconnectedState s node prevNode block prevBlock
    match s.db.update env (writeDisconnect env state node block view forkRoot) with
    | .error e => (.error e, s) -- the tip stays where it is
    | .ok db => (.ok view.commit, { s with db, stateSnapshot := state })

end BlockChain

section Main

/-! ## All or nothing -/

structure Unchanged (s s' : BlockStorage H) : Prop where
  bestChain : s'.bestChain = s.bestChain
  indexTree : s'.index.mmrTree = s.index.mmrTree
  snapshot : s'.stateSnapshot = s.stateSnapshot

structure Describes (s : BlockStorage H) (tip : ChainNode H) (totalTxns : Nat) : Prop where
  atTip : s.bestChain.tip = some tip
  hash : s.stateSnapshot.hash = tip.getHash
  height : s.stateSnapshot.height = tip.height
  total : s.stateSnapshot.totalTxns = totalTxns
  root : s.stateSnapshot.currentMMRRoot = s.bestChain.mmrTree.tree.currentRoot
  actual : s.actualMMRRoot.get tip.getHash = some s.stateSnapshot.currentMMRRoot
  weight : s.chainWeight = tip.workSum
  stored : s.db.bestState = some ⟨tip.getHash, s.stateSnapshot.currentMMRRoot, (tip.height % 2 ^ 32).toNat,
    s.stateSnapshot.lastSerialID, totalTxns, tip.workSum⟩

def AllOrNothing (s : BlockStorage H) (result : Except ChainError (UtxoViewpoint H) × BlockStorage H)
    (tip : ChainNode H) (totalTxns : Nat) : Prop :=
  match result.1 with
  | .error _ => Unchanged s result.2
  | .ok _ => Describes result.2 tip totalTxns

/-- The node is next on the best chain: a child of the tip, it commits to the root of the MMR tree, which does not have it
yet, and the stored best state is not its own. -/
structure ExtendsTip (s : BlockStorage H) (tip node : ChainNode H) : Prop where
  atTip : s.bestChain.tip = some tip
  parent : node.parent = some tip
  numbered : Numbered node.toNodeInfo node.ancestors
  work : node.workSum = tip.workSum + node.powWeight
  root : node.prevMMRRoot = s.bestChain.mmrTree.tree.currentRoot
  fresh : s.bestChain.mmrTree.tree.hashToHeight.get node.getHash = none
  stored : ∀ state ∈ s.db.bestState, state.hash ≠ node.getHash

/-- The node is the last one of the best chain, behind `prev`, and there is work in it. -/
structure EndsWith (s : BlockStorage H) (prev node : ChainNode H) : Prop where
  atTip : s.bestChain.tip = some node
  parent : node.parent = some prev
  numbered : Numbered node.toNodeInfo node.ancestors
  work : prev.workSum < node.workSum

variable {b : BlockChain H} {env : ChainEnv H} {s s' : BlockStorage H} {tip prev node : ChainNode H}
  {block : StoredBlock H} {view : UtxoViewpoint H} {stxos : List SpentTxOut} {forkRoot : Option (ChainNode H)}

section
omit [DecidableEq H] [ChainHash H]

@[simp] theorem attempt_eq_ok {op : DbOp} {u : Unit} : env.attempt op = .ok u ↔ env.fails op = none := by
  unfold ChainEnv.attempt
  cases env.fails op <;> simp

theorem numbered_parent (hn : Numbered node.toNodeInfo node.ancestors) (hp : node.parent = some prev) :
    Numbered prev.toNodeInfo prev.ancestors ∧ node ≠ prev := by
  obtain ⟨n, _ | ⟨p, ancestors⟩⟩ := node
  · cases hp
  · cases hp
    refine ⟨hn.2, fun heq => ?_⟩
    have hlength := congrArg (fun c : ChainNode H => c.ancestors.length) heq
    simp at hlength

end

/-! ## The parts before the tip moves -/

structure Flushed (s s' : BlockStorage H) : Prop extends Unchanged s s' where
  actual : s'.actualMMRRoot = s.actualMMRRoot
  lastSerialID : s'.lastSerialID = s.lastSerialID
  bestState : s'.db.bestState = s.db.bestState

theorem bestState_storeBlockNodes (index : BlockIndex H) (nodes : List (ChainNode H)) (db : ChainDB H) :
    (nodes.foldl (BlockStorage.storeBlockNode index) db).bestState = db.bestState := by
  induction nodes generalizing db with
  | nil => rfl
  | cons node nodes ih => rw [List.foldl_cons, ih]; rfl

theorem flushToDB_ok (h : s.flushToDB env = .ok s') : Flushed s s' := by
  unfold BlockStorage.flushToDB at h
  split at h
  · cases h
    exact ⟨⟨rfl, rfl, rfl⟩, rfl, rfl, rfl⟩
  · simp only [ok_rules] at h
    obtain ⟨-, rfl⟩ := h
    exact ⟨⟨rfl, rfl, rfl⟩, rfl, rfl, bestState_storeBlockNodes ..⟩

theorem prepareConnect_ok (h : prepareConnect env s node block stxos = .ok s') : Flushed s s' := by
  simp only [prepareConnect, ok_rules] at h
  exact flushToDB_ok h.2.2.2

theorem prepareDisconnect_ok {prevBlock : StoredBlock H}
    (h : prepareDisconnect env s node = .ok (prev, prevBlock, s')) : Flushed s s' ∧ node.parent = some prev := by
  simp only [prepareDisconnect, ok_rules] at h
  obtain ⟨-, p, hp, prevBlock, -, s', hflush, rfl, rfl, rfl⟩ := h
  exact ⟨flushToDB_ok hflush, hp⟩

/-! ## The transactions of the database -/

def ChainEnv.Succeeds (env : ChainEnv H) (ops : List DbOp) : Prop := ∀ op ∈ ops, env.fails op = none

/-- The operations of `connectBlock` whose errors are returned. -/
def connectOps : List DbOp :=
  [.putBlockIndex, .putUtxoView, .putEADAddresses, .putSpendJournalEntry, .indexes, .commit]

variable [Primitives] {db : ChainDB H} {state : BestState H}

section
omit [ChainHash H]

theorem update_connect_iff : (∃ db', db.update env (writeConnect env state node block view stxos) = .ok db') ↔
      env.Succeeds connectOps := by
  simp only [update, writeConnect, putBlockIndex, putView, putSpendJournalEntry, ok_rules, attempt_eq_ok,
    ChainEnv.Succeeds, connectOps, List.forall_mem_cons, List.not_mem_nil, false_imp_iff, implies_true, and_true]
  constructor
  · rintro ⟨-, -, ⟨-, ⟨hindex, -⟩, -, ⟨hview, head, -⟩, -, ⟨hjournal, -⟩, hindexes, -⟩, hcommit, -⟩
    exact ⟨hindex, hview, head, hjournal, hindexes, hcommit⟩
  · rintro ⟨hindex, hview, head, hjournal, hindexes, hcommit⟩
    exact ⟨_, _, ⟨_, ⟨hindex, rfl⟩, _, ⟨hview, head, rfl⟩, _, ⟨hjournal, rfl⟩, hindexes, rfl⟩, hcommit, rfl⟩

theorem bestState_connect {db' : ChainDB H}
    (h : db.update env (writeConnect env state node block view stxos) = .ok db') :
    db'.bestState = if env.fails .putBestState = none then some ⟨state.hash, state.currentMMRRoot,
      (state.height % 2 ^ 32).toNat, state.lastSerialID, state.totalTxns, node.workSum⟩ else db.bestState := by
  simp only [update, writeConnect, putBlockIndex, putView, putSpendJournalEntry, ok_rules] at h
  obtain ⟨-, ⟨-, ⟨-, rfl⟩, -, ⟨-, -, rfl⟩, -, ⟨-, rfl⟩, -, rfl⟩, -, rfl⟩ := h
  unfold putBestState ChainEnv.attempt
  cases env.fails .putBestState <;> rfl

end

theorem bestState_disconnect {db' : ChainDB H}
    (h : db.update env (writeDisconnect env state node block view forkRoot) = .ok db') :
    ∃ stored, db'.bestState = some stored ∧ stored.workSum = node.workSum := by
  simp only [update, writeDisconnect, putBestState, removeBlockIndex, putView, removeSpendJournalEntry, ok_rules] at h
  obtain ⟨db₁, ⟨-, ⟨-, rfl⟩, -, ⟨-, rfl⟩, -, ⟨-, -, rfl⟩, -, -, -, ⟨-, rfl⟩, -, hserial⟩, -, rfl⟩ := h
  cases forkRoot with
  | none =>
    cases hserial
    exact ⟨_, rfl, rfl⟩
  | some root =>
    simp only [putSerialID, ok_rules] at hserial
    obtain ⟨-, rfl⟩ := hserial
    exact ⟨_, rfl, rfl⟩

/-! ## The two functions -/

theorem connectBlock_ok {s₁ : BlockStorage H} (hprepared : prepareConnect env s node block stxos = .ok s₁)
    (hdb : (s₁.setTip node).db.update env
      (writeConnect env (b.connectedState (s₁.setTip node) node block) node block view stxos) = .ok db) :
    b.connectBlock env s node block view stxos = (.ok view.commit,
      { s₁.setTip node with db, stateSnapshot := b.connectedState (s₁.setTip node) node block }) := by
  simp only [connectBlock, hprepared, hdb]

theorem connectBlock_error {s₁ : BlockStorage H} (hprepared : prepareConnect env s node block stxos = .ok s₁)
    {e : ChainError} (hdb : (s₁.setTip node).db.update env
      (writeConnect env (b.connectedState (s₁.setTip node) node block) node block view stxos) = .error e) :
    b.connectBlock env s node block view stxos = (.error e, s₁.setTip node) := by
  simp only [connectBlock, hprepared, hdb]

section
omit [Primitives]

theorem tip_setTip (s : BlockStorage H) (hn : Numbered node.toNodeInfo node.ancestors) :
    (s.setTip node).bestChain.tip = some node := ChainView.tip_setTip s.bestChain s.actualMMRRoot hn

theorem ExtendsTip.setTip (h : ExtendsTip s tip node) (hflushed : Flushed s s') :
    (s'.setTip node).bestChain.mmrTree.tree = s.bestChain.mmrTree.tree.appendBlock node.getHash node.powWeight ∧
      (s'.setTip node).actualMMRRoot.get node.getHash = some (s'.setTip node).bestChain.mmrTree.tree.currentRoot := by
  have hroot : node.prevMMRRoot = s'.bestChain.mmrTree.tree.currentRoot := by
    rw [hflushed.bestChain, h.root]
  have hset := MmrTree.setNode_of_prev s'.actualMMRRoot hroot
  constructor
  · simp only [BlockStorage.setTip, ChainView.setTip, hset]
    rw [hflushed.bestChain]
  · simp only [BlockStorage.setTip, ChainView.setTip, hset]
    simp

end

/-- The total that `connectBlock` and `disconnectBlock` count. -/
def connectedTotal (s : BlockStorage H) (block : StoredBlock H) : Nat :=
  (s.stateSnapshot.totalTxns + block.txs.length) % 2 ^ 64

def disconnectedTotal (s : BlockStorage H) (block : StoredBlock H) : Nat :=
  (s.stateSnapshot.totalTxns + (2 ^ 64 - block.txs.length % 2 ^ 64)) % 2 ^ 64

theorem connectBlock_allOrNothing (h : ExtendsTip s tip node) :
    AllOrNothing s (b.connectBlock env s node block view stxos) node (connectedTotal s block) ↔
      (∃ e, prepareConnect env s node block stxos = .error e) ∨
        env.Succeeds (.putBestState :: connectOps) ∧ s.bestChain.mmrTree.tree.currenWeight = tip.workSum := by
  have hne : node ≠ tip := (numbered_parent h.numbered h.parent).2
  rcases hprepared : prepareConnect env s node block stxos with e | s₁
  · have hresult : b.connectBlock env s node block view stxos = (.error e, s) := by
      simp only [connectBlock, hprepared]
    simp only [hresult, AllOrNothing, Except.error.injEq, exists_eq', true_or, iff_true]
    exact ⟨rfl, rfl, rfl⟩
  have hflushed := prepareConnect_ok hprepared
  obtain ⟨htree, hactual⟩ := h.setTip hflushed
  have hno : ¬∃ e, (Except.ok s₁ : Except ChainError (BlockStorage H)) = .error e := by simp
  rw [or_iff_right hno]
  have hsplit : env.Succeeds (.putBestState :: connectOps) ↔ env.fails .putBestState = none ∧ env.Succeeds connectOps := by
    simp [ChainEnv.Succeeds]
  rcases hdb : (s₁.setTip node).db.update env
    (writeConnect env (b.connectedState (s₁.setTip node) node block) node block view stxos) with e | db
  · -- the tip has moved although an error is returned
    have hfails : ¬env.Succeeds connectOps := by
      intro hall
      obtain ⟨db', hok⟩ := update_connect_iff.2 hall
      rw [hdb] at hok
      cases hok
    rw [connectBlock_error hprepared hdb]
    refine iff_of_false (fun hall => ?_) fun hall => hfails (hsplit.1 hall.1).2
    have hmoved := congrArg ChainView.tip hall.bestChain
    rw [tip_setTip s₁ h.numbered, h.atTip] at hmoved
    exact hne (Option.some.inj hmoved)
  · have hall : env.Succeeds connectOps := update_connect_iff.1 ⟨db, hdb⟩
    have hbest := bestState_connect hdb
    have hweight : (s₁.setTip node).bestChain.mmrTree.tree.currenWeight =
        s.bestChain.mmrTree.tree.currenWeight + node.powWeight := by
      rw [htree]
      exact MmrTree.currenWeight_appendBlock _ h.fresh
    rw [connectBlock_ok hprepared hdb]
    constructor
    · intro hd
      refine ⟨hsplit.2 ⟨?_, hall⟩, ?_⟩
      · by_contra hfails
        have hstored := hd.stored
        rw [hbest, if_neg hfails] at hstored
        exact h.stored _ (Option.mem_def.2 (hflushed.bestState.symm.trans hstored)) rfl
      · have hshown : (s₁.setTip node).bestChain.mmrTree.tree.currenWeight = node.workSum := hd.weight
        rw [hweight, h.work] at hshown
        omega
    · rintro ⟨hops, hin⟩
      have hput := (hsplit.1 hops).1
      have htotal : (b.connectedState (s₁.setTip node) node block).totalTxns = connectedTotal s block := by
        show (s₁.stateSnapshot.totalTxns + _) % _ = _
        rw [hflushed.snapshot]
        rfl
      refine ⟨tip_setTip s₁ h.numbered, rfl, rfl, htotal, rfl, hactual, ?_, ?_⟩
      · show (s₁.setTip node).bestChain.mmrTree.tree.currenWeight = _
        rw [hweight, hin, h.work]
      · show db.bestState = _
        rw [hbest, if_pos hput, htotal]
        rfl

theorem disconnectBlock_allOrNothing (h : EndsWith s prev node) :
    AllOrNothing s (b.disconnectBlock env s node block view forkRoot) prev (disconnectedTotal s block) ↔
      ∃ e, prepareDisconnect env s node = .error e := by
  obtain ⟨hnum, hne⟩ := numbered_parent h.numbered h.parent
  rcases hprepared : prepareDisconnect env s node with e | ⟨prevNode, prevBlock, s₁⟩
  · have hresult : b.disconnectBlock env s node block view forkRoot = (.error e, s) := by
      simp only [disconnectBlock, hprepared]
    simp only [hresult, AllOrNothing, Except.error.injEq, exists_eq', iff_true]
    exact ⟨rfl, rfl, rfl⟩
  obtain ⟨hflushed, hparent⟩ := prepareDisconnect_ok hprepared
  obtain rfl : prevNode = prev := Option.some.inj (hparent.symm.trans h.parent)
  refine iff_of_false ?_ (by simp)
  rcases hdb : (moveBack s₁ node prevNode).db.update env (writeDisconnect env
    (b.disconnectedState (moveBack s₁ node prevNode) node prevNode block prevBlock) node block view forkRoot)
    with e | db
  · -- the tip has moved although an error is returned
    have hresult : b.disconnectBlock env s node block view forkRoot = (.error e, moveBack s₁ node prevNode) := by
      simp only [disconnectBlock, hprepared, hdb]
    rw [hresult]
    intro hall
    have hmoved := congrArg tip hall.bestChain
    rw [moveBack, tip_setTip _ hnum, h.atTip] at hmoved
    exact hne (Option.some.inj hmoved).symm
  · -- the stored work is that of the disconnected node
    have hresult : b.disconnectBlock env s node block view forkRoot = (.ok view.commit,
        { moveBack s₁ node prevNode with
          db, stateSnapshot := b.disconnectedState (moveBack s₁ node prevNode) node prevNode block prevBlock }) := by
      simp only [disconnectBlock, hprepared, hdb]
    rw [hresult]
    intro hd
    obtain ⟨stored, hstored, hwork⟩ := bestState_disconnect hdb
    have heq : stored.workSum = prevNode.workSum :=
      congrArg BestChainState.workSum (Option.some.inj (hstored.symm.trans hd.stored))
    have hlt := h.work
    omega

/-- `connectBlock` is all or nothing when it fails before it moves the tip, or the database takes everything and
the MMR tree weighs what the tip does; `disconnectBlock` only when it fails before it moves the tip. -/
theorem allOrNothing_iff (b : BlockChain H) (env : ChainEnv H) (s : BlockStorage H) (node : ChainNode H)
    (block : StoredBlock H) (view : UtxoViewpoint H) :
    (∀ tip stxos, ExtendsTip s tip node →
      (AllOrNothing s (b.connectBlock env s node block view stxos) node (connectedTotal s block) ↔
        (∃ e, prepareConnect env s node block stxos = .error e) ∨
          env.Succeeds (.putBestState :: connectOps) ∧ s.bestChain.mmrTree.tree.currenWeight = tip.workSum)) ∧
    ∀ prev forkRoot, EndsWith s prev node →
      (AllOrNothing s (b.disconnectBlock env s node block view forkRoot) prev (disconnectedTotal s block) ↔
        ∃ e, prepareDisconnect env s node = .error e) :=
  ⟨fun _ _ h => connectBlock_allOrNothing h, fun _ _ h => disconnectBlock_allOrNothing h⟩

end Main

section Sample
attribute [local instance] sumHash toyPrimitives

def storeHeader (height hash prevHash prevRoot : Nat) : IndexHeader Nat :=
  ⟨⟨1, height, 0, prevHash, 0, height, 0, 0, 0, 0, hash, 0⟩, prevRoot⟩

def storeGenesis : ChainNode Nat := ⟨⟨storeHeader 0 1 0 0, 5, 5, 0⟩, []⟩

def storeNext : ChainNode Nat := ⟨⟨storeHeader 1 2 1 1, 12, 7, 1⟩, [storeGenesis.toNodeInfo]⟩

def storeBlock (node : ChainNode Nat) : StoredBlock Nat :=
  ⟨node.header, [⟨1, [⟨⟨0, maxUint32⟩, [0, 0], [], maxUint32⟩], [⟨10, [0x51]⟩], 0⟩]⟩

def refusing (ops : List DbOp) : ChainEnv Nat where
  fails op := if op ∈ ops then some (.other "refused") else none
  isCurrent := false
  warnUnknownRuleActivations _ := .ok ()
  warnUnknownVersions _ := .ok ()

def genesisStore : BlockStorage Nat where
  db := { empty with
    bestState := some ⟨1, 1, 0, 0, 1, 5⟩
    blocks := GoMap.empty.set 1 (storeBlock storeGenesis) }
  index := ⟨.empty, .empty, [], .new⟩
  bestChain := (new.setTip .empty storeGenesis).1
  actualMMRRoot := (new.setTip .empty storeGenesis).2
  lastSerialID := 1
  stateSnapshot := .new storeGenesis 1 .bestChain 1 1 0 0

def storeView : UtxoViewpoint Nat := newUtxoViewpoint true 1

def connectNext (ops : List DbOp) : Except ChainError (UtxoViewpoint Nat) × BlockStorage Nat :=
  (toyChain Nat).connectBlock (refusing ops) genesisStore storeNext (storeBlock storeNext) storeView []

theorem allOrNothing_next : Describes (connectNext []).2 storeNext 2 := by
  have hnext : ExtendsTip genesisStore storeGenesis storeNext :=
    ⟨by decide, rfl, ⟨rfl, rfl⟩, by decide, by decide, by decide, fun state hstate => by cases hstate; decide⟩
  exact ((allOrNothing_iff (toyChain Nat) (refusing []) genesisStore storeNext (storeBlock storeNext) storeView).1
    storeGenesis [] hnext).2 (.inr ⟨fun op _ => by cases op <;> rfl, by decide⟩)

/-- The database refuses the commit: the tip has moved though an error is returned. It refuses the best state
only: nothing is returned, and the stored best state is still that of genesis. And when the next block is
disconnected again, the work of its node is what is stored. -/
theorem connectBlock_halfway : (connectNext [.commit]).1.isOk = false ∧ genesisStore.bestChain.tip = some storeGenesis ∧
      (connectNext [.commit]).2.bestChain.tip = some storeNext ∧
      (connectNext [.putBestState]).1.isOk = true ∧ (connectNext [.putBestState]).2.stateSnapshot.hash = 2 ∧
      (connectNext [.putBestState]).2.db.bestState.map BestChainState.hash = some 1 ∧
      let back := (toyChain Nat).disconnectBlock (refusing []) (connectNext []).2 storeNext (storeBlock storeNext)
        storeView none
      back.1.isOk = true ∧ back.2.stateSnapshot.hash = 1 ∧ back.2.db.bestState.map BestChainState.workSum = some 12 := by
  decide

end Sample

end Jaxnetd.Blockchain
