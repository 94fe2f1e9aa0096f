import Jaxnetd.Blockchain.RestartSteps

/-!
# The weight of the chain

The header of a block names the work of the chain before it, the block node sums it up, and the MMR tree of the best chain
adds the weights of its leaves. An accepted header agrees with the nodes, and the tree while the tip only moves to a block
that commits to its current root. When the tip moves back, the tree finds no fork point and adds the whole chain once more.
-/

namespace Jaxnetd.Blockchain
open Wire TxScript Chaindata Checks BlockChain ChainNode List

variable {H : Type} [DecidableEq H] [ChainHash H] {b : BlockChain H} {env : ChainEnv H} {s s' : BlockStorage H}
  {index : GoMap H (ChainNode H)} {node tip prev : ChainNode H} {block : StoredBlock H}

def ChainNode.ancestorWork (node : ChainNode H) : Int := (node.ancestors.map fun n => calcWork n.header.bits).sum

/-! ## Runs -/

inductive TipOp (H : Type) where
  | accept (block : StoredBlock H) (fastAdd : Bool)
  | connect (hash : H) (view : UtxoViewpoint H) (stxos : List SpentTxOut)
  | disconnect (view : UtxoViewpoint H) (forkRoot : Option (ChainNode H))

/-- One operation. A block is stored when its header passes `checkBlockHeaderContext` for its parent. A connect or
disconnect that gets as far as moving the tip leaves it moved, whatever the database says. -/
def BlockChain.process [Primitives] (b : BlockChain H) (env : ChainEnv H) (s : BlockStorage H) : TipOp H →
    Except ChainError (BlockStorage H)
  | .accept block fastAdd => s.storeBehind env block fun prevNode =>
    b.checkBlockHeaderContext block.header.toBlockHeader prevNode.blockNode fastAdd
  | .connect hash view stxos => s.withIndexed env hash fun node block => do
    let _ ← prepareConnect env s node block stxos
    return (b.connectBlock env s node block view stxos).2
  | .disconnect view forkRoot => s.withTip env fun node block => do
    let _ ← prepareDisconnect env s node
    return (b.disconnectBlock env s node block view forkRoot).2

inductive TipRun [Primitives] (b : BlockChain H) (genesis : StoredBlock H) (allowed : BlockStorage H → TipOp H → Prop) :
    BlockStorage H → Prop
  | create {env : ChainEnv H} {s : BlockStorage H} (h : b.createChainState env (.opened .empty genesis) genesis = .ok s) :
      TipRun b genesis allowed s
  | step {env : ChainEnv H} {s s' : BlockStorage H} (op : TipOp H) (h : TipRun b genesis allowed s) (hallowed : allowed s op)
      (hstep : b.process env s op = .ok s') : TipRun b genesis allowed s'

/-- The operation does not move the tip back, and a block it connects commits to the current root of the MMR tree of the
best chain. -/
def Appends (s : BlockStorage H) : TipOp H → Prop
  | .accept _ _ => True
  | .connect hash _ _ => ∀ node ∈ s.index.index.get hash, node.prevMMRRoot = s.bestChain.mmrTree.tree.currentRoot
  | .disconnect _ _ => False

instance (s : BlockStorage H) : DecidablePred (Appends s)
  | .accept _ _ => inferInstanceAs (Decidable True)
  | .connect hash _ _ =>
    inferInstanceAs (Decidable (∀ node ∈ s.index.index.get hash, node.prevMMRRoot = s.bestChain.mmrTree.tree.currentRoot))
  | .disconnect _ _ => inferInstanceAs (Decidable False)

/-! ## Headers and nodes -/

/-- A node of the index was made for its header behind its parent, which the header agrees with. -/
structure WeighedNode (index : GoMap H (ChainNode H)) (node : ChainNode H) : Prop where
  numbered : Numbered node.toNodeInfo node.ancestors
  built : node = .new node.header node.parent node.serialID
  parent : ∀ p, node.parent = some p →
    index.get p.getHash = some p ∧ node.prevHash = p.getHash ∧ node.header.chainWeight = p.workSum

structure WeighedIndex (index : GoMap H (ChainNode H)) : Prop where
  key : ∀ hash node, index.get hash = some node → node.getHash = hash
  node : ∀ hash node, index.get hash = some node → WeighedNode index node

section
omit [DecidableEq H] [ChainHash H]

section
variable (h : WeighedIndex index) (hnode : index.get node.getHash = some node)
include h hnode

theorem WeighedIndex.chain :
    ∀ n ∈ node.chain, index.get n.getHash = some n :=
  chain_indexed (fun n p hn hp => ((h.node _ n hn).parent p hp).1) hnode

theorem WeighedIndex.workSum_eq :
    node.workSum = node.ancestorWork + calcWork node.header.bits ∧ node.powWeight = calcWork node.header.bits := by
  induction node using parentInduction with
  | root node hp =>
    have hbuilt := (h.node _ _ hnode).built
    rw [hp] at hbuilt
    rw [hbuilt]
    simp [new, ancestorWork]
  | child node p hp ih =>
    have hweighed := h.node _ _ hnode
    have hbuilt := hweighed.built
    obtain ⟨hsum, -⟩ := ih (hweighed.parent p hp).1
    rw [hp] at hbuilt
    rw [hbuilt]
    refine ⟨?_, rfl⟩
    show p.workSum + calcWork node.header.bits =
      ((p.toNodeInfo :: p.ancestors).map fun n => calcWork n.header.bits).sum + calcWork node.header.bits
    rw [map_cons, sum_cons, hsum, ancestorWork]
    omega

theorem WeighedIndex.chainWeight_eq
    (hp : node.parent = some prev) : node.header.chainWeight = node.ancestorWork := by
  have hweighed := h.node _ _ hnode
  obtain ⟨hprev, -, hweight⟩ := hweighed.parent prev hp
  obtain ⟨n, _ | ⟨p, ancestors⟩⟩ := node
  · cases hp
  · cases hp
    rw [hweight, (h.workSum_eq hprev).1, ancestorWork, ancestorWork, map_cons, sum_cons, Int.add_comm]

theorem WeighedIndex.leaves_sum :
    (node.leaves.map Prod.snd).sum = node.workSum := by
  induction node using parentInduction with
  | root node hp =>
    obtain ⟨hsum, hpow⟩ := h.workSum_eq hnode
    have hbuilt := (h.node _ _ hnode).built
    rw [hp] at hbuilt
    rw [leaves_root hp, hbuilt]
    simp [new]
  | child node p hp ih =>
    have hweighed := h.node _ _ hnode
    have hbuilt := hweighed.built
    rw [hp] at hbuilt
    rw [leaves_child hp, map_append, sum_append, ih (hweighed.parent p hp).1, hbuilt]
    simp [new]

end

end

omit [ChainHash H] in
theorem WeighedIndex.set (h : WeighedIndex index) (hfresh : index.get block.hash = none)
    (hprev : index.get prev.getHash = some prev) (hhash : block.header.prevBlockHash = prev.getHash)
    (hheight : block.header.height = prev.height + 1) (hweight : block.header.chainWeight = prev.workSum) (serialID : Int) :
    WeighedIndex (index.set block.hash (.new block.header (some prev) serialID)) := by
  have hold {hash : H} {n : ChainNode H} (hn : index.get hash = some n) :
      (index.set block.hash (.new block.header (some prev) serialID)).get hash = some n := by
    rw [GoMap.get_set_ne _ _ (fun heq => ?_), hn]
    rw [heq, hfresh] at hn
    cases hn
  refine ⟨fun hash n hn => ?_, fun hash n hn => ?_⟩
  · rcases GoMap.get_set_cases hn with ⟨rfl, rfl⟩ | hn
    · rfl
    · exact h.key hash n hn
  · rcases GoMap.get_set_cases hn with ⟨rfl, rfl⟩ | hn
    · refine ⟨⟨hheight, (h.node _ _ hprev).numbered⟩, rfl, fun p hp => ?_⟩
      cases hp
      exact ⟨hold hprev, hhash, hweight⟩
    · have hweighed := h.node hash n hn
      exact ⟨hweighed.numbered, hweighed.built, fun p hp => ⟨hold (hweighed.parent p hp).1, (hweighed.parent p hp).2⟩⟩

section Main

/-! ## Steps -/

variable [Primitives] {view : UtxoViewpoint H} {stxos : List SpentTxOut} {forkRoot : Option (ChainNode H)}
  {genesis : StoredBlock H}

theorem connectBlock_state {s₁ : BlockStorage H} (hprepared : prepareConnect env s node block stxos = .ok s₁) :
    s.bestChain.tip.map getHash = some node.prevHash ∧
      (b.connectBlock env s node block view stxos).2.index.index = s.index.index ∧
      (b.connectBlock env s node block view stxos).2.bestChain = (s.bestChain.setTip s.actualMMRRoot node).1 := by
  have hchecks := hprepared
  simp only [prepareConnect, ok_rules] at hchecks
  obtain ⟨htip, -, -, hflush⟩ := hchecks
  obtain ⟨rows, dirty, rfl⟩ := flushToDB_eq hflush
  refine ⟨htip, ?_⟩
  rw [connectBlock, hprepared]
  dsimp only
  split <;> exact ⟨rfl, rfl⟩

theorem disconnectBlock_index : (b.disconnectBlock env s node block view forkRoot).2.index.index = s.index.index := by
  unfold disconnectBlock
  split
  next => rfl
  next prevNode prevBlock s₁ hprepared =>
    simp only [prepareDisconnect, ok_rules] at hprepared
    obtain ⟨-, _, -, _, -, s₂, hflush, -, -, rfl⟩ := hprepared
    obtain ⟨rows, dirty, rfl⟩ := flushToDB_eq hflush
    dsimp only
    split <;> rfl

theorem process_accept_ok {fastAdd : Bool} (h : WeighedIndex s.index.index)
    (hstep : b.process env s (.accept block fastAdd) = .ok s') :
    WeighedIndex s'.index.index ∧ s'.bestChain = s.bestChain ∧
      ∀ n, s.index.index.get n.getHash = some n → s'.index.index.get n.getHash = some n := by
  simp only [process, BlockStorage.storeBehind, checkBlockHeaderContext, ok_rules, Bool.not_eq_true,
    Option.isSome_eq_false_iff, Option.isNone_iff_eq_none] at hstep
  obtain ⟨hfresh, prev, hprev, ⟨hheight, hweight, -⟩, haccept⟩ := hstep
  have haccepted := acceptBlock_ok haccept
  have hhash := h.key _ _ hprev
  rw [← hhash] at hprev
  refine ⟨?_, haccepted.bestChain, fun n hn => ?_⟩
  · rw [haccepted.index]
    exact h.set hfresh hprev hhash.symm hheight hweight _
  · rw [haccepted.index]
    refine (GoMap.get_set_ne _ _ fun heq => ?_).trans hn
    rw [heq] at hn
    exact absurd (hfresh.symm.trans hn) (by simp)

theorem weighedIndex_step {op : TipOp H} (h : WeighedIndex s.index.index) (hstep : b.process env s op = .ok s') :
    WeighedIndex s'.index.index := by
  cases op with
  | accept block fastAdd => exact (process_accept_ok h hstep).1
  | connect hash view stxos =>
    simp only [process, BlockStorage.withIndexed, bind_eq_ok, pure_eq_ok] at hstep
    obtain ⟨node, -, -, -, block, -, s₁, hprepared, rfl⟩ := hstep
    rw [(connectBlock_state hprepared).2.1]
    exact h
  | disconnect view forkRoot =>
    simp only [process, BlockStorage.withTip, bind_eq_ok, pure_eq_ok] at hstep
    obtain ⟨node, -, block, -, _, -, rfl⟩ := hstep
    rw [disconnectBlock_index]
    exact h

/-- The best chain ends with `tip`, and its MMR tree is the one over the chain of `tip`. -/
structure Weighed (s : BlockStorage H) (tip : ChainNode H) : Prop where
  index : WeighedIndex s.index.index
  indexed : s.index.index.get tip.getHash = some tip
  atTip : s.bestChain.tip = some tip
  tree : Mmr.BlocksMMRTree.Inv tip.leaves s.bestChain.mmrTree.tree

theorem weighed_step {op : TipOp H} (h : Weighed s tip) (happends : Appends s op) (hstep : b.process env s op = .ok s') :
    ∃ tip', Weighed s' tip' := by
  cases op with
  | accept block fastAdd =>
    obtain ⟨hindex, hbest, hold⟩ := process_accept_ok h.index hstep
    exact ⟨tip, hindex, hold tip h.indexed, by rw [hbest, h.atTip], by rw [hbest]; exact h.tree⟩
  | connect hash view stxos =>
    simp only [process, BlockStorage.withIndexed, ok_rules] at hstep
    obtain ⟨node, hnode, p, hp, block, -, s₁, hprepared, rfl⟩ := hstep
    obtain ⟨htip, hindex, hbest⟩ := @connectBlock_state _ _ _ b env s node block _ view stxos s₁ hprepared
    have hroot : node.prevMMRRoot = s.bestChain.mmrTree.tree.currentRoot := happends node hnode
    rw [← h.index.key _ _ hnode] at hnode
    have hweighed := h.index.node _ _ hnode
    -- the parent is the tip, since the index has one node for its hash
    have hparent : p = tip := by
      obtain ⟨hpindex, hprev, -⟩ := hweighed.parent p hp
      rw [h.atTip, Option.map_some, Option.some.injEq, hprev] at htip
      rw [← htip, h.indexed, Option.some.injEq] at hpindex
      exact hpindex.symm
    subst hparent
    have hset := MmrTree.setNode_of_prev s.actualMMRRoot hroot
    have hinv := h.tree.appendBlock (hash_fresh_of_indexed hnode hp (h.index.chain h.indexed)) node.powWeight
    rw [← leaves_child hp] at hinv
    refine ⟨node, by rw [hindex]; exact h.index, by rw [hindex, hnode], ?_, ?_⟩
    · rw [hbest]
      exact ChainView.tip_setTip _ _ hweighed.numbered
    · rw [hbest, ChainView.setTip, hset]
      exact hinv
  | disconnect view forkRoot => exact happends.elim

/-! ## Runs agree -/

section
variable (hgenesis : GenesisHeader genesis.header)
include hgenesis

theorem weighed_create
    (h : b.createChainState env (.opened .empty genesis) genesis = .ok s) : ∃ tip, Weighed s tip := by
  obtain ⟨hstored, hbest, htree, -⟩ := createChainState_ok hgenesis h
  refine ⟨_, ⟨hstored.key, fun hash node hnode => ?_⟩, hbest.indexed, hbest.tip_eq, htree⟩
  have hkept := hstored.node hash node hnode
  refine ⟨hkept.numbered, hkept.built, fun p hp => ?_⟩
  -- the genesis node is the only one, and it has no parent
  simp only [createChainState, ok_rules] at h
  obtain ⟨db, -, rfl⟩ := h
  rw [withGenesis_eq genesis (.new genesis.header none 0) hgenesis.root] at hnode
  rw [GoMap.get_set] at hnode
  split at hnode
  · cases hnode
    cases hp
  · cases hnode

theorem weighedIndex_run {allowed : BlockStorage H → TipOp H → Prop}
    (h : TipRun b genesis allowed s) : WeighedIndex s.index.index := by
  induction h with
  | create hcreate =>
    obtain ⟨tip, hweighed⟩ := weighed_create hgenesis hcreate
    exact hweighed.index
  | step op _ _ hstep ih => exact weighedIndex_step ih hstep

theorem weighed_run (h : TipRun b genesis Appends s) : ∃ tip, Weighed s tip := by
  induction h with
  | create hcreate => exact weighed_create hgenesis hcreate
  | step op _ happends hstep ih =>
    obtain ⟨tip, hweighed⟩ := ih
    exact weighed_step hweighed happends hstep

end

/-- In every run the header of a node names the work of its ancestors, and the node has summed up that and its own. In
a run that only appends to the MMR tree of the best chain, the tree weighs what the tip has summed up. -/
theorem weights_agree (b : BlockChain H) (genesis : StoredBlock H) (hgenesis : GenesisHeader genesis.header) :
    (∀ s, TipRun b genesis (fun _ _ => True) s → ∀ hash node, s.index.index.get hash = some node →
      (node.parent.isSome → node.header.chainWeight = node.ancestorWork) ∧
        node.workSum = node.ancestorWork + calcWork node.header.bits) ∧
    ∀ s, TipRun b genesis Appends s → (∀ hash node, s.index.index.get hash = some node →
        (node.parent.isSome → node.header.chainWeight = node.ancestorWork) ∧
          node.workSum = node.ancestorWork + calcWork node.header.bits) ∧
      ∃ tip, s.bestChain.tip = some tip ∧ s.bestChain.mmrTree.tree.currenWeight = tip.workSum := by
  have hnodes {s : BlockStorage H} (h : WeighedIndex s.index.index) (hash : H) (node : ChainNode H)
      (hnode : s.index.index.get hash = some node) :
      (node.parent.isSome → node.header.chainWeight = node.ancestorWork) ∧
        node.workSum = node.ancestorWork + calcWork node.header.bits := by
    rw [← h.key _ _ hnode] at hnode
    refine ⟨fun hp => ?_, (h.workSum_eq hnode).1⟩
    obtain ⟨p, hp⟩ := Option.isSome_iff_exists.1 hp
    exact h.chainWeight_eq hnode hp
  refine ⟨fun s hrun => hnodes (weighedIndex_run hgenesis hrun), fun s hrun => ?_⟩
  obtain ⟨tip, hweighed⟩ := weighed_run hgenesis hrun
  refine ⟨hnodes hweighed.index, tip, hweighed.atTip, ?_⟩
  rw [← hweighed.index.leaves_sum hweighed.indexed]
  exact hweighed.tree.weight

end Main

section Sample
attribute [local instance] sumHash toyPrimitives

def weighedHeader (height hash prevHash prevRoot chainWeight : Nat) : IndexHeader Nat :=
  ⟨⟨1, height, chainWeight, prevHash, 0, height, 0x207fffff, 0, 0, 0, hash, 0⟩, prevRoot⟩

def weighedGenesis : StoredBlock Nat := ⟨weighedHeader 0 1 0 0 0, (storeBlock storeGenesis).txs⟩

def weighedNext : StoredBlock Nat := ⟨weighedHeader 1 2 1 1 2048, (storeBlock storeGenesis).txs⟩

def tipRun (allowed : BlockStorage Nat → TipOp Nat → Prop) [∀ s, DecidablePred (allowed s)] (ops : List (TipOp Nat)) :
    Except ChainError (BlockStorage Nat) := do
  let s ← (toyChain Nat).createChainState (refusing []) (.opened .empty weighedGenesis) weighedGenesis
  ops.foldlM (fun s op => do
    failIf (¬allowed s op) (.other "not allowed")
    (toyChain Nat).process (refusing []) s op) s

theorem tipRun_reached {allowed : BlockStorage Nat → TipOp Nat → Prop} [∀ s, DecidablePred (allowed s)]
    {ops : List (TipOp Nat)} {s : BlockStorage Nat} (h : tipRun allowed ops = .ok s) :
    TipRun (toyChain Nat) weighedGenesis allowed s := by
  simp only [tipRun, bind_eq_ok] at h
  obtain ⟨s₀, hcreate, h⟩ := h
  induction ops using reverseRecOn generalizing s with
  | nil =>
    cases h
    exact .create hcreate
  | append_singleton ops op ih =>
    simp only [foldlM_append, foldlM_cons, foldlM_nil, ok_rules] at h
    obtain ⟨s₁, hrun, s₂, ⟨hallowed, hstep⟩, rfl⟩ := h
    exact .step op (ih hrun) hallowed hstep

def weighedConnect : List (TipOp Nat) := [.accept weighedNext true, .connect 2 storeView []]

theorem weights_agree_next : ∃ s tip, tipRun Appends weighedConnect = .ok s ∧ s.bestChain.tip = some tip ∧
    tip.getHash = 2 ∧ s.bestChain.mmrTree.tree.currenWeight = tip.workSum := by
  have hhash : (tipRun Appends weighedConnect).toOption.map (fun s => s.bestChain.tip.map getHash) = some (some 2) := by
    decide +kernel
  obtain ⟨s, hrun, hhash⟩ := toOption_map_eq_some.1 hhash
  obtain ⟨tip, htip, hweight⟩ := ((weights_agree (toyChain Nat) weighedGenesis ⟨rfl, rfl⟩).2 s (tipRun_reached hrun)).2
  rw [htip, Option.map_some, Option.some.injEq] at hhash
  exact ⟨s, tip, hrun, htip, hhash, hweight⟩

/-- The block is disconnected again. The tree then weighs both blocks and genesis once more, three times the work of
genesis, which is the tip. -/
theorem weight_after_disconnect : ∃ s, TipRun (toyChain Nat) weighedGenesis (fun _ _ => True) s ∧
    s.bestChain.tip.map (fun tip => (tip.getHash, tip.workSum)) = some (1, 2048) ∧
    s.bestChain.mmrTree.tree.currenWeight = 3 * 2048 := by
  have hstate : (tipRun (fun _ _ => True) (weighedConnect ++ [.disconnect storeView none])).toOption.map (fun s =>
      (s.bestChain.tip.map (fun tip => (tip.getHash, tip.workSum)), s.bestChain.mmrTree.tree.currenWeight)) =
      some (some (1, 2048), 3 * 2048) := by
    decide +kernel
  obtain ⟨s, hrun, hstate⟩ := toOption_map_eq_some.1 hstate
  exact ⟨s, tipRun_reached hrun, congrArg Prod.fst hstate, congrArg Prod.snd hstate⟩

end Sample

end Jaxnetd.Blockchain
