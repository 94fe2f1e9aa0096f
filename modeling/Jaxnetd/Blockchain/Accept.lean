import Jaxnetd.Blockchain.LedgerRun

/-!
# Accepting blocks one after another

`acceptBlock` puts together what `maybeAcceptBlock` and `connectBestChain` do with a block that extends the best chain: the
checks of the block, its context and its transactions, and the unspent outputs that `connectBlock` writes.
-/

namespace Jaxnetd.Blockchain
open Wire TxScript Chaindata Checks UtxoViewpoint List

/-- A block with the work that `NewNode` finds for it. -/
structure Block (H : Type) extends NodeData H where
  txs : List (MsgTx H)

structure ChainState (H : Type) where
  tip : BlockNode H
  utxos : UtxoSet H

/-- `NewNode` on top of a node. -/
def Block.node {H : Type} (tip : BlockNode H) (block : Block H) : BlockNode H :=
  ⟨block.toNodeData, tip.toNodeData :: tip.ancestors⟩

variable {H : Type} [DecidableEq H] [ChainHash H]

namespace BlockChain
variable [Primitives] {b : BlockChain H} {s s' : ChainState H} {block genesis : Block H}

/-- The state behind `createChainState`: the beacon chain stores the outputs of its genesis block, a shard does not. -/
def genesisState (b : BlockChain H) (genesis : Block H) : ChainState H where
  tip := ⟨genesis.toNodeData, []⟩
  utxos := match b.isBeacon with
    | false => .empty
    | true => putUtxoView .empty (genesisView b.isBeacon genesis.txs genesis.header.height genesis.header.blockHash)

theorem genesisState_rows {Q : OutPoint H → SpentTxOut → Prop}
    (h : ∀ tx ∈ genesis.txs, OutputsAt Q genesis.header.height tx) : RowsAt Q (b.genesisState genesis).utxos := by
  have hempty : RowsAt Q .empty := by
    intro o d hd
    cases hd
  unfold genesisState
  cases b.isBeacon with
  | false => exact hempty
  | true => exact (entriesAt_genesisView h _ _).put hempty

def acceptBlock (b : BlockChain H) (s : ChainState H) (block : Block H) : Except ChainError (ChainState H) := do
  checkBlockSanityWF (.ok ()) block.header.maxLength block.header.merkleRoot block.txs
  b.checkBlockContext block.header block.txs s.tip false
  let node := block.node s.tip
  let (view, _) ← b.checkConnectBlock s.utxos node block.txs (b.freshView node) (some [])
  return ⟨node, putUtxoView s.utxos view⟩

def acceptBlocks (b : BlockChain H) (s : ChainState H) (blocks : List (Block H)) : Except ChainError (ChainState H) :=
  blocks.foldlM b.acceptBlock s

structure ContextChecked (b : BlockChain H) (s : ChainState H) (block : Block H) : Prop where
  height : block.header.height = s.tip.height + 1
  final : ∀ tx ∈ block.txs, isFinalizedTransaction tx block.header.height (b.calcPastMedianTime s.tip)
  serialized : 2 ≤ block.header.version → ∀ c ∈ block.txs.head?,
    extractCoinbaseHeight c = .ok block.header.height

structure Accepted (b : BlockChain H) (s : ChainState H) (block : Block H) (s' : ChainState H)
    (st : ConnectState H) : Prop where
  sane : SaneBlock block.txs
  context : ContextChecked b s block
  connected : ConnectChecked b s.utxos (block.node s.tip) block.txs st
  tip : s'.tip = block.node s.tip
  utxos : s'.utxos = putUtxoView s.utxos st.view

omit [DecidableEq H] [Primitives] in
theorem checkFinalized_ok {height time : Int} {txs : List (MsgTx H)} (h : checkFinalized height time txs = .ok ()) :
    ∀ tx ∈ txs, isFinalizedTransaction tx height time := by
  induction txs with
  | nil => simp
  | cons tx txs ih =>
    simp only [checkFinalized, ok_rules] at h
    exact forall_mem_cons.2 ⟨h.1, ih h.2⟩

omit [Primitives] in
theorem checkBlockContext_ok (h : b.checkBlockContext block.header block.txs s.tip false = .ok ()) :
    ContextChecked b s block := by
  simp only [checkBlockContext, checkTransactionContext, checkBlockHeaderContext, ok_rules, Bool.false_eq_true,
    not_false_eq_true, forall_const] at h
  obtain ⟨⟨hheight, -⟩, hfinal, hserialized, -⟩ := h
  refine ⟨hheight, hheight ▸ checkFinalized_ok hfinal, fun hversion c hc => ?_⟩
  have hchecked := hserialized hversion
  rcases htxs : block.txs with _ | ⟨first, rest⟩
  · simp [htxs] at hc
  · rw [htxs, head?_cons, Option.mem_some_iff] at hc
    subst hc
    rw [htxs] at hchecked
    simp only [checkSerializedHeight, ok_rules] at hchecked
    obtain ⟨height, hextract, rfl⟩ := hchecked
    rw [hextract, hheight]

theorem acceptBlock_ok (h : b.acceptBlock s block = .ok s') : ∃ st, Accepted b s block s' st := by
  simp only [acceptBlock, ok_rules] at h
  obtain ⟨hsane, hcontext, view, stxos, hconnect, rfl⟩ := h
  obtain ⟨st, hchecked, rfl, -⟩ := checkConnectBlock_ok hconnect
  exact ⟨st, checkBlockSanityWF_ok hsane, checkBlockContext_ok hcontext, hchecked, rfl, rfl⟩

theorem acceptBlocks_concat {blocks : List (Block H)} : b.acceptBlocks s (blocks ++ [block]) = .ok s' ↔
    ∃ s₁, b.acceptBlocks s blocks = .ok s₁ ∧ b.acceptBlock s₁ block = .ok s' := by
  simp [acceptBlocks, foldlM_append, bind_eq_ok]

/-- What holds at the start and is kept by every block that meets a condition holds along a chain of such blocks. -/
theorem acceptBlocks_induct {C : List (Block H) → ChainState H → Block H → Prop} {P : List (Block H) → ChainState H → Prop}
    {blocks : List (Block H)} (hstart : P [] s)
    (hstep : ∀ pre block post s₁ s₂, blocks = pre ++ block :: post → P pre s₁ → C pre s₁ block →
      b.acceptBlock s₁ block = .ok s₂ → P (pre ++ [block]) s₂)
    (hcond : ∀ pre block post s₁, blocks = pre ++ block :: post → b.acceptBlocks s pre = .ok s₁ → C pre s₁ block) :
    ∀ pre post s₁, blocks = pre ++ post → b.acceptBlocks s pre = .ok s₁ → P pre s₁ := by
  intro pre
  induction pre using reverseRecOn with
  | nil =>
    rintro post s₁ - h
    cases h
    exact hstart
  | append_singleton pre block ih =>
    intro post s₂ hblocks h
    rw [append_assoc, singleton_append] at hblocks
    obtain ⟨s₁, hpre, hblock⟩ := acceptBlocks_concat.1 h
    exact hstep pre block post s₁ s₂ hblocks (ih _ s₁ hblocks hpre) (hcond pre block post s₁ hblocks hpre) hblock

end BlockChain

/-! ## Blocks to run the chain with -/

section Sample
attribute [local instance] sumHash

def sampleBlock (height : Int) (prev hash : Nat) (txs : List (MsgTx Nat)) : Block Nat where
  header := ⟨1, height, 0, prev, merkleRoot txs false, 1600000000 + height, 0, 0, 0, 0, hash, 0⟩
  workSum := 0
  powWeight := 0
  txs := txs

def sampleGenesis : Block Nat := sampleBlock 0 0 7 [sampleCoinbase [1, 1] [0x51]]

variable [Primitives] (utxos : UtxoSet Nat) (txs : List (MsgTx Nat))

def sampleNode : BlockNode Nat := (sampleBlock 1 7 8 txs).node ⟨sampleGenesis.toNodeData, []⟩

def sampleRun : Except ChainError (UtxoViewpoint Nat × Option (List SpentTxOut)) :=
  (toyChain Nat).checkConnectBlock utxos (sampleNode txs) txs ((toyChain Nat).freshView (sampleNode txs)) (some [])

/-- The state when the turn of a transaction comes. -/
def sampleTurn (turn : Nat) : Except ChainError (BlockChain.ConnectState Nat) :=
  (toyChain Nat).connectTxs 1 (txs.take turn) ((toyChain Nat).startState utxos (sampleNode txs) txs)

end Sample

end Jaxnetd.Blockchain
