import Jaxnetd.Blockchain.Overwrite

/-!
# Value

In a block whose swap transactions are whole the total amount on the ledger grows by no more than the subsidy, and so it
does along a chain (`supply_le`). A swap transaction that is not whole creates coins: its outputs at the indices of missing
inputs are passed over when it is connected, but `FetchInputUtxos` has put them into the view before, once a later
transaction of the block names the swap.
-/

namespace Jaxnetd.Blockchain
open Wire TxScript Chaindata Checks UtxoViewpoint Ledger List

variable {H : Type} [DecidableEq H] [ChainHash H] (utxos : UtxoSet H)

noncomputable def totalAmount : Int := total SpentTxOut.amount utxos

def AmountsNonneg : Prop := Nonneg SpentTxOut.amount utxos

namespace BlockChain
variable {b : BlockChain H} {height : Int} {st st' : ConnectState H} {tx : MsgTx H} {ledger : UtxoSet H}

theorem total_transfer_le {fee : Int} (hsane : SaneTx tx) (hcb : ¬isCoinBase tx) (hledger : AmountsNonneg ledger)
    (hconn : TxConnected height st tx st') (hfee : FeeChecked st.view tx fee) (hspends : SpendsLedger st.view tx ledger) :
    totalAmount ((transferOf st.view.found tx height).apply ledger) ≤ totalAmount ledger - fee := by
  have hspentNodup : (spentBy st.view.found tx).Nodup := by
    rw [spentBy, if_neg hcb]
    exact hsane.inputs_nodup.filter _
  have hweights : ((spentBy st.view.found tx).map (weight SpentTxOut.amount ledger)).sum =
      amountIn st.view (spentBy st.view.found tx) := by
    congr 1
    revert hspends
    unfold SpendsLedger
    induction spentBy st.view.found tx with
    | nil => simp
    | cons o os ih =>
      intro hspends
      rw [forall_mem_cons] at hspends
      obtain ⟨⟨d, hdata, hget⟩, hrest⟩ := hspends
      rw [map_cons, weight_of_get hget, filterMap_cons_some hdata, map_cons, ih hrest]
  have hregular : ¬tx.swapTx → ∀ txIn ∈ tx.txIn, st.view.found txIn.previousOutPoint := by
    intro hswap txIn htxIn
    have hmem : txIn.previousOutPoint ∈ spentBy st.view.found tx := by
      rw [hconn.connected.regular hcb hswap]
      exact mem_map_of_mem htxIn
    rw [spentBy, if_neg hcb] at hmem
    exact (mem_filter.1 hmem).2
  have hcreated : ((createdBy st.view.found tx height).map fun p => p.2.amount).sum ≤
      valueOf (keptOuts st.view.found tx) := created_le_kept hsane hcb hregular
  calc totalAmount ((transferOf st.view.found tx height).apply ledger)
      ≤ totalAmount ledger - ((spentBy st.view.found tx).map (weight SpentTxOut.amount ledger)).sum +
        ((createdBy st.view.found tx height).map fun p => p.2.amount).sum :=
        total_apply_le hledger hspentNodup (created_nonneg hsane)
    _ ≤ totalAmount ledger - fee := by
        rw [hweights, hfee.eq]
        linarith

def claimed (pre : List (MsgTx H)) : Int := (pre.head?.map fun tx => valueOf tx.txOut).getD 0

omit [DecidableEq H] [ChainHash H] in
theorem claimed_concat {pre : List (MsgTx H)} (h : pre ≠ []) (tx : MsgTx H) : claimed (pre ++ [tx]) = claimed pre := by
  obtain ⟨first, rest, rfl⟩ := exists_cons_of_ne_nil h
  rfl

structure Balanced (db : UtxoSet H) (pre : List (MsgTx H)) (st : ConnectState H) (ledger : UtxoSet H) : Prop where
  fees_nonneg : 0 ≤ st.totalFees
  fees_lt : st.totalFees < 2 ^ 63
  nonneg : AmountsNonneg ledger
  total : totalAmount ledger + st.totalFees ≤ totalAmount db + claimed pre

theorem Balanced.step {db : UtxoSet H} {txs pre post : List (MsgTx H)} (hblock : SaneBlock txs)
    (htxs : txs = pre ++ tx :: post) (h : Balanced db pre st ledger) (hconn : TxConnected height st tx st')
    (hspends : SpendsLedger st.view tx ledger) :
    Balanced db (pre ++ [tx]) st' ((transferOf st.view.found tx height).apply ledger) := by
  have hsane := hblock.sane tx (by simp [htxs])
  obtain ⟨fee, hfee⟩ := hconn.fee
  obtain ⟨hfee0, hfees, hlt⟩ := hfee.exact h.fees_nonneg h.fees_lt
  have hfees0 := h.fees_nonneg
  have htotal := h.total
  refine ⟨by omega, hlt, h.nonneg.apply (created_nonneg hsane), ?_⟩
  by_cases hcb : isCoinBase tx
  · -- the coinbase is first: its outputs are put on the ledger and nothing is taken off
    obtain rfl := (hblock.isCoinBase_iff htxs).1 hcb
    have hnone : spentBy st.view.found tx = [] := by simp [spentBy, hcb]
    have hcreated : ((createdBy st.view.found tx height).map fun p => p.2.amount).sum ≤ valueOf tx.txOut :=
      created_le_outs hsane
    have hput : totalAmount ((transferOf st.view.found tx height).apply ledger) ≤
        totalAmount ledger - ((spentBy st.view.found tx).map (weight SpentTxOut.amount ledger)).sum +
          ((createdBy st.view.found tx height).map fun p => p.2.amount).sum :=
      total_apply_le h.nonneg (by simp [transferOf, hnone]) (created_nonneg hsane)
    rw [hnone, map_nil, sum_nil] at hput
    have hclaimed : claimed ([] ++ [tx]) = valueOf tx.txOut := rfl
    have hclaimed' : claimed ([] : List (MsgTx H)) = 0 := rfl
    have := hfee.coinbase hcb
    omega
  · have hpre : pre ≠ [] := fun hnil => hcb ((hblock.isCoinBase_iff htxs).2 hnil)
    have hmove := total_transfer_le hsane hcb h.nonneg hconn (hfee.checked hcb) hspends
    rw [claimed_concat hpre]
    omega

variable [Primitives]

theorem connected_nonneg {U : UtxoSet H} (hU : AmountsNonneg U) {node : BlockNode H} {txs : List (MsgTx H)}
    (hblock : SaneBlock txs) (hrun : b.connectTxs node.height txs (b.startState U node txs) = .ok st) :
    AmountsNonneg (putUtxoView U st.view) :=
  EntriesAll.put (entriesAll_run hblock hU (fun tx htx _ _ => outputAt_nonneg (hblock.sane tx htx))
    (prefix_refl _) hrun) hU

/-- A block that is accepted, and whose swap transactions are whole, adds at most its subsidy. -/
theorem connected_total_le (b : BlockChain H) (U : UtxoSet H) (hU : AmountsNonneg U) (node : BlockNode H)
    (txs : List (MsgTx H)) (headerSanity : Except ChainError Unit)
    (hsanity : checkBlockSanityWF headerSanity node.header.maxLength node.header.merkleRoot txs = .ok ())
    (hwhole : SwapsWhole b U node txs) (view : UtxoViewpoint H) (stxos : Option (List SpentTxOut))
    (haccept : b.checkConnectBlock U node txs (b.freshView node) (some []) = .ok (view, stxos)) :
    totalAmount (putUtxoView U view) ≤ totalAmount U + b.calcBlockSubsidy node.height node.header.bits node.header := by
  have hblock := checkBlockSanityWF_ok hsanity
  obtain ⟨st, hchecked, rfl, rfl⟩ := checkConnectBlock_ok haccept
  have hend : Balanced U txs st (putUtxoView U st.view) :=
    ledger_run_end hblock hwhole ⟨le_rfl, by simp [startState], hU, by simp [claimed, startState]⟩
      (fun _ _ _ _ _ _ htxs _ h hconn hspends => h.step hblock htxs hconn hspends) hchecked.run
  obtain ⟨first, rest, htxs, -, -⟩ := hblock.coinbase
  have hpaid := hchecked.coinbase first (by simp [htxs])
  rw [(hblock.sane first (by simp [htxs])).outs.sumValues_eq] at hpaid
  have hclaimed : claimed txs = valueOf first.txOut := by rw [htxs]; rfl
  have hsubsidy := (b.subsidy_int64 node.height node.header.bits node.header).1
  have hfees := hend.fees_nonneg
  have htotal := hend.total
  have hwrap := wrap64_le (x := b.calcBlockSubsidy node.height node.header.bits node.header + st.totalFees) (by omega)
  change totalAmount (putUtxoView U st.view) ≤ _
  omega

/-- The subsidy of a block. -/
def subsidyOf (b : BlockChain H) (block : Block H) : Int :=
  b.calcBlockSubsidy block.header.height block.header.bits block.header

variable {s₀ s s' : ChainState H} {block : Block H}

theorem Accepted.total_le (h : Accepted b s block s' st) (hnonneg : AmountsNonneg s.utxos)
    (hwhole : SwapsWhole b s.utxos (block.node s.tip) block.txs) :
    totalAmount s'.utxos ≤ totalAmount s.utxos + b.subsidyOf block := by
  have hend : Balanced s.utxos block.txs st s'.utxos := h.utxos ▸
    ledger_run_end h.sane hwhole ⟨le_rfl, by simp [startState], hnonneg, by simp [claimed, startState]⟩
      (fun _ _ _ _ _ _ htxs _ hbal hconn hspends => hbal.step h.sane htxs hconn hspends) h.connected.run
  obtain ⟨first, rest, htxs, -⟩ := h.sane.coinbase
  have hpaid : valueOf first.txOut ≤ wrap64 (b.subsidyOf block + st.totalFees) :=
    (h.sane.sane first (by simp [htxs])).outs.sumValues_eq ▸ h.connected.coinbase first (by simp [htxs])
  have hclaimed : claimed block.txs = valueOf first.txOut := by rw [htxs]; rfl
  have hsubsidy : -2 ^ 63 ≤ b.subsidyOf block := (b.subsidy_int64 _ _ _).1
  have hfees := hend.fees_nonneg
  have hwrap := wrap64_le (x := b.subsidyOf block + st.totalFees) (by omega)
  have htotal := hend.total
  omega

/-- A chain of accepted blocks whose swap transactions are whole adds at most their subsidies. -/
theorem supply_le {blocks : List (Block H)} (hstart : AmountsNonneg s₀.utxos)
    (hwhole : ∀ pre block post s, blocks = pre ++ block :: post → b.acceptBlocks s₀ pre = .ok s →
      SwapsWhole b s.utxos (block.node s.tip) block.txs) (hchain : b.acceptBlocks s₀ blocks = .ok s) :
    totalAmount s.utxos ≤ totalAmount s₀.utxos + (blocks.map b.subsidyOf).sum := by
  refine (acceptBlocks_induct (P := fun pre s => AmountsNonneg s.utxos ∧
    totalAmount s.utxos ≤ totalAmount s₀.utxos + (pre.map b.subsidyOf).sum)
    ⟨hstart, by simp⟩ ?_ hwhole blocks [] s (append_nil _).symm hchain).2
  rintro pre block - s₁ s₂ - ⟨hnonneg, hle⟩ hswaps hblock
  obtain ⟨st, hacc⟩ := acceptBlock_ok hblock
  refine ⟨hacc.utxos ▸ connected_nonneg hnonneg hacc.sane hacc.connected.run, ?_⟩
  have hgrowth := hacc.total_le hnonneg hswaps
  rw [map_append, sum_append, map_singleton, sum_singleton]
  omega

end BlockChain

/-! ## A swap transaction that creates coins -/

section Sample

attribute [local instance] sumHash toyPrimitives

def mintSwap : MsgTx Nat := ⟨4, [sampleInput 5 0, sampleInput 6 0], [⟨5, [0x51]⟩, ⟨1000, [0x51]⟩], 0⟩

def mintSpend : MsgTx Nat := ⟨1, [sampleInput mintSwap.txHash 1], [⟨1000, [0x51]⟩], 0⟩

def mintTxs : List (MsgTx Nat) := [sampleCoinbase [0, 0] [0x51], mintSwap, mintSpend]

theorem sampleUtxos_nonneg : AmountsNonneg sampleUtxos :=
  (Nonneg.empty _).set (by decide)

theorem totalAmount_sampleUtxos : totalAmount sampleUtxos = 5 := by
  simp [totalAmount, sampleUtxos, total_set, weight]

theorem mint_sane : checkBlockSanityWF (.ok ()) 0 (merkleRoot mintTxs false) mintTxs = .ok () := by
  decide

theorem mint_rows : ((sampleRun sampleUtxos mintTxs).map fun r =>
      mintTxs.map fun tx => (putUtxoView sampleUtxos r.1).get ⟨tx.txHash, 0⟩) =
    .ok [some ⟨10, [0x51], 1, true⟩, some ⟨5, [0x51], 1, false⟩, some ⟨1000, [0x51], 1, false⟩] := by
  decide

/-- The block is accepted, and the total grows by 1010 where the subsidy is 10. -/
theorem swap_mints : checkBlockSanityWF (.ok ()) 0 (merkleRoot mintTxs false) mintTxs = .ok () ∧
    AmountsNonneg sampleUtxos ∧ ∃ view stxos, sampleRun sampleUtxos mintTxs = .ok (view, stxos) ∧
      totalAmount sampleUtxos + (toyChain Nat).calcBlockSubsidy 1 0 (sampleNode mintTxs).header <
        totalAmount (putUtxoView sampleUtxos view) := by
  refine ⟨mint_sane, sampleUtxos_nonneg, ?_⟩
  obtain ⟨⟨view, stxos⟩, hrun, hweights⟩ := map_eq_ok.1 mint_rows
  refine ⟨view, stxos, hrun, ?_⟩
  have hnonneg : AmountsNonneg (putUtxoView sampleUtxos view) := by
    obtain ⟨st, hchecked, rfl, -⟩ := BlockChain.checkConnectBlock_ok hrun
    exact BlockChain.connected_nonneg sampleUtxos_nonneg (checkBlockSanityWF_ok mint_sane) hchecked.run
  have hsum := sum_weight_le_total hnonneg
    (show (mintTxs.map fun tx => (⟨tx.txHash, 0⟩ : OutPoint Nat)).Nodup by decide)
  have hlarge : (1015 : Int) ≤ totalAmount (putUtxoView sampleUtxos view) := by
    refine le_trans (le_of_eq ?_) hsum
    simp only [mintTxs, map_cons, map_nil, cons.injEq] at hweights ⊢
    simp [weight, hweights]
  rw [totalAmount_sampleUtxos]
  exact lt_of_lt_of_le (by decide) hlarge

def wholeUtxos : UtxoSet Nat := sampleUtxos.set ⟨6, 0⟩ ⟨1000, [0x51], 1, false⟩

theorem whole_found : ((sampleTurn wholeUtxos mintTxs 1).map fun st =>
      mintSwap.txIn.map fun txIn => st.view.found txIn.previousOutPoint) = .ok [true, true] := by
  decide

theorem whole_swaps : BlockChain.SwapsWhole (toyChain Nat) wholeUtxos (sampleNode mintTxs) mintTxs where
  found pre tx post st htxs hrun hswap _ := by
    match pre, htxs with
    | [], htxs => cases htxs; exact absurd hswap (by decide)
    | [_], htxs =>
      cases htxs
      obtain ⟨st, hrun', hfound⟩ := map_eq_ok.1 whole_found
      cases hrun.symm.trans hrun'
      simpa [mintSwap] using hfound
    | [_, _], htxs => cases htxs; exact absurd hswap (by decide)
    | _ :: _ :: _ :: _, htxs => simp [mintTxs] at htxs
  not_self := by unfold NotSelf; decide

theorem whole_accepted : (sampleRun wholeUtxos mintTxs).isOk = true := by
  decide

theorem connected_total_le_whole : ∃ view stxos, sampleRun wholeUtxos mintTxs = .ok (view, stxos) ∧
    totalAmount (putUtxoView wholeUtxos view) ≤ totalAmount wholeUtxos + 10 := by
  obtain ⟨⟨view, stxos⟩, hrun⟩ := isOk_iff.1 whole_accepted
  exact ⟨view, stxos, hrun, BlockChain.connected_total_le (toyChain Nat) wholeUtxos
    (sampleUtxos_nonneg.set (by decide)) (sampleNode mintTxs) mintTxs (.ok ()) mint_sane whole_swaps view stxos hrun⟩

def supplyBlocks : List (Block Nat) := [coinbaseBlock [0, 0] 1 7 8, coinbaseBlock [0, 1] 2 8 9]

theorem supply_accepted : ((toyChain Nat).acceptBlocks ⟨sampleStart.tip, .empty⟩ supplyBlocks).isOk = true := by decide

theorem supply_le_once : ∃ s, (toyChain Nat).acceptBlocks ⟨sampleStart.tip, .empty⟩ supplyBlocks = .ok s ∧
    totalAmount s.utxos ≤ 20 := by
  obtain ⟨s, hs⟩ := isOk_iff.1 supply_accepted
  have hall : ∀ e ∈ supplyBlocks, ∀ tx ∈ e.txs, ¬tx.swapTx := by decide
  have hle := BlockChain.supply_le (by exact .empty _)
    (fun _ block _ _ hsplit _ => .of_no_swap (hall block (by simp [hsplit]))) hs
  exact ⟨s, hs, hle.trans_eq (by simp [totalAmount]; rfl)⟩

end Sample

end Jaxnetd.Blockchain
