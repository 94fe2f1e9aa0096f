import Jaxnetd.Blockchain.Accept

/-!
# Outputs created again

`checkConnectBlock` does not look whether a transaction exists already. Unless a coinbase is repeated, an outpoint is
created only once nevertheless: every other transaction spends an input together with the output it creates (`guardInput`),
and coming again it would have to spend that input again. Coinbases differ by the height they start with, which is only
asked of blocks of version 2 on.
-/

namespace Jaxnetd.Blockchain
open Wire TxScript Chaindata Checks UtxoViewpoint Ledger List Block

section Main
variable {H : Type} [DecidableEq H]

/-! ## Transactions up to their witnesses -/

variable (tx : MsgTx H)

def withoutWitness : MsgTx H :=
  { tx with txIn := tx.txIn.map fun txIn => { txIn with witness := [] } }

/-- The input spent together with the output at an index: the one at the same index in a swap
transaction, otherwise the first. -/
def guardInput (i : Nat) : Option (OutPoint H) :=
  (tx.txIn[if tx.swapTx then i else 0]?).map TxIn.previousOutPoint

section
omit [DecidableEq H]

theorem guardInput_withoutWitness (tx : MsgTx H) (i : Nat) : guardInput (withoutWitness tx) i = guardInput tx i := by
  by_cases hswap : tx.version = txVerCrossShardSwap <;>
    simp [guardInput, withoutWitness, MsgTx.swapTx, hswap, Function.comp_def]

theorem extractCoinbaseHeight_withoutWitness (tx : MsgTx H) :
    extractCoinbaseHeight (withoutWitness tx) = extractCoinbaseHeight tx := by
  simp [extractCoinbaseHeight, withoutWitness, Function.comp_def]

end

variable [ChainHash H]

theorem isCoinBase_withoutWitness : isCoinBase (withoutWitness tx) = isCoinBase tx := by
  unfold isCoinBase withoutWitness
  rcases tx.txIn with _ | ⟨txIn, _ | ⟨_, _⟩⟩ <;> rfl

def HashesApart (txs : List (MsgTx H)) : Prop :=
  ∀ tx ∈ txs, ∀ tx' ∈ txs, tx.txHash = tx'.txHash → withoutWitness tx = withoutWitness tx'

/-! ## Outpoints and the inputs that guard them -/

/-- The outpoint is an output of a transaction that was seen, and the input that guards it was spent. -/
def Guarded (seen : List (MsgTx H)) (spent : Set (OutPoint H)) (o : OutPoint H) : Prop :=
  ∃ tx ∈ seen, o.hash = tx.txHash ∧ (isCoinBase tx ∨ ∃ g ∈ guardInput tx o.index, g ∈ spent)

structure Ancestry (seen : List (MsgTx H)) (ledger : UtxoSet H) (created spent : Set (OutPoint H)) : Prop where
  lineage : Lineage ledger created spent
  guarded : ∀ o ∈ created, Guarded seen spent o

section Step
variable {height : Int} {seen : List (MsgTx H)} {tx : MsgTx H} {ledger : UtxoSet H} {created spent : Set (OutPoint H)}
  {view view' : UtxoViewpoint H} {stxos stxos' : Option (List SpentTxOut)}

theorem guardInput_spent (hsane : SaneTx tx) (hconn : Connected view tx height stxos view' stxos')
    (hcb : ¬isCoinBase tx) {o : OutPoint H} {d : SpentTxOut} (h : createdAt view.found tx height o = some d) :
    ∃ g ∈ guardInput tx o.index, g ∈ spentBy view.found tx := by
  obtain ⟨hkeeps, -⟩ := createdAt_eq_some.1 h
  by_cases hswap : tx.swapTx
  · simp only [keeps, hcb, hswap, Bool.not_true, Bool.or_false, Bool.false_or, Option.any_eq_true] at hkeeps
    obtain ⟨txIn, htxIn, hfound⟩ := hkeeps
    refine ⟨txIn.previousOutPoint, by simp [guardInput, hswap, htxIn], ?_⟩
    rw [spentBy, if_neg hcb, mem_filter]
    exact ⟨mem_map_of_mem (mem_of_getElem? htxIn), hfound⟩
  · obtain ⟨txIn, rest, hins⟩ := exists_cons_of_ne_nil hsane.inputs_ne
    refine ⟨txIn.previousOutPoint, by simp [guardInput, hswap, hins], ?_⟩
    rw [hconn.regular hcb hswap, hins]
    exact mem_cons_self

section
variable (h : Ancestry seen ledger created spent) (hsane : SaneTx tx)
  (hconn : Connected view tx height stxos view' stxos') (hspends : BlockChain.SpendsLedger view tx ledger)
include h hsane hconn hspends

theorem Ancestry.not_created (hapart : ∀ t ∈ seen, t.txHash = tx.txHash → withoutWitness t = withoutWitness tx)
    (hnew : isCoinBase tx → ∀ t ∈ seen, isCoinBase t → t.txHash ≠ tx.txHash) {o : OutPoint H} {d : SpentTxOut}
    (hd : createdAt view.found tx height o = some d) : o ∉ created := by
  intro ho
  obtain ⟨t, ht, hhash, horigin⟩ := h.guarded o ho
  have heq : t.txHash = tx.txHash := by rw [← hhash, hash_of_outputAt (createdAt_eq_some.1 hd).2]
  have hbody := hapart t ht heq
  have hcb : isCoinBase t = isCoinBase tx := by
    rw [← isCoinBase_withoutWitness t, hbody, isCoinBase_withoutWitness]
  by_cases hcoinbase : isCoinBase tx
  · exact hnew hcoinbase t ht (hcb ▸ hcoinbase) heq
  -- the input that guards the output was spent before, and is spent again
  obtain ⟨g, hg, hspent⟩ := horigin.resolve_left (hcb ▸ hcoinbase)
  obtain ⟨g', hg', hspends'⟩ := guardInput_spent hsane hconn hcoinbase hd
  rw [← guardInput_withoutWitness t, hbody, guardInput_withoutWitness, Option.mem_def] at hg
  rw [Option.mem_def, hg, Option.some.injEq] at hg'
  subst hg'
  obtain ⟨row, -, hrow⟩ := hspends g hspends'
  exact h.lineage.live_unspent g (by rw [hrow]; rfl) hspent

theorem Ancestry.connect (hnot : ∀ o d, createdAt view.found tx height o = some d → o ∉ created) :
    ∃ created' spent', created ⊆ created' ∧
      Ancestry (seen ++ [tx]) ((transferOf view.found tx height).apply ledger) created' spent' := by
  refine ⟨_, _, Set.subset_union_left, ⟨h.lineage.apply (fun o ho => ?_) (fun o ho => ?_), ?_⟩⟩
  · obtain ⟨d, -, hd⟩ := hspends o ho
    rw [hd]
    rfl
  · obtain ⟨d, hd⟩ := mem_keys_createdBy.1 ho
    exact hnot o d hd
  · rintro o (ho | ho)
    · obtain ⟨t, ht, hhash, horigin⟩ := h.guarded o ho
      exact ⟨t, mem_append_left _ ht, hhash, horigin.imp_right fun ⟨g, hg, hs⟩ => ⟨g, hg, Or.inl hs⟩⟩
    · obtain ⟨d, hd⟩ := mem_keys_createdBy.1 ho
      refine ⟨tx, by simp, hash_of_outputAt (createdAt_eq_some.1 hd).2, ?_⟩
      by_cases hcb : isCoinBase tx
      · exact Or.inl hcb
      · obtain ⟨g, hg, hs⟩ := guardInput_spent hsane hconn hcb hd
        exact Or.inr ⟨g, hg, Or.inr hs⟩

end

end Step

namespace BlockChain
variable [Primitives] {b : BlockChain H} {s s' : ChainState H} {block : Block H} {seen : List (MsgTx H)}
  {st : ConnectState H}

/-! ## One block -/

/-- Connecting the block creates no outpoint unspent before it, and leaves no row with other
data. -/
structure NoOverwrite (b : BlockChain H) (s : ChainState H) (block : Block H) : Prop where
  created : ∀ pre tx post st, block.txs = pre ++ tx :: post →
    b.connectTxs (block.node s.tip).height pre (b.startState s.utxos (block.node s.tip) block.txs) = .ok st →
    ∀ o d, createdAt st.view.found tx (block.node s.tip).height o = some d → s.utxos.get o = none
  rows : ∀ s', b.acceptBlock s block = .ok s' → ∀ o d, s.utxos.get o = some d →
    s'.utxos.get o = none ∨ s'.utxos.get o = some d

structure Traced (b : BlockChain H) (s : ChainState H) (block : Block H) (seen pre : List (MsgTx H))
    (ledger : UtxoSet H) : Prop where
  ancestry : ∃ created spent, (∀ o, (s.utxos.get o).isSome → o ∈ created) ∧
    Ancestry (seen ++ pre) ledger created spent
  created : ∀ p tx q st, pre = p ++ tx :: q →
    b.connectTxs (block.node s.tip).height p (b.startState s.utxos (block.node s.tip) block.txs) = .ok st →
    ∀ o d, createdAt st.view.found tx (block.node s.tip).height o = some d → s.utxos.get o = none
  rows : ∀ o d, s.utxos.get o = some d → ledger.get o = none ∨ ledger.get o = some d

theorem Traced.connect {pre post : List (MsgTx H)} {tx : MsgTx H} {st st' : ConnectState H} {ledger : UtxoSet H}
    (h : Traced b s block seen pre ledger) (hblock : SaneBlock block.txs) (htxs : block.txs = pre ++ tx :: post)
    (hrun : b.connectTxs (block.node s.tip).height pre (b.startState s.utxos (block.node s.tip) block.txs) = .ok st)
    (hconn : TxConnected (block.node s.tip).height st tx st') (hspends : SpendsLedger st.view tx ledger)
    (hapart : ∀ t ∈ seen ++ block.txs, t.txHash = tx.txHash → withoutWitness t = withoutWitness tx)
    (hnew : isCoinBase tx → ∀ t ∈ seen, isCoinBase t → t.txHash ≠ tx.txHash) :
    Traced b s block seen (pre ++ [tx]) ((transferOf st.view.found tx (block.node s.tip).height).apply ledger) := by
  obtain ⟨created, spent, hbase, hancestry⟩ := h.ancestry
  have hsane := hblock.sane tx (by simp [htxs])
  have hseen : ∀ t ∈ seen ++ pre, t ∈ seen ++ block.txs := by
    intro t ht
    rw [htxs]
    rcases mem_append.1 ht with ht | ht <;> simp [ht]
  have hnot : ∀ o d, createdAt st.view.found tx (block.node s.tip).height o = some d → o ∉ created := by
    intro o d hd
    refine hancestry.not_created hsane hconn.connected hspends (fun t ht => hapart t (hseen t ht)) ?_ hd
    intro hcb t ht
    -- the coinbase is the first transaction of its block
    have hpre := (hblock.isCoinBase_iff htxs).1 hcb
    rw [hpre, append_nil] at ht
    exact hnew hcb t ht
  have hfresh : ∀ o d, createdAt st.view.found tx (block.node s.tip).height o = some d → s.utxos.get o = none := by
    intro o d hd
    by_contra hsome
    exact hnot o d hd (hbase o (Option.isSome_iff_ne_none.2 hsome))
  obtain ⟨created', spent', hsub, hancestry'⟩ := hancestry.connect hsane hconn.connected hspends hnot
  refine ⟨⟨created', spent', fun o ho => hsub (hbase o ho), by rwa [← append_assoc]⟩, ?_, ?_⟩
  · intro p t q st₀ hsplit hst₀
    rcases Runs.concat_eq_append_cons hsplit with ⟨rfl, rfl⟩ | ⟨q', hpre⟩
    · rw [hrun, Except.ok.injEq] at hst₀
      exact hst₀ ▸ hfresh
    · exact h.created p t q' st₀ hpre hst₀
  · intro o d hd
    rcases hcreated : createdAt st.view.found tx (block.node s.tip).height o with _ | row
    · rw [get_transferOf_of_none ledger hcreated]
      split
      · exact Or.inl rfl
      · exact h.rows o d hd
    · rw [hfresh o row hcreated] at hd
      cases hd

theorem Accepted.traced {st : ConnectState H} (h : Accepted b s block s' st)
    (hwhole : SwapsWhole b s.utxos (block.node s.tip) block.txs) {created spent : Set (OutPoint H)}
    (hancestry : Ancestry seen s.utxos created spent) (hapart : HashesApart (seen ++ block.txs))
    (hnew : ∀ c ∈ block.txs.head?, ∀ t ∈ seen, isCoinBase t → t.txHash ≠ c.txHash) :
    Traced b s block seen block.txs s'.utxos := by
  rw [h.utxos]
  refine ledger_run_end (P := fun pre _ ledger => Traced b s block seen pre ledger) h.sane hwhole ?_ ?_ h.connected.run
  · refine ⟨⟨created, spent, hancestry.lineage.live_created, by simpa using hancestry⟩, ?_, fun o d hd => Or.inr hd⟩
    intro p tx q _ hsplit
    simp at hsplit
  · intro pre tx post st st' ledger htxs hrun htraced hconn hspends
    refine htraced.connect h.sane htxs hrun hconn hspends
      (fun t ht => hapart t ht tx (by simp [htxs])) fun hcb => hnew tx ?_
    rw [htxs, (h.sane.isCoinBase_iff htxs).1 hcb]
    rfl

theorem Traced.noOverwrite (h : Traced b s block seen block.txs s'.utxos) (haccept : b.acceptBlock s block = .ok s') :
    NoOverwrite b s block := by
  refine ⟨h.created, fun s'' hs'' => ?_⟩
  rw [haccept, Except.ok.injEq] at hs''
  exact hs'' ▸ h.rows

/-! ## The whole chain -/

/-- Behind others: the coinbase of the block is none of those that the chain starts with and none of the blocks before, or
the height rule holds for both blocks; and swap transactions are whole. -/
structure CoinbaseApart (b : BlockChain H) (given : List (MsgTx H)) (earlier : List (Block H)) (s : ChainState H)
    (block : Block H) : Prop where
  given : ∀ c ∈ given, ∀ c' ∈ block.txs.head?, c.txHash ≠ c'.txHash
  coinbase : ∀ e ∈ earlier, 2 ≤ e.header.version ∧ 2 ≤ block.header.version ∨
    ∀ c ∈ e.txs.head?, ∀ c' ∈ block.txs.head?, c.txHash ≠ c'.txHash
  whole : SwapsWhole b s.utxos (block.node s.tip) block.txs

/-- The rows that a chain starts with are outputs of coinbases. -/
def StartsWith (given : List (MsgTx H)) (s : ChainState H) : Prop :=
  ∀ o, (s.utxos.get o).isSome → ∃ c ∈ given, isCoinBase c ∧ o.hash = c.txHash

theorem genesisState_startsWith {genesis : Block H} (h : ∀ tx ∈ genesis.txs, isCoinBase tx) :
    StartsWith genesis.txs (b.genesisState genesis) := by
  intro o ho
  obtain ⟨d, hd⟩ := Option.isSome_iff_exists.1 ho
  refine genesisState_rows (Q := fun o _ => ∃ c ∈ genesis.txs, isCoinBase c ∧ o.hash = c.txHash) (fun tx htx o d hout => ?_)
    o d hd
  exact ⟨tx, htx, h tx htx, hash_of_outputAt hout⟩

variable {given : List (MsgTx H)}

structure Unrepeated (given : List (MsgTx H)) (blocks : List (Block H)) (s : ChainState H) : Prop where
  ancestry : ∃ created spent, Ancestry (given ++ blocks.flatMap txs) s.utxos created spent
  sane : ∀ e ∈ blocks, SaneBlock e.txs
  below : ∀ e ∈ blocks, e.header.height ≤ s.tip.height
  serialized : ∀ e ∈ blocks, 2 ≤ e.header.version → ∀ c ∈ e.txs.head?, extractCoinbaseHeight c = .ok e.header.height

omit [Primitives] in
theorem StartsWith.unrepeated (h : StartsWith given s) : Unrepeated given [] s := by
  refine ⟨⟨_, ∅, Lineage.start _, fun o ho => ?_⟩, by simp, by simp, by simp⟩
  obtain ⟨c, hc, hcb, hhash⟩ := h o ho
  exact ⟨c, by simpa using hc, hhash, Or.inl hcb⟩

theorem Unrepeated.coinbase_new {blocks : List (Block H)} (h : Unrepeated given blocks s)
    (haccept : Accepted b s block s' st) (hcond : CoinbaseApart b given blocks s block)
    (hapart : HashesApart (given ++ blocks.flatMap txs ++ block.txs)) :
    ∀ c ∈ block.txs.head?, ∀ t ∈ given ++ blocks.flatMap txs, isCoinBase t → t.txHash ≠ c.txHash := by
  intro c hc t ht hcb heq
  rcases mem_append.1 ht with hgiven | hearlier
  · exact hcond.given t hgiven c hc heq
  obtain ⟨e, he, hte⟩ := mem_flatMap.1 hearlier
  obtain ⟨p, q, hsplit⟩ := append_of_mem hte
  have hhead : t ∈ e.txs.head? := by
    rw [hsplit, ((h.sane e he).isCoinBase_iff hsplit).1 hcb]
    rfl
  rcases hcond.coinbase e he with ⟨hold, hnew⟩ | hne
  · have hbody := hapart t (mem_append_left _ ht) c (mem_append_right _ (mem_of_mem_head? hc)) heq
    have hheight := h.serialized e he hold t hhead
    rw [← extractCoinbaseHeight_withoutWitness t, hbody, extractCoinbaseHeight_withoutWitness,
      haccept.context.serialized hnew c hc, Except.ok.injEq, haccept.context.height] at hheight
    have hbelow := h.below e he
    omega
  · exact hne t hhead c hc heq

theorem Unrepeated.accept {blocks : List (Block H)} (h : Unrepeated given blocks s) (haccept : Accepted b s block s' st)
    (htraced : Traced b s block (given ++ blocks.flatMap txs) block.txs s'.utxos) :
    Unrepeated given (blocks ++ [block]) s' := by
  obtain ⟨created, spent, -, hancestry⟩ := htraced.ancestry
  have htip : s'.tip.height = block.header.height := by rw [haccept.tip]; rfl
  have hmem : ∀ {Q : Block H → Prop}, (∀ e ∈ blocks, Q e) → Q block → ∀ e ∈ blocks ++ [block], Q e := by
    intro Q hold hnew e he
    rcases mem_append.1 he with he | he
    · exact hold e he
    · exact mem_singleton.1 he ▸ hnew
  refine ⟨⟨created, spent, by simpa using hancestry⟩, hmem h.sane haccept.sane, hmem (fun e he => ?_) htip.ge,
    hmem h.serialized haccept.context.serialized⟩
  have hbelow := h.below e he
  have hheight := haccept.context.height
  omega

/-- No block of a chain overwrites an unspent output, whatever coinbases the chain starts with, if none of them is
repeated and no coinbase is repeated where the height rule does not see it. -/
theorem no_overwrite (b : BlockChain H) (given : List (MsgTx H)) (s₀ : ChainState H) (hstart : StartsWith given s₀)
    (blocks : List (Block H)) (hapart : HashesApart (given ++ blocks.flatMap txs))
    (hcond : ∀ pre block post s, blocks = pre ++ block :: post → b.acceptBlocks s₀ pre = .ok s →
      CoinbaseApart b given pre s block)
    (pre : List (Block H)) (block : Block H) (post : List (Block H)) (s s' : ChainState H)
    (hblocks : blocks = pre ++ block :: post) (hpre : b.acceptBlocks s₀ pre = .ok s)
    (haccept : b.acceptBlock s block = .ok s') : NoOverwrite b s block := by
  have hsub : ∀ {p : List (Block H)} {e : Block H} {q : List (Block H)}, blocks = p ++ e :: q →
      HashesApart (given ++ p.flatMap txs ++ e.txs) := by
    intro p e q hsplit t ht t' ht'
    have hmem : ∀ t ∈ given ++ p.flatMap txs ++ e.txs, t ∈ given ++ blocks.flatMap txs := by
      intro t ht
      rw [hsplit]
      rw [append_assoc] at ht
      rcases mem_append.1 ht with ht | ht
      · exact mem_append_left _ ht
      · rcases mem_append.1 ht with ht | ht <;> simp [ht]
    exact hapart t (hmem t ht) t' (hmem t' ht')
  have htraced : ∀ {p : List (Block H)} {e : Block H} {q : List (Block H)} {s₁ s₂ : ChainState H} {st : ConnectState H},
      blocks = p ++ e :: q → Unrepeated given p s₁ → CoinbaseApart b given p s₁ e → Accepted b s₁ e s₂ st →
      Traced b s₁ e (given ++ p.flatMap txs) e.txs s₂.utxos := by
    intro p e q s₁ s₂ st hsplit hun hapart' hacc
    obtain ⟨created, spent, hancestry⟩ := hun.ancestry
    exact hacc.traced hapart'.whole hancestry (hsub hsplit) (hun.coinbase_new hacc hapart' (hsub hsplit))
  have hun := acceptBlocks_induct hstart.unrepeated (fun p e q s₁ s₂ hsplit hun hapart' hacc => by
      obtain ⟨st, hacc⟩ := acceptBlock_ok hacc
      exact hun.accept hacc (htraced hsplit hun hapart' hacc)) hcond pre (block :: post) s hblocks hpre
  obtain ⟨st, hacc⟩ := acceptBlock_ok haccept
  exact (htraced hblocks hun (hcond pre block post s hblocks hpre) hacc).noOverwrite haccept

end BlockChain
end Main

section Sample
attribute [local instance] sumHash toyPrimitives

/-- A block with nothing but a coinbase. -/
def coinbaseBlock (script : Bytes) (height : Int) (prev hash : Nat) : Block Nat :=
  sampleBlock height prev hash [sampleCoinbase script [0x51]]

def sampleStart : ChainState Nat := (toyChain Nat).genesisState sampleGenesis

def twiceBlocks : List (Block Nat) := [coinbaseBlock [0, 0] 1 7 8, coinbaseBlock [0, 0] 2 8 9]

def twiceRow (blocks : List (Block Nat)) : Except ChainError (Option SpentTxOut) :=
  ((toyChain Nat).acceptBlocks sampleStart blocks).map fun s => s.utxos.get ⟨(sampleCoinbase [0, 0] [0x51]).txHash, 0⟩

theorem twice_rows : twiceRow (twiceBlocks.take 1) = .ok (some ⟨10, [0x51], 1, true⟩) ∧
    twiceRow twiceBlocks = .ok (some ⟨10, [0x51], 2, true⟩) := by
  decide

/-- Two blocks with one coinbase are accepted, both of the version that the chain assigns: the output of the
first is overwritten while it is unspent. -/
theorem coinbase_overwrites : (∀ block ∈ twiceBlocks, ∀ tip,
      block.header.version = calcNextBlockVersion (toyChain Nat) (some tip)) ∧
    HashesApart (sampleGenesis.txs ++ twiceBlocks.flatMap txs) ∧ ∃ s s' o d d',
      (toyChain Nat).acceptBlocks sampleStart [coinbaseBlock [0, 0] 1 7 8] = .ok s ∧
      (toyChain Nat).acceptBlock s (coinbaseBlock [0, 0] 2 8 9) = .ok s' ∧
      s.utxos.get o = some d ∧ s'.utxos.get o = some d' ∧ d ≠ d' ∧
      ¬BlockChain.NoOverwrite (toyChain Nat) s (coinbaseBlock [0, 0] 2 8 9) := by
  refine ⟨fun block hblock tip => ?_, by unfold HashesApart; decide, ?_⟩
  · rcases mem_pair.1 hblock with rfl | rfl <;> rfl
  · obtain ⟨hfirst, hsecond⟩ := twice_rows
    obtain ⟨s', hrun, hnew⟩ := map_eq_ok.1 hsecond
    have hconcat : (toyChain Nat).acceptBlocks sampleStart
        ([coinbaseBlock [0, 0] 1 7 8] ++ [coinbaseBlock [0, 0] 2 8 9]) = .ok s' :=
      hrun
    obtain ⟨s, hs, hs'⟩ := BlockChain.acceptBlocks_concat.1 hconcat
    obtain ⟨_, hfirst, hold⟩ := map_eq_ok.1 hfirst
    cases hs.symm.trans hfirst
    refine ⟨s, s', _, _, _, hs, hs', hold, hnew, by decide, fun h => ?_⟩
    have hrow := h.rows s' hs' _ _ hold
    rw [hnew] at hrow
    simp at hrow

/-- Two blocks on top of a genesis block whose output is stored; the second spends it. -/
def onceBlocks : List (Block Nat) :=
  [coinbaseBlock [0, 0] 1 7 8, sampleBlock 2 8 9 [sampleCoinbase [0, 1] [0x51],
    ⟨1, [⟨⟨(sampleCoinbase [1, 1] [0x51]).txHash, 0⟩, [], [], maxUint32⟩], [⟨9, [0x51]⟩], 0⟩]]

theorem once_accepted : ((toyChain Nat).acceptBlocks sampleStart onceBlocks).isOk = true := by
  decide

theorem once_whole (s : ChainState Nat) : ∀ block ∈ onceBlocks,
    BlockChain.SwapsWhole (toyChain Nat) s.utxos (block.node s.tip) block.txs := by
  have hall : ∀ e ∈ onceBlocks, ∀ tx ∈ e.txs, ¬tx.swapTx := by decide
  exact fun block hblock => .of_no_swap (hall block hblock)

theorem no_overwrite_once : ∃ s s', (toyChain Nat).acceptBlocks sampleStart (onceBlocks.take 1) = .ok s ∧
    (toyChain Nat).acceptBlocks sampleStart onceBlocks = .ok s' ∧
    ∀ block ∈ onceBlocks.drop 1, BlockChain.NoOverwrite (toyChain Nat) s block := by
  obtain ⟨s', hrun⟩ := isOk_iff.1 once_accepted
  obtain ⟨s, hs, hs'⟩ := BlockChain.acceptBlocks_concat.1
    (show (toyChain Nat).acceptBlocks sampleStart (onceBlocks.take 1 ++ [_]) = .ok s' from hrun)
  refine ⟨s, s', hs, hrun, forall_mem_singleton.2 ?_⟩
  refine BlockChain.no_overwrite (toyChain Nat) sampleGenesis.txs sampleStart
    (BlockChain.genesisState_startsWith (by decide)) onceBlocks (by unfold HashesApart; decide)
    (fun pre block post s hsplit _ => ?_) _ _ [] s s' rfl hs hs'
  have hmem : block ∈ onceBlocks := by simp [hsplit]
  refine ⟨?_, fun e he => Or.inr ?_, once_whole s block hmem⟩
  · have hall : ∀ e ∈ onceBlocks, ∀ c ∈ sampleGenesis.txs, ∀ c' ∈ e.txs.head?, c.txHash ≠ c'.txHash := by decide
    exact hall block hmem
  · rcases pre with _ | ⟨first, _ | ⟨second, rest⟩⟩
    · cases he
    · cases hsplit
      cases mem_singleton.1 he
      decide
    · simp [onceBlocks] at hsplit

end Sample

end Jaxnetd.Blockchain
