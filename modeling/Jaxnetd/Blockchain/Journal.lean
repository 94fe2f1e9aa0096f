import Jaxnetd.Blockchain.Overwrite
import Jaxnetd.Chaindata.SpendJournal

/-!
# The spend journal of a block

Four places count the entries of a transaction in the journal: `ConnectTransaction` writes one for every input it finds,
`CountSpentOutputs` takes half of the inputs of a swap transaction, the reader of the journal and `DisconnectTransactions`
one for every input. An entry of height zero is one of an old database for `DisconnectTransactions`, although the
outputs of a genesis block have that height. Writer, counter, reader and disconnect loop agree exactly on the blocks
without swap transactions that spend no output of height zero (`journalAgrees_iff`).
-/

namespace Jaxnetd.Blockchain
open Wire TxScript Chaindata Checks UtxoViewpoint List

section Main
variable {H : Type} [DecidableEq H] [ChainHash H] [Primitives]

/-- The range of the rows of the set of unspent outputs: heights of blocks, and scripts that fit into memory. -/
structure RowRange (d : SpentTxOut) : Prop where
  height_nonneg : 0 ≤ d.height
  height_lt : d.height < 2 ^ 31
  script_lt : d.pkScript.length < 2 ^ 62

/-- Disconnecting a transaction puts back its inputs: one that was found gets its own output back, and no
entry appears for one that was missing. -/
def Restores (db : UtxoSet H) (height : Int) (found : UtxoViewpoint H) (tx : MsgTx H) (left : List SpentTxOut)
    (view : UtxoViewpoint H) : Prop :=
  ∃ view' left', disconnectRest db height [tx] left view = .ok (view', left') ∧ ∀ txIn ∈ tx.txIn,
    (∀ d, found.dataAt txIn.previousOutPoint = some d →
      view'.entries.get txIn.previousOutPoint = some (some ⟨d, false, true⟩)) ∧
    (found.dataAt txIn.previousOutPoint = none → view.entries.get txIn.previousOutPoint = none →
      view'.entries.get txIn.previousOutPoint = none)

namespace BlockChain

structure JournalAgrees (b : BlockChain H) (U : UtxoSet H) (node : BlockNode H) (txs : List (MsgTx H))
    (stxos : List SpentTxOut) : Prop where
  count : stxos.length = countSpentOutputs txs
  read_back : deserializeSpendJournalEntry (serializeSpendJournalEntry stxos) (txs.drop 1) = .ok stxos
  /-- Disconnecting never reads behind the list, on whatever view it is run. -/
  disconnects : ∀ (db : UtxoSet H) (view : UtxoViewpoint H), ∃ view',
    view.disconnectTransactions db txs node.height node.header.prevBlockHash stxos = .ok view'
  restores : ∀ pre tx post st, txs = pre ++ tx :: post → pre ≠ [] →
    b.connectTxs node.height pre (b.startState U node txs) = .ok st →
    ∀ (db : UtxoSet H) (view : UtxoViewpoint H), ∃ view₁ left,
      disconnectRest db node.height post.reverse stxos.reverse view = .ok (view₁, left) ∧
      Restores db node.height st.view tx left view₁

/-- When the turn of a transaction behind the first comes, none of the outputs that it finds has height zero. -/
def SpendsAbove (b : BlockChain H) (U : UtxoSet H) (node : BlockNode H) (txs : List (MsgTx H)) : Prop :=
  ∀ pre tx post st, txs = pre ++ tx :: post → pre ≠ [] →
    b.connectTxs node.height pre (b.startState U node txs) = .ok st →
    ∀ txIn ∈ tx.txIn, ∀ d, st.view.dataAt txIn.previousOutPoint = some d → d.height ≠ 0

variable {b : BlockChain H} {height : Int} {st : ConnectState H} {st' : ConnectState H} {txs : List (MsgTx H)}
  {S : List SpentTxOut}

section
omit [Primitives]

theorem TxConnected.own_amount {tx : MsgTx H} (h : TxConnected height st tx st')
    (hcb : ¬isCoinBase tx) (hswap : ¬tx.swapTx) : ∀ o ∈ tx.txIn.map TxIn.previousOutPoint,
      0 ≤ (st.view.ownOutput o).amount ∧ (st.view.ownOutput o).amount ≤ maxCoinAmount := by
  intro o ho
  obtain ⟨fee, hfee⟩ := h.fee
  obtain ⟨e, he, -, hamount⟩ := (hfee.checked hcb).unspent o (h.connected.regular hcb hswap ▸ ho)
  rw [ownOutput, dataAt_of_lookup he]
  exact hamount

theorem outputsAll_rowRange {tx : MsgTx H} (hsane : SaneTx tx) (hpos : 0 < height) (hlt : height < 2 ^ 31) :
    OutputsAll RowRange height tx := by
  intro o d hd
  obtain ⟨out, hout, rfl⟩ := outputAt_data hd
  have hscript := hsane.scripts out (mem_of_getElem? hout)
  exact ⟨hpos.le, hlt, lt_of_le_of_lt hscript (by decide)⟩

end

section
variable {view : UtxoViewpoint H} {tx : MsgTx H} (hfound : ∀ o ∈ tx.txIn.map TxIn.previousOutPoint, view.found o)
  (habove : ∀ txIn ∈ tx.txIn, ∀ d, view.dataAt txIn.previousOutPoint = some d → d.height ≠ 0)
include hfound habove
omit [ChainHash H] [Primitives]

omit [DecidableEq H] in
theorem own_above : ∀ o ∈ tx.txIn.map TxIn.previousOutPoint, (ownOutput view o).height ≠ 0 := by
  intro o ho
  obtain ⟨txIn, htxIn, rfl⟩ := mem_map.1 ho
  exact habove txIn htxIn _ (dataAt_eq_own (hfound _ ho))

theorem restores_own [ChainHash H] (db : UtxoSet H) (left : List SpentTxOut) (view₁ : UtxoViewpoint H) :
    Restores db height view tx (((tx.txIn.map TxIn.previousOutPoint).map (ownOutput view)).reverse ++ left) view₁ := by
  obtain ⟨view', hview', hput⟩ := disconnectRest_cons db height (own_above hfound habove) view₁
  refine ⟨view', left, hview' [] left, fun txIn htxIn => ?_⟩
  have hin : txIn.previousOutPoint ∈ tx.txIn.map TxIn.previousOutPoint := mem_map_of_mem htxIn
  rw [dataAt_eq_own (hfound _ hin), hput, if_pos hin]
  refine ⟨fun d hd => ?_, fun hnone => ?_⟩
  · rw [Option.some.injEq] at hd
    rw [hd]
  · cases hnone

end

theorem journal_run {Q : SpentTxOut → Prop}
    (hregular : ∀ tx ∈ txs, SaneTx tx ∧ ¬isCoinBase tx ∧ ¬tx.swapTx) (htxs : ∀ tx ∈ txs, OutputsAll Q height tx)
    (habove : ∀ pre tx post st₁, txs = pre ++ tx :: post → b.connectTxs height pre st = .ok st₁ →
      ∀ txIn ∈ tx.txIn, ∀ d, st₁.view.dataAt txIn.previousOutPoint = some d → d.height ≠ 0)
    (hst : EntriesAll Q st.view) (hS : st.stxos = some S) (h : b.connectTxs height txs st = .ok st') :
    ∃ J, st'.stxos = some (S ++ J) ∧ J.length = (txs.flatMap MsgTx.txIn).length ∧
      (∀ d ∈ J, Q d ∧ 0 ≤ d.amount ∧ d.amount ≤ maxCoinAmount) ∧
      ∀ (db : UtxoSet H) (view : UtxoViewpoint H), ∃ view', ∀ left,
        disconnectRest db height txs.reverse (J.reverse ++ left) view = .ok (view', left) := by
  induction txs generalizing st S with
  | nil =>
    cases h
    exact ⟨[], by simpa using hS, rfl, by simp, fun db view => ⟨view, fun left => rfl⟩⟩
  | cons tx txs ih =>
    rw [forall_mem_cons] at hregular htxs
    obtain ⟨⟨hsane, hcb, hswap⟩, hregular⟩ := hregular
    simp only [connectTxs, bind_eq_ok] at h
    obtain ⟨st₁, htx, h⟩ := h
    have hconn := connectTx_ok hsane (fun hs => absurd hs hswap) htx
    have hS₁ : st₁.stxos = some (S ++ (tx.txIn.map TxIn.previousOutPoint).map (ownOutput st.view)) := by
      rw [hconn.connected.records hcb hswap, hS]
      rfl
    have hlater : ∀ pre tx' post st₂, txs = pre ++ tx' :: post → b.connectTxs height pre st₁ = .ok st₂ →
        ∀ txIn ∈ tx'.txIn, ∀ d, st₂.view.dataAt txIn.previousOutPoint = some d → d.height ≠ 0 := by
      intro pre tx' post st₂ hsplit hpre
      refine habove (tx :: pre) tx' post st₂ (by rw [hsplit, cons_append]) ?_
      simp only [connectTxs, htx]
      exact hpre
    obtain ⟨J, hJ, hlen, hJQ, hdis⟩ :=
      ih hregular htxs.2 hlater (hst.connect htxs.1 (connectTx_connects htx)) hS₁ h
    have hfound := hconn.connected.found_inputs hcb hswap
    have hown : ∀ o ∈ tx.txIn.map TxIn.previousOutPoint, Q (ownOutput st.view o) ∧
        0 ≤ (ownOutput st.view o).amount ∧ (ownOutput st.view o).amount ≤ maxCoinAmount :=
      fun o ho => ⟨hst.own (hfound o ho), hconn.own_amount hcb hswap o ho⟩
    have hheight := own_above hfound (habove [] tx txs st rfl rfl)
    refine ⟨(tx.txIn.map TxIn.previousOutPoint).map (ownOutput st.view) ++ J, by rw [hJ, append_assoc],
      by simp [hlen], ?_, fun db view => ?_⟩
    · intro d hd
      rcases mem_append.1 hd with hd | hd
      · obtain ⟨o, ho, rfl⟩ := mem_map.1 hd
        exact hown o ho
      · exact hJQ d hd
    · obtain ⟨view₁, hview₁⟩ := hdis db view
      obtain ⟨view', hview', -⟩ := disconnectRest_cons db height hheight view₁
      refine ⟨view', fun left => ?_⟩
      rw [reverse_cons, disconnectRest_append, reverse_append, append_assoc, hview₁]
      exact hview' [] left

omit [DecidableEq H] [ChainHash H] [Primitives] in
theorem half_counts (hsane : ∀ tx ∈ txs, SaneTx tx) :
    (txs.map fun tx => if tx.swapTx then tx.txIn.length / 2 else tx.txIn.length).sum ≤
        (txs.map fun tx => tx.txIn.length).sum ∧
      ((txs.map fun tx => if tx.swapTx then tx.txIn.length / 2 else tx.txIn.length).sum =
        (txs.map fun tx => tx.txIn.length).sum → ∀ tx ∈ txs, ¬tx.swapTx) := by
  induction txs with
  | nil => simp
  | cons tx txs ih =>
    rw [forall_mem_cons] at hsane
    obtain ⟨hle, hnone⟩ := ih hsane.2
    simp only [map_cons, sum_cons, forall_mem_cons]
    by_cases hswap : tx.swapTx
    · have hfour := (hsane.1.swap hswap).2
      rw [if_pos hswap]
      exact ⟨by omega, fun heq => by omega⟩
    · rw [if_neg hswap]
      exact ⟨by omega, fun heq => ⟨hswap, hnone (by omega)⟩⟩

section
variable {U : UtxoSet H} {node : BlockNode H} {txs : List (MsgTx H)} {stxos : List SpentTxOut}

theorem JournalAgrees.no_swap (hblock : SaneBlock txs) (h : JournalAgrees b U node txs stxos) :
    ∀ tx ∈ txs, ¬tx.swapTx := by
  obtain ⟨first, rest, rfl, hfirst, hrest⟩ := hblock.coinbase
  have hcount := h.count
  rw [length_deserialize h.read_back, drop_one, tail_cons, length_flatMap, countSpentOutputs,
    drop_one, tail_cons] at hcount
  refine forall_mem_cons.2 ⟨fun hswap => (hblock.sane first (by simp)).not_coinbase hswap hfirst, ?_⟩
  exact (half_counts fun tx htx => hblock.sane tx (by simp [htx])).2 hcount.symm

/-- On a view that knows the heights no output of height zero can come back. -/
theorem JournalAgrees.above (hheight : node.height ≠ 0) (h : JournalAgrees b U node txs stxos) :
    SpendsAbove b U node txs := by
  intro pre tx post st hsplit hpre hst txIn htxIn d hd
  obtain ⟨view, hview⟩ := exists_heightsKnown txs
  obtain ⟨view₁, left, hpost, view₂, left', htx, hback⟩ := h.restores pre tx post st hsplit hpre hst .empty view
  have hview₁ := hview.disconnectRest .empty hheight (by simp [hsplit]) hpost
  have hview₂ := hview₁.disconnectRest .empty hheight (by simp [hsplit]) htx
  exact hview₂.height txIn.previousOutPoint ⟨d, false, true⟩ (by rw [lookupEntry, (hback txIn htxIn).1 d hd]; rfl)

theorem spendsAbove_of_rows (hblock : SaneBlock txs) (hU : RowsAll (fun d => d.height ≠ 0) U)
    (hheight : node.height ≠ 0) : SpendsAbove b U node txs := by
  intro pre tx post st hsplit hpre hst txIn htxIn d hd
  obtain ⟨e, he, rfl⟩ := Option.map_eq_some_iff.1 hd
  refine entriesAll_run hblock hU (fun tx htx o d hd => ?_) ⟨tx :: post, hsplit.symm⟩ hst _ e (lookupEntry_eq_some.1 he)
  obtain ⟨out, -, rfl⟩ := outputAt_data hd
  exact hheight

variable {pre : List (MsgTx H)} {last : ConnectState H}

theorem isSome_stxos (h : b.connectTxs node.height pre (b.startState U node txs) = .ok st) : st.stxos.isSome := by
  refine connectTxs_induct (P := fun st => st.stxos.isSome) (fun tx _ st₀ st₁ hsome htx => ?_) h rfl
  exact KeptBy.connect (P := fun _ stxos => stxos.isSome) ⟨fun _ stxos _ _ _ _ _ h => by simpa [recordSpent] using h,
    fun _ _ _ _ _ => id⟩ (connectTx_connects htx) hsome

theorem stxos_of_coinbase {first : MsgTx H} (hsane : SaneTx first) (hcb : isCoinBase first)
    (h : b.connectTx node.height (b.startState U node txs) first = .ok st) : st.stxos = some [] := by
  have hconn := connectTx_ok hsane (fun _ hn => absurd hcb hn) h
  rw [hconn.connected.stxos, spentBy, if_pos hcb]
  rfl

section
variable (hblock : SaneBlock txs) (hU : RowsAll RowRange U) (hpos : 0 < node.height) (hlt : node.height < 2 ^ 31)
include hblock hU hpos hlt

theorem journal_suffix (hswap : ∀ tx ∈ txs, ¬tx.swapTx) (habove : SpendsAbove b U node txs) {post : List (MsgTx H)}
    (htxs : txs = pre ++ post) (hpre : pre ≠ [])
    (hst : b.connectTxs node.height pre (b.startState U node txs) = .ok st) (hS : st.stxos = some S)
    (hlast : b.connectTxs node.height post st = .ok last) :
    EntriesAll RowRange st.view ∧ ∃ J, last.stxos = some (S ++ J) ∧ J.length = (post.flatMap MsgTx.txIn).length ∧
      (∀ d ∈ J, RowRange d ∧ 0 ≤ d.amount ∧ d.amount ≤ maxCoinAmount) ∧
      ∀ (db : UtxoSet H) (view : UtxoViewpoint H), ∃ view', ∀ left,
        disconnectRest db node.height post.reverse (J.reverse ++ left) view = .ok (view', left) := by
  have hrange : ∀ tx ∈ txs, OutputsAll RowRange node.height tx :=
    fun tx htx => outputsAll_rowRange (hblock.sane tx htx) hpos hlt
  have hentries := entriesAll_run hblock hU hrange ⟨post, htxs.symm⟩ hst
  refine ⟨hentries, journal_run (fun tx htx => ?_) (fun tx htx => hrange tx (by simp [htxs, htx]))
    (fun p tx q st₁ hsplit hp => ?_) hentries hS hlast⟩
  · have hmem : tx ∈ txs := by simp [htxs, htx]
    obtain ⟨p, q, rfl⟩ := append_of_mem htx
    refine ⟨hblock.sane tx hmem, fun hcb => hpre ?_, hswap tx hmem⟩
    have hnil := (hblock.isCoinBase_iff (show txs = (pre ++ p) ++ tx :: q by simp [htxs])).1 hcb
    exact (append_eq_nil_iff.1 hnil).1
  · exact habove (pre ++ p) tx q st₁ (by rw [htxs, hsplit, append_assoc]) (by simp [hpre])
      (connectTxs_append.2 ⟨st, hst, hp⟩)

/-- The loop comes to a transaction with what it recorded and what was recorded before it left in the journal. -/
theorem restores_of_no_swap (hswap : ∀ tx ∈ txs, ¬tx.swapTx) (habove : SpendsAbove b U node txs)
    (hrun : b.connectTxs node.height txs (b.startState U node txs) = .ok last) (hlast : last.stxos = some stxos)
    {post : List (MsgTx H)} {tx : MsgTx H} (hsplit : txs = pre ++ tx :: post) (hpre : pre ≠ [])
    (hst : b.connectTxs node.height pre (b.startState U node txs) = .ok st) (db : UtxoSet H) (view : UtxoViewpoint H) :
    ∃ view₁ left, disconnectRest db node.height post.reverse stxos.reverse view = .ok (view₁, left) ∧
      Restores db node.height st.view tx left view₁ := by
  obtain ⟨st', st₂, hst', htx, hpost⟩ := connectTxs_split hsplit hrun
  rw [hst, Except.ok.injEq] at hst'
  subst hst'
  have hmem : tx ∈ txs := by simp [hsplit]
  have hcb : ¬isCoinBase tx := fun h => hpre ((hblock.isCoinBase_iff hsplit).1 h)
  have hconn := (connectTx_ok (hblock.sane tx hmem) (fun hs => absurd hs (hswap tx hmem)) htx).connected
  have hfound := hconn.found_inputs hcb (hswap tx hmem)
  obtain ⟨S, hS⟩ := Option.isSome_iff_exists.1 (isSome_stxos hst)
  obtain ⟨-, J, hJ, -, -, hdis⟩ := journal_suffix hblock hU hpos hlt hswap habove (by simpa using hsplit) (by simp)
    (connectTxs_snoc hst htx) (by rw [hconn.records hcb (hswap tx hmem), hS]; rfl) hpost
  rw [hlast, Option.some.injEq] at hJ
  obtain ⟨view₁, hview₁⟩ := hdis db view
  refine ⟨view₁, ((tx.txIn.map TxIn.previousOutPoint).map (ownOutput st.view)).reverse ++ S.reverse, ?_, ?_⟩
  · rw [hJ, reverse_append, reverse_append, hview₁]
  · exact restores_own hfound (habove pre tx post st hsplit hpre hst) db S.reverse view₁

theorem agrees_of_no_swap (hkeys : KeysRecoverable) (hswap : ∀ tx ∈ txs, ¬tx.swapTx) (habove : SpendsAbove b U node txs)
    (hrun : b.connectTxs node.height txs (b.startState U node txs) = .ok last) (hlast : last.stxos = some stxos) :
    JournalAgrees b U node txs stxos := by
  obtain ⟨first, rest, htxs, hfirst, hrest⟩ := hblock.coinbase
  -- the coinbase records nothing, so the journal is what the others record
  obtain ⟨st₀, st₁, hst₀, hcb, hrun'⟩ := connectTxs_split (show txs = [] ++ first :: rest from htxs) hrun
  have hempty : st₁.stxos = some [] := by
    cases hst₀
    exact stxos_of_coinbase (hblock.sane first (by simp [htxs])) hfirst hcb
  obtain ⟨-, J, hJ, hlen, hJQ, hdis⟩ := journal_suffix hblock hU hpos hlt hswap habove htxs (cons_ne_nil _ _)
    (connectTxs_snoc hst₀ hcb) hempty hrun'
  rw [hlast, nil_append, Option.some.injEq] at hJ
  subst hJ
  have hcount : stxos.length = countSpentOutputs txs := by
    rw [htxs, countSpentOutputs_eq fun tx htx => hswap tx (by simp [htxs, htx]), hlen]
  refine ⟨hcount, ?_, fun db view => ?_, fun pre tx post st hsplit hpre hst =>
    restores_of_no_swap hblock hU hpos hlt hswap habove hrun hlast hsplit hpre hst⟩
  · refine deserialize_serialize hkeys (by simpa [htxs] using hlen) fun d hd => ?_
    obtain ⟨hd, h0, hmax⟩ := hJQ d hd
    exact ⟨h0, hmax, by have := hd.height_nonneg; omega, hd.height_lt, hd.script_lt⟩
  · obtain ⟨view', hview'⟩ := hdis db view
    have hleft := hview' []
    rw [append_nil] at hleft
    subst htxs
    simp only [disconnectTransactions, ok_rules, hcount, hleft, exists_eq_left', true_and]
    exact ⟨_, rfl⟩

end

end

/-- Writer, counter, reader and disconnect loop agree about the journal of an accepted block exactly if there is
no swap transaction in it and none of its transactions spends an output of height zero. -/
theorem journalAgrees_iff (b : BlockChain H) (U : UtxoSet H) (hU : RowsAll RowRange U) (hkeys : KeysRecoverable)
    (node : BlockNode H) (hpos : 0 < node.height) (hlt : node.height < 2 ^ 31) (txs : List (MsgTx H))
    (headerSanity : Except ChainError Unit)
    (hsanity : checkBlockSanityWF headerSanity node.header.maxLength node.header.merkleRoot txs = .ok ())
    (view : UtxoViewpoint H) (stxos : List SpentTxOut)
    (haccept : b.checkConnectBlock U node txs (b.freshView node) (some []) = .ok (view, some stxos)) :
    JournalAgrees b U node txs stxos ↔ (∀ tx ∈ txs, ¬tx.swapTx) ∧ SpendsAbove b U node txs := by
  have hblock := checkBlockSanityWF_ok hsanity
  obtain ⟨st, hchecked, -, hst⟩ := checkConnectBlock_ok haccept
  constructor
  · exact fun h => ⟨h.no_swap hblock, h.above hpos.ne'⟩
  · rintro ⟨hswap, habove⟩
    exact agrees_of_no_swap hblock hU hpos hlt hkeys hswap habove hchecked.run hst.symm

/-- Behind a chain of accepted blocks below height `2 ^ 31` each unspent output is read back from its row. -/
theorem rows_read_back {blocks : List (Block H)} {s₀ s : ChainState H} (hkeys : KeysRecoverable)
    (hheight : 0 ≤ s₀.tip.height) (hstart : RowsAll Storable s₀.utxos) (hchain : b.acceptBlocks s₀ blocks = .ok s)
    (htip : s.tip.height < 2 ^ 31) : RowsAll (fun d => deserializeUtxoEntry (serializeUtxoEntry d) = .ok d) s.utxos := by
  have hinv := acceptBlocks_induct (C := fun _ _ _ => True)
    (P := fun _ s => 0 ≤ s.tip.height ∧ (s.tip.height < 2 ^ 31 → RowsAll Storable s.utxos))
    ⟨hheight, fun _ => hstart⟩ ?_ (fun _ _ _ _ _ _ => trivial) blocks [] s (append_nil _).symm hchain
  · exact fun o d hd => deserializeUtxoEntry_serialize hkeys (hinv.2 htip o d hd)
  rintro - block - s₁ s₂ - ⟨hpos, hrows⟩ - hblock
  obtain ⟨st, hacc⟩ := acceptBlock_ok hblock
  have hnext : (block.node s₁.tip).height = s₁.tip.height + 1 := hacc.context.height
  rw [hacc.tip, hacc.utxos]
  refine ⟨by omega, fun hlt => ?_⟩
  have hold := hrows (by omega)
  refine (entriesAll_run hacc.sane hold (fun tx htx o d hd => ?_) (prefix_refl _) hacc.connected.run).put hold
  have hsane := hacc.sane.sane tx htx
  obtain ⟨out, hout, rfl⟩ := outputAt_data hd
  have hmem := mem_of_getElem? hout
  exact ⟨hsane.outs.nonneg out hmem, (single_le_sum (by simpa using hsane.outs.nonneg) _ (mem_map_of_mem hmem)).trans
    hsane.outs.bounded, by dsimp only; omega, hlt, (hsane.scripts out hmem).trans_lt (by decide)⟩

end BlockChain
end Main

section Sample
attribute [local instance] sumHash toyPrimitives

def journalSwap : MsgTx Nat := ⟨4, [sampleInput 5 0, sampleInput 6 0], [⟨5, [0x51]⟩, ⟨7, [0x51]⟩], 0⟩

def journalSpend : MsgTx Nat := ⟨1, [sampleInput 5 0], [⟨4, [0x51]⟩], 0⟩

def journalTxs (tx : MsgTx Nat) : List (MsgTx Nat) := [sampleCoinbase [0, 0] [0x51], tx]

/-- A set with an output of the genesis block. -/
def genesisUtxos : UtxoSet Nat := GoMap.empty.set ⟨5, 0⟩ ⟨5, [0x51], 0, true⟩

theorem journal_sane : ∀ tx ∈ [journalSwap, journalSpend], checkBlockSanityWF (.ok ()) 0
    (merkleRoot (journalTxs tx) false) (journalTxs tx) = .ok () := by
  decide

theorem journal_stxos : ∀ tx ∈ [journalSwap, journalSpend],
    (sampleRun sampleUtxos (journalTxs tx)).map Prod.snd = .ok (some [⟨5, [0x51], 1, false⟩]) := by
  decide

theorem journalSwap_disconnect : ((sampleRun sampleUtxos (journalTxs journalSwap)).map fun r =>
    (r.1.disconnectTransactions (putUtxoView sampleUtxos r.1) (journalTxs journalSwap) 1 7
      [⟨5, [0x51], 1, false⟩]).isOk) = .ok false := by
  decide

theorem genesis_disconnect : ((sampleRun genesisUtxos (journalTxs journalSpend)).bind fun r =>
    (r.1.disconnectTransactions (putUtxoView genesisUtxos r.1) (journalTxs journalSpend) 1 7
      (r.2.getD [])).map fun view => (r.2, view.dataAt ⟨5, 0⟩)) =
      .ok (some [⟨5, [0x51], 0, true⟩], some ⟨5, [0x51], 1, false⟩) := by
  decide +kernel

/-- One entry is written and counted for the swap transaction, but two are read: neither the reader nor the
disconnect loop gets through. The output of the genesis block comes back as one of the block that spent it. -/
theorem journal_broken : (∃ view stxos, sampleRun sampleUtxos (journalTxs journalSwap) = .ok (view, some stxos) ∧
      stxos.length = countSpentOutputs (journalTxs journalSwap) ∧
      (deserializeSpendJournalEntry (serializeSpendJournalEntry stxos) [journalSwap]).isOk = false ∧
      (view.disconnectTransactions (putUtxoView sampleUtxos view) (journalTxs journalSwap) 1 7 stxos).isOk = false) ∧
    ∃ view view', sampleRun genesisUtxos (journalTxs journalSpend) = .ok (view, some [⟨5, [0x51], 0, true⟩]) ∧
      view.disconnectTransactions (putUtxoView genesisUtxos view) (journalTxs journalSpend) 1 7
        [⟨5, [0x51], 0, true⟩] = .ok view' ∧ view'.dataAt ⟨5, 0⟩ = some ⟨5, [0x51], 1, false⟩ := by
  constructor
  · obtain ⟨⟨view, stxos⟩, hrun, rfl⟩ := map_eq_ok.1 (journal_stxos journalSwap (by simp))
    obtain ⟨_, hrun', hdisconnect⟩ := map_eq_ok.1 journalSwap_disconnect
    cases hrun.symm.trans hrun'
    exact ⟨view, _, hrun, rfl, by decide, hdisconnect⟩
  · obtain ⟨⟨view, stxos⟩, hrun, hback⟩ := bind_eq_ok.1 genesis_disconnect
    obtain ⟨view', hview', hdata⟩ := map_eq_ok.1 hback
    obtain ⟨rfl, hrow⟩ := Prod.mk.inj hdata
    exact ⟨view, view', hrun, hview', hrow⟩

theorem journalAgrees_iff_spend : ∃ stxos, BlockChain.JournalAgrees (toyChain Nat) sampleUtxos
    (sampleNode (journalTxs journalSpend)) (journalTxs journalSpend) stxos := by
  have hsane := journal_sane journalSpend (by simp)
  obtain ⟨⟨view, stxos⟩, hrun, rfl⟩ := map_eq_ok.1 (journal_stxos journalSpend (by simp))
  exact ⟨_, (BlockChain.journalAgrees_iff (toyChain Nat) sampleUtxos (rowsAll_single ⟨by decide, by decide, by decide⟩)
    (fun key _ _ h => absurd h (by simp [Primitives.parsePubKey])) (sampleNode (journalTxs journalSpend))
    (by decide) (by decide) (journalTxs journalSpend) (.ok ()) hsane view _ hrun).2 ⟨by decide,
      BlockChain.spendsAbove_of_rows (checkBlockSanityWF_ok hsane) (rowsAll_single (by decide)) (by decide)⟩⟩

theorem rows_read_back_twice : ∃ s d, (toyChain Nat).acceptBlocks sampleStart twiceBlocks = .ok s ∧
    s.utxos.get ⟨(sampleCoinbase [0, 0] [0x51]).txHash, 0⟩ = some d ∧
    deserializeUtxoEntry (serializeUtxoEntry d) = .ok d := by
  have hstart : RowsAll Storable sampleStart.utxos := by
    refine BlockChain.genesisState_rows (Q := fun _ => Storable) fun tx htx o d hd => ?_
    obtain rfl := mem_singleton.1 htx
    obtain ⟨out, hout, rfl⟩ := outputAt_data hd
    obtain rfl := mem_singleton.1 (mem_of_getElem? hout)
    exact ⟨by decide, by decide, by decide, by decide, by decide⟩
  obtain ⟨s, hs, hget⟩ := map_eq_ok.1 twice_rows.2
  exact ⟨s, _, hs, hget, BlockChain.rows_read_back (fun _ _ _ h => by cases h) (by decide) hstart hs
    (by cases hs; decide) _ _ hget⟩

end Sample

end Jaxnetd.Blockchain
