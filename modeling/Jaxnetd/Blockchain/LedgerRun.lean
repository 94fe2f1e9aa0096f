import Jaxnetd.Blockchain.Connect
import Jaxnetd.Chaindata.Inputs
import Jaxnetd.Chaindata.Simulation

/-!
# The ledger behind `checkConnectBlock`

`ledger_run` is the induction over the loop of `checkConnectBlock`: the view stands for a ledger, which every transaction
changes by its transfer. It asks for what `CheckBlockSanityWF` has checked before, and that swap transactions are whole
(`SwapsWhole`): one whose outputs are spent later in the block finds all its inputs.
-/

namespace Jaxnetd.Blockchain
open Wire TxScript Chaindata Checks UtxoViewpoint List

variable {H : Type} [DecidableEq H] [ChainHash H] {tx : MsgTx H}

/-! ## Blocks -/

structure SaneBlock (txs : List (MsgTx H)) : Prop where
  coinbase : ∃ first rest, txs = first :: rest ∧ isCoinBase first ∧ ∀ tx ∈ rest, ¬isCoinBase tx
  sane : ∀ tx ∈ txs, SaneTx tx
  distinct : (txs.map MsgTx.txHash).Nodup

theorem forM_ok {α ε : Type} {f : α → Except ε Unit} {l : List α} (h : l.forM f = .ok ()) : ∀ a ∈ l, f a = .ok () := by
  induction l with
  | nil => simp
  | cons a l ih =>
    change (f a >>= fun _ => l.forM f) = .ok () at h
    simp only [ok_rules] at h
    exact forall_mem_cons.2 ⟨h.1, ih h.2⟩

variable {txs pre post : List (MsgTx H)}

theorem checkDistinctHashes_ok {existing : List H} (h : checkDistinctHashes existing txs = .ok ()) :
    (txs.map MsgTx.txHash).Nodup ∧ ∀ tx ∈ txs, tx.txHash ∉ existing := by
  induction txs generalizing existing with
  | nil => simp
  | cons tx txs ih =>
    simp only [checkDistinctHashes, ok_rules] at h
    obtain ⟨hnodup, hrest⟩ := ih h.2
    refine ⟨?_, forall_mem_cons.2 ⟨h.1, fun t ht => fun hmem => hrest t ht (mem_cons_of_mem _ hmem)⟩⟩
    rw [map_cons, nodup_cons]
    refine ⟨fun hmem => ?_, hnodup⟩
    obtain ⟨t, ht, heq⟩ := mem_map.1 hmem
    exact hrest t ht (heq ▸ mem_cons_self)

theorem checkBlockSanityWF_ok {headerSanity : Except ChainError Unit} {maxLength : Nat} {root : H}
    (h : checkBlockSanityWF headerSanity maxLength root txs = .ok ()) : SaneBlock txs := by
  simp only [checkBlockSanityWF, ok_rules] at h
  obtain ⟨-, -, -, -, hfirst, hrest, hsane, -, hdistinct, -⟩ := h
  refine ⟨?_, fun tx htx => checkTransactionSanity_ok (forM_ok hsane tx htx), (checkDistinctHashes_ok hdistinct).1⟩
  rcases txs with _ | ⟨first, rest⟩
  · simp at hfirst
  · exact ⟨first, rest, rfl, by simpa using hfirst, by simpa using hrest⟩

theorem SaneBlock.ne_nil (h : SaneBlock txs) : txs ≠ [] := by
  obtain ⟨first, rest, rfl, -⟩ := h.coinbase
  exact cons_ne_nil _ _

theorem SaneBlock.isCoinBase_iff (h : SaneBlock txs) (htxs : txs = pre ++ tx :: post) : isCoinBase tx ↔ pre = [] := by
  obtain ⟨first, rest, rfl, hfirst, hrest⟩ := h.coinbase
  rcases pre with _ | ⟨t, pre⟩
  · cases htxs
    simpa using hfirst
  · cases htxs
    simpa using hrest tx (by simp)

namespace BlockChain
variable {b : BlockChain H} [Primitives] {height : Int} {st st' : ConnectState H}

/-! ## The loop over the transactions -/

theorem connectTxs_append {txs' : List (MsgTx H)} : b.connectTxs height (txs ++ txs') st = .ok st' ↔
      ∃ st₁, b.connectTxs height txs st = .ok st₁ ∧ b.connectTxs height txs' st₁ = .ok st' := by
  induction txs generalizing st with
  | nil => simp [connectTxs]
  | cons tx txs ih =>
    simp only [cons_append, connectTxs, bind_eq_ok, ih]
    constructor
    · rintro ⟨st₀, h, st₁, h₁, h₂⟩
      exact ⟨st₁, ⟨st₀, h, h₁⟩, h₂⟩
    · rintro ⟨st₁, ⟨st₀, h, h₁⟩, h₂⟩
      exact ⟨st₀, h, st₁, h₁, h₂⟩

theorem connectTxs_snoc {st₁ : ConnectState H} (h : b.connectTxs height pre st = .ok st₁)
    (htx : b.connectTx height st₁ tx = .ok st') : b.connectTxs height (pre ++ [tx]) st = .ok st' := by
  refine connectTxs_append.2 ⟨st₁, h, ?_⟩
  simp only [connectTxs, htx]
  rfl

theorem connectTxs_induct {P : ConnectState H → Prop}
    (hstep : ∀ tx ∈ txs, ∀ st st', P st → b.connectTx height st tx = .ok st' → P st')
    (h : b.connectTxs height txs st = .ok st') (hst : P st) : P st' := by
  induction txs generalizing st with
  | nil =>
    cases h
    exact hst
  | cons tx txs ih =>
    simp only [connectTxs, bind_eq_ok] at h
    obtain ⟨st₁, htx, h⟩ := h
    rw [forall_mem_cons] at hstep
    exact ih hstep.2 h (hstep.1 st st₁ hst htx)

theorem connectTxs_split {start last : ConnectState H}
    (htxs : txs = pre ++ tx :: post) (h : b.connectTxs height txs start = .ok last) :
    ∃ st st', b.connectTxs height pre start = .ok st ∧ b.connectTx height st tx = .ok st' ∧
      b.connectTxs height post st' = .ok last := by
  rw [htxs] at h
  obtain ⟨st, hpre, hrest⟩ := connectTxs_append.1 h
  simp only [connectTxs, bind_eq_ok] at hrest
  obtain ⟨st', htx, hpost⟩ := hrest
  exact ⟨st, st', hpre, htx, hpost⟩

/-- The view that the callers of `checkConnectBlock` make for a block. -/
def freshView (b : BlockChain H) (node : BlockNode H) : UtxoViewpoint H :=
  newUtxoViewpoint b.isBeacon node.header.prevBlockHash

def startState (b : BlockChain H) (db : UtxoSet H) (node : BlockNode H) (txs : List (MsgTx H)) : ConnectState H :=
  ⟨(b.freshView node).fetchInputUtxos db txs node.height, some [], 0, []⟩

structure ConnectChecked (b : BlockChain H) (db : UtxoSet H) (node : BlockNode H) (txs : List (MsgTx H))
    (st : ConnectState H) : Prop where
  run : b.connectTxs node.height txs (b.startState db node txs) = .ok st
  coinbase : ∀ tx ∈ txs.head?, sumValues tx.txOut ≤
    wrap64 (b.calcBlockSubsidy node.height node.header.bits node.header + st.totalFees)
  scripts : (b.latestCheckpoint.all fun checkpoint => checkpoint.height < node.height) →
    checkBlockScripts st.view (scriptFlags (bip16Activation ≤ node.timestamp) node.header.version)
      (txs.zip st.ages) = .ok ()

variable {db : UtxoSet H} {node : BlockNode H}

theorem checkConnectBlock_ok
    {view : UtxoViewpoint H} {stxos : Option (List SpentTxOut)}
    (h : b.checkConnectBlock db node txs (b.freshView node) (some []) = .ok (view, stxos)) :
    ∃ st, ConnectChecked b db node txs st ∧ view = { st.view with bestHash := node.header.blockHash } ∧
      stxos = st.stxos := by
  simp only [checkConnectBlock, ok_rules, not_lt] at h
  obtain ⟨-, -, st, hrun, coinbase, hcoinbase, hvalue, -, -, -, hscripts, rfl, rfl⟩ := h
  refine ⟨st, ⟨hrun, ?_, hscripts⟩, rfl, rfl⟩
  intro tx htx
  rw [hcoinbase, Option.mem_def, Option.some.injEq] at htx
  exact htx ▸ hvalue

structure FeeAdded (st : ConnectState H) (tx : MsgTx H) (fee : Int) (st' : ConnectState H) : Prop where
  eq : st'.totalFees = wrap64 (st.totalFees + fee)
  le : st.totalFees ≤ st'.totalFees
  coinbase : isCoinBase tx → fee = 0
  checked : ¬isCoinBase tx → FeeChecked st.view tx fee

structure TxConnected (height : Int) (st : ConnectState H) (tx : MsgTx H) (st' : ConnectState H) : Prop where
  connected : Connected st.view tx height st.stxos st'.view st'.stxos
  fee : ∃ fee, FeeAdded st tx fee st'

theorem connectTx_fee (hsane : SaneTx tx) (h : b.connectTx height st tx = .ok st') : ∃ fee, FeeAdded st tx fee st' := by
  simp only [connectTx, ok_rules, not_lt] at h
  obtain ⟨fee, ages, hinputs, hfees, view, stxos, -, rfl⟩ := h
  refine ⟨fee, rfl, hfees, fun hcb => ?_, fun hcb => checkTransactionInputs_ok hsane hcb hinputs⟩
  rw [checkTransactionInputs, if_pos hcb] at hinputs
  cases hinputs
  rfl

theorem connectTx_connects (h : b.connectTx height st tx = .ok st') :
    st.view.connectTransaction tx height st.stxos = .ok (st'.view, st'.stxos) := by
  simp only [connectTx, ok_rules] at h
  obtain ⟨_, _, -, -, view, stxos, hconn, rfl⟩ := h
  exact hconn

theorem connectTxs_grows (h : b.connectTxs height txs st = .ok st') :
    st.ages <+: st'.ages ∧ Chaindata.Grows st.view st'.view := by
  refine connectTxs_induct (P := fun st' => st.ages <+: st'.ages ∧ Chaindata.Grows st.view st'.view) ?_ h
    ⟨prefix_refl _, fun _ => id⟩
  rintro tx - st₁ st₂ ⟨hages, hgrows⟩ htx
  have hnext := grows_connectTransaction (connectTx_connects htx)
  simp only [connectTx, ok_rules] at htx
  obtain ⟨_, ages, -, -, _, _, -, rfl⟩ := htx
  exact ⟨hages.trans (prefix_append _ _), hgrows.trans hnext⟩

theorem connectTx_ok (hsane : SaneTx tx) (hself : NotSelf tx)
    (h : b.connectTx height st tx = .ok st') : TxConnected height st tx st' :=
  ⟨connectTransaction_ok hself (connectTx_connects h), connectTx_fee hsane h⟩

section
omit [Primitives]

/-- The accumulator of the fees does not wrap: a fee that would is refused, and so is one below zero. -/
theorem FeeAdded.exact {fee : Int} (h : FeeAdded st tx fee st') (h0 : 0 ≤ st.totalFees) (h63 : st.totalFees < 2 ^ 63) :
    0 ≤ fee ∧ st'.totalFees = st.totalFees + fee ∧ st'.totalFees < 2 ^ 63 := by
  have hrange : -maxCoinAmount ≤ fee ∧ fee ≤ maxCoinAmount := by
    by_cases hcb : isCoinBase tx
    · rw [h.coinbase hcb]
      decide
    · exact (h.checked hcb).range
  have heq := h.eq
  have hle := h.le
  unfold wrap64 maxCoinAmount at *
  omega

theorem TxConnected.unspent (h : TxConnected height st tx st') :
    ∀ o ∈ spentBy st.view.found tx, ∃ e, st.view.lookupEntry o = some e ∧ e.spent = false := by
  intro o ho
  obtain ⟨fee, hfee⟩ := h.fee
  have hcb : ¬isCoinBase tx := by
    intro hcb
    simp [spentBy, hcb] at ho
  obtain ⟨e, he, hs, -⟩ := (hfee.checked hcb).unspent o ho
  exact ⟨e, he, hs⟩

end

theorem entriesAt_run {Q : OutPoint H → SpentTxOut → Prop} (hblock : SaneBlock txs) (hdb : RowsAt Q db)
    (htxs : ∀ tx ∈ txs, OutputsAt Q node.height tx) (hpre : pre <+: txs)
    (h : b.connectTxs node.height pre (b.startState db node txs) = .ok st) : EntriesAt Q st.view := by
  obtain ⟨needed, hfetched⟩ := fetchInputUtxos_fetched hblock.distinct hblock.ne_nil db node.height b.isBeacon
    node.header.prevBlockHash
  exact connectTxs_induct (P := fun st => EntriesAt Q st.view)
    (fun tx htx _ _ h₀ hconn => h₀.connect (htxs tx (hpre.subset htx)) (connectTx_connects hconn)) h
    (hfetched.entriesAt hdb htxs)

theorem entriesAll_run {Q : SpentTxOut → Prop}
    (hblock : SaneBlock txs) (hdb : RowsAll Q db) (htxs : ∀ tx ∈ txs, OutputsAll Q node.height tx) (hpre : pre <+: txs)
    (h : b.connectTxs node.height pre (b.startState db node txs) = .ok st) : EntriesAll Q st.view :=
  entriesAt_run (Q := fun _ => Q) hblock hdb htxs hpre h

/-! ## The induction over the loop -/

/-- A swap transaction whose outputs are spent later in the block finds all its inputs when its turn comes,
and none names its own hash. -/
structure SwapsWhole (b : BlockChain H) (db : UtxoSet H) (node : BlockNode H) (txs : List (MsgTx H)) : Prop where
  found : ∀ pre tx post st, txs = pre ++ tx :: post →
    b.connectTxs node.height pre (b.startState db node txs) = .ok st → tx.swapTx → SpentLater txs tx →
    ∀ txIn ∈ tx.txIn, st.view.found txIn.previousOutPoint
  not_self : ∀ tx ∈ txs, NotSelf tx

theorem SwapsWhole.of_no_swap
    (h : ∀ tx ∈ txs, ¬tx.swapTx) : SwapsWhole b db node txs where
  found pre tx post st htxs _ hswap := absurd hswap (h tx (by simp [htxs]))
  not_self tx htx hswap := absurd hswap (h tx htx)

/-- The rows of the inputs that a transaction spends, as the view and the ledger have them. -/
def SpendsLedger (view : UtxoViewpoint H) (tx : MsgTx H) (ledger : UtxoSet H) : Prop :=
  ∀ o ∈ spentBy view.found tx, ∃ d, view.dataAt o = some d ∧ ledger.get o = some d

section
variable {db : UtxoSet H} {node : BlockNode H} {txs : List (MsgTx H)}
  {P : List (MsgTx H) → ConnectState H → UtxoSet H → Prop}
  (hblock : SaneBlock txs) (hwhole : SwapsWhole b db node txs) (hstart : P [] (b.startState db node txs) db)
  (hstep : ∀ pre tx post st st' ledger, txs = pre ++ tx :: post →
    b.connectTxs node.height pre (b.startState db node txs) = .ok st → P pre st ledger → TxConnected node.height st tx st' →
    SpendsLedger st.view tx ledger → P (pre ++ [tx]) st' ((transferOf st.view.found tx node.height).apply ledger))
include hblock hwhole hstart hstep

/-- What holds of the ledger of the database and the first state, and is kept by the transfer of every
transaction, holds in every state of the loop. -/
theorem ledger_run : ∃ needed, ∀ pre post st, txs = pre ++ post →
      b.connectTxs node.height pre (b.startState db node txs) = .ok st →
      ∃ ledger, Sim db txs node.height needed post st.view ledger ∧ P pre st ledger := by
  obtain ⟨needed, hfetched⟩ := fetchInputUtxos_fetched hblock.distinct hblock.ne_nil db node.height b.isBeacon
    node.header.prevBlockHash
  refine ⟨needed, fun pre => ?_⟩
  -- induction on the transactions connected so far, the last one taken off
  induction pre using reverseRecOn with
  | nil =>
    rintro post st rfl h
    cases h
    exact ⟨db, hfetched.sim, hstart⟩
  | append_singleton pre tx ih =>
    intro post st' htxs h
    rw [append_assoc, singleton_append] at htxs
    obtain ⟨st, hrun, hlast⟩ := connectTxs_append.1 h
    simp only [connectTxs, ok_rules, exists_eq_right] at hlast
    obtain ⟨ledger, hsim, hP⟩ := ih (tx :: post) st htxs hrun
    have hmem : tx ∈ txs := by simp [htxs]
    have hconn := connectTx_ok (hblock.sane tx hmem) (hwhole.not_self tx hmem) hlast
    refine ⟨_, hsim.connect hconn.connected hconn.unspent (hwhole.found pre tx post st htxs hrun), ?_⟩
    refine hstep pre tx post st st' ledger htxs hrun hP hconn fun o ho => ?_
    have hpre : pre ≠ [] := by
      rintro rfl
      have hcb := (hblock.isCoinBase_iff htxs).2 rfl
      simp [spentBy, hcb] at ho
    obtain ⟨e, he, hs⟩ := hconn.unspent o ho
    have hin : o ∈ tx.txIn.map TxIn.previousOutPoint := by
      unfold spentBy at ho
      split at ho
      · cases ho
      · exact mem_of_mem_filter ho
    have hsettled := Sim.settled_input hfetched hblock.distinct htxs hpre hsim hin
    exact ⟨e.toSpentTxOut, dataAt_of_lookup he, hsettled.get_of_lookup he hs⟩

theorem ledger_run_end (hrun : b.connectTxs node.height txs (b.startState db node txs) = .ok st) :
    P txs st (putUtxoView db st.view) := by
  obtain ⟨needed, h⟩ := ledger_run hblock hwhole hstart hstep
  obtain ⟨ledger, hsim, hP⟩ := h txs [] st (by simp) hrun
  have hsettled : ∀ o, Settled db ledger st.view o := fun o => (hsim o).resolve_right (by simp)
  rwa [putUtxoView_eq hsettled]

end

end BlockChain

end Jaxnetd.Blockchain
