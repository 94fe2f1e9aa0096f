import Jaxnetd.Blockchain.Overwrite
import Jaxnetd.Blockchain.TimeLock
import Jaxnetd.TxScript.HtlcRun

/-!
# Lock periods in blocks

The age that a lock script compares with its period is noted when the inputs are checked; the scripts run when the whole
block is connected. In between an output of another transaction with the same hash may replace an entry of the view; while
the hash tells transactions apart, it has the same script. So no output leaves its lock before the period has passed
(`lockPeriod_lt`).
-/

namespace Jaxnetd.Blockchain
open Wire TxScript Chaindata Checks UtxoViewpoint List

section Main
variable {H : Type} [DecidableEq H] [ChainHash H] {txs : List (MsgTx H)} {tx : MsgTx H}

/-! ## Where outputs come from -/

def placed (blocks : List (Block H)) : List (MsgTx H × Int) :=
  blocks.flatMap fun e => e.txs.map fun tx => (tx, e.header.height)

def CreatedBy (txs : List (MsgTx H × Int)) (o : OutPoint H) (d : SpentTxOut) : Prop :=
  ∃ p ∈ txs, outputAt p.1 p.2 o = some d

/-- The row is an output of one of the transactions, at an index not reserved for coinbases. -/
def Indexed (txs : List (MsgTx H × Int)) (o : OutPoint H) (d : SpentTxOut) : Prop :=
  CreatedBy txs o d ∧ o.index ≠ maxUint32

theorem Indexed.mono {txs txs' : List (MsgTx H × Int)} {o : OutPoint H} {d : SpentTxOut} (hsub : txs ⊆ txs')
    (h : Indexed txs o d) : Indexed txs' o d := by
  obtain ⟨⟨p, hp, hd⟩, hindex⟩ := h
  exact ⟨⟨p, hsub hp, hd⟩, hindex⟩

theorem CreatedBy.pkScript_eq {txs : List (MsgTx H × Int)} (hapart : HashesApart (txs.map Prod.fst)) {o : OutPoint H}
    {d d' : SpentTxOut} (h : CreatedBy txs o d) (h' : CreatedBy txs o d') : d.pkScript = d'.pkScript := by
  obtain ⟨p, hp, hd⟩ := h
  obtain ⟨p', hp', hd'⟩ := h'
  have hbody := hapart p.1 (mem_map_of_mem hp) p'.1 (mem_map_of_mem hp')
    ((hash_of_outputAt hd).symm.trans (hash_of_outputAt hd'))
  have houts : p.1.txOut = p'.1.txOut := by
    change (withoutWitness p.1).txOut = (withoutWitness p'.1).txOut
    rw [hbody]
  obtain ⟨out, hout, rfl⟩ := outputAt_data hd
  obtain ⟨out', hout', rfl⟩ := outputAt_data hd'
  rw [houts, hout', Option.some.injEq] at hout
  exact congrArg TxOut.pkScript hout.symm

theorem outputsAt_indexed {headerSanity : Except ChainError Unit} {maxLength : Nat} {root : H}
    (h : checkBlockSanityWF headerSanity maxLength root txs = .ok ()) (height : Int) :
    ∀ tx ∈ txs, OutputsAt (Indexed (txs.map fun tx => (tx, height))) height tx := by
  intro tx htx o d hd
  refine ⟨⟨(tx, height), mem_map_of_mem htx, hd⟩, ?_⟩
  simp only [checkBlockSanityWF, ok_rules, Nat.not_lt] at h
  obtain ⟨-, -, -, hsize, -⟩ := h
  have htxSize : tx.serializeSizeStripped ≤ (txs.map MsgTx.serializeSizeStripped).sum :=
    le_sum_of_mem (mem_map_of_mem htx)
  have houts : tx.txOut.length ≤ (tx.txOut.map TxOut.serializeSize).sum := by
    have hle := length_le_sum_of_one_le (tx.txOut.map TxOut.serializeSize) (by
      simp only [mem_map]
      rintro _ ⟨out, -, rfl⟩
      unfold TxOut.serializeSize
      omega)
    simpa using hle
  have hstripped : (tx.txOut.map TxOut.serializeSize).sum ≤ tx.serializeSizeStripped := by
    unfold MsgTx.serializeSizeStripped
    omega
  have hindex := index_lt_of_outputAt hd
  simp only [maxBlockBaseSize] at hsize
  simp only [maxUint32]
  omega

theorem index_of_coinbase (hcb : isCoinBase tx) {i : Nat} {txIn : TxIn H} (htxIn : tx.txIn[i]? = some txIn) :
    txIn.previousOutPoint.index = maxUint32 := by
  unfold isCoinBase at hcb
  split at hcb
  · next first heq =>
    have hmem := mem_of_getElem? htxIn
    rw [heq, mem_singleton] at hmem
    rw [hmem, of_decide_eq_true hcb]
  · cases hcb

namespace BlockChain
variable [Primitives] {b : BlockChain H} {blocks : List (Block H)} {given : List (MsgTx H × Int)} {s₀ s : ChainState H}
  {st : ConnectState H} {height : Int}

theorem genesisState_indexed {genesis : Block H} {coinbase : MsgTx H} (htxs : genesis.txs = [coinbase])
    (hlen : coinbase.txOut.length ≤ maxUint32) :
    RowsAt (Indexed [(coinbase, genesis.header.height)]) (b.genesisState genesis).utxos := by
  refine genesisState_rows fun tx htx o d hd => ?_
  rw [htxs, mem_singleton] at htx
  subst htx
  have hindex := index_lt_of_outputAt hd
  exact ⟨⟨_, mem_singleton_self _, hd⟩, by omega⟩

section
variable (hstart : RowsAt (Indexed given) s₀.utxos) (hchain : b.acceptBlocks s₀ blocks = .ok s)
include hstart hchain

theorem rowsAt_indexed : RowsAt (Indexed (given ++ placed blocks)) s.utxos := by
  refine @acceptBlocks_induct _ _ _ _ b s₀ (fun _ _ _ => True)
    (fun blocks s => RowsAt (Indexed (given ++ placed blocks)) s.utxos) blocks ?_ ?_ (fun _ _ _ _ _ _ => trivial) blocks [] s
    (append_nil _).symm hchain
  · simpa [placed] using hstart
  · intro pre block post s₁ s₂ _ hrows _ hblock
    obtain ⟨st, hacc⟩ := acceptBlock_ok hblock
    simp only [acceptBlock, ok_rules] at hblock
    have hsub : given ++ placed pre ⊆ given ++ placed (pre ++ [block]) := by simp [placed]
    have hrows' : RowsAt (Indexed (given ++ placed (pre ++ [block]))) s₁.utxos := fun o d hd => (hrows o d hd).mono hsub
    rw [hacc.utxos]
    refine (entriesAt_run hacc.sane hrows' (fun tx htx o d hd => ?_) (prefix_refl _) hacc.connected.run).put hrows'
    refine (outputsAt_indexed hblock.1 block.header.height tx htx o d hd).mono ?_
    simp [placed]

theorem entries_indexed {node : BlockNode H} {pre post : List (MsgTx H)}
    (hsanity : checkBlockSanityWF (.ok ()) node.header.maxLength node.header.merkleRoot txs = .ok ())
    (htxs : txs = pre ++ post) (hrun : b.connectTxs node.height pre (b.startState s.utxos node txs) = .ok st) :
    EntriesAt (Indexed (given ++ placed blocks ++ txs.map fun tx => (tx, node.height))) st.view := by
  refine entriesAt_run (checkBlockSanityWF_ok hsanity)
    (fun o d hd => (rowsAt_indexed hstart hchain o d hd).mono (subset_append_left _ _)) (fun tx htx o d hd => ?_)
    ⟨post, htxs.symm⟩ hrun
  exact (outputsAt_indexed hsanity node.height tx htx o d hd).mono (subset_append_right _ _)

end

omit [DecidableEq H] [Primitives] in
theorem hashesApart_placed (h : HashesApart (given.map Prod.fst ++ blocks.flatMap Block.txs ++ txs)) :
    HashesApart ((given ++ placed blocks ++ txs.map fun tx => (tx, height)).map Prod.fst) := by
  have hplaced : (given ++ placed blocks ++ txs.map fun tx => (tx, height)).map Prod.fst =
      given.map Prod.fst ++ blocks.flatMap Block.txs ++ txs := by
    simp [placed, map_flatMap, Function.comp_def]
  rwa [hplaced]

/-! ## Ages -/

theorem age_of_run {pre post : List (MsgTx H)} {start last : ConnectState H}
    (hstart : start.ages = []) (htxs : txs = pre ++ tx :: post) (hrun : b.connectTxs height txs start = .ok last)
    (hst : b.connectTxs height pre start = .ok st) (hcb : ¬isCoinBase tx) :
    last.ages.getD pre.length [] = tx.txIn.map (ageAt st.view height) := by
  obtain ⟨st₀, st', hst₀, htx, hpost⟩ := connectTxs_split htxs hrun
  rw [hst, Except.ok.injEq] at hst₀
  subst hst₀
  have hlen := length_ages hst
  rw [hstart, length_nil, Nat.zero_add] at hlen
  obtain ⟨more, hmore⟩ := (connectTxs_grows hpost).1
  simp only [connectTx, ok_rules] at htx
  obtain ⟨fee, ages, hinputs, -, _, _, -, rfl⟩ := htx
  simp [← hmore, ages_of_checkTransactionInputs hcb hinputs, getD_eq_getElem?_getD, ← hlen]

/-! ## Locks -/

theorem input_executed
    (hstart : RowsAt (Indexed given) s₀.utxos) (hchain : b.acceptBlocks s₀ blocks = .ok s) {node : BlockNode H}
    (hsanity : checkBlockSanityWF (.ok ()) node.header.maxLength node.header.merkleRoot txs = .ok ())
    (hapart : HashesApart (given.map Prod.fst ++ blocks.flatMap Block.txs ++ txs)) {view : UtxoViewpoint H}
    {stxos : Option (List SpentTxOut)}
    (haccept : b.checkConnectBlock s.utxos node txs (b.freshView node) (some []) = .ok (view, stxos))
    (hcheckpoint : b.latestCheckpoint.all fun checkpoint => checkpoint.height < node.height)
    {pre post : List (MsgTx H)} (htxs : txs = pre ++ tx :: post)
    (hst : b.connectTxs node.height pre (b.startState s.utxos node txs) = .ok st) {i : Nat} {txIn : TxIn H}
    (htxIn : tx.txIn[i]? = some txIn) {utxo : UtxoEntry} (hfound : st.view.lookupEntry txIn.previousOutPoint = some utxo) :
    CreatedBy (given ++ placed blocks ++ txs.map fun tx => (tx, node.height)) txIn.previousOutPoint utxo.toSpentTxOut ∧
      ∃ flags amount ctx vm, flags.verifyWitness ∧
        newEngine utxo.pkScript tx i txIn flags amount (node.height - utxo.height) = .ok (ctx, vm) ∧
        execute ctx vm = .ok () := by
  obtain ⟨last, hchecked, -, -⟩ := checkConnectBlock_ok haccept
  obtain ⟨hcreated, hindex⟩ := entries_indexed hstart hchain hsanity htxs hst _ _ (lookupEntry_eq_some.1 hfound)
  refine ⟨hcreated, ?_⟩
  have hcb : ¬isCoinBase tx := fun hcb => hindex (index_of_coinbase hcb htxIn)
  -- the entry that the scripts see has the same script
  obtain ⟨st₀, st', hst₀, htx, hpost⟩ := connectTxs_split htxs hchecked.run
  rw [hst, Except.ok.injEq] at hst₀
  subst hst₀
  have hgrows := (grows_connectTransaction (connectTx_connects htx)).trans (connectTxs_grows hpost).2
  have hfound' : st.view.found txIn.previousOutPoint = true := by simp [UtxoViewpoint.found, hfound]
  obtain ⟨utxo', hutxo'⟩ := Option.isSome_iff_exists.1 (hgrows _ hfound')
  obtain ⟨hcreated', -⟩ := entries_indexed hstart hchain hsanity (append_nil _).symm hchecked.run _ _
    (lookupEntry_eq_some.1 hutxo')
  have hscript : utxo.pkScript = utxo'.pkScript := CreatedBy.pkScript_eq (hashesApart_placed hapart) hcreated hcreated'
  have hvalid := hchecked.validateInput_ok hcheckpoint (show txs[pre.length]? = some tx by rw [htxs]; simp) htxIn hindex
  have hages := age_of_run rfl htxs hchecked.run hst hcb
  have hage : (last.ages.getD pre.length []).getD i 0 = node.height - utxo.height := by
    rw [hages, getD_eq_getElem?_getD, getElem?_map, htxIn]
    simp [ageAt, hfound]
  simp only [validateInput, hutxo', ok_rules, hage] at hvalid
  obtain ⟨ctx, vm, hnew, hexec⟩ := hvalid
  rw [← hscript] at hnew
  exact ⟨_, _, ctx, vm, rfl, hnew, hexec⟩

/-- No block above the last checkpoint spends an output before the period of its lock has passed: an input that
is found spends an output that the chain started with, of the chain or of the block, and more blocks have passed since than
the period. -/
theorem lockPeriod_lt (b : BlockChain H) (given : List (MsgTx H × Int)) (s₀ : ChainState H)
    (hstart : RowsAt (Indexed given) s₀.utxos) (blocks : List (Block H)) (s : ChainState H)
    (hchain : b.acceptBlocks s₀ blocks = .ok s) (node : BlockNode H) (txs : List (MsgTx H))
    (hsanity : checkBlockSanityWF (.ok ()) node.header.maxLength node.header.merkleRoot txs = .ok ())
    (hapart : HashesApart (given.map Prod.fst ++ blocks.flatMap Block.txs ++ txs)) (view : UtxoViewpoint H)
    (stxos : Option (List SpentTxOut))
    (haccept : b.checkConnectBlock s.utxos node txs (b.freshView node) (some []) = .ok (view, stxos))
    (hcheckpoint : b.latestCheckpoint.all fun checkpoint => checkpoint.height < node.height)
    (pre : List (MsgTx H)) (tx : MsgTx H) (post : List (MsgTx H)) (htxs : txs = pre ++ tx :: post) (st : ConnectState H)
    (hst : b.connectTxs node.height pre (b.startState s.utxos node txs) = .ok st) (i : Nat) (txIn : TxIn H)
    (htxIn : tx.txIn[i]? = some txIn) (utxo : UtxoEntry) (hfound : st.view.lookupEntry txIn.previousOutPoint = some utxo)
    (n : Int) (hn : 0 ≤ n) (hlocked : LockedFor H utxo.pkScript txIn.signatureScript n) :
    CreatedBy (given ++ placed blocks ++ txs.map fun tx => (tx, node.height)) txIn.previousOutPoint utxo.toSpentTxOut ∧
      n < node.height - utxo.height := by
  obtain ⟨hcreated, flags, amount, ctx, vm, hflags, hnew, hexec⟩ :=
    input_executed hstart hchain hsanity hapart haccept hcheckpoint htxs hst htxIn hfound
  exact ⟨hcreated, lt_age_of_execute hn hlocked hflags hnew hexec⟩

end BlockChain
end Main

section Sample

@[reducible] def openPrimitives : Primitives where
  ripemd160 b := b
  sha1 b := b
  PubKey := Unit
  Signature := Unit
  parsePubKey _ := some ()
  serializeUncompressed _ := []
  parseSignature _ := some ()
  parseDERSignature _ := some ()
  verify _ _ _ := true
  isIP _ := false
  isURL _ := false

attribute [local instance] sumHash openPrimitives

def htlcAddress : Address := .pubKey ⟨List.replicate 33 0, Or.inl (by decide)⟩

def htlcPkScript : Bytes := [0xb3, 0x51, 0xa0, 0x63, 0x21] ++ List.replicate 33 0 ++ [0xac, 0x67, 0x6a, 0x68]

variable (pkScript signatureScript : Bytes)

/-- A genesis block that pays to a script. -/
def payingGenesis : Block Nat := sampleBlock 0 0 7 [sampleCoinbase [1, 1] pkScript]

def paidInput : TxIn Nat := ⟨⟨(sampleCoinbase [1, 1] pkScript).txHash, 0⟩, signatureScript, [], maxUint32⟩

def paidSpend : MsgTx Nat := ⟨1, [paidInput pkScript signatureScript], [⟨9, [0x51]⟩], 0⟩

def paidTxs : List (MsgTx Nat) := [sampleCoinbase [0, 1] [0x51], paidSpend pkScript signatureScript]

/-- One block after the genesis block, and the block that spends its output. -/
def paidNode : BlockNode Nat :=
  (sampleBlock 2 8 9 (paidTxs pkScript signatureScript)).node ⟨(coinbaseBlock [0, 0] 1 7 8).toNodeData,
    [(payingGenesis pkScript).toNodeData]⟩

theorem payingGenesis_indexed [Primitives] : RowsAt (Indexed [(sampleCoinbase [1, 1] pkScript, 0)])
    ((toyChain Nat).genesisState (payingGenesis pkScript)).utxos :=
  BlockChain.genesisState_indexed rfl (show 1 ≤ maxUint32 by decide)

/-- The entry that the spend finds when its turn comes, in a block that is accepted. -/
def paidRun [Primitives] : Except ChainError (Option UtxoEntry) := do
  let s ← (toyChain Nat).acceptBlocks ((toyChain Nat).genesisState (payingGenesis pkScript)) [coinbaseBlock [0, 0] 1 7 8]
  let node := paidNode pkScript signatureScript
  let txs := paidTxs pkScript signatureScript
  let _ ← (toyChain Nat).checkConnectBlock s.utxos node txs ((toyChain Nat).freshView node) (some [])
  let st ← (toyChain Nat).connectTxs 2 (txs.take 1) ((toyChain Nat).startState s.utxos node txs)
  return st.view.lookupEntry (paidInput pkScript signatureScript).previousOutPoint

theorem htlcRun_ok : paidRun htlcPkScript [0x01, 0x01] = .ok (some ⟨⟨10, htlcPkScript, 0, true⟩, false, false⟩) := by
  decide

theorem lockPeriod_lt_next : htlcScript htlcAddress 1 = .ok htlcPkScript ∧ ∃ s view stxos,
    (toyChain Nat).acceptBlocks ((toyChain Nat).genesisState (payingGenesis htlcPkScript)) [coinbaseBlock [0, 0] 1 7 8] =
    .ok s ∧
    (toyChain Nat).checkConnectBlock s.utxos (paidNode htlcPkScript [0x01, 0x01]) (paidTxs htlcPkScript [0x01, 0x01])
      ((toyChain Nat).freshView (paidNode htlcPkScript [0x01, 0x01])) (some []) = .ok (view, stxos) ∧ (1 : Int) < 2 - 0 := by
  have hscript : htlcScript htlcAddress 1 = .ok htlcPkScript := by decide
  have hrun := htlcRun_ok
  simp only [paidRun, bind_eq_ok, pure_eq_ok] at hrun
  obtain ⟨s, hchain, ⟨view, stxos⟩, haccept, st, hst, hfound⟩ := hrun
  refine ⟨hscript, s, view, stxos, hchain, haccept, ?_⟩
  exact (BlockChain.lockPeriod_lt (toyChain Nat) _ _ (payingGenesis_indexed htlcPkScript) _ s hchain
    (paidNode htlcPkScript [0x01, 0x01]) _ (by decide) (by unfold HashesApart; decide) view stxos haccept (by decide)
    [sampleCoinbase [0, 1] [0x51]] (paidSpend htlcPkScript [0x01, 0x01]) [] rfl st hst 0
    (paidInput htlcPkScript [0x01, 0x01]) rfl _ hfound 1 (by decide) (.script htlcAddress hscript)).2

end Sample

end Jaxnetd.Blockchain
