import Jaxnetd.Blockchain.HtlcLock
import Jaxnetd.Chaindata.SigOpCost

/-!
# The limit on signature operations

`checkConnectBlock` adds up the costs of the transactions on the view fetched for the block, before it connects them, and
runs the scripts at the end. What an input brings is counted precisely, unless the counter overlooks it (`Overlooked`):
behind a lock around a script hash, behind a lock that makes a witness program longer than 42 bytes, and where the fetched
view lacks the input or too many inputs of its transaction.
-/

namespace Jaxnetd.Blockchain
open Wire TxScript Chaindata Checks UtxoViewpoint List BlockChain

section Main
variable {H : Type}

/-- The scripts that a run has added are counted: the one for a script hash, and the one for a witness program. -/
def Counted (ctx : EngineCtx H) (last : Engine) (share : Nat × Nat) : Prop :=
  (∀ pops ∈ (last.scripts.drop 2).take (if ctx.bip16 then 1 else 0), countSigOps pops true = share.1) ∧
    ∀ pops ∈ (last.scripts.drop 2).drop (if ctx.bip16 then 1 else 0), countSigOps pops true = share.2

/-- `GetSigOpCost` does not look at what is behind the input. -/
def Overlooked (view : UtxoViewpoint H) (tx : MsgTx H) (txIn : TxIn H) (pkScript : Bytes) : Prop :=
  view.found txIn.previousOutPoint = false ∨ LacksInputs view tx ∨ isHTLCWithScriptHash (opcodes pkScript) ∨
    isHTLCWitnessScript (opcodes pkScript) ∧ 42 < pkScript.length

instance (view : UtxoViewpoint H) (tx : MsgTx H) (txIn : TxIn H) (pkScript : Bytes) :
    Decidable (Overlooked view tx txIn pkScript) := by
  unfold Overlooked
  infer_instance

theorem counted_zero {ctx : EngineCtx H} {last : Engine} :
    Counted ctx last (0, 0) ↔ ∀ pops ∈ last.scripts.drop 2, countSigOps pops true = 0 := by
  rw [Counted, ← forall_mem_append, take_append_drop]

section
variable [ChainHash H] [Primitives] {tx : MsgTx H} {i : Nat} {txIn : TxIn H} {flags : ScriptFlags} {amount age : Int}
  {ctx : EngineCtx H} {vm last : Engine} {fuel : Nat} {pkScript : Bytes}

theorem counted_of_seen (hflags : flags.verifyWitness) (htxIn : tx.txIn[i]? = some txIn)
    (hnew : newEngine pkScript tx i txIn flags amount age = .ok (ctx, vm)) (hrun : executeLoop ctx fuel vm = .ok last)
    (hlock : isHTLCWithScriptHash (opcodes pkScript) = false)
    (hlen : isHTLCWitnessScript (opcodes pkScript) → pkScript.length ≤ 42) :
    Counted ctx last (p2shSigOps txIn.signatureScript pkScript,
      (getWitnessSigOpCount txIn.signatureScript pkScript txIn.witness).getD 0) := by
  have hscripts := scripts_of_executeLoop hflags htxIn hnew hrun
  obtain ⟨sigPops, pkPops, hstarted⟩ := newEngine_started hnew
  have hsig := hstarted.sigParsed
  have hpk := hstarted.pkParsed
  have hsel := newEngine_selected hflags hnew hsig hpk
  rw [opcodes, opcodes, parseScript_of_parsed hpk, parseScript_of_parsed hsig] at hscripts
  rw [opcodes, parseScript_of_parsed hpk] at hlock hlen
  have hwitness : ∀ pops ∈ ((programScript pkScript pkPops sigPops txIn.witness).bind (witnessScript txIn.witness)).toList.map
      opcodes, countSigOps pops true = (getWitnessSigOpCount txIn.signatureScript pkScript txIn.witness).getD 0 := by
    intro pops hpops
    obtain ⟨script, hscript, rfl⟩ := mem_map.1 hpops
    rw [witness_counted hsig hpk hsel hstarted.pushOnly hlock hlen (Option.mem_toList.1 hscript)]
    rfl
  have hpush : isScriptHash pkPops → isPushOnly sigPops := by
    intro hhash
    refine hstarted.pushOnly ?_
    rw [hsel.bip16, hhash]
    rfl
  unfold Counted
  rw [hscripts]
  cases hbip16 : ctx.bip16 with
  | false =>
    rw [hsel.addedScripts_plain hbip16]
    exact ⟨fun _ h => (by cases h), hwitness⟩
  | true =>
    cases hredeem : redeemScript pkPops sigPops with
    | none =>
      have hnone : addedScripts pkScript pkPops sigPops txIn.witness = [] := by
        have hnative : ¬(isWitnessProgramPops pkPops || isHTLCWitnessScript pkPops) := by
          intro hprogram
          have hplain := not_scriptHash_of_program (by simpa using hprogram)
          rw [hsel.bip16, hplain] at hbip16
          cases hbip16
        simp [addedScripts, hredeem, programScript, hnative]
      rw [hnone]
      exact ⟨fun _ h => (by cases h), fun _ h => (by cases h)⟩
    | some script =>
      rw [(hsel.addedScripts_redeem hbip16 hredeem).1]
      refine ⟨?_, hwitness⟩
      intro pops hpops
      obtain rfl : pops = opcodes script := by simpa using hpops
      rw [p2shSigOps_eq hsig hpk hpush hlock, hredeem]
      rfl

end

section
variable {tx : MsgTx H} {txIn : TxIn H} {view : UtxoViewpoint H} {pkScript : Bytes}
  {sigPops pkPops : List ParsedOpcode}

/-- Nothing is added for an input that is overlooked. -/
theorem sigOpShare_overlooked (hsig : parsed txIn.signatureScript = .ok sigPops) (hpk : parsed pkScript = .ok pkPops)
    (hsame : ∀ e, view.lookupEntry txIn.previousOutPoint = some e → e.pkScript = pkScript)
    (hover : Overlooked view tx txIn pkScript) : sigOpShare view tx txIn = (0, 0) := by
  unfold sigOpShare
  split_ifs with hlacks
  · rfl
  unfold inputSigOps
  split
  · rfl
  next e he =>
    have hhidden : isHTLCWithScriptHash pkPops ∨ isHTLCWitnessScript pkPops ∧ 42 < pkScript.length := by
      rcases hover with hunknown | hlacks' | hhidden
      · rw [found_eq_false.1 hunknown] at he
        cases he
      · exact absurd hlacks' hlacks
      · rwa [opcodes, parseScript_of_parsed hpk] at hhidden
    obtain ⟨hfirst, hsecond⟩ := hidden_counts hsig hpk hhidden
    rw [hsame e he, hfirst, hsecond]
    rfl

theorem sigOpShare_seen (hsame : ∀ e, view.lookupEntry txIn.previousOutPoint = some e → e.pkScript = pkScript)
    (hseen : ¬Overlooked view tx txIn pkScript) : sigOpShare view tx txIn =
      (p2shSigOps txIn.signatureScript pkScript,
        (getWitnessSigOpCount txIn.signatureScript pkScript txIn.witness).getD 0) := by
  rw [Overlooked, not_or, not_or, Bool.not_eq_false] at hseen
  obtain ⟨hfound, hlacks, -⟩ := hseen
  obtain ⟨e, he⟩ := Option.isSome_iff_exists.1 hfound
  rw [sigOpShare, if_neg hlacks]
  simp only [inputSigOps, he, hsame e he]

end

variable [DecidableEq H] [ChainHash H] [Primitives] {txs : List (MsgTx H)} {view : UtxoViewpoint H}

omit [Primitives] in
theorem unspent_fetched (hdistinct : (txs.map MsgTx.txHash).Nodup) (hne : txs ≠ []) (db : UtxoSet H)
    (height : Int) (beacon : Bool) (best : H) :
    Unspent ((newUtxoViewpoint beacon best).fetchInputUtxos db txs height) := by
  obtain ⟨needed, hfetched⟩ := fetchInputUtxos_fetched hdistinct hne db height beacon best
  intro o e he
  have hentry := lookupEntry_eq_some.1 he
  by_cases ho : o ∈ needed
  · rw [hfetched.looked_up o ho, Option.some.injEq, fetchUtxoEntry, Option.map_eq_some_iff] at hentry
    obtain ⟨d, -, rfl⟩ := hentry
    rfl
  · rcases hfetched.others o ho with hnone | ⟨_, _, -, d, -, hget⟩
    · rw [hnone] at hentry
      cases hentry
    · rw [hget, Option.some.injEq, Option.some.injEq] at hentry
      rw [← hentry]

omit [DecidableEq H] [Primitives] in
theorem checkSigOpCosts_ok {f : MsgTx H → Nat} {i total : Nat}
    (hi : i ≠ 0) (hf : ∀ tx ∈ txs, ∀ n, getSigOpCost tx false view true true = .ok n → n = f tx)
    (h : checkSigOpCosts view true i total txs = .ok ()) (htotal : total ≤ maxBlockSigOpsCost) :
    (∀ tx ∈ txs, getSigOpCost tx false view true true = .ok (f tx)) ∧ total + (txs.map f).sum ≤ maxBlockSigOpsCost := by
  induction txs generalizing i total with
  | nil => exact ⟨fun _ h => (nomatch h), htotal⟩
  | cons tx txs ih =>
    rw [forall_mem_cons] at hf
    simp only [checkSigOpCosts, hi, decide_false, ok_rules, Nat.not_lt] at h
    obtain ⟨n, hn, hle, h⟩ := h
    have heq := hf.1 n hn
    subst heq
    obtain ⟨hcosts, hsum⟩ := ih (Nat.succ_ne_zero i) hf.2 h hle
    refine ⟨forall_mem_cons.2 ⟨hn, hcosts⟩, ?_⟩
    rw [map_cons, sum_cons]
    omega

variable {stxos : Option (List SpentTxOut)}

theorem swapStructure_of_connect {tx : MsgTx H} {height : Int}
    {r : UtxoViewpoint H × Option (List SpentTxOut)} (hcb : ¬isCoinBase tx) (hswap : tx.swapTx)
    (h : view.connectTransaction tx height stxos = .ok r) : validateSwapTxStructure tx none = .ok () := by
  unfold connectTransaction at h
  rw [if_neg hcb, if_pos hswap] at h
  simp only [connectSwapTransaction, ok_rules] at h
  exact h.1

namespace BlockChain
variable {b : BlockChain H}

theorem costs_of_accept {db : UtxoSet H} {node : BlockNode H}
    (hblock : SaneBlock txs) (hbip16 : bip16Activation ≤ node.timestamp)
    (h : b.checkConnectBlock db node txs (b.freshView node) (some []) = .ok (view, stxos)) :
    (∀ tx ∈ txs.tail, getSigOpCost tx false (b.startState db node txs).view true true =
        .ok (sigOpCost (b.startState db node txs).view tx)) ∧
      (txs.tail.map (sigOpCost (b.startState db node txs).view)).sum ≤ maxBlockSigOpsCost := by
  have hunspent : Unspent (b.startState db node txs).view :=
    unspent_fetched hblock.distinct hblock.ne_nil db node.height b.isBeacon node.header.prevBlockHash
  obtain ⟨st, hchecked, -, -⟩ := checkConnectBlock_ok h
  have hswaps : ∀ tx ∈ txs.tail, tx.swapTx → validateSwapTxStructure tx none = .ok () := by
    intro tx htx hswap
    obtain ⟨pre, post, htail⟩ := append_of_mem htx
    obtain ⟨first, rest, rfl⟩ := exists_cons_of_ne_nil hblock.ne_nil
    have hsplit : first :: rest = (first :: pre) ++ tx :: post := congrArg (first :: ·) htail
    have hcb : ¬isCoinBase tx := fun hcb => nomatch (hblock.isCoinBase_iff hsplit).1 hcb
    obtain ⟨_, _, -, hconnect, -⟩ := connectTxs_split hsplit hchecked.run
    exact swapStructure_of_connect hcb hswap (connectTx_connects hconnect)
  simp only [checkConnectBlock, ok_rules, decide_eq_true hbip16] at h
  obtain ⟨-, hcosts, -⟩ := h
  change checkSigOpCosts (b.startState db node txs).view true 0 0 txs = .ok () at hcosts
  generalize (b.startState db node txs).view = fetched at *
  obtain ⟨first, rest, rfl⟩ := exists_cons_of_ne_nil hblock.ne_nil
  simp only [checkSigOpCosts, ok_rules, Nat.not_lt] at hcosts
  obtain ⟨n, -, hle, hcosts⟩ := hcosts
  obtain ⟨heach, hsum⟩ := checkSigOpCosts_ok Nat.one_ne_zero
    (fun tx htx cost hcost => getSigOpCost_eq hunspent (hswaps tx htx) hcost) hcosts hle
  exact ⟨heach, Nat.le_trans (Nat.le_add_left _ _) hsum⟩

/-- The scripts that are run for an input of an accepted block contribute their signature operations to the cost of its
transaction exactly if they have none or the counter does not overlook them. -/
theorem sigOps_counted_iff (b : BlockChain H) (given : List (MsgTx H × Int)) (s₀ : ChainState H)
    (hstart : RowsAt (Indexed given) s₀.utxos) (blocks : List (Block H)) (s : ChainState H)
    (hchain : b.acceptBlocks s₀ blocks = .ok s) (node : BlockNode H) (txs : List (MsgTx H))
    (hsanity : checkBlockSanityWF (.ok ()) node.header.maxLength node.header.merkleRoot txs = .ok ())
    (hapart : HashesApart (given.map Prod.fst ++ blocks.flatMap Block.txs ++ txs)) (view : UtxoViewpoint H)
    (stxos : Option (List SpentTxOut))
    (haccept : b.checkConnectBlock s.utxos node txs (b.freshView node) (some []) = .ok (view, stxos))
    (hcheckpoint : b.latestCheckpoint.all fun checkpoint => checkpoint.height < node.height) (st : ConnectState H)
    (hst : b.connectTxs node.height txs (b.startState s.utxos node txs) = .ok st) (j : Nat) (tx : MsgTx H)
    (htx : txs[j]? = some tx) (i : Nat) (txIn : TxIn H) (htxIn : tx.txIn[i]? = some txIn) (utxo : UtxoEntry)
    (hutxo : st.view.lookupEntry txIn.previousOutPoint = some utxo) :
    (∀ tx ∈ txs.tail, getSigOpCost tx false (b.startState s.utxos node txs).view true true =
        .ok (sigOpCost (b.startState s.utxos node txs).view tx)) ∧
      (txs.tail.map (sigOpCost (b.startState s.utxos node txs).view)).sum ≤ maxBlockSigOpsCost ∧
      ∃ ctx vm last, newEngine utxo.pkScript tx i txIn
          (scriptFlags (bip16Activation ≤ node.timestamp) node.header.version) utxo.amount
          ((st.ages.getD j []).getD i 0) = .ok (ctx, vm) ∧
        executeLoop ctx maxSteps vm = .ok last ∧
        (Counted ctx last (sigOpShare (b.startState s.utxos node txs).view tx txIn) ↔
          (Overlooked (b.startState s.utxos node txs).view tx txIn utxo.pkScript →
            ∀ script ∈ addedScripts utxo.pkScript (opcodes utxo.pkScript) (opcodes txIn.signatureScript) txIn.witness,
              SigFree script)) := by
  have hblock := checkBlockSanityWF_ok hsanity
  obtain ⟨st', hchecked, -, -⟩ := checkConnectBlock_ok haccept
  obtain rfl : st' = st := Except.ok.inj (hchecked.run.symm.trans hst)
  obtain ⟨hcreated, hindex⟩ := entries_indexed hstart hchain hsanity (append_nil _).symm hst _ _ (lookupEntry_eq_some.1 hutxo)
  -- the run of the input
  have hvalid := hchecked.validateInput_ok hcheckpoint htx htxIn hindex
  simp only [validateInput, hutxo, ok_rules] at hvalid
  obtain ⟨ctx, vm, hnew, hexec⟩ := hvalid
  simp only [execute, bind_eq_ok] at hexec
  obtain ⟨last, hlast, -⟩ := hexec
  obtain ⟨sigPops, pkPops, hstarted⟩ := newEngine_started hnew
  have hsel := newEngine_selected rfl hnew hstarted.sigParsed hstarted.pkParsed
  have hflags := (newEngine_ctx hnew).2.2
  have hbip16 : bip16Activation ≤ node.timestamp := by
    have hflag := hsel.flag
    rw [hflags] at hflag
    exact of_decide_eq_true hflag
  obtain ⟨hcosts, hlimit⟩ := costs_of_accept hblock hbip16 haccept
  refine ⟨hcosts, hlimit, ctx, vm, last, hnew, hlast, ?_⟩
  have hscripts := scripts_of_executeLoop rfl htxIn hnew hlast
  -- the costs were counted with the script that is run
  have hsame : ∀ e, (b.startState s.utxos node txs).view.lookupEntry txIn.previousOutPoint = some e →
      e.pkScript = utxo.pkScript := by
    intro e he
    have hnone : b.connectTxs node.height [] (b.startState s.utxos node txs) = .ok _ := rfl
    obtain ⟨hcreated', -⟩ := entries_indexed hstart hchain hsanity rfl hnone _ _ (lookupEntry_eq_some.1 he)
    exact CreatedBy.pkScript_eq (hashesApart_placed hapart) hcreated' hcreated
  by_cases hover : Overlooked (b.startState s.utxos node txs).view tx txIn utxo.pkScript
  · -- nothing is added for the input
    rw [sigOpShare_overlooked hstarted.sigParsed hstarted.pkParsed hsame hover, counted_zero, hscripts, forall_mem_map]
    exact ⟨fun h _ script hscript => preciseSigOps_eq_zero.1 (h script hscript),
      fun h script hscript => preciseSigOps_eq_zero.2 (h hover script hscript)⟩
  · refine iff_of_true ?_ fun h => absurd h hover
    rw [sigOpShare_seen hsame hover]
    simp only [Overlooked, not_or, not_and, Nat.not_lt, Bool.not_eq_true] at hover
    exact counted_of_seen rfl htxIn hnew hlast hover.2.2.1 hover.2.2.2

end BlockChain
end Main

section Sample

@[reducible] def paddedPrimitives : Primitives :=
  { toyPrimitives with ripemd160 := fun b => (b ++ replicate 20 0).take 20 }

attribute [local instance] sumHash paddedPrimitives

def twentyScript : Bytes := [0x00, 0x00, 0x00, 0xae]

def twentyHash : Bytes := [0xa9, 0x14] ++ hash160 Nat twentyScript ++ [0x87]

def twentyLock : Bytes := [0xb3, 0x00, 0xa0, 0x63] ++ twentyHash ++ [0x67, 0x6a, 0x68]

def twentyPush : Bytes := [0x04] ++ twentyScript

variable (pkScript : Bytes)

abbrev twentyNode : BlockNode Nat := paidNode pkScript twentyPush

abbrev twentyTxs : List (MsgTx Nat) := paidTxs pkScript twentyPush

/-- A run that accepts the block with the spend: whether its input is overlooked, what it adds to the cost, and what the
scripts behind it count. -/
def twentyRun : Except ChainError (Bool × (Nat × Nat) × List Nat) := do
  let b := toyChain Nat
  let node := twentyNode pkScript
  let tx := paidSpend pkScript twentyPush
  let txIn := paidInput pkScript twentyPush
  let s ← b.acceptBlocks (b.genesisState (payingGenesis pkScript)) [coinbaseBlock [0, 0] 1 7 8]
  let _ ← b.checkConnectBlock s.utxos node (twentyTxs pkScript) (b.freshView node) (some [])
  let st ← b.connectTxs 2 (twentyTxs pkScript) (b.startState s.utxos node (twentyTxs pkScript))
  let utxo ← orFail (.other "no output") (st.view.lookupEntry txIn.previousOutPoint)
  let (ctx, vm) ← (newEngine utxo.pkScript tx 0 txIn (scriptFlags true 1) utxo.amount
    ((st.ages.getD 1 []).getD 0 0)).mapError fun e => .other e.description
  let last ← (executeLoop ctx maxSteps vm).mapError fun e => .other e.description
  let fetched := (b.startState s.utxos node (twentyTxs pkScript)).view
  return (Overlooked fetched tx txIn utxo.pkScript, sigOpShare fetched tx txIn, (last.scripts.drop 2).map
    (countSigOps · true))

theorem twentyRun_lock : twentyRun twentyLock = .ok (true, (0, 0), [20]) := by
  decide +kernel

theorem twentyRun_hash : twentyRun twentyHash = .ok (false, (20, 0), [20]) := by
  decide +kernel

/-- The second block is accepted, and the input of its spend is run. -/
structure TwentySpent (pkScript : Bytes) (s : ChainState Nat) (st : ConnectState Nat) (utxo : UtxoEntry)
    (ctx : EngineCtx Nat) (last : Engine) : Prop where
  chain : (toyChain Nat).acceptBlocks ((toyChain Nat).genesisState (payingGenesis pkScript))
    [coinbaseBlock [0, 0] 1 7 8] = .ok s
  accepted : ∃ view stxos, (toyChain Nat).checkConnectBlock s.utxos (twentyNode pkScript) (twentyTxs pkScript)
    ((toyChain Nat).freshView (twentyNode pkScript)) (some []) = .ok (view, stxos)
  connected : (toyChain Nat).connectTxs 2 (twentyTxs pkScript)
    ((toyChain Nat).startState s.utxos (twentyNode pkScript) (twentyTxs pkScript)) = .ok st
  found : st.view.lookupEntry (paidInput pkScript twentyPush).previousOutPoint = some utxo
  run : ∃ vm, newEngine utxo.pkScript (paidSpend pkScript twentyPush) 0 (paidInput pkScript twentyPush) (scriptFlags true 1)
    utxo.amount ((st.ages.getD 1 []).getD 0 0) = .ok (ctx, vm) ∧ executeLoop ctx maxSteps vm = .ok last

def twentyShare (pkScript : Bytes) (s : ChainState Nat) : Nat × Nat :=
  sigOpShare ((toyChain Nat).startState s.utxos (twentyNode pkScript) (twentyTxs pkScript)).view
    (paidSpend pkScript twentyPush) (paidInput pkScript twentyPush)

/-- Behind the lock twenty signature operations are run that cost nothing. -/
theorem sigOps_uncounted : ∃ s st utxo ctx last, TwentySpent twentyLock s st utxo ctx last ∧
    (last.scripts.drop 2).map (countSigOps · true) = [20] ∧ ¬Counted ctx last (twentyShare twentyLock s) := by
  have hrun := twentyRun_lock
  simp only [twentyRun, ok_rules] at hrun
  obtain ⟨s, hchain, view, stxos, haccept, st, hst, utxo, hutxo, ctx, vm, hnew, last, hlast, -, hshare, hcounts⟩ := hrun
  refine ⟨s, st, utxo, ctx, last, ⟨hchain, ⟨view, stxos, haccept⟩, hst, hutxo, ⟨vm, hnew, hlast⟩⟩, hcounts, ?_⟩
  rw [twentyShare, hshare, counted_zero]
  intro hzero
  have hall : ∀ n ∈ (last.scripts.drop 2).map (countSigOps · true), n = 0 := forall_mem_map.2 hzero
  rw [hcounts] at hall
  exact absurd (hall 20 mem_cons_self) (by decide)

theorem sigOps_counted_hash : ∃ s st utxo ctx last, TwentySpent twentyHash s st utxo ctx last ∧
    Counted ctx last (twentyShare twentyHash s) := by
  have hrun := twentyRun_hash
  simp only [twentyRun, ok_rules] at hrun
  obtain ⟨s, hchain, view, stxos, haccept, st, hst, utxo, hutxo, -, -, -, -, -, hover, -, -⟩ := hrun
  obtain ⟨-, -, ctx, vm, last, hnew, hlast, hiff⟩ := sigOps_counted_iff (toyChain Nat) _ _ (payingGenesis_indexed twentyHash)
    _ s hchain (twentyNode twentyHash) (twentyTxs twentyHash) (by decide) (by unfold HashesApart; decide) view stxos haccept
    (by decide) st hst 1 (paidSpend twentyHash twentyPush) rfl 0 (paidInput twentyHash twentyPush) rfl utxo hutxo
  refine ⟨s, st, utxo, ctx, last, ⟨hchain, ⟨view, stxos, haccept⟩, hst, hutxo, ⟨vm, hnew, hlast⟩⟩, hiff.2 fun h => ?_⟩
  exact absurd h (of_decide_eq_false hover)

end Sample

end Jaxnetd.Blockchain
