import Jaxnetd.Blockchain.Accept
import Jaxnetd.TxScript.LockTime

/-!
# Lock times in blocks

`OP_CHECKLOCKTIMEVERIFY` leaves it to the rule about final transactions that the lock time has passed. That rule binds time
lock transactions (version 2) only: it wants any other transaction with a lock time not to be final yet (`final_iff`).
Below header version 4 the opcode does nothing. So it is a time lock where the comparison that it makes holds, for time
lock transactions and those without a lock time (`lockTimes_reached`).
-/

namespace Jaxnetd.Blockchain
open Wire TxScript Chaindata Checks UtxoViewpoint List

section Main
variable {H : Type} [DecidableEq H] [ChainHash H] [Primitives] {tx : MsgTx H} {flags : ScriptFlags} {txIn : TxIn H}
  {ctx : EngineCtx H} {i : Nat} {vm : Engine} {view : UtxoViewpoint H}

/-! ## The script runs of a block -/

def InputRun (st : BlockChain.ConnectState H) (flags : ScriptFlags) (txs : List (MsgTx H)) (tx : MsgTx H) (i : Nat)
    (ctx : EngineCtx H) (vm : Engine) : Prop :=
  ∃ j txIn utxo, txs[j]? = some tx ∧ tx.txIn[i]? = some txIn ∧ txIn.previousOutPoint.index ≠ maxUint32 ∧
    st.view.lookupEntry txIn.previousOutPoint = some utxo ∧
    newEngine utxo.pkScript tx i txIn flags utxo.amount ((st.ages.getD j []).getD i 0) = .ok (ctx, vm)

omit [DecidableEq H] [ChainHash H] [Primitives] in
theorem newEngine_ctx {pkScript : Bytes} {amount age : Int}
    (h : newEngine pkScript tx i txIn flags amount age = .ok (ctx, vm)) :
    ctx.tx = tx ∧ ctx.txIdx = i ∧ ctx.flags = flags := by
  simp only [newEngine, ok_rules] at h
  obtain ⟨-, -, -, _, _, -, -, -, _, -, -, _, _, -, rfl, -⟩ := h
  exact ⟨rfl, rfl, rfl⟩

section
omit [DecidableEq H]

theorem validateInputs_ok {ages : List Int} {k : Nat}
    {txIns : List (TxIn H)} (h : validateInputs view flags tx ages k txIns = .ok ())
    (htxIn : txIns[i]? = some txIn) (hindex : txIn.previousOutPoint.index ≠ maxUint32) :
    validateInput view flags tx ages (k + i) txIn = .ok () := by
  induction txIns generalizing k i with
  | nil => cases htxIn
  | cons first rest ih =>
    simp only [validateInputs, ok_rules] at h
    rcases i with _ | i
    · cases htxIn
      exact h.1 hindex
    · rw [show k + (i + 1) = k + 1 + i by omega]
      exact ih h.2 htxIn

theorem checkBlockScripts_ok {pairs : List (MsgTx H × List Int)} (h : checkBlockScripts view flags pairs = .ok ()) :
    ∀ p ∈ pairs, validateInputs view flags p.1 p.2 0 p.1.txIn = .ok () := by
  induction pairs with
  | nil => simp
  | cons p pairs ih =>
    simp only [checkBlockScripts, ok_rules] at h
    exact forall_mem_cons.2 ⟨h.1, ih h.2⟩

theorem execute_of_validateInput {ages : List Int} {utxo : UtxoEntry}
    (hutxo : view.lookupEntry txIn.previousOutPoint = some utxo)
    (hnew : newEngine utxo.pkScript tx i txIn flags utxo.amount (ages.getD i 0) = .ok (ctx, vm))
    (h : validateInput view flags tx ages i txIn = .ok ()) : execute ctx vm = .ok () := by
  simp only [validateInput, hutxo, hnew, ok_rules, exists_eq_left'] at h
  exact h

end

namespace BlockChain
variable {b : BlockChain H} {txs : List (MsgTx H)} {st : ConnectState H} {height : Int}

theorem length_ages {st' : ConnectState H}
    (h : b.connectTxs height txs st = .ok st') : st'.ages.length = st.ages.length + txs.length := by
  induction txs generalizing st with
  | nil =>
    cases h
    rfl
  | cons tx txs ih =>
    simp only [connectTxs, connectTx, ok_rules] at h
    obtain ⟨st₁, ⟨_, _, -, -, _, _, -, rfl⟩, h⟩ := h
    rw [ih h]
    simp only [length_append, length_cons, length_nil]
    omega

theorem ConnectChecked.validateInput_ok {db : UtxoSet H} {node : BlockNode H} (h : ConnectChecked b db node txs st)
    (hcheckpoint : b.latestCheckpoint.all fun checkpoint => checkpoint.height < node.height)
    {j : Nat} (htx : txs[j]? = some tx) (htxIn : tx.txIn[i]? = some txIn)
    (hindex : txIn.previousOutPoint.index ≠ maxUint32) :
    validateInput st.view (scriptFlags (bip16Activation ≤ node.timestamp) node.header.version) tx (st.ages.getD j []) i
      txIn = .ok () := by
  have hlen : st.ages.length = txs.length := by
    simpa [startState] using length_ages h.run
  have hj : j < txs.length := (List.getElem?_eq_some_iff.1 htx).1
  have hzip : (tx, st.ages.getD j []) ∈ txs.zip st.ages := by
    refine List.mem_of_getElem? (i := j) ?_
    rw [getElem?_zip_eq_some]
    exact ⟨htx, by simp [getD_eq_getElem?_getD, hlen, hj]⟩
  have hinputs := checkBlockScripts_ok (h.scripts hcheckpoint) _ hzip
  simpa using validateInputs_ok hinputs htxIn hindex

theorem ConnectChecked.execute_ok {db : UtxoSet H} {node : BlockNode H} (h : ConnectChecked b db node txs st)
    (hcheckpoint : b.latestCheckpoint.all fun checkpoint => checkpoint.height < node.height)
    (hrun : InputRun st (scriptFlags (bip16Activation ≤ node.timestamp) node.header.version) txs tx i ctx vm) :
    execute ctx vm = .ok () := by
  obtain ⟨j, txIn, utxo, htx, htxIn, hindex, hutxo, hnew⟩ := hrun
  exact execute_of_validateInput hutxo hnew (h.validateInput_ok hcheckpoint htx htxIn hindex)

/-! ## Lock times -/

/-- The lock time has passed: a height below the threshold, otherwise a time. -/
def LockReached (height median L : Int) : Prop :=
  (L < lockTimeThreshold → L < height) ∧ (lockTimeThreshold ≤ L → L < median)

/-- In the block the run of an input executes `OP_CHECKLOCKTIMEVERIFY` with the operand. -/
def RunsLock (b : BlockChain H) (s : ChainState H) (block : Block H) (ctx : EngineCtx H) (L : Int) : Prop :=
  ∃ st tx i vm, b.connectTxs (block.node s.tip).height block.txs
      (b.startState s.utxos (block.node s.tip) block.txs) = .ok st ∧
    InputRun st (scriptFlags (bip16Activation ≤ block.header.timestamp) block.header.version) block.txs tx i ctx vm ∧
    L ∈ lockTimes ctx vm

/-- What the opcode compares holds, with the flag or without it, for a transaction that the rule about final
transactions keeps back. -/
structure LockHeld (ctx : EngineCtx H) (L : Int) : Prop where
  checked : LockTimeChecked ctx L
  held : ctx.tx.version = txVerTimeLock ∨ ctx.tx.lockTime = 0

section
omit [DecidableEq H] [ChainHash H] [Primitives]
variable {median L : Int}

theorem lockReached_lockTime : LockReached height median tx.lockTime ↔
    (tx.lockTime : Int) < if tx.lockTime < lockTimeThreshold then height else median := by
  unfold LockReached
  split <;> constructor <;> omega

/-- A transaction with a lock time and an open input is final if it is a time lock whose time has passed, or no
time lock and the time has not passed. -/
theorem final_iff (hlock : tx.lockTime ≠ 0) (hsequence : ∃ txIn ∈ tx.txIn, txIn.sequence ≠ maxUint32) :
    isFinalizedTransaction tx height median ↔
      (tx.version = txVerTimeLock ↔ LockReached height median tx.lockTime) := by
  have hany : (tx.txIn.any fun txIn => txIn.sequence ≠ maxUint32) = true := by
    simpa using hsequence
  rw [lockReached_lockTime, isFinalizedTransaction, if_neg hlock]
  by_cases hpassed : (tx.lockTime : Int) < if tx.lockTime < lockTimeThreshold then height else median
  · simp [hpassed]
  · simp only [hpassed, hany, if_true, if_false, iff_false]
    simp

section
variable (h : LockTimeChecked ctx L)
include h

theorem reached_of_checked (hreached : LockReached height median ctx.tx.lockTime) : LockReached height median L := by
  have hkind := h.kind
  have hle := h.le
  obtain ⟨hheight, hmedian⟩ := hreached
  refine ⟨fun hL => ?_, fun hL => ?_⟩ <;> omega

theorem final_iff_of_checked (htxIn : ctx.tx.txIn[ctx.txIdx]? = some txIn) (hlock : ctx.tx.lockTime ≠ 0) :
    isFinalizedTransaction ctx.tx height median ↔
      (ctx.tx.version = txVerTimeLock ↔ LockReached height median ctx.tx.lockTime) := by
  refine final_iff hlock ⟨txIn, mem_of_getElem? htxIn, ?_⟩
  have hne := h.sequence
  rwa [EngineCtx.sequence, htxIn] at hne

end

theorem LockHeld.reached (h : LockHeld ctx L) (htxIn : ctx.tx.txIn[ctx.txIdx]? = some txIn) (hheight : 0 < height)
    (hfinal : isFinalizedTransaction ctx.tx height median) : LockReached height median L := by
  refine reached_of_checked h.checked ?_
  by_cases hlock : ctx.tx.lockTime = 0
  · rw [hlock]
    exact ⟨fun _ => hheight, fun hn => absurd hn (by decide)⟩
  · exact ((final_iff_of_checked h.checked htxIn hlock).1 hfinal).1 (h.held.resolve_right hlock)

end

/-- What an accepted block says about an `OP_CHECKLOCKTIMEVERIFY` that it executes. -/
theorem RunsLock.accepted {s s' : ChainState H} {block : Block H} {L : Int} (h : RunsLock b s block ctx L)
    (haccept : b.acceptBlock s block = .ok s')
    (hcheckpoint : b.latestCheckpoint.all fun checkpoint => checkpoint.height < block.header.height) :
    (∃ txIn, ctx.tx.txIn[ctx.txIdx]? = some txIn) ∧
      isFinalizedTransaction ctx.tx block.header.height (b.calcPastMedianTime s.tip) ∧
      (4 ≤ block.header.version → LockTimeChecked ctx L) := by
  obtain ⟨st, tx, i, vm, hst, hrun, hL⟩ := h
  obtain ⟨st', hacc⟩ := acceptBlock_ok haccept
  have hst' := hacc.connected.run
  rw [hst, Except.ok.injEq] at hst'
  subst hst'
  have hexec := hacc.connected.execute_ok hcheckpoint hrun
  obtain ⟨j, txIn, utxo, hj, htxIn, -, -, hnew⟩ := hrun
  obtain ⟨rfl, rfl, hflags⟩ := newEngine_ctx hnew
  refine ⟨⟨txIn, htxIn⟩, hacc.context.final ctx.tx (mem_of_getElem? hj), fun hversion => ?_⟩
  obtain ⟨vm', hvm', hat⟩ := mem_filterMap.1 hL
  simp only [execute, bind_eq_ok] at hexec
  obtain ⟨last, hloop, -⟩ := hexec
  obtain ⟨r, hstep⟩ := step_of_mem_runStates ctx hloop vm' hvm'
  refine checkLockTime_of_step ?_ hstep hat
  rw [hflags]
  simpa [scriptFlags] using hversion

/-- The operand of an `OP_CHECKLOCKTIMEVERIFY` of an accepted block has passed where the comparison of the opcode holds
and the transaction is a time lock or has no lock time. Anywhere else either the block has let the opcode do nothing
although its comparison fails, or the lock time that the opcode relies on has not passed. -/
theorem lockTimes_reached (b : BlockChain H) (s s' : ChainState H) (htip : 0 ≤ s.tip.height) (block : Block H)
    (haccept : b.acceptBlock s block = .ok s')
    (hcheckpoint : b.latestCheckpoint.all fun checkpoint => checkpoint.height < block.header.height)
    (ctx : EngineCtx H) (L : Int) (hruns : RunsLock b s block ctx L) :
    (LockHeld ctx L → LockReached block.header.height (b.calcPastMedianTime s.tip) L) ∧
    (¬LockHeld ctx L → (block.header.version < 4 ∧ ¬LockTimeChecked ctx L) ∨
      (ctx.tx.version ≠ txVerTimeLock ∧ LockTimeChecked ctx L ∧
        ¬LockReached block.header.height (b.calcPastMedianTime s.tip) ctx.tx.lockTime)) := by
  obtain ⟨⟨txIn, htxIn⟩, hfinal, hversion⟩ := hruns.accepted haccept hcheckpoint
  obtain ⟨st, hacc⟩ := acceptBlock_ok haccept
  have hheight := hacc.context.height
  refine ⟨fun h => h.reached htxIn (by omega) hfinal, fun hnot => ?_⟩
  by_cases hchecked : LockTimeChecked ctx L
  · right
    obtain ⟨htimeLock, hlock⟩ := not_or.1 fun h => hnot ⟨hchecked, h⟩
    have hiff := (final_iff_of_checked hchecked htxIn hlock).1 hfinal
    exact ⟨htimeLock, hchecked, fun hreached => htimeLock (hiff.2 hreached)⟩
  · exact Or.inl ⟨not_le.1 fun h => hchecked (hversion h), hchecked⟩

end BlockChain
end Main

section Sample
attribute [local instance] sumHash toyPrimitives

def lockUtxos : UtxoSet Nat := GoMap.empty.set ⟨5, 0⟩ ⟨5, [0x01, 0x64, 0xb1], 1, false⟩

def lockState (height : Int) : ChainState Nat := ⟨⟨(sampleBlock height 0 7 []).toNodeData, []⟩, lockUtxos⟩

def lockSpend (version : Int) (lockTime sequence : Nat) : MsgTx Nat :=
  ⟨version, [⟨⟨5, 0⟩, [], [], sequence⟩], [⟨4, [0x51]⟩], lockTime⟩

def lockBlock (version height : Int) (script : Bytes) (tx : MsgTx Nat) : Block Nat :=
  let block := sampleBlock height 7 8 [sampleCoinbase script [0x51], tx]
  { block with header := { block.header with version } }

/-- Whether the block is accepted, and the operands that the run of its second transaction checks. -/
def lockRun (s : ChainState Nat) (block : Block Nat) (tx : MsgTx Nat) (txIn : TxIn Nat) :
    Except ChainError (List Int) := do
  let _ ← (toyChain Nat).acceptBlock s block
  let st ← (toyChain Nat).connectTxs (block.node s.tip).height block.txs
    ((toyChain Nat).startState s.utxos (block.node s.tip) block.txs)
  let utxo ← orFail (.other "missing") (st.view.lookupEntry txIn.previousOutPoint)
  let (ctx, vm) ← scriptResult (newEngine utxo.pkScript tx 0 txIn
    (BlockChain.scriptFlags (BlockChain.bip16Activation ≤ block.header.timestamp) block.header.version) utxo.amount
    ((st.ages.getD 1 []).getD 0 0))
  return lockTimes ctx vm

theorem runsLock_of_run {s : ChainState Nat} {block : Block Nat} {tx : MsgTx Nat} {txIn : TxIn Nat} {L : Int}
    (htx : block.txs[1]? = some tx) (htxIn : tx.txIn[0]? = some txIn) (hindex : txIn.previousOutPoint.index ≠ maxUint32)
    (hrun : lockRun s block tx txIn = .ok [L]) : ∃ s' ctx, (toyChain Nat).acceptBlock s block = .ok s' ∧
      ctx.tx = tx ∧ ctx.txIdx = 0 ∧ (toyChain Nat).RunsLock s block ctx L := by
  simp only [lockRun, scriptResult, ok_rules] at hrun
  obtain ⟨s', haccept, st, hst, utxo, hutxo, ctx, vm, hnew, hlocks⟩ := hrun
  obtain ⟨hctx, hidx, -⟩ := newEngine_ctx hnew
  exact ⟨s', ctx, haccept, hctx, hidx, st, tx, 0, vm, hst, ⟨1, txIn, utxo, htx, htxIn, hindex, hutxo, hnew⟩,
    by simp [hlocks]⟩

/-- Height 100 is checked at height 1 and the block is accepted: with header version 1, where the opcode does
nothing, and with header version 4, for a transaction of version 1 whose lock time has not passed. -/
theorem lockTime_passed_over : ¬BlockChain.LockReached 1 ((toyChain Nat).calcPastMedianTime (lockState 0).tip) 100 ∧
    (∃ s' ctx, (toyChain Nat).acceptBlock (lockState 0) (lockBlock 1 1 [0, 0] (lockSpend 2 0 maxUint32)) = .ok s' ∧
      (toyChain Nat).RunsLock (lockState 0) (lockBlock 1 1 [0, 0] (lockSpend 2 0 maxUint32)) ctx 100) ∧
    ∃ s' ctx, (toyChain Nat).acceptBlock (lockState 0) (lockBlock 4 1 [0x51, 0] (lockSpend 1 100 0)) = .ok s' ∧
      (toyChain Nat).RunsLock (lockState 0) (lockBlock 4 1 [0x51, 0] (lockSpend 1 100 0)) ctx 100 := by
  have hnop : lockRun (lockState 0) (lockBlock 1 1 [0, 0] (lockSpend 2 0 maxUint32)) (lockSpend 2 0 maxUint32)
      (sampleInput 5 0) = .ok [100] := by
    decide
  have hunlocked : lockRun (lockState 0) (lockBlock 4 1 [0x51, 0] (lockSpend 1 100 0)) (lockSpend 1 100 0)
      ⟨⟨5, 0⟩, [], [], 0⟩ = .ok [100] := by
    decide
  refine ⟨fun h => absurd (h.1 (by decide)) (by decide), ?_, ?_⟩
  · obtain ⟨s', ctx, haccept, -, -, hruns⟩ := runsLock_of_run rfl rfl (by decide) hnop
    exact ⟨s', ctx, haccept, hruns⟩
  · obtain ⟨s', ctx, haccept, -, -, hruns⟩ := runsLock_of_run rfl rfl (by decide) hunlocked
    exact ⟨s', ctx, haccept, hruns⟩

theorem lockTimes_reached_behind : ∃ s' ctx,
    (toyChain Nat).acceptBlock (lockState 100) (lockBlock 1 101 [0, 0] (lockSpend 2 100 0)) = .ok s' ∧
    (toyChain Nat).RunsLock (lockState 100) (lockBlock 1 101 [0, 0] (lockSpend 2 100 0)) ctx 100 ∧
    BlockChain.LockReached 101 ((toyChain Nat).calcPastMedianTime (lockState 100).tip) 100 := by
  have hrun : lockRun (lockState 100) (lockBlock 1 101 [0, 0] (lockSpend 2 100 0)) (lockSpend 2 100 0)
      ⟨⟨5, 0⟩, [], [], 0⟩ = .ok [100] := by
    decide
  obtain ⟨s', ctx, haccept, hctx, hidx, hruns⟩ := runsLock_of_run rfl rfl (by decide) hrun
  have hchecked : LockTimeChecked ctx 100 := ⟨by decide, by rw [hctx]; decide, by rw [hctx]; decide,
    by rw [EngineCtx.sequence, hctx, hidx]; decide⟩
  exact ⟨s', ctx, haccept, hruns, (BlockChain.lockTimes_reached (toyChain Nat) (lockState 100) s' (by decide) _ haccept
    (by decide) ctx 100 hruns).1 ⟨hchecked, Or.inl (by rw [hctx]; rfl)⟩⟩

end Sample

end Jaxnetd.Blockchain
