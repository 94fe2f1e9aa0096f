import Jaxnetd.Lib.Walk
import Jaxnetd.Mempool.Policy

/-!
# The memory pool

`maybeAcceptTransaction` and what it calls: the transactions of the pool and the outpoints they spend, the outputs that a
transaction can see, and the replacement of transactions by others with a higher fee. The index of addresses and the
estimator of fees are left out. Calls along the transactions of the pool nest as deep as those spend each other; where there
is no room left, the program ends.
-/

namespace Jaxnetd.Mempool
open Wire TxScript Chaindata Checks Blockchain

def maxRBFSequence : Nat := 0xfffffffd

def maxReplacementEvictions : Nat := 100

structure Policy where
  maxTxVersion : Int
  disableRelayPriority : Bool
  acceptNonStd : Bool
  freeTxRelayLimit : Rat
  maxSigOpCostPerTx : Nat
  minRelayTxFee : Int
  rejectReplacement : Bool

/-- `Config`, with the decay of the rate limiter over a number of seconds, the printed form of a float, and the depth to
which calls can nest. -/
structure Config (H : Type) where
  policy : Policy
  chain : BlockChain H
  simNet : Bool
  isSegwitActive : Except ChainError Bool
  decay : Int → Rat
  formatFloat : Rat → String
  depth : Nat

/-- The chain that the pool looks at: each of its heights has a node, and each unspent output is from one of them. -/
structure ChainView (H : Type) where
  utxos : UtxoSet H
  tip : BlockNode H
  tip_height : 0 ≤ tip.height
  indexed : ∀ h, 0 ≤ h → h ≤ tip.height → (tip.ancestor h).isSome
  heights : ∀ o out, utxos.get o = some out → 0 ≤ out.height ∧ out.height ≤ tip.height

/-- `TxDesc` without the time of its arrival. -/
structure TxDesc (H : Type) where
  tx : MsgTx H
  height : Int
  fee : Int
  feePerKB : Int
  startingPriority : Rat

structure TxPool (H : Type) where
  pool : GoMap H (TxDesc H)
  orphans : GoMap H (MsgTx H)
  outpoints : GoMap (OutPoint H) (MsgTx H)
  pennyTotal : Rat
  lastPennyUnix : Int

def TxPool.new (H : Type) : TxPool H := ⟨.empty, .empty, .empty, 0, 0⟩

variable {H : Type} [ChainHash H] [DecidableEq H]

def outOfStack : Stop H := .panic "stack overflow"

def nilEntry : Stop H := .panic "nil pointer dereference"

def ownOutputs (tx : MsgTx H) : List (OutPoint H) := (List.range tx.txOut.length).map (⟨tx.txHash, ·⟩)

namespace TxPool

variable (mp : TxPool H) (hash : H)

def isTransactionInPool : Bool := (mp.pool.get hash).isSome

def isOrphanInPool : Bool := (mp.orphans.get hash).isSome

/-! ## Adding and removing -/

/-- `removeTransaction` without the redeemers. -/
def removeEntry : TxPool H :=
  match mp.pool.get hash with
  | none => mp
  | some txDesc => { mp with
      outpoints := txDesc.tx.txIn.foldl (fun m txIn => m.delete txIn.previousOutPoint) mp.outpoints
      pool := mp.pool.delete hash }

def removeAll (remove : TxPool H → MsgTx H → Except (Stop H) (TxPool H)) : List (OutPoint H) → TxPool H →
    Except (Stop H) (TxPool H)
  | [], mp => .ok mp
  | o :: outpoints, mp =>
    match mp.outpoints.get o with
    | none => removeAll remove outpoints mp
    | some txRedeemer => do
      let mp ← remove mp txRedeemer
      removeAll remove outpoints mp

/-- `removeTransaction` with the redeemers. -/
def removeRedeemers : Nat → TxPool H → MsgTx H → Except (Stop H) (TxPool H)
  | 0, _, _ => .error outOfStack
  | depth + 1, mp, tx => do
    let mp ← removeAll (removeRedeemers depth) (ownOutputs tx) mp
    return mp.removeEntry tx.txHash

def removeTransaction (depth : Nat) (mp : TxPool H) (tx : MsgTx H) (redeemers : Bool) : Except (Stop H) (TxPool H) :=
  if redeemers then removeRedeemers depth mp tx else .ok (mp.removeEntry tx.txHash)

def removeDoubleSpends (depth : Nat) (mp : TxPool H) (tx : MsgTx H) : Except (Stop H) (TxPool H) :=
  removeAll (fun mp txRedeemer => if txRedeemer.txHash = tx.txHash then .ok mp else removeRedeemers depth mp txRedeemer)
    (tx.txIn.map TxIn.previousOutPoint) mp

variable (view : UtxoViewpoint H)

def addTransaction (tx : MsgTx H) (height fee : Int) : TxDesc H × TxPool H :=
  let txD : TxDesc H := { tx, height, fee, feePerKB := (wrap64 (fee * 1000)).tdiv (getTxVirtualSize tx)
                          startingPriority := calcPriority tx view height }
  (txD, { mp with
    pool := mp.pool.set tx.txHash txD
    outpoints := tx.txIn.foldl (fun m txIn => m.set txIn.previousOutPoint tx) mp.outpoints })

/-! ## Replacement -/

/-- The loop of `signalsReplacement`, with the hashes of the transactions that are known not to signal. -/
def signalsInputs (mp : TxPool H) (visit : MsgTx H → GoMap H Unit → Except (Stop H) (Bool × GoMap H Unit)) :
    List (TxIn H) → GoMap H Unit → Except (Stop H) (Bool × GoMap H Unit)
  | [], cache => .ok (false, cache)
  | txIn :: txIns, cache =>
    if txIn.sequence ≤ maxRBFSequence then .ok (true, cache)
    else match mp.pool.get txIn.previousOutPoint.hash with
      | none => signalsInputs mp visit txIns cache
      | some unconfirmedAncestor =>
        if (cache.get txIn.previousOutPoint.hash).isSome then signalsInputs mp visit txIns cache
        else do
          let (signals, cache) ← visit unconfirmedAncestor.tx cache
          if signals then return (true, cache)
          else signalsInputs mp visit txIns (cache.set txIn.previousOutPoint.hash ())

def signalsReplacement (mp : TxPool H) : Nat → MsgTx H → GoMap H Unit → Except (Stop H) (Bool × GoMap H Unit)
  | 0, _, _ => .error outOfStack
  | depth + 1, tx, cache => mp.signalsInputs (signalsReplacement mp depth) tx.txIn cache

variable (cfg : Config H)

def isReplaceable (conflict : MsgTx H) : Except (Stop H) Bool :=
  if cfg.policy.rejectReplacement then .ok false
  else do
    let (signals, _) ← mp.signalsReplacement cfg.depth conflict .empty
    return signals

def checkDoubleSpends (mp : TxPool H) (cfg : Config H) : List (TxIn H) → Bool → Except (Stop H) Bool
  | [], isReplacement => .ok isReplacement
  | txIn :: txIns, isReplacement =>
    match mp.outpoints.get txIn.previousOutPoint with
    | none => checkDoubleSpends mp cfg txIns isReplacement
    | some conflict => do
      let replaceable ← mp.isReplaceable cfg conflict
      failIf (¬replaceable) (txRuleError .duplicate ("output " ++ txIn.previousOutPoint.string ++
        " already spent by transaction " ++ hashString conflict.txHash ++ " in the memory pool"))
      checkDoubleSpends mp cfg txIns true

def checkPoolDoubleSpend (tx : MsgTx H) : Except (Stop H) Bool :=
  mp.checkDoubleSpends cfg tx.txIn false

def parents (tx : MsgTx H) : List (MsgTx H) :=
  tx.txIn.filterMap fun txIn => (mp.pool.get txIn.previousOutPoint.hash).map TxDesc.tx

def redeemersOf (outpoints : List (OutPoint H)) : List (MsgTx H) := outpoints.filterMap mp.outpoints.get

/-- What was found from the transactions visited so far. -/
abbrev Cache (H : Type) := GoMap H (List (MsgTx H))

def txAncestors (depth : Nat) (tx : MsgTx H) (cache : Cache H) : Except (Stop H) (List (MsgTx H) × Cache H) :=
  Walk.search MsgTx.txHash mp.parents outOfStack depth tx cache

def txDescendants (depth : Nat) (tx : MsgTx H) (cache : Cache H) : Except (Stop H) (List (MsgTx H) × Cache H) :=
  Walk.search MsgTx.txHash (fun tx => mp.redeemersOf (ownOutputs tx)) outOfStack depth tx cache

def txConflicts (depth : Nat) (tx : MsgTx H) : Except (Stop H) (List (MsgTx H)) := do
  -- the descendants of each conflict are looked for with a new cache
  let (conflicts, _) ← Walk.gather MsgTx.txHash (fun conflict _ => mp.txDescendants depth conflict .empty)
    (mp.redeemersOf (tx.txIn.map TxIn.previousOutPoint)) [] .empty
  return conflicts

/-- The loop of `validateReplacement` over the conflicts: the sum of their fees. -/
def checkFeeRates (mp : TxPool H) (tx : MsgTx H) (txFeeRate : Int) : List (MsgTx H) → Int → Except (Stop H) Int
  | [], conflictsFee => .ok conflictsFee
  | conflict :: conflicts, conflictsFee => do
    let desc ← orFail nilEntry (mp.pool.get conflict.txHash)
    failIf (txFeeRate ≤ desc.feePerKB) (txRuleError .insufficientFee ("replacement transaction " ++ hashString tx.txHash ++
      " has an insufficient fee rate: needs more than " ++ toString desc.feePerKB ++ ", has " ++ toString txFeeRate))
    checkFeeRates mp tx txFeeRate conflicts (wrap64 (conflictsFee + desc.fee))

/-- The inputs of a replacement that spend from the pool something that none of the conflicts spends from. -/
def newUnconfirmed (tx : MsgTx H) (conflicts : List (MsgTx H)) : List (TxIn H) :=
  tx.txIn.filter fun txIn => mp.isTransactionInPool txIn.previousOutPoint.hash &&
    !conflicts.any fun conflict => conflict.txIn.any fun i => i.previousOutPoint.hash = txIn.previousOutPoint.hash

def validateReplacement (tx : MsgTx H) (txFee : Int) :
    Except (Stop H) (List (MsgTx H)) := do
  let conflicts ← mp.txConflicts cfg.depth tx
  failIf (maxReplacementEvictions < conflicts.length) (txRuleError .nonstandard ("replacement transaction " ++
    hashString tx.txHash ++ " evicts more transactions than permitted: max is " ++ toString maxReplacementEvictions ++
    ", evicts " ++ toString conflicts.length))
  let (ancestors, _) ← mp.txAncestors cfg.depth tx .empty
  match ancestors.find? fun ancestor => conflicts.any (·.txHash = ancestor.txHash) with
  | some ancestor => .error (txRuleError .invalid ("replacement transaction " ++ hashString tx.txHash ++
      " spends parent transaction " ++ hashString ancestor.txHash))
  | none =>
    let txSize : Int := getTxVirtualSize tx
    let conflictsFee ← mp.checkFeeRates tx ((wrap64 (txFee * 1000)).tdiv txSize) conflicts 0
    let needed := wrap64 (conflictsFee + calcMinRequiredTxRelayFee txSize cfg.policy.minRelayTxFee cfg.chain.isBeacon)
    failIf (txFee < needed) (txRuleError .insufficientFee ("replacement transaction " ++ hashString tx.txHash ++
      " has an insufficient absolute fee: needs " ++ toString needed ++ ", has " ++ toString txFee))
    match mp.newUnconfirmed tx conflicts with
    | txIn :: _ => .error (txRuleError .invalid ("replacement transaction spends new unconfirmed input " ++
        txIn.previousOutPoint.string ++ " not found in conflicting transactions"))
    | [] => return conflicts

/-- The loop that removes the conflicts; the entry of each is printed before. -/
def evict : List (MsgTx H) → TxPool H → Except (Stop H) (TxPool H)
  | [], mp => .ok mp
  | conflict :: conflicts, mp => do
    let _ ← orFail nilEntry (mp.pool.get conflict.txHash)
    evict conflicts (mp.removeEntry conflict.txHash)

/-! ## The outputs that a transaction sees -/

/-- `AddTxOut` of an output of the pool, which ignores an index out of range. -/
def addPoolOutput (o : OutPoint H) (view : UtxoViewpoint H) : UtxoViewpoint H :=
  match mp.pool.get o.hash with
  | none => view
  | some poolTxDesc =>
    match poolTxDesc.tx.txOut[o.index]? with
    | none => view
    | some txOut => view.addTxOut ⟨poolTxDesc.tx.txHash, o.index⟩ txOut (isCoinBase poolTxDesc.tx) unminedHeight

/-- The loop of `fetchInputUtxos`. -/
def addPoolOutputs (mp : TxPool H) : List (OutPoint H) → UtxoViewpoint H → UtxoViewpoint H
  | [], view => view
  | o :: outpoints, view =>
    addPoolOutputs mp outpoints <|
      if (view.lookupEntry o).any (!·.spent) then view else mp.addPoolOutput o view

variable (chain : ChainView H)

def fetchUtxoView (tx : MsgTx H) : UtxoViewpoint H :=
  (newUtxoViewpoint cfg.chain.isBeacon ChainHash.zeroHash).fetchUtxosMain chain.utxos
    (ownOutputs tx ++ if isCoinBase tx then [] else tx.txIn.map TxIn.previousOutPoint)

def fetchInputUtxos (tx : MsgTx H) : UtxoViewpoint H :=
  mp.addPoolOutputs (tx.txIn.map TxIn.previousOutPoint) (fetchUtxoView cfg chain tx)

/-- The loop that looks for the outputs of the transaction itself and takes their entries out. -/
def dropOwnOutputs : List (OutPoint H) → UtxoViewpoint H → Except (Stop H) (UtxoViewpoint H)
  | [], view => .ok view
  | o :: outpoints, view => do
    failIf ((view.lookupEntry o).any (!·.spent)) (txRuleError .duplicate "transaction already exists")
    dropOwnOutputs outpoints { view with entries := view.entries.delete o }

/-- The hashes of the entries of a view that are nil or spent: those of inputs, as the others were taken out, which the
source gives in the order of a map. -/
def missingParents (tx : MsgTx H) : List H :=
  ((tx.txIn.map TxIn.previousOutPoint).filter fun o =>
    match view.entries.get o with
    | none => false
    | some none => true
    | some (some entry) => entry.spent).map OutPoint.hash

def chainErrorText : ChainError → String
  | .rule _ description => description
  | .assert message => message
  | .script error => error.description
  | .other message => message

/-- A swap transaction may lack some of its parents. -/
def checkMissingParents (tx : MsgTx H) (missing : List H) : Except (Stop H) Unit :=
  if tx.swapTx then (validateSwapTxStructure tx (some missing.length)).mapError fun e =>
    .swap missing (chainErrorText e ++ "[" ++ ", ".intercalate (missing.map hashString) ++ "]")
  else failIf (missing ≠ []) (.orphan missing)

/-! ## `maybeAcceptTransaction` -/

def nextBlockHeight : Int := wrap32 (chain.tip.height + 1)

def medianTimePast : Int := cfg.chain.calcPastMedianTime chain.tip

def checkSegwit (tx : MsgTx H) : Except (Stop H) Unit :=
  if tx.hasWitness then do
    let segwitActive ← cfg.isSegwitActive.mapError .chain
    failIf (¬segwitActive) (txRuleError .nonstandard ("transaction " ++ hashString tx.txHash ++
      " has witness data, but segwit isn't active yet" ++
      if cfg.simNet then " (The threshold for segwit activation is 300 blocks on simnet, current best height is " ++
        toString chain.tip.height ++ ")" else ""))
  else .ok ()

def checkLocks (tx : MsgTx H) (view : UtxoViewpoint H) : Except (Stop H) Unit := do
  let sequenceLock ← (cfg.chain.calcSequenceLock chain.tip tx view true).mapError chainError
  failIf (tx.version = txVerTimeLock ∧
      ¬sequenceLockActive sequenceLock (nextBlockHeight chain) (medianTimePast cfg chain))
    (txRuleError .nonstandard "transaction's sequence locks on inputs not met")

variable [Primitives]

structure Candidate (H : Type) where
  isReplacement : Bool
  view : UtxoViewpoint H
  txFee : Int
  ages : List Int

/-- `maybeAcceptTransaction` up to the call of `CheckTransactionInputs`. -/
def checkRules (tx : MsgTx H) (rejectDupOrphans : Bool) :
    Except (Stop H) (Candidate H) := do
  checkSegwit cfg chain tx
  failIf (mp.isTransactionInPool tx.txHash ∨ rejectDupOrphans ∧ mp.isOrphanInPool tx.txHash)
    (txRuleError .duplicate ("already have transaction " ++ hashString tx.txHash))
  (checkTransactionSanity tx).mapError chainError
  failIf (isCoinBase tx) (txRuleError .invalid ("transaction " ++ hashString tx.txHash ++ " is an individual coinbase"))
  checkWhen (¬cfg.policy.acceptNonStd) ((checkTransactionStandard tx (nextBlockHeight chain) (medianTimePast cfg chain)
    cfg.policy.minRelayTxFee cfg.policy.maxTxVersion).mapError
      (TxRuleError.within ("transaction " ++ hashString tx.txHash ++ " is not standard: ")))
  let isReplacement ← mp.checkPoolDoubleSpend cfg tx
  let view ← dropOwnOutputs (ownOutputs tx) (mp.fetchInputUtxos cfg chain tx)
  checkMissingParents tx (missingParents view tx)
  checkLocks cfg chain tx view
  let (txFee, ages) ← (checkTransactionInputs tx (nextBlockHeight chain) view cfg.chain.coinbaseMaturity).mapError
    chainError
  return { isReplacement, view, txFee, ages }

def checkSigOps (tx : MsgTx H) (view : UtxoViewpoint H) : Except (Stop H) Unit := do
  let sigOpCost ← (getSigOpCost tx false view true true).mapError chainError
  failIf (cfg.policy.maxSigOpCostPerTx < sigOpCost) (txRuleError .nonstandard ("transaction " ++ hashString tx.txHash ++
    " sigop cost is too high: " ++ toString sigOpCost ++ " > " ++ toString cfg.policy.maxSigOpCostPerTx))

def checkFee (tx : MsgTx H) (view : UtxoViewpoint H) (txFee minFee : Int)
    (isNew : Bool) : Except (Stop H) Unit := do
  failIf (defaultBlockPrioritySize - 1000 ≤ getTxVirtualSize tx ∧ txFee < minFee) (txRuleError .insufficientFee
    ("transaction " ++ hashString tx.txHash ++ " has " ++ toString txFee ++
      " fees which is under the required amount of " ++ toString minFee))
  let currentPriority := calcPriority tx view (nextBlockHeight chain)
  failIf (isNew ∧ ¬cfg.policy.disableRelayPriority ∧ txFee < minFee ∧ currentPriority ≤ minHighPriority)
    (txRuleError .insufficientFee ("transaction " ++ hashString tx.txHash ++ " has insufficient priority (" ++
      cfg.formatFloat currentPriority ++ " <= " ++ cfg.formatFloat minHighPriority ++ ")"))

def minFee (tx : MsgTx H) : Int :=
  calcMinRequiredTxRelayFee (getTxVirtualSize tx) cfg.policy.minRelayTxFee cfg.chain.isBeacon

/-- `maybeAcceptTransaction` from the inputs to the priority. -/
def checkPolicy (tx : MsgTx H) (candidate : Candidate H) (isNew : Bool) :
    Except (Stop H) Unit := do
  checkWhen (¬cfg.policy.acceptNonStd) (checkInputsStandard
    ("transaction " ++ hashString tx.txHash ++ " has a non-standard input: ") candidate.view 0 tx.txIn)
  checkSigOps cfg tx candidate.view
  checkFee cfg chain tx candidate.view candidate.txFee (minFee cfg tx) isNew

/-- The rate limiter for free transactions, at a time in seconds. -/
def limitRate (tx : MsgTx H) (nowUnix : Int) : Except (Stop H) Unit × TxPool H :=
  let pennyTotal := BinFloat.round64 (mp.pennyTotal * cfg.decay (nowUnix - mp.lastPennyUnix))
  if BinFloat.round64 (BinFloat.round64 (cfg.policy.freeTxRelayLimit * 10) * 1000) ≤ pennyTotal then
    (.error (txRuleError .insufficientFee ("transaction " ++ hashString tx.txHash ++
      " has been rejected by the rate limiter due to low fees")), { mp with pennyTotal, lastPennyUnix := nowUnix })
  else (.ok (), { mp with pennyTotal := BinFloat.round64 (pennyTotal + (getTxVirtualSize tx : Rat)),
                          lastPennyUnix := nowUnix })

def standardVerifyFlags : ScriptFlags where
  bip16 := true
  strictMultiSig := true
  discourageUpgradableNops := true
  verifyCheckLockTimeVerify := true
  verifyCheckSequenceVerify := true
  verifyCleanStack := true
  verifyDERSignatures := true
  verifyLowS := true
  verifyMinimalData := true
  verifyNullFail := true
  verifyStrictEncoding := true
  verifyWitness := true
  verifyDiscourageUpgradeableWitnessProgram := true
  verifyMinimalIf := true
  verifyWitnessPubKeyType := true

/-- The engine of an input ends in an index out of range. -/
def scriptPanics (tx : MsgTx H) (ages : List Int) (txInIdx : Nat) (txIn : TxIn H) : Bool :=
  match view.lookupEntry txIn.previousOutPoint with
  | none => false
  | some utxo =>
    match newEngine utxo.pkScript tx txInIdx txIn standardVerifyFlags utxo.amount (ages.getD txInIdx 0) with
    | .error _ => false
    | .ok (ctx, vm) => (runStates ctx maxSteps vm).any (stepPanics ctx)

def validateTransactionScripts (tx : MsgTx H) (view : UtxoViewpoint H) (ages : List Int) : Except (Stop H) Unit := do
  failIf (tx.txIn.zipIdx.any fun p => scriptPanics view tx ages p.2 p.1) (.panic "index out of range")
  (validateInputs view standardVerifyFlags tx ages 0 tx.txIn).mapError chainError

def replaced (tx : MsgTx H) (candidate : Candidate H) :
    Except (Stop H) (List (MsgTx H)) :=
  if candidate.isReplacement then mp.validateReplacement cfg tx candidate.txFee else .ok []

/-- `maybeAcceptTransaction` behind the rate limiter. -/
def commit (tx : MsgTx H) (candidate : Candidate H) :
    Except (Stop H) (TxDesc H × TxPool H) := do
  let conflicts ← mp.replaced cfg tx candidate
  validateTransactionScripts tx candidate.view candidate.ages
  let mp ← evict conflicts mp
  return mp.addTransaction candidate.view tx chain.tip.height candidate.txFee

def maybeAcceptTransaction (tx : MsgTx H)
    (isNew rateLimit rejectDupOrphans : Bool) (nowUnix : Int) : Except (Stop H) (TxDesc H) × TxPool H :=
  match mp.checkRules cfg chain tx rejectDupOrphans with
  | .error e => (.error e, mp)
  | .ok candidate =>
    match checkPolicy cfg chain tx candidate isNew with
    | .error e => (.error e, mp)
    | .ok () =>
      match if rateLimit && candidate.txFee < minFee cfg tx then mp.limitRate cfg tx nowUnix else (.ok (), mp) with
      | (.error e, mp) => (.error e, mp)
      | (.ok (), mp) =>
        match mp.commit cfg chain tx candidate with
        | .error e => (.error e, mp)
        | .ok (txD, mp) => (.ok txD, mp)

end TxPool

end Jaxnetd.Mempool
