import Jaxnetd.Chaindata.Validate

/-!
# Connecting a block

`checkBlockContext` and `checkConnectBlock` (`blockchain/validate.go`) with the sequence locks (`chain.go`),
the checkpoints and the versions of headers. The difficulty and the `K` that the chain expects, the rule
for votes, the checkpoint found last and the subsidy are functions of a `BlockChain`: other parts of the
package compute them.
-/

namespace Jaxnetd.Blockchain
open Wire TxScript Chaindata Checks UtxoViewpoint

/-- What the validation reads of a `BlockHeader`; the number of shards is that of its beacon header. -/
structure BlockHeader (H : Type) where
  version : Int
  height : Int
  chainWeight : Int
  prevBlockHash : H
  merkleRoot : H
  timestamp : Int
  bits : Nat
  k : Nat
  voteK : Nat
  shards : Nat
  blockHash : H
  maxLength : Nat
deriving DecidableEq

structure NodeData (H : Type) where
  header : BlockHeader H
  workSum : Int
  powWeight : Int

/-- `IBlockNode`: a block with its ancestors, the parent first. -/
structure BlockNode (H : Type) extends NodeData H where
  ancestors : List (NodeData H)

namespace BlockNode
variable {H : Type} (node : BlockNode H)

def height : Int := node.header.height

def timestamp : Int := node.header.timestamp

def parent : Option (BlockNode H) :=
  match node.ancestors with
  | [] => none
  | p :: ancestors => some ⟨p, ancestors⟩

/-- The walk of `Ancestor` along the parents. -/
def walkTo (height : Int) : List (NodeData H) → Option (BlockNode H)
  | [] => none
  | n :: ns => if n.header.height = height then some ⟨n, ns⟩ else walkTo height ns

def ancestor (height : Int) : Option (BlockNode H) :=
  if height < 0 ∨ node.height < height then none else walkTo height (node.toNodeData :: node.ancestors)

def calcPastMedianTimeForN (nBlocks : Nat) : Int :=
  let timestamps := ((node.toNodeData :: node.ancestors).take nBlocks).map fun n => n.header.timestamp
  (timestamps.insertionSort (· ≤ ·)).getD (timestamps.length / 2) 0

end BlockNode

structure Checkpoint (H : Type) where
  height : Int
  hash : H

/-- The chain with its parameters and what other parts of the package compute for the validation. -/
structure BlockChain (H : Type) where
  isBeacon : Bool
  mainNet : Bool
  fastTestNet : Bool
  autoExpand : Bool
  initialExpansionRule : Int
  initialExpansionLimit : Int
  coinbaseMaturity : Nat
  checkpoints : List (Checkpoint H)
  findPreviousCheckpoint : Except ChainError (Option (BlockNode H))
  calcNextRequiredDifficulty : BlockNode H → Int → Except ChainError Nat
  calcNextK : BlockNode H → Nat
  validateVoteK : BlockHeader H → Except String Unit
  expansionApproved : BlockNode H → Bool
  calcBlockSubsidy : Int → Nat → BlockHeader H → Int
  subsidy_int64 : ∀ height bits header,
    -2 ^ 63 ≤ calcBlockSubsidy height bits header ∧ calcBlockSubsidy height bits header < 2 ^ 63

def toyChain (H : Type) : BlockChain H where
  isBeacon := true
  mainNet := false
  fastTestNet := false
  autoExpand := false
  initialExpansionRule := 1
  initialExpansionLimit := 0
  coinbaseMaturity := 0
  checkpoints := []
  findPreviousCheckpoint := .ok none
  calcNextRequiredDifficulty _ _ := .ok 0
  calcNextK _ := 0
  validateVoteK _ := .ok ()
  expansionApproved _ := false
  calcBlockSubsidy _ _ _ := 10
  subsidy_int64 := by omega

def compactToBig (compact : Nat) : Int :=
  let mantissa := compact &&& 0x007fffff
  let exponent := compact >>> 24
  let bn := if exponent ≤ 3 then mantissa >>> (8 * (3 - exponent)) else mantissa <<< (8 * (exponent - 3))
  if compact &&& 0x00800000 ≠ 0 then -(bn : Int) else bn

/-! ## Versions of headers -/

def expansionMadeBit : Nat := 4

def expansionMade (version : Int) : Bool := version / expansionMadeBit % 2 = 1

def legacyBlockVersion : Int := 1

def expansionEpochLength : Int := 1024

variable {H : Type}

/-- `calcNextBlockVersion`. The two bits cleared at the start are not set then. -/
def calcNextBlockVersion (b : BlockChain H) (prevNode : Option (BlockNode H)) : Int :=
  match prevNode with
  | none => legacyBlockVersion
  | some prev =>
    if !b.isBeacon then prev.header.version
    else
      let made := legacyBlockVersion + expansionMadeBit
      let limitExceeded := 0 < b.initialExpansionLimit ∧ b.initialExpansionLimit < prev.header.shards
      let allowed := ¬limitExceeded ∧ prev.height % b.initialExpansionRule = 0 ∧ prev.height ≠ 0
      if !b.mainNet then if b.autoExpand ∧ allowed then made else legacyBlockVersion
      else if b.autoExpand ∧ allowed then made
      else if (prev.height + 1) % expansionEpochLength ≠ 0 then legacyBlockVersion
      else if b.expansionApproved prev then made
      else legacyBlockVersion

namespace BlockChain
variable (b : BlockChain H)

/-- `CalcPastMedianTime`, over the number of blocks of the kind of chain. -/
def calcPastMedianTime (node : BlockNode H) : Int := node.calcPastMedianTimeForN (if b.isBeacon then 11 else 23)

def latestCheckpoint : Option (Checkpoint H) := b.checkpoints.getLast?

variable [DecidableEq H]

def verifyCheckpoint (height : Int) (hash : H) : Bool :=
  match b.checkpoints.reverse.find? fun c => c.height = height with
  | some checkpoint => checkpoint.hash = hash
  | none => true

/-! ## The context of a block -/

/-- The rules of `checkBlockHeaderContext` that a block from the fast path is excused from. -/
def checkHeaderRules (header : BlockHeader H) (prevNode : BlockNode H) : Except ChainError Unit := do
  let expectedDifficulty ← b.calcNextRequiredDifficulty prevNode header.timestamp
  let blockDifficultyLess := compactToBig expectedDifficulty < compactToBig header.bits
  failIf (b.isBeacon ∧ header.bits ≠ expectedDifficulty ∨ ¬b.isBeacon ∧ blockDifficultyLess)
    (.rule .unexpectedDifficulty ("block difficulty of " ++ toString header.bits ++
      " is not the expected value of " ++ toString expectedDifficulty ++ ", with time(" ++
      toString header.timestamp ++ ")"))
  let medianTime := b.calcPastMedianTime prevNode
  failIf (header.timestamp ≤ medianTime ∧ ¬b.fastTestNet) (.rule .timeTooOld ("block timestamp of " ++
    toString header.timestamp ++ " is not after expected " ++ toString medianTime))
  if b.isBeacon then
    let shardsDelta : Int := header.shards - prevNode.header.shards
    failIf (shardsDelta = 1 ∧ ¬expansionMade header.version)
      (.rule .unexpectedShardsValue "expansion not made, shards count increased")
    failIf (shardsDelta ≠ 0 ∧ shardsDelta ≠ 1) (.rule .unexpectedShardsValue "shards count is invalid")
    let expectedK := b.calcNextK prevNode
    failIf (expectedK ≠ header.k) (.rule .unexpectedKValue ("block K value of " ++ toString header.k ++
      " is not the expected value of " ++ toString expectedK ++ ", with time(" ++ toString header.timestamp ++
      ") at height(" ++ toString (prevNode.height + 1) ++ ")"))
    if 3 < prevNode.height then (b.validateVoteK header).mapError (.rule .unexpectedKValue) else .ok ()
  else .ok ()

def checkBlockHeaderContext (header : BlockHeader H) (prevNode : BlockNode H) (fastAdd : Bool) :
    Except ChainError Unit := do
  -- the message names the height of the parent as the expected one
  failIf (header.height ≠ prevNode.height + 1) (.rule .invalidBlockHeightValue
    ("block height is invalid: expected=" ++ toString prevNode.height ++ " actual=" ++ toString header.height))
  failIf (header.chainWeight ≠ prevNode.workSum) (.rule .invalidChainWeightValue
    ("block prevChainWeight is invalid: expected=" ++ toString prevNode.workSum ++ " actual=" ++
      toString header.chainWeight))
  let sum := prevNode.powWeight + prevNode.header.chainWeight
  failIf (header.chainWeight ≠ sum) (.rule .invalidChainWeightValue
    ("block prevChainWeight [sum] is invalid: expected=" ++ toString prevNode.workSum ++ " actual=" ++
      toString sum))
  checkWhen (¬fastAdd) (b.checkHeaderRules header prevNode)
  let blockHeight := prevNode.height + 1
  failIf (¬b.verifyCheckpoint blockHeight header.blockHash) (.rule .badCheckpoint ("block at height " ++
    toString blockHeight ++ " does not match checkpoint hash"))
  match ← b.findPreviousCheckpoint with
  | none => return ()
  | some checkpointNode => failIf (blockHeight < checkpointNode.height) (.rule .forkTooOld ("block at height " ++
      toString blockHeight ++ " forks the main chain before the previous checkpoint at height " ++
      toString checkpointNode.height))

section
variable [ChainHash H]

/-- The loop of `checkBlockContext` that wants every transaction to be final. -/
def checkFinalized (blockHeight blockTime : Int) : List (MsgTx H) → Except ChainError Unit
  | [] => .ok ()
  | tx :: txs => do
    failIf (¬isFinalizedTransaction tx blockHeight blockTime)
      (.rule .unfinalizedTx ("block contains unfinalized transaction " ++ hashString tx.txHash))
    checkFinalized blockHeight blockTime txs

variable (header : BlockHeader H) (txs : List (MsgTx H))

def getBlockWeight : Nat :=
  let overhead := header.maxLength + varIntSerializeSize txs.length
  let baseSize := overhead + (txs.map MsgTx.serializeSizeStripped).sum
  let totalSize := overhead + (txs.map MsgTx.serializeSize).sum
  baseSize * (witnessScaleFactor - 1) + totalSize

/-- The rules of `checkBlockContext` that a block from the fast path is excused from. The deployments of lock times and of
witnesses are always active, so lock times are compared with the median time of the parent. -/
def checkTransactionContext (prevNode : BlockNode H) :
    Except ChainError Unit := do
  let blockHeight := prevNode.height + 1
  checkFinalized blockHeight (b.calcPastMedianTime prevNode) txs
  checkWhen (2 ≤ header.version) (match txs with
    | [] => .error (.other "index out of range")
    | coinbaseTx :: _ => checkSerializedHeight coinbaseTx blockHeight)
  validateWitnessCommitment txs
  failIf (maxBlockWeight < getBlockWeight header txs) (.rule .blockWeightTooHigh
    ("block's weight metric is too high - got " ++ toString (getBlockWeight header txs) ++ ", max " ++
      toString maxBlockWeight))

def checkBlockContext (prevNode : BlockNode H) (fastAdd : Bool) :
    Except ChainError Unit := do
  b.checkBlockHeaderContext header prevNode fastAdd
  checkWhen (¬fastAdd) (b.checkTransactionContext header txs prevNode)

/-! ## Sequence locks -/

/-- One round of the loop of `calcSequenceLock`, at an input that spends an output of height
`inputHeight`. -/
def inputLock (node : BlockNode H) (inputHeight : Int) (sequence : Nat) (lock : SequenceLock) :
    Except ChainError SequenceLock :=
  let relativeLock : Int := (sequence &&& sequenceLockTimeMask : Nat)
  if sequence &&& sequenceLockTimeDisabled = sequenceLockTimeDisabled then .ok lock
  else if sequence &&& sequenceLockTimeIsSeconds = sequenceLockTimeIsSeconds then do
    let blockNode ← orFail (.other "nil block node") (node.ancestor (max (inputHeight - 1) 0))
    let timeLockSeconds := relativeLock * 2 ^ sequenceLockTimeGranularity - 1
    return { lock with seconds := max lock.seconds (b.calcPastMedianTime blockNode + timeLockSeconds) }
  else return { lock with blockHeight := max lock.blockHeight (wrap32 (inputHeight + (relativeLock - 1))) }

/-- The loop of `calcSequenceLock`. An output at the height `0x7fffffff` is one of the memory pool. -/
def lockInputs (node : BlockNode H) (tx : MsgTx H) (view : UtxoViewpoint H) :
    Nat → List (TxIn H) → SequenceLock → Except ChainError SequenceLock
  | _, [], lock => .ok lock
  | i, txIn :: txIns, lock =>
    match view.lookupEntry txIn.previousOutPoint with
    | none =>
      if tx.swapTx then lockInputs node tx view (i + 1) txIns lock
      else .error (missingOutput txIn.previousOutPoint tx i)
    | some utxo => do
      let inputHeight := if utxo.height = 0x7fffffff then node.height + 1 else utxo.height
      let lock ← b.inputLock node inputHeight txIn.sequence lock
      lockInputs node tx view (i + 1) txIns lock

/-- `calcSequenceLock`. The locks are only computed for the memory pool: the lookup of the deployment for blocks is
commented out in the source. -/
def calcSequenceLock (node : BlockNode H) (tx : MsgTx H) (view : UtxoViewpoint H) (mempool : Bool) :
    Except ChainError SequenceLock :=
  let csvSoftforkActive := mempool
  if ¬(tx.version = txVerTimeLock ∧ csvSoftforkActive) ∨ isCoinBase tx then .ok ⟨-1, -1⟩
  else b.lockInputs node tx view 0 tx.txIn ⟨-1, -1⟩

/-- The loop of `checkConnectBlock` over the sequence locks. -/
def checkSequenceLocks (node : BlockNode H) (medianTime : Int) (view : UtxoViewpoint H) :
    List (MsgTx H) → Except ChainError Unit
  | [] => .ok ()
  | tx :: txs => do
    let sequenceLock ← b.calcSequenceLock node tx view false
    failIf (tx.version = txVerTimeLock ∧ ¬sequenceLockActive sequenceLock node.height medianTime)
      (.rule .unfinalizedTx "block contains transaction whose input sequence locks are not met")
    checkSequenceLocks node medianTime view txs

/-! ## `checkConnectBlock` -/

structure ConnectState (H : Type) where
  view : UtxoViewpoint H
  stxos : Option (List SpentTxOut)
  totalFees : Int
  ages : List (List Int)

/-- The loop of `checkConnectBlock` over the costs of the signature operations. -/
def checkSigOpCosts (view : UtxoViewpoint H) (enforceBIP0016 : Bool) :
    Nat → Nat → List (MsgTx H) → Except ChainError Unit
  | _, _, [] => .ok ()
  | i, total, tx :: txs => do
    let sigOpCost ← getSigOpCost tx (i = 0) view enforceBIP0016 true
    failIf (maxBlockSigOpsCost < total + sigOpCost) (.rule .tooManySigOps
      ("block contains too many signature operations - got " ++ toString (total + sigOpCost) ++ ", max " ++
        toString maxBlockSigOpsCost))
    checkSigOpCosts view enforceBIP0016 (i + 1) (total + sigOpCost) txs

variable [Primitives]

def connectTx (height : Int) (st : ConnectState H) (tx : MsgTx H) : Except ChainError (ConnectState H) := do
  let (txFee, ages) ← checkTransactionInputs tx height st.view b.coinbaseMaturity
  let totalFees := wrap64 (st.totalFees + txFee)
  failIf (totalFees < st.totalFees) (.rule .badFees "total fees for block overflows accumulator")
  let (view, stxos) ← st.view.connectTransaction tx height st.stxos
  return { view, stxos, totalFees, ages := st.ages ++ [ages] }

def connectTxs (height : Int) : List (MsgTx H) → ConnectState H → Except ChainError (ConnectState H)
  | [], st => .ok st
  | tx :: txs, st => do
    let st ← b.connectTx height st tx
    connectTxs height txs st

def scriptFlags (enforceBIP0016 : Bool) (version : Int) : ScriptFlags :=
  { bip16 := enforceBIP0016
    verifyDERSignatures := 3 ≤ version
    verifyCheckLockTimeVerify := 4 ≤ version
    verifyCheckSequenceVerify := true
    verifyWitness := true
    strictMultiSig := true }

def bip16Activation : Int := 1333238400

/-- `checkConnectBlock` for the block of a node over the database: the view and the list of spent outputs afterwards. -/
def checkConnectBlock (db : UtxoSet H) (node : BlockNode H) (txs : List (MsgTx H)) (view : UtxoViewpoint H)
    (stxos : Option (List SpentTxOut)) : Except ChainError (UtxoViewpoint H × Option (List SpentTxOut)) := do
  failIf (view.bestHash ≠ node.header.prevBlockHash) (.assert
    ("inconsistent view when checking block connection: best hash is " ++ hashString view.bestHash ++
      " instead of expected " ++ hashString node.header.prevBlockHash))
  let view := view.fetchInputUtxos db txs node.height
  let enforceBIP0016 : Bool := bip16Activation ≤ node.timestamp
  checkSigOpCosts view enforceBIP0016 0 0 txs
  let st ← b.connectTxs node.height txs ⟨view, stxos, 0, []⟩
  let coinbaseTx ← orFail (.other "index out of range") txs.head?
  let totalSatoshiOut := sumValues coinbaseTx.txOut
  let reward := b.calcBlockSubsidy node.height node.header.bits node.header
  let expectedSatoshiOut := wrap64 (reward + st.totalFees)
  failIf (expectedSatoshiOut < totalSatoshiOut) (.rule .badCoinbaseValue ("coinbase transaction for block pays " ++
    toString totalSatoshiOut ++ " which is more than expected value of " ++ toString expectedSatoshiOut))
  let parent ← orFail (.other "nil block node") node.parent
  b.checkSequenceLocks node (b.calcPastMedianTime parent) st.view txs
  let runScripts := b.latestCheckpoint.all fun checkpoint => checkpoint.height < node.height
  checkWhen runScripts
    (checkBlockScripts st.view (scriptFlags enforceBIP0016 node.header.version) (txs.zip st.ages))
  return ({ st.view with bestHash := node.header.blockHash }, st.stxos)

end

end BlockChain

end Jaxnetd.Blockchain
