import Jaxnetd.Chaindata.UtxoView
import Jaxnetd.TxScript.Engine

/-!
# Validation of transactions

The rules of `validate.go`, `weight.go`, `merkle.go` and `scriptval.go` in the package `chaindata`. Amounts
are 64-bit integers in the source: sums that a rule does not bound wrap around (`wrap64`).
-/

namespace Jaxnetd.Chaindata
open Wire TxScript Checks UtxoViewpoint ChainHash

def wrap64 (x : Int) : Int := (x + 2 ^ 63) % 2 ^ 64 - 2 ^ 63

def wrap32 (x : Int) : Int := (x + 2 ^ 31) % 2 ^ 32 - 2 ^ 31

def maxCoinAmount : Int := 21000000 * 100000000

def maxBlockWeight : Nat := 4000000

def maxBlockBaseSize : Nat := 1000000

def maxBlockSigOpsCost : Nat := 80000

def witnessScaleFactor : Nat := 4

/-- The sum of the values of some outputs, as a loop over an `int64` adds them. -/
def sumValues (outs : List TxOut) : Int := outs.foldl (fun total out => wrap64 (total + out.value)) 0

variable {H : Type} [DecidableEq H] [ChainHash H]

/-! ## Lock times -/

variable (tx : MsgTx H)

/-- `IsFinalizedTransaction`. Only transactions of the version for lock times wait for it; the others are rejected once it
has passed. -/
def isFinalizedTransaction (blockHeight blockTime : Int) : Bool :=
  if tx.lockTime = 0 then true
  else
    let blockTimeOrHeight := if tx.lockTime < lockTimeThreshold then blockHeight else blockTime
    let timeLockTx : Bool := tx.version = txVerTimeLock
    if (tx.lockTime : Int) < blockTimeOrHeight then timeLockTx
    else if tx.txIn.any fun txIn => txIn.sequence ≠ maxUint32 then !timeLockTx
    else true

structure SequenceLock where
  seconds : Int
  blockHeight : Int
deriving DecidableEq, Repr

def sequenceLockActive (lock : SequenceLock) (blockHeight medianTimePast : Int) : Bool :=
  !(medianTimePast ≤ lock.seconds || blockHeight ≤ lock.blockHeight)

/-! ## Sanity -/

/-- The loop of `CheckTransactionSanity` over the outputs. -/
def checkOutputValues : Int → List TxOut → Except ChainError Unit
  | _, [] => .ok ()
  | totalDimes, txOut :: txOuts => do
    let dime := txOut.value
    failIf (dime < 0) (.rule .badTxOutValue ("transaction output has negative value of " ++ toString dime))
    failIf (maxCoinAmount < dime) (.rule .badTxOutValue ("transaction output value of " ++ toString dime ++
      " is higher than max allowed value of " ++ toString maxCoinAmount))
    let totalDimes := wrap64 (totalDimes + dime)
    failIf (totalDimes < 0) (.rule .badTxOutValue
      ("total value of all transaction outputs exceeds max allowed value of " ++ toString maxCoinAmount))
    failIf (maxCoinAmount < totalDimes) (.rule .badTxOutValue ("total value of all transaction outputs is " ++
      toString totalDimes ++ " which is higher than max allowed value of " ++ toString maxCoinAmount))
    checkOutputValues totalDimes txOuts

def isNullOutpoint (o : OutPoint H) : Bool := o.index = maxUint32 && o.hash = zeroHash

def checkTransactionSanity : Except ChainError Unit := do
  failIf (tx.txIn = []) (.rule .noTxInputs "transaction has no inputs")
  failIf (tx.txOut = []) (.rule .noTxOutputs "transaction has no outputs")
  checkWhen tx.swapTx (validateSwapTxStructure tx none)
  failIf (maxBlockBaseSize < tx.serializeSizeStripped) (.rule .txTooBig ("serialized transaction is too big - got " ++
    toString tx.serializeSizeStripped ++ ", max " ++ toString maxBlockBaseSize))
  checkOutputValues 0 tx.txOut
  failIf (¬(tx.txIn.map TxIn.previousOutPoint).Nodup)
    (.rule .duplicateTxInputs "transaction contains duplicate inputs")
  if isCoinBase tx then
    let slen := (tx.txIn.headD ⟨⟨zeroHash, 0⟩, [], [], 0⟩).signatureScript.length
    failIf (slen < 2 ∨ 100 < slen) (.rule .badCoinbaseScriptLen ("coinbase transaction script length of " ++
      toString slen ++ " is out of range (min: 2, max: 100)"))
  else
    failIf (tx.txIn.any (fun txIn => isNullOutpoint txIn.previousOutPoint) ∧ ¬tx.swapTx)
      (.rule .badTxInput "transaction input refers to previous output that is null")

/-! ## Merkle trees -/

def hashMerkleBranches (left right : H) : H := doubleHashH (bytes left ++ bytes right)

def parentAt (merkles : List (Option H)) (i : Nat) : Option H :=
  match merkles.getD i none, merkles.getD (i + 1) none with
  | none, _ => none
  | some left, none => some (hashMerkleBranches left left)
  | some left, some right => some (hashMerkleBranches left right)

/-- The loop over the array, for the given number of rounds. -/
def storeLoop : Nat → Nat → Nat → List (Option H) → List (Option H)
  | 0, _, _, merkles => merkles
  | n + 1, i, offset, merkles => storeLoop n (i + 2) (offset + 1) (merkles.set offset (parentAt merkles i))

/-- `chainhash.BuildMerkleTreeStore`: `i` takes the even numbers below `arraySize - 1`. -/
def buildMerkleTreeStore (hashes : List H) : List (Option H) :=
  let nextPoT := nextPowerOfTwo hashes.length
  let arraySize := nextPoT * 2 - 1
  let merkles := hashes.map some ++ List.replicate (arraySize - hashes.length) none
  storeLoop (arraySize / 2) 0 nextPoT merkles

variable (txs : List (MsgTx H))

def txHashes (witness : Bool) : List H :=
  txs.mapIdx fun i tx => if witness then if i = 0 then zeroHash else tx.witnessHash else tx.txHash

/-- The last element of the store. -/
def merkleRoot (witness : Bool) : H :=
  (buildMerkleTreeStore (txHashes txs witness)).getLast?.join.getD zeroHash

def witnessMagicBytes : Bytes := [UInt8.ofNat OP_RETURN, 0x24, 0xaa, 0x21, 0xa9, 0xed]

/-- `ExtractWitnessCommitment`: the last output of the coinbase that has the form of a commitment. -/
def extractWitnessCommitment : Option Bytes :=
  if !isCoinBase tx then none
  else (tx.txOut.reverse.find? fun out =>
    38 ≤ out.pkScript.length && witnessMagicBytes.isPrefixOf out.pkScript).map fun out =>
      (out.pkScript.take 38).drop witnessMagicBytes.length

def validateWitnessCommitment : Except ChainError Unit :=
  match txs with
  | [] => .error (.rule .noTransactions "cannot validate witness commitment of block without transactions")
  | coinbaseTx :: _ =>
    match coinbaseTx.txIn with
    | [] => .error (.rule .noTxInputs "transaction has no inputs")
    | txIn :: _ =>
      match extractWitnessCommitment coinbaseTx with
      | none => failIf (txs.any MsgTx.hasWitness) (.rule .unexpectedWitness
          "block contains transaction with witness data, yet no witness commitment present")
      | some witnessCommitment =>
        match txIn.witness with
        | [witnessNonce] => do
          failIf (witnessNonce.length ≠ 32) (.rule .invalidWitnessCommitment
            ("the coinbase transaction witness nonce has " ++ toString witnessNonce.length ++
              " bytes when it must be 32 bytes"))
          let computed := doubleHashB H (bytes (merkleRoot txs true) ++ witnessNonce)
          failIf (computed ≠ witnessCommitment) (.rule .witnessCommitmentMismatch
            ("witness commitment does not match: computed " ++ hexString computed ++ ", coinbase includes " ++
              hexString witnessCommitment))
        | coinbaseWitness => .error (.rule .invalidWitnessCommitment ("the coinbase transaction has " ++
            toString coinbaseWitness.length ++
            " items in its witness stack when only one is allowed"))

/-! ## Signature operations -/

def countTxSigOps : Nat :=
  (tx.txIn.map fun txIn => getSigOpCount txIn.signatureScript).sum +
    (tx.txOut.map fun txOut => getSigOpCount txOut.pkScript).sum

def missingOutput (o : OutPoint H) (tx : MsgTx H) (txInIndex : Nat) : ChainError :=
  .rule .missingTxOut ("output " ++ o.string ++ " referenced from transaction " ++ hashString tx.txHash ++ ":" ++
    toString txInIndex ++ " either does not exist or has already been spent")

/-- The loops of `CountP2SHSigOps` and of `GetSigOpCost`, which differ in what an input found adds: the total and the number
of inputs not on this chain. -/
def sigOpInputs (tx : MsgTx H) (view : UtxoViewpoint H) (cost : TxIn H → UtxoEntry → Except ChainError Nat) :
    Nat → List (TxIn H) → Nat → Nat → Except ChainError (Nat × Nat)
  | _, [], total, missingCount => .ok (total, missingCount)
  | i, txIn :: txIns, total, missingCount =>
    match view.lookupEntry txIn.previousOutPoint with
    | none =>
      if tx.swapTx then sigOpInputs tx view cost (i + 1) txIns total (missingCount + 1)
      else .error (missingOutput txIn.previousOutPoint tx i)
    | some utxo => do
      failIf utxo.spent (missingOutput txIn.previousOutPoint tx i)
      let n ← cost txIn utxo
      sigOpInputs tx view cost (i + 1) txIns (total + n) missingCount

/-- A loop of that kind with the check of the structure of a swap transaction behind it. -/
def countInputs (view : UtxoViewpoint H) (cost : TxIn H → UtxoEntry → Except ChainError Nat) :
    Except ChainError Nat := do
  let (total, missingCount) ← sigOpInputs tx view cost 0 tx.txIn 0 0
  checkWhen tx.swapTx (validateSwapTxStructure tx (some missingCount))
  return total

def countP2SHSigOps (isCoinBaseTx : Bool) (view : UtxoViewpoint H) : Except ChainError Nat :=
  if isCoinBaseTx then .ok 0
  else countInputs tx view fun txIn utxo =>
    .ok (if isPayToScriptHash utxo.pkScript then getPreciseSigOpCount txIn.signatureScript utxo.pkScript true else 0)

def witnessCost (txIn : TxIn H) (utxo : UtxoEntry) : Except ChainError Nat :=
  orFail (.other "slice bounds out of range") (getWitnessSigOpCount txIn.signatureScript utxo.pkScript txIn.witness)

/-- `GetSigOpCost`. An error of `CountP2SHSigOps` is dropped, and with it the rest of the cost. -/
def getSigOpCost (isCoinBaseTx : Bool) (view : UtxoViewpoint H) (bip16 segWit : Bool) :
    Except ChainError Nat :=
  let numSigOps := countTxSigOps tx * witnessScaleFactor
  match if bip16 then countP2SHSigOps tx isCoinBaseTx view else .ok 0 with
  | .error _ => .ok 0
  | .ok numP2SHSigOps => do
    let numSigOps := numSigOps + numP2SHSigOps * witnessScaleFactor
    if segWit && !isCoinBaseTx then
      return numSigOps + (← countInputs tx view witnessCost)
    else return numSigOps

/-! ## Blocks -/

/-- The loop of `CheckBlockSanityWF` over the transaction hashes. -/
def checkDistinctHashes (existing : List H) : List (MsgTx H) → Except ChainError Unit
  | [] => .ok ()
  | tx :: txs => do
    failIf (tx.txHash ∈ existing)
      (.rule .duplicateTx ("block contains duplicate transaction " ++ hashString tx.txHash))
    checkDistinctHashes (tx.txHash :: existing) txs

/-- The loops over the costs of the signature operations: each partial sum is checked. -/
def checkSigOpTotal (total : Nat) : List Nat → Except ChainError Unit
  | [] => .ok ()
  | cost :: costs => do
    failIf (maxBlockSigOpsCost < total + cost) (.rule .tooManySigOps
      ("block contains too many signature operations - got " ++ toString (total + cost) ++ ", max " ++
        toString maxBlockSigOpsCost))
    checkSigOpTotal (total + cost) costs

/-- The rules of `CheckBlockSanityWF` about the transactions, with the check of the header, the bound on its length and its
Merkle root. -/
def checkBlockSanityWF (headerSanity : Except ChainError Unit) (headerMaxLength : Nat) (headerMerkleRoot : H)
    (txs : List (MsgTx H)) : Except ChainError Unit := do
  headerSanity
  let numTx := txs.length
  failIf (numTx = 0) (.rule .noTransactions "block does not contain any transactions")
  failIf (maxBlockBaseSize < numTx) (.rule .blockTooBig ("block contains too many transactions - got " ++
    toString numTx ++ ", max " ++ toString maxBlockBaseSize))
  let serializedSize := headerMaxLength + varIntSerializeSize numTx + (txs.map MsgTx.serializeSizeStripped).sum
  failIf (maxBlockBaseSize < serializedSize) (.rule .blockTooBig ("serialized block is too big - got " ++
    toString serializedSize ++ ", max " ++ toString maxBlockBaseSize))
  failIf (¬(txs.head?.any isCoinBase)) (.rule .firstTxNotCoinbase "first transaction in block is not a coinbase")
  failIf ((txs.drop 1).any isCoinBase) (.rule .multipleCoinbases ("block contains second coinbase at index " ++
    toString ((txs.drop 1).findIdx (fun tx => isCoinBase tx) + 1)))
  txs.forM checkTransactionSanity
  failIf (headerMerkleRoot ≠ merkleRoot txs false) (.rule .badMerkleRoot
    ("block merkle root is invalid - block header indicates " ++ hashString headerMerkleRoot ++
      ", but calculated value is " ++ hashString (merkleRoot txs false)))
  checkDistinctHashes [] txs
  checkSigOpTotal 0 (txs.map fun tx => countTxSigOps tx * witnessScaleFactor)

def extractCoinbaseHeight (coinbaseTx : MsgTx H) : Except ChainError Int :=
  match (coinbaseTx.txIn.head?.map TxIn.signatureScript).getD [] with
  | [] => .error (.rule .missingCoinbaseHeight
      "the coinbase signature script for blocks of version 2 or greater must start with the length of the serialized block Height")
  | b :: rest =>
    let opcode := b.toNat
    if opcode = OP_0 then .ok 0
    else if OP_1 ≤ opcode ∧ opcode ≤ OP_16 then .ok (opcode - (OP_1 - 1) : Nat)
    else do
      failIf (rest.length < opcode) (.rule .missingCoinbaseHeight
        ("the coinbase signature script for blocks of version " ++ toString opcode ++
          " or greater must start with the serialized block Height"))
      return wrap32 (leNat ((rest.take opcode).take 8))

def checkSerializedHeight (coinbaseTx : MsgTx H) (wantHeight : Int) : Except ChainError Unit := do
  let serializedHeight ← extractCoinbaseHeight coinbaseTx
  failIf (serializedHeight ≠ wantHeight) (.rule .badCoinbaseHeight
    ("the coinbase signature script serialized block Height is " ++ toString serializedHeight ++ " when " ++
      toString wantHeight ++ " was expected"))

/-! ## Inputs -/

/-- What the loop of `CheckTransactionInputs` has gathered: the sum of the inputs, the indices of those not on this chain,
and the ages noted in the inputs. -/
structure InputTotals where
  totalSatoshiIn : Int
  missedInputs : List Nat
  ages : List Int

/-- The loop of `CheckTransactionInputs` over the inputs. -/
def checkInputs (tx : MsgTx H) (txHeight : Int) (view : UtxoViewpoint H) (coinbaseMaturity : Nat) :
    Nat → List (TxIn H) → InputTotals → Except ChainError InputTotals
  | _, [], st => .ok st
  | i, txIn :: txIns, st =>
    match view.lookupEntry txIn.previousOutPoint with
    | none =>
      if tx.swapTx then
        checkInputs tx txHeight view coinbaseMaturity (i + 1) txIns
          { st with missedInputs := st.missedInputs ++ [i], ages := st.ages ++ [0] }
      else .error (missingOutput txIn.previousOutPoint tx i)
    | some utxo => do
      failIf utxo.spent (missingOutput txIn.previousOutPoint tx i)
      failIf (utxo.isCoinBase ∧ txHeight - utxo.height < coinbaseMaturity) (.rule .immatureSpend
        ("tried to spend coinbase transaction output " ++ txIn.previousOutPoint.string ++ " from Height " ++
          toString utxo.height ++ " at Height " ++ toString txHeight ++ " before required maturity of " ++
          toString coinbaseMaturity ++ " blocks"))
      checkWhen tx.swapTx (validateSwapTxStructure tx (some st.missedInputs.length))
      failIf (utxo.amount < 0) (.rule .badTxOutValue
        ("transaction output has negative value of " ++ toString utxo.amount))
      failIf (maxCoinAmount < utxo.amount) (.rule .badTxOutValue ("transaction output value of " ++
        toString utxo.amount ++ " is higher than max allowed value of " ++ toString maxCoinAmount))
      -- both summands are bounded, so the sum does not wrap
      let totalSatoshiIn := st.totalSatoshiIn + utxo.amount
      failIf (totalSatoshiIn < st.totalSatoshiIn ∨ maxCoinAmount < totalSatoshiIn) (.rule .badTxOutValue
        ("total value of all transaction inputs is " ++ toString totalSatoshiIn ++
          " which is higher than max allowed value of " ++ toString maxCoinAmount))
      checkInputs tx txHeight view coinbaseMaturity (i + 1) txIns
        { st with totalSatoshiIn, ages := st.ages ++ [txHeight - utxo.height] }

/-- The outputs whose indices are not among those of missed inputs. -/
def presentOuts (missedInputs : List Nat) (txOut : List TxOut) : List TxOut :=
  (txOut.zipIdx.filter fun p => p.2 ∉ missedInputs).map Prod.fst

/-- `CheckTransactionInputs`: the fee, and the ages of the inputs. -/
def checkTransactionInputs (txHeight : Int) (view : UtxoViewpoint H) (coinbaseMaturity : Nat) :
    Except ChainError (Int × List Int) :=
  if isCoinBase tx then .ok (0, [])
  else do
    let st ← checkInputs tx txHeight view coinbaseMaturity 0 tx.txIn ⟨0, [], []⟩
    let totalSatoshiOut := sumValues (presentOuts st.missedInputs tx.txOut)
    failIf (st.totalSatoshiIn < totalSatoshiOut ∧ ¬tx.swapTx) (.rule .spendTooHigh
      ("total value of all transaction inputs for transaction " ++ hashString tx.txHash ++ " is " ++
        toString st.totalSatoshiIn ++ " which is less than the amount spent of " ++ toString totalSatoshiOut))
    return (wrap64 (st.totalSatoshiIn - totalSatoshiOut), st.ages)

/-! ## Scripts -/

section
variable [Primitives]

/-- `validateHandler` at one input. -/
def validateInput (view : UtxoViewpoint H) (flags : ScriptFlags) (tx : MsgTx H) (ages : List Int) (txInIdx : Nat)
    (txIn : TxIn H) : Except ChainError Unit :=
  let describe (verb error : String) (entry : UtxoEntry) : String :=
    "failed to " ++ verb ++ " input " ++ hashString tx.txHash ++ ":" ++ toString txInIdx ++
      " which references output " ++ txIn.previousOutPoint.string ++ " - " ++ error ++ " (input witness [" ++
      " ".intercalate (txIn.witness.map hexString) ++ "], input script bytes " ++
      hexString txIn.signatureScript ++ ", prev output script bytes " ++ hexString entry.pkScript ++ ")"
  match view.lookupEntry txIn.previousOutPoint with
  | none => failIf (!tx.swapTx) (.rule .missingTxOut ("unable to find unspent output " ++
      txIn.previousOutPoint.string ++ " referenced from transaction " ++ hashString tx.txHash ++ ":" ++
      toString txInIdx))
  | some utxo => do
    let (ctx, vm) ← (newEngine utxo.pkScript tx txInIdx txIn flags utxo.amount (ages.getD txInIdx 0)).mapError
      fun e => .rule .scriptMalformed (describe "parse" e.description utxo)
    (execute ctx vm).mapError fun e =>
      .rule .scriptValidation (describe "validate" ("error[" ++ e.description ++ "]") utxo)

/-- The inputs of one transaction in `CheckBlockScripts`, from an index on. -/
def validateInputs (view : UtxoViewpoint H) (flags : ScriptFlags) (tx : MsgTx H) (ages : List Int) :
    Nat → List (TxIn H) → Except ChainError Unit
  | _, [] => .ok ()
  | i, txIn :: txIns => do
    checkWhen (txIn.previousOutPoint.index ≠ maxUint32) (validateInput view flags tx ages i txIn)
    validateInputs view flags tx ages (i + 1) txIns

/-- `CheckBlockScripts`: every input is validated. The source does so concurrently and reports one error. -/
def checkBlockScripts (view : UtxoViewpoint H) (flags : ScriptFlags) :
    List (MsgTx H × List Int) → Except ChainError Unit
  | [] => .ok ()
  | (tx, ages) :: rest => do
    validateInputs view flags tx ages 0 tx.txIn
    checkBlockScripts view flags rest

end

end Jaxnetd.Chaindata
