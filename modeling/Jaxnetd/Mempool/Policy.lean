import Jaxnetd.Lib.BinFloat
import Jaxnetd.Blockchain.Connect
import Jaxnetd.TxScript.SavedStack

/-!
# The policy of the memory pool

What a transaction has to meet, beyond the rules of the chain, to be relayed: standard scripts, sizes and fees. A run-time
panic of the source is an error of its own here.
-/

namespace Jaxnetd.Mempool
open Wire TxScript Chaindata Checks

inductive RejectCode where
  | malformed | invalid | obsolete | duplicate | nonstandard | dust | insufficientFee | checkpoint
deriving DecidableEq, Repr

structure TxRuleError where
  rejectCode : RejectCode
  description : String
deriving DecidableEq, Repr

/-- Why the memory pool does not take a transaction: unknown parents, a `TxRuleError`, an error of the chain, the text of a
misformed swap transaction, or a panic. -/
inductive Stop (H : Type) where
  | orphan (missingParents : List H)
  | txRule (err : TxRuleError)
  | chain (err : ChainError)
  | swap (missingParents : List H) (text : String)
  | panic (what : String)
deriving DecidableEq, Repr

def txRuleError {H : Type} (c : RejectCode) (desc : String) : Stop H := .txRule ⟨c, desc⟩

def Stop.IsPanic {H : Type} (s : Stop H) : Prop := ∃ what, s = .panic what

/-- An error of the chain in the memory pool; what is neither a broken rule nor an error of a script is a panic there. -/
def chainError {H : Type} : ChainError → Stop H
  | .other what => .panic what
  | e => .chain e

/-- The error of a check of the policy, in the text of the caller. -/
def TxRuleError.within {H : Type} (context : String) (e : TxRuleError) : Stop H :=
  .txRule { e with description := context ++ e.description }

def maxStandardP2SHSigOps : Nat := 15

def maxStandardTxWeight : Nat := 400000

def maxStandardSigScriptSize : Nat := 1650

def maxStandardMultiSigKeys : Nat := 3

def defaultBlockPrioritySize : Nat := 50000

def txVerRegular : Int := 1

def unminedHeight : Int := 0x7fffffff

def minHighPriority : Rat := 57600000

/-! ## Fees and sizes -/

def calcMinRequiredTxRelayFee (serializedSize minRelayTxFee : Int) (isBeacon : Bool) : Int :=
  let size := if isBeacon then serializedSize else serializedSize.tdiv 8
  let minFee := (wrap64 (size * minRelayTxFee)).tdiv 1000
  let minFee := if minFee = 0 ∧ 0 < minRelayTxFee then minRelayTxFee else minFee
  if minFee < 0 ∨ maxCoinAmount < minFee then maxCoinAmount else minFee

section
variable {H : Type} (tx : MsgTx H)

def getTransactionWeight : Nat := tx.serializeSizeStripped * (witnessScaleFactor - 1) + tx.serializeSize

def getTxVirtualSize : Nat := (getTransactionWeight tx + (witnessScaleFactor - 1)) / witnessScaleFactor

variable [DecidableEq H]

/-- One round of `calcInputValueAge`. -/
def inputValueAge (nextBlockHeight : Int) (total : Rat) (entry : UtxoEntry) : Rat :=
  let inputAge := if entry.height = unminedHeight then 0 else wrap32 (nextBlockHeight - entry.height)
  BinFloat.round64 (total + BinFloat.round64 (wrap64 (entry.amount * inputAge) : Int))

def unspentInputs (view : UtxoViewpoint H) (tx : MsgTx H) : List (TxIn H × UtxoEntry) :=
  tx.txIn.filterMap fun txIn =>
    match view.lookupEntry txIn.previousOutPoint with
    | some entry => if entry.spent then none else some (txIn, entry)
    | none => none

def calcPriority (view : UtxoViewpoint H) (nextBlockHeight : Int) : Rat :=
  let unspent := unspentInputs view tx
  let overhead := (unspent.map fun p => 41 + min 110 p.1.signatureScript.length).sum
  if tx.serializeSize ≤ overhead then 0
  else
    let valueAge := unspent.foldl (fun total p => inputValueAge nextBlockHeight total p.2) 0
    BinFloat.round64 (valueAge / ((tx.serializeSize - overhead : Nat) : Rat))

end

/-! ## Standard scripts -/

/-- The numbers of keys and of signatures, which a script of the least length has. -/
def multiSigNumbers (pops : List ParsedOpcode) (numSigsInd numPubKeysOffset minLen : Nat) (hind : numSigsInd < minLen)
    (hoffset : 0 < numPubKeysOffset) : Option (Nat × Nat) :=
  if h : pops.length < minLen then none
  else some (asSmallInt pops[pops.length - numPubKeysOffset], asSmallInt pops[numSigsInd])

/-- `CalcMultiSigStats`, which is called for the two classes of multisig scripts. -/
def calcMultiSigStats (script : Bytes) (scriptClass : ScriptClass) : Except ScriptError (Nat × Nat) := do
  let pops ← parsed script
  orFail ⟨.other, "script " ++ hexString script ++ " is not a multisig script"⟩ <| match scriptClass with
    | .multiSigLockTy => multiSigNumbers pops mslFirstMSigOpI (mslTailLen + 2) 11 (by decide) (by decide)
    | _ => multiSigNumbers pops 0 2 4 (by decide) (by decide)

def checkPkScriptStandard (pkScript : Bytes) (scriptClass : ScriptClass) : Except TxRuleError Unit :=
  match scriptClass with
  | .multiSigTy | .multiSigLockTy => do
    let (numPubKeys, numSigs) ← (calcMultiSigStats pkScript scriptClass).mapError fun e =>
      ⟨.nonstandard, "multi-signature script parse failure: " ++ e.description⟩
    failIf (numPubKeys < 1) ⟨.nonstandard, "multi-signature script with no pubkeys"⟩
    failIf (maxStandardMultiSigKeys < numPubKeys) ⟨.nonstandard, "multi-signature script with " ++ toString numPubKeys ++
      " public keys which is more than the allowed max of " ++ toString maxStandardMultiSigKeys⟩
    failIf (numSigs < 1) ⟨.nonstandard, "multi-signature script with no signatures"⟩
    failIf (numPubKeys < numSigs) ⟨.nonstandard, "multi-signature script with " ++ toString numSigs ++
      " signatures which is more than the available " ++ toString numPubKeys ++ " public keys"⟩
  | .nonStandardTy => .error ⟨.nonstandard, "non-standard script form"⟩
  | _ => .ok ()

def isDust (txOut : TxOut) (minRelayTxFee : Int) : Bool :=
  if isUnspendable txOut.pkScript then true
  else
    let totalSize := txOut.serializeSize + 41 +
      if isWitnessProgram txOut.pkScript then 107 / witnessScaleFactor else 107
    (wrap64 (txOut.value * 1000)).tdiv (3 * totalSize) < minRelayTxFee

section
variable {H : Type}

/-- The loop of `checkTransactionStandard` over the inputs. -/
def checkSignatureScripts : Nat → List (TxIn H) → Except TxRuleError Unit
  | _, [] => .ok ()
  | i, txIn :: txIns => do
    let sigScriptLen := txIn.signatureScript.length
    failIf (maxStandardSigScriptSize < sigScriptLen) ⟨.nonstandard, "transaction input " ++ toString i ++
      ": signature script size of " ++ toString sigScriptLen ++ " bytes is large than max allowed size of " ++
      toString maxStandardSigScriptSize ++ " bytes"⟩
    failIf (¬isPushOnlyScript txIn.signatureScript) ⟨.nonstandard, "transaction input " ++ toString i ++
      ": signature script is not push only"⟩
    checkSignatureScripts (i + 1) txIns

variable [Primitives]

/-- The loop of `checkTransactionStandard` over the outputs, with the number of those that only carry data. -/
def checkOutputScripts (minRelayTxFee : Int) : Nat → List TxOut → Nat → Except TxRuleError Nat
  | _, [], numNullDataOutputs => .ok numNullDataOutputs
  | i, txOut :: txOuts, numNullDataOutputs => do
    let scriptClass := getScriptClass txOut.pkScript
    (checkPkScriptStandard txOut.pkScript scriptClass).mapError fun e =>
      { e with description := "transaction output " ++ toString i ++ ": " ++ e.description }
    failIf (scriptClass ≠ .nullDataTy ∧ isDust txOut minRelayTxFee) ⟨.dust, "transaction output " ++ toString i ++
      ": payment of " ++ toString txOut.value ++ " is dust"⟩
    checkOutputScripts minRelayTxFee (i + 1) txOuts
      (if scriptClass = .nullDataTy then numNullDataOutputs + 1 else numNullDataOutputs)

def checkTransactionStandard (tx : MsgTx H) (height medianTimePast minRelayTxFee maxTxVersion : Int) :
    Except TxRuleError Unit := do
  failIf (maxTxVersion < tx.version ∨ tx.version < txVerRegular) ⟨.nonstandard, "transaction version " ++
    toString tx.version ++ " is not in the valid range of " ++ toString txVerRegular ++ "-" ++ toString maxTxVersion⟩
  failIf (¬isFinalizedTransaction tx height medianTimePast) ⟨.nonstandard, "transaction is not finalized"⟩
  let txWeight := getTransactionWeight tx
  failIf (maxStandardTxWeight < txWeight) ⟨.nonstandard, "weight of transaction " ++ toString txWeight ++
    " is larger than max allowed weight of " ++ toString maxStandardTxWeight⟩
  checkSignatureScripts 0 tx.txIn
  let numNullDataOutputs ← checkOutputScripts minRelayTxFee 0 tx.txOut 0
  failIf (1 < numNullDataOutputs) ⟨.nonstandard, "more than one transaction output in a nulldata script"⟩

/-- One round of `checkInputsStandard`, at an output found. -/
def checkInputStandard (i : Nat) (txIn : TxIn H) (pkScript : Bytes) : Except TxRuleError Unit :=
  match getScriptClass pkScript with
  | .scriptHashTy =>
    let numSigOps := getPreciseSigOpCount txIn.signatureScript pkScript true
    failIf (maxStandardP2SHSigOps < numSigOps) ⟨.nonstandard, "transaction input #" ++ toString i ++ " has " ++
      toString numSigOps ++ " signature operations which is more than the allowed max amount of " ++
      toString maxStandardP2SHSigOps⟩
  | .nonStandardTy => .error ⟨.nonstandard, "transaction input #" ++ toString i ++ " has a non-standard script form"⟩
  | _ => .ok ()

/-- `checkInputsStandard`, in the text of its caller. The entry of an input is used whether there is one or not. -/
def checkInputsStandard [DecidableEq H] (context : String) (view : UtxoViewpoint H) :
    Nat → List (TxIn H) → Except (Stop H) Unit
  | _, [] => .ok ()
  | i, txIn :: txIns => do
    let entry ← orFail (.panic "nil pointer dereference") (view.lookupEntry txIn.previousOutPoint)
    (checkInputStandard i txIn entry.pkScript).mapError (TxRuleError.within context)
    checkInputsStandard context view (i + 1) txIns

end

end Jaxnetd.Mempool
