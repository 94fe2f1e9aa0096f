import Jaxnetd.Lib.GoMap
import Jaxnetd.TxScript.Standard

/-!
# The view of unspent outputs

`UtxoViewpoint` (`utxoviewpoint.go`) over the set of unspent outputs in the database (`chaindb_io.go`). The rows of the
database are taken decoded. The exchange agent addresses of a view of the beacon chain are in `EadSet`; here is only what
can fail in their update.
-/

namespace Jaxnetd.Chaindata
open Wire TxScript Checks

inductive ErrorCode where
  | blockTooBig | blockWeightTooHigh | timeTooOld | timeTooNew | unexpectedDifficulty | highHash
  | hashSortingRuleNotMatch | badMerkleRoot
  | badCheckpoint | forkTooOld | noTransactions | noTxInputs | noTxOutputs | txTooBig | badTxOutValue
  | duplicateTxInputs | badTxInput | missingTxOut | unfinalizedTx | duplicateTx | immatureSpend | spendTooHigh
  | badFees | tooManySigOps | firstTxNotCoinbase | multipleCoinbases | badCoinbaseScriptLen | badCoinbaseValue
  | missingCoinbaseHeight | badCoinbaseHeight | scriptMalformed | scriptValidation | unexpectedWitness
  | invalidWitnessCommitment | witnessCommitmentMismatch | invalidShardSwapInOuts | invalidBlockHeightValue
  | invalidChainWeightValue | unexpectedShardsValue | unexpectedKValue
deriving DecidableEq, Repr

/-- The errors of the validation: a broken rule, a broken assertion, an error of a script, or one of
another source (the database, a run-time panic). -/
inductive ChainError where
  | rule (code : ErrorCode) (description : String)
  | assert (message : String)
  | script (error : ScriptError)
  | other (message : String)
deriving DecidableEq, Repr

def scriptResult {α : Type} (x : Except ScriptError α) : Except ChainError α := x.mapError .script

/-- The data of an output: `SpentTxOut`, and a row of the set of unspent outputs. -/
structure SpentTxOut where
  amount : Int
  pkScript : Bytes
  height : Int
  isCoinBase : Bool
deriving DecidableEq, Repr

/-- `UtxoEntry`: an output with the flags `tfSpent` and `tfModified`. -/
structure UtxoEntry extends SpentTxOut where
  spent : Bool
  modified : Bool
deriving DecidableEq, Repr

def UtxoEntry.spend (entry : UtxoEntry) : UtxoEntry :=
  if entry.spent then entry else { entry with spent := true, modified := true }

abbrev UtxoSet (H : Type) := GoMap (OutPoint H) SpentTxOut

/-- `UtxoViewpoint`. An outpoint can be missing, or stand there with a nil entry: it was not found in the database. -/
structure UtxoViewpoint (H : Type) where
  entries : GoMap (OutPoint H) (Option UtxoEntry)
  bestHash : H
  beacon : Bool

variable {H : Type}

def fetchUtxoEntry (db : UtxoSet H) (o : OutPoint H) : Option UtxoEntry := (db.get o).map (⟨·, false, false⟩)

/-- What `PutUtxoView` does to a row of the database. -/
def putEntry : Option UtxoEntry → Option (Option SpentTxOut)
  | none => none
  | some entry => if !entry.modified then none else if entry.spent then some none else some (some entry.toSpentTxOut)

def putUtxoView (db : UtxoSet H) (view : UtxoViewpoint H) : UtxoSet H := db.overlay view.entries putEntry

/-- What `Commit` does to an entry: it is pruned, or its flag `tfModified` is turned over. -/
def commitEntry : Option UtxoEntry → Option (Option (Option UtxoEntry))
  | none => some none
  | some entry =>
    if entry.modified && entry.spent then some none else some (some (some { entry with modified := !entry.modified }))

def UtxoViewpoint.commit (view : UtxoViewpoint H) : UtxoViewpoint H :=
  { view with entries := view.entries.overlay view.entries commitEntry }

variable [DecidableEq H]

def isCoinBase [ChainHash H] (tx : MsgTx H) : Bool :=
  match tx.txIn with
  | [txIn] => txIn.previousOutPoint = ⟨ChainHash.zeroHash, maxUint32⟩
  | _ => false

/-- `ValidateSwapTxStructure`; `none` stands for `-1`, the inputs not being counted yet. -/
def validateSwapTxStructure (tx : MsgTx H) (missedUTXO : Option Nat) : Except ChainError Unit := do
  let inLen := tx.txIn.length
  let outLen := tx.txOut.length
  failIf (inLen ≠ outLen ∨ inLen ≠ 2 ∧ inLen ≠ 4) (.rule .invalidShardSwapInOuts
    ("cross shard swap tx has invalid format: [" ++ toString inLen ++ "]TxIn, [" ++ toString outLen ++ "]TxOut"))
  match missedUTXO with
  | none => return ()
  | some missed => failIf (inLen / 2 < missed) (.rule .invalidShardSwapInOuts
      ("cross shard swap tx contains too many unknown inputs: [" ++ toString inLen ++ "]TxIn, [" ++
        toString outLen ++ "]TxOut, [" ++ toString missed ++ "] missed"))

namespace UtxoViewpoint

variable (view : UtxoViewpoint H) (o : OutPoint H)

def lookupEntry : Option UtxoEntry := (view.entries.get o).join

def setEntry (entry : Option UtxoEntry) : UtxoViewpoint H :=
  { view with entries := view.entries.set o entry }

/-- The entry that `addTxOut` writes. -/
def newEntry (txOut : TxOut) (isCoinBase : Bool) (blockHeight : Int) : UtxoEntry :=
  ⟨⟨txOut.value, txOut.pkScript, blockHeight, isCoinBase⟩, false, true⟩

def addTxOut (txOut : TxOut) (isCoinBase : Bool) (blockHeight : Int) :
    UtxoViewpoint H :=
  if isUnspendable txOut.pkScript then view else view.setEntry o (some (newEntry txOut isCoinBase blockHeight))

/-- The loop of `AddTxOuts` from an index on. -/
def addTxOutsFrom (hash : H) (isCoinBase : Bool) (blockHeight : Int) :
    Nat → List TxOut → UtxoViewpoint H → UtxoViewpoint H
  | _, [], view => view
  | i, txOut :: txOuts, view =>
    addTxOutsFrom hash isCoinBase blockHeight (i + 1) txOuts
      (view.addTxOut ⟨hash, i⟩ txOut isCoinBase blockHeight)

section Connect
variable [ChainHash H] (view : UtxoViewpoint H) (tx : MsgTx H) (blockHeight : Int)

def addTxOuts : UtxoViewpoint H :=
  addTxOutsFrom tx.txHash (isCoinBase tx) blockHeight 0 tx.txOut view

variable (stxos : Option (List SpentTxOut))

/-- The list of spent outputs that the caller may want, with one more output. -/
def recordSpent (entry : UtxoEntry) : Option (List SpentTxOut) :=
  stxos.map (· ++ [entry.toSpentTxOut])

/-- The loop of `ConnectTransaction` over the inputs. -/
def spendInputs : List (TxIn H) → UtxoViewpoint H → Option (List SpentTxOut) →
    Except ChainError (UtxoViewpoint H × Option (List SpentTxOut))
  | [], view, stxos => .ok (view, stxos)
  | txIn :: txIns, view, stxos =>
    match view.lookupEntry txIn.previousOutPoint with
    | none => .error (.assert ("view missing input " ++ txIn.previousOutPoint.string))
    | some entry =>
      spendInputs txIns (view.setEntry txIn.previousOutPoint (some entry.spend)) (recordSpent stxos entry)

/-- The loop of `connectSwapTransaction`: an input not on this chain is passed over together with
the output at its index. -/
def swapInputs (hash : H) (blockHeight : Int) : Nat → List (TxIn H) → List TxOut → UtxoViewpoint H →
    Option (List SpentTxOut) → UtxoViewpoint H × Option (List SpentTxOut)
  | i, txIn :: txIns, txOut :: txOuts, view, stxos =>
    match view.lookupEntry txIn.previousOutPoint with
    | none => swapInputs hash blockHeight (i + 1) txIns txOuts view stxos
    | some entry =>
      swapInputs hash blockHeight (i + 1) txIns txOuts
        ((view.setEntry txIn.previousOutPoint (some entry.spend)).addTxOut ⟨hash, i⟩ txOut false blockHeight)
        (recordSpent stxos entry)
  | _, _, _, view, stxos => (view, stxos)

def connectSwapTransaction : Except ChainError (UtxoViewpoint H × Option (List SpentTxOut)) := do
  validateSwapTxStructure tx none
  return swapInputs tx.txHash blockHeight 0 tx.txIn tx.txOut view stxos

variable [Primitives]

/-- What can fail for the exchange agent addresses among some scripts: one of the class does not
decode. -/
def checkEADScripts : List Bytes → Except ChainError Unit
  | [] => .ok ()
  | script :: scripts => do
    if getScriptClass script = .eadAddressTy then
      let _ ← scriptResult (eadAddressScriptData script)
      checkEADScripts scripts
    else checkEADScripts scripts

def connectEADTransaction : Except ChainError Unit :=
  if view.beacon then checkEADScripts (tx.txOut.map TxOut.pkScript) else .ok ()

/-- `disconnectEADAddresses` looks at all outputs that the block has spent so far. -/
def disconnectEADAddresses : Option (List SpentTxOut) → Except ChainError Unit
  | none => .ok ()
  | some stxos => checkEADScripts (stxos.map SpentTxOut.pkScript)

def connectTransaction : Except ChainError (UtxoViewpoint H × Option (List SpentTxOut)) :=
  if isCoinBase tx then .ok (view.addTxOuts tx blockHeight, stxos)
  else if tx.swapTx then view.connectSwapTransaction tx blockHeight stxos
  else do
    checkWhen (tx.version = txVerEADAction) (view.connectEADTransaction tx)
    let (view, stxos) ← spendInputs tx.txIn view stxos
    let view := view.addTxOuts tx blockHeight
    disconnectEADAddresses stxos
    return (view, stxos)

/-- The loop of `ConnectTransactions`. -/
def connectAll (blockHeight : Int) : List (MsgTx H) → UtxoViewpoint H → Option (List SpentTxOut) →
    Except ChainError (UtxoViewpoint H × Option (List SpentTxOut))
  | [], view, stxos => .ok (view, stxos)
  | tx :: txs, view, stxos => do
    let (view, stxos) ← view.connectTransaction tx blockHeight stxos
    connectAll blockHeight txs view stxos

def connectTransactions (txs : List (MsgTx H)) (blockHeight : Int) (blockHash : H)
    (stxos : Option (List SpentTxOut)) : Except ChainError (UtxoViewpoint H × Option (List SpentTxOut)) := do
  let (view, stxos) ← connectAll blockHeight txs view stxos
  return ({ view with bestHash := blockHash }, stxos)

end Connect

/-! ## Disconnecting -/

def maxOutputsPerBlock : Nat := 4000000 / (4 * 9)

/-- The loop of `DisconnectTransactions` over the outputs of a transaction. -/
def disconnectOuts (hash : H) (isCoinBase : Bool) (blockHeight : Int) :
    Nat → List TxOut → UtxoViewpoint H → UtxoViewpoint H
  | _, [], view => view
  | i, txOut :: txOuts, view =>
    let o : OutPoint H := ⟨hash, i⟩
    let created : UtxoEntry := ⟨⟨txOut.value, txOut.pkScript, blockHeight, isCoinBase⟩, false, false⟩
    let view := if isUnspendable txOut.pkScript then view
      else view.setEntry o (some ((view.lookupEntry o).getD created).spend)
    disconnectOuts hash isCoinBase blockHeight (i + 1) txOuts view

/-- `fetchEntryByHash`: an entry of the transaction in the view, or a row of it in the database. -/
def fetchEntryByHash (db : UtxoSet H) (hash : H) : Option UtxoEntry :=
  match (List.range maxOutputsPerBlock).findSome? fun i => view.lookupEntry ⟨hash, i⟩ with
  | some entry => some entry
  | none => (List.range maxOutputsPerBlock).findSome? fun i => fetchUtxoEntry db ⟨hash, i⟩

/-- A spent output with the height and the flag that old databases did not keep. -/
def resurrect [ChainHash H] (view : UtxoViewpoint H) (db : UtxoSet H) (hash : H) (originOut : OutPoint H)
    (stxo : SpentTxOut) : Except ChainError SpentTxOut :=
  if stxo.height = 0 then do
    let utxo ← orFail (.assert ("unable to resurrect legacy stxo " ++ originOut.string))
      (view.fetchEntryByHash db hash)
    return { stxo with height := utxo.height, isCoinBase := utxo.isCoinBase }
  else .ok stxo

/-- The loop of `DisconnectTransactions` over the inputs of a transaction. Inputs and spent outputs come from the last to
the first; the spent outputs left are returned. -/
def restoreInputs [ChainHash H] (db : UtxoSet H) (hash : H) : List (TxIn H) → List SpentTxOut →
    UtxoViewpoint H → Except ChainError (UtxoViewpoint H × List SpentTxOut)
  | [], stxos, view => .ok (view, stxos)
  | _ :: _, [], _ => .error (.other "index out of range")
  | txIn :: txIns, stxo :: stxos, view => do
    let o := txIn.previousOutPoint
    -- the source puts a new entry at the outpoint before it looks for a legacy one
    let stxo ← (if (view.lookupEntry o).isNone then view.setEntry o (some ⟨⟨0, [], 0, false⟩, false, false⟩)
      else view).resurrect db hash o stxo
    restoreInputs db hash txIns stxos (view.setEntry o (some ⟨stxo, false, true⟩))

/-- The loop of `DisconnectTransactions` over the transactions behind the first, from the last of them on. -/
def disconnectRest [ChainHash H] (db : UtxoSet H) (blockHeight : Int) : List (MsgTx H) → List SpentTxOut →
    UtxoViewpoint H → Except ChainError (UtxoViewpoint H × List SpentTxOut)
  | [], stxos, view => .ok (view, stxos)
  | tx :: txs, stxos, view => do
    let view := disconnectOuts tx.txHash false blockHeight 0 tx.txOut view
    let (view, stxos) ← restoreInputs db tx.txHash tx.txIn.reverse stxos view
    disconnectRest db blockHeight txs stxos view

def countSpentOutputs (txs : List (MsgTx H)) : Nat :=
  ((txs.drop 1).map fun tx => if tx.swapTx then tx.txIn.length / 2 else tx.txIn.length).sum

/-- `DisconnectTransactions`. The first transaction is taken for the coinbase, whatever it is. -/
def disconnectTransactions [ChainHash H] (view : UtxoViewpoint H) (db : UtxoSet H) (txs : List (MsgTx H))
    (blockHeight : Int) (prevHash : H) (stxos : List SpentTxOut) : Except ChainError (UtxoViewpoint H) := do
  failIf (stxos.length ≠ countSpentOutputs txs)
    (.assert "DisconnectTransactions called with bad spent transaction out information")
  match txs with
  | [] => return { view with bestHash := prevHash }
  | coinbase :: rest =>
    let (view, _) ← disconnectRest db blockHeight rest.reverse stxos.reverse view
    let view := disconnectOuts coinbase.txHash true blockHeight 0 coinbase.txOut view
    return { view with bestHash := prevHash }

/-! ## Fetching -/

def fetchUtxosMain (view : UtxoViewpoint H) (db : UtxoSet H) : List (OutPoint H) → UtxoViewpoint H
  | [] => view
  | o :: outpoints => fetchUtxosMain (view.setEntry o (fetchUtxoEntry db o)) db outpoints

/-- The map `txInFlight` of `FetchInputUtxos`. -/
def txInFlight [ChainHash H] (txs : List (MsgTx H)) : GoMap H Nat :=
  txs.zipIdx.foldl (fun m p => m.set p.1.txHash p.2) .empty

/-- The loop over the inputs of the transaction with index `i + 1`, with the outpoints to be fetched so
far. -/
def fetchInputs [ChainHash H] (txs : List (MsgTx H)) (blockHeight : Int) (i : Nat) : List (TxIn H) →
    UtxoViewpoint H × List (OutPoint H) → UtxoViewpoint H × List (OutPoint H)
  | [], st => st
  | txIn :: txIns, (view, needed) =>
    let o := txIn.previousOutPoint
    fetchInputs txs blockHeight i txIns <|
      match ((txInFlight txs).get o.hash).filter (· ≤ i) |>.bind (txs[·]?) with
      | some originTx => (view.addTxOuts originTx blockHeight, needed)
      | none => if (view.entries.get o).isSome then (view, needed) else (view, o :: needed)

/-- The loop of `FetchInputUtxos` over the transactions behind the first. -/
def fetchTxs [ChainHash H] (txs : List (MsgTx H)) (blockHeight : Int) : Nat → List (MsgTx H) →
    UtxoViewpoint H × List (OutPoint H) → UtxoViewpoint H × List (OutPoint H)
  | _, [], st => st
  | i, tx :: rest, st => fetchTxs txs blockHeight (i + 1) rest (fetchInputs txs blockHeight i tx.txIn st)

def fetchInputUtxos [ChainHash H] (view : UtxoViewpoint H) (db : UtxoSet H) (txs : List (MsgTx H))
    (blockHeight : Int) : UtxoViewpoint H :=
  let (view, needed) := fetchTxs txs blockHeight 0 (txs.drop 1) (view, [])
  view.fetchUtxosMain db needed

end UtxoViewpoint

def newUtxoViewpoint (beacon : Bool) (bestHash : H) : UtxoViewpoint H := ⟨.empty, bestHash, beacon⟩

/-- The view that `createChainState` makes for the genesis block; an error of `ConnectTransactions` is dropped. -/
def genesisView [ChainHash H] [Primitives] (beacon : Bool) (txs : List (MsgTx H)) (height : Int) (hash : H) :
    UtxoViewpoint H :=
  let view := newUtxoViewpoint beacon hash
  ((view.connectTransactions txs height hash none).toOption.map Prod.fst).getD view

section Sample

def sampleCoinbase (script pkScript : Bytes) : MsgTx Nat :=
  ⟨1, [⟨⟨0, maxUint32⟩, script, [], maxUint32⟩], [⟨10, pkScript⟩], 0⟩

def sampleUtxos : UtxoSet Nat := GoMap.empty.set ⟨5, 0⟩ ⟨5, [0x51], 1, false⟩

def sampleInput (hash index : Nat) : TxIn Nat := ⟨⟨hash, index⟩, [], [], maxUint32⟩

end Sample

end Jaxnetd.Chaindata
