import Jaxnetd.Chainhash

/-!
# Package `wire`: transactions

`MsgTx` and its parts (`msg_tx.go`) with the encodings that the hashes and the size limits read. The
run-time field `Age` of an input is not part of a message; the validation passes it beside the
transaction.
-/

namespace Jaxnetd.Wire
open ChainHash

structure OutPoint (H : Type) where
  hash : H
  index : Nat
deriving DecidableEq, Repr

structure TxIn (H : Type) where
  previousOutPoint : OutPoint H
  signatureScript : Bytes
  witness : List Bytes
  sequence : Nat
deriving DecidableEq, Repr

structure TxOut where
  value : Int
  pkScript : Bytes
deriving DecidableEq, Repr

structure MsgTx (H : Type) where
  version : Int
  txIn : List (TxIn H)
  txOut : List TxOut
  lockTime : Nat
deriving DecidableEq, Repr

def maxUint32 : Nat := 0xffffffff

def maxTxInSequenceNum : Nat := 0xffffffff

def sequenceLockTimeDisabled : Nat := 1 <<< 31

def sequenceLockTimeIsSeconds : Nat := 1 <<< 22

def sequenceLockTimeMask : Nat := 0x0000ffff

def sequenceLockTimeGranularity : Nat := 9

def txVerTimeLock : Int := 2

def txVerEADAction : Int := 3

def txVerCrossShardSwap : Int := 4

variable {H : Type} (tx : MsgTx H)

def MsgTx.swapTx : Bool := tx.version = txVerCrossShardSwap

def MsgTx.hasWitness : Bool := tx.txIn.any fun txIn => !txIn.witness.isEmpty

/-! ## Encodings -/

/-- `WriteVarInt`. -/
def varInt (n : Nat) : Bytes :=
  if n < 0xfd then leBytes 1 n
  else if n ≤ 0xffff then 0xfd :: leBytes 2 n
  else if n ≤ 0xffffffff then 0xfe :: leBytes 4 n
  else 0xff :: leBytes 8 n

def varIntSerializeSize (n : Nat) : Nat :=
  if n < 0xfd then 1 else if n ≤ 0xffff then 3 else if n ≤ 0xffffffff then 5 else 9

/-- `WriteVarBytes`. -/
def varBytes (bs : Bytes) : Bytes := varInt bs.length ++ bs

/-- A signed field of `w` bytes. -/
def intBytes (w : Nat) (x : Int) : Bytes := leBytes w (x % 2 ^ (8 * w)).toNat

def TxOut.write (out : TxOut) : Bytes := intBytes 8 out.value ++ varBytes out.pkScript

section
variable [ChainHash H]

def OutPoint.string (o : OutPoint H) : String := hashString o.hash ++ ":" ++ toString o.index

def OutPoint.write (o : OutPoint H) : Bytes := bytes o.hash ++ leBytes 4 o.index

def TxIn.write (txIn : TxIn H) : Bytes :=
  txIn.previousOutPoint.write ++ varBytes txIn.signatureScript ++ leBytes 4 txIn.sequence

def writeTxWitness (wit : List Bytes) : Bytes := varInt wit.length ++ wit.flatMap varBytes

def MsgTx.btcEncode (tx : MsgTx H) (witnessEncoding : Bool) : Bytes :=
  let doWitness := witnessEncoding && tx.hasWitness
  intBytes 4 tx.version ++ (if doWitness then [0x00, 0x01] else []) ++
    varInt tx.txIn.length ++ tx.txIn.flatMap TxIn.write ++
    varInt tx.txOut.length ++ tx.txOut.flatMap TxOut.write ++
    (if doWitness then tx.txIn.flatMap (fun txIn => writeTxWitness txIn.witness) else []) ++
    leBytes 4 tx.lockTime

def MsgTx.serializeNoWitness (tx : MsgTx H) : Bytes := tx.btcEncode false

def MsgTx.txHash (tx : MsgTx H) : H := doubleHashH tx.serializeNoWitness

def MsgTx.witnessHash (tx : MsgTx H) : H :=
  if tx.hasWitness then doubleHashH (tx.btcEncode true) else tx.txHash

end

/-! ## Sizes -/

def TxIn.serializeSize (txIn : TxIn H) : Nat :=
  40 + varIntSerializeSize txIn.signatureScript.length + txIn.signatureScript.length

def TxOut.serializeSize (out : TxOut) : Nat :=
  8 + varIntSerializeSize out.pkScript.length + out.pkScript.length

def witnessSerializeSize (wit : List Bytes) : Nat :=
  varIntSerializeSize wit.length +
    (wit.map fun item => varIntSerializeSize item.length + item.length).sum

def MsgTx.serializeSizeStripped : Nat :=
  8 + varIntSerializeSize tx.txIn.length + varIntSerializeSize tx.txOut.length +
    (tx.txIn.map TxIn.serializeSize).sum + (tx.txOut.map TxOut.serializeSize).sum

def MsgTx.serializeSize : Nat :=
  tx.serializeSizeStripped +
    if tx.hasWitness then 2 + (tx.txIn.map fun txIn => witnessSerializeSize txIn.witness).sum else 0

end Jaxnetd.Wire
