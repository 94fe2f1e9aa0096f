import Jaxnetd.TxScript.Standard

/-!
# Package `txscript`: signature hashes

The digests that a signature commits to (`script.go`): `calcSignatureHash` hashes a copy of the transaction cut down by the
hash type, `calcWitnessSignatureHash` the layout of version 0 witness programs.
-/

namespace Jaxnetd.TxScript
open Wire ChainHash

def sigHashNone : Nat := 0x2

def sigHashSingle : Nat := 0x3

def sigHashAnyOneCanPay : Nat := 0x80

def sigHashMask : Nat := 0x1f

variable {H : Type} [ChainHash H] (tx : MsgTx H)

def calcHashPrevOuts : H := doubleHashH (tx.txIn.flatMap fun txIn => txIn.previousOutPoint.write)

def calcHashSequence : H := doubleHashH (tx.txIn.flatMap fun txIn => leBytes 4 txIn.sequence)

def calcHashOutputs : H := doubleHashH (tx.txOut.flatMap TxOut.write)

/-- The script, or nothing when an opcode has data that its encoding cannot hold: the source drops the
error. -/
def unparsed (pops : List ParsedOpcode) : Bytes :=
  match unparseScript pops with
  | .ok script => script
  | .error _ => []

def zeroSequences (idx : Nat) (txIn : List (TxIn H)) : List (TxIn H) :=
  txIn.mapIdx fun i x => if i = idx then x else { x with sequence := 0 }

def calcSignatureHash (script : List ParsedOpcode) (hashType : Nat) (tx : MsgTx H) (idx : Nat) : Bytes :=
  let kind := hashType &&& sigHashMask
  if kind = sigHashSingle ∧ tx.txOut.length ≤ idx then
    -- the hash of value one, for a signature over an output that does not exist
    1 :: List.replicate 31 0
  else
    let sigScript := unparsed (removeOpcode script OP_CODESEPARATOR)
    let txIn := tx.txIn.mapIdx fun i x => { x with signatureScript := if i = idx then sigScript else [] }
    let txIn := if kind = sigHashNone ∨ kind = sigHashSingle then zeroSequences idx txIn else txIn
    let txOut :=
      if kind = sigHashNone then []
      else if kind = sigHashSingle then
        (tx.txOut.take (idx + 1)).mapIdx fun i out => if i < idx then ⟨-1, []⟩ else out
      else tx.txOut
    let txIn := if hashType &&& sigHashAnyOneCanPay ≠ 0 then (txIn.drop idx).take 1 else txIn
    doubleHashB H (({ tx with txIn, txOut } : MsgTx H).serializeNoWitness ++ leBytes 4 hashType)

/-- The hash of the outputs that a version 0 witness signature commits to. -/
def witnessOutputsHash (hashType : Nat) (tx : MsgTx H) (idx : Nat) : H :=
  if hashType &&& sigHashSingle ≠ sigHashSingle ∧ hashType &&& sigHashNone ≠ sigHashNone then calcHashOutputs tx
  else if hashType &&& sigHashMask = sigHashSingle then
    match tx.txOut[idx]? with
    | some out => doubleHashH out.write
    | none => zeroHash
  else zeroHash

variable (subScript : List ParsedOpcode)

/-- The script code of a version 0 witness signature. A script of nine opcodes is replaced by two of them first. -/
def scriptCode : Bytes :=
  let witnessScript := extractWitnessProgram subScript
  if isWitnessPubKeyHash witnessScript then
    [0x19, UInt8.ofNat OP_DUP, UInt8.ofNat OP_HASH160, UInt8.ofNat OP_DATA_20] ++ (opAt witnessScript 1).data ++
      [UInt8.ofNat OP_EQUALVERIFY, UInt8.ofNat OP_CHECKSIG]
  else varBytes (unparsed witnessScript)

def calcWitnessSignatureHash (hashType : Nat) (tx : MsgTx H) (idx : Nat)
    (amt : Int) : Except ScriptError Bytes :=
  match tx.txIn[idx]? with
  | none => .error ⟨.other, "idx " ++ toString idx ++ " but " ++ toString tx.txIn.length ++ " txins"⟩
  | some txIn =>
    let kind := hashType &&& sigHashMask
    let all := hashType &&& sigHashAnyOneCanPay = 0
    let prevOuts := if all then calcHashPrevOuts tx else zeroHash
    let sequences := if all ∧ kind ≠ sigHashSingle ∧ kind ≠ sigHashNone then calcHashSequence tx else zeroHash
    .ok (doubleHashB H (intBytes 4 tx.version ++ bytes prevOuts ++ bytes sequences ++
      txIn.previousOutPoint.write ++ scriptCode subScript ++ intBytes 8 amt ++ leBytes 4 txIn.sequence ++
      bytes (witnessOutputsHash hashType tx idx) ++ leBytes 4 tx.lockTime ++ leBytes 4 hashType))

end Jaxnetd.TxScript
