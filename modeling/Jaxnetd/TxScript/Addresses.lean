import Jaxnetd.TxScript.LockScript

/-!
# Package `txscript`: the addresses of a script

`ExtractPkScriptAddrs` (`standard.go`) with the addresses of a multisig lock (`multisig.go`) and of a time lock
(`lock_script.go`). The network of an address is that of the chain and is left out.
-/

namespace Jaxnetd.TxScript
open Wire Checks

deriving instance DecidableEq for Address

variable [Primitives]

/-- An address has the key and its format: here the parsed bytes, which it is serialized to. -/
def newAddressPubKey (serializedPubKey : Bytes) : Option Address :=
  if h : serializedPubKey.length = 33 ∨ serializedPubKey.length = 65 then
    (Primitives.parsePubKey serializedPubKey).map fun _ => .pubKey ⟨serializedPubKey, h⟩
  else none

def newAddressPubKeyHash (pkHash : Bytes) : Option Address :=
  if h : pkHash.length = 20 then some (.pubKeyHash ⟨pkHash, h⟩) else none

def newAddressScriptHashFromHash (scriptHash : Bytes) : Option Address :=
  if h : scriptHash.length = 20 then some (.scriptHash ⟨scriptHash, h⟩) else none

def newAddressWitnessPubKeyHash (witnessProg : Bytes) : Option Address :=
  if h : witnessProg.length = 20 then some (.witnessPubKeyHash ⟨witnessProg, h⟩) else none

def newAddressWitnessScriptHash (witnessProg : Bytes) : Option Address :=
  if h : witnessProg.length = 32 then some (.witnessScriptHash ⟨witnessProg, h⟩) else none

/-- One round of the loop of `extractMultiSigLockAddrs`. The index of the addresses so far goes by `String`, which
shows the serialized key. -/
def addKeyAddress (addrs : List Address) (key : Bytes) : List Address :=
  match newAddressPubKey key with
  | some addr => if addr ∈ addrs then addrs else addrs ++ [addr]
  | none => addrs

variable (pops : List ParsedOpcode)

def lockKeys : List Bytes :=
  ((pops.drop (mslFirstMSigOpI + 1)).take (asSmallInt (opAt pops (pops.length - mslTailLen - 2)))).map ParsedOpcode.data

def refundKey : Bytes := (opAt pops (pops.length - 4)).data

def extractMultiSigLockAddrs : List Address × Nat :=
  let addrs := (lockKeys pops).foldl addKeyAddress []
  (addKeyAddress addrs (refundKey pops), asSmallInt (opAt pops mslFirstMSigOpI))

/-- The address of the script inside a time lock. Of the templates of nine opcodes the last one that matches counts. -/
def extractHTLCAddrs : Except ScriptError Address :=
  orFail ⟨.other, "invalid address"⟩ <|
    if pops.length = 9 then
      if isOpCode (opAt pops 4) OP_0 && (opAt pops 5).data.length = 32 then newAddressWitnessScriptHash (opAt pops 5).data
      else if isOpCode (opAt pops 4) OP_0 && (opAt pops 5).data.length = 20 then
        newAddressWitnessPubKeyHash (opAt pops 5).data
      else if isKeyLength (opAt pops 4).data && isOpCode (opAt pops 5) OP_CHECKSIG then
        newAddressPubKey (opAt pops 4).data
      else none
    else if pops.length = 10 then newAddressScriptHashFromHash (opAt pops 5).data
    else newAddressPubKeyHash (opAt pops 6).data

def multiSigKeys : List Bytes :=
  ((pops.drop 1).take (asSmallInt (opAt pops (pops.length - 2)))).map ParsedOpcode.data

/-- `ExtractPkScriptAddrs`: the class, the addresses, without invalid ones, and the number of signatures. -/
def extractPkScriptAddrs (pkScript : Bytes) : Except ScriptError (ScriptClass × List Address × Nat) := do
  let pops ← parsed pkScript
  let scriptClass := typeOfScript pops
  match scriptClass with
  | .pubKeyHashTy => return (scriptClass, (newAddressPubKeyHash (opAt pops 2).data).toList, 1)
  | .witnessV0PubKeyHashTy => return (scriptClass, (newAddressWitnessPubKeyHash (opAt pops 1).data).toList, 1)
  | .pubKeyTy => return (scriptClass, (newAddressPubKey (opAt pops 0).data).toList, 1)
  | .scriptHashTy => return (scriptClass, (newAddressScriptHashFromHash (opAt pops 1).data).toList, 1)
  | .witnessV0ScriptHashTy => return (scriptClass, (newAddressWitnessScriptHash (opAt pops 1).data).toList, 1)
  | .multiSigTy => return (scriptClass, (multiSigKeys pops).filterMap newAddressPubKey, asSmallInt (opAt pops 0))
  | .multiSigLockTy =>
    let (addrs, requiredSigs) := extractMultiSigLockAddrs pops
    return (scriptClass, addrs, requiredSigs)
  | .eadAddressTy => return (scriptClass, (newAddressPubKey (opAt pops 0).data).toList, 1)
  | .htlcScriptTy =>
    let addr ← extractHTLCAddrs pops
    return (scriptClass, [addr, .htlc pkScript], 1)
  | .nullDataTy | .nonStandardTy => return (scriptClass, [], 0)

end Jaxnetd.TxScript
