import Jaxnetd.TxScript.Stack
import Jaxnetd.Wire

/-!
# Package `txscript`: script templates and signature operations

The classes of standard scripts (`standard.go`, `lock_script.go`, `multisig.go`), the witness programs
and the counting of signature operations (`script.go`).
-/

namespace Jaxnetd.TxScript
open Checks

/-- What the package takes from outside: digests that are not SHA-256, the curve, and the parsers of
addresses and URLs. -/
class Primitives where
  ripemd160 : Bytes → Bytes
  sha1 : Bytes → Bytes
  PubKey : Type
  Signature : Type
  parsePubKey : Bytes → Option PubKey
  serializeUncompressed : PubKey → Bytes
  parseSignature : Bytes → Option Signature
  parseDERSignature : Bytes → Option Signature
  verify : Signature → Bytes → PubKey → Bool
  /-- `net.ParseIP` gives an address. -/
  isIP : Bytes → Bool
  /-- `url.Parse` gives no error. -/
  isURL : Bytes → Bool

/-- Primitives to run the models with: no key or signature parses. -/
@[reducible] def toyPrimitives : Primitives where
  ripemd160 b := b
  sha1 b := b
  PubKey := Unit
  Signature := Unit
  parsePubKey _ := none
  serializeUncompressed _ := []
  parseSignature _ := none
  parseDERSignature _ := none
  verify _ _ _ := false
  isIP _ := false
  isURL _ := false

def maxScriptElementSize : Nat := 520

def maxScriptSize : Nat := 10000

def maxOpsPerScript : Nat := 201

def maxPubKeysPerMultiSig : Nat := 20

def maxDataCarrierSize : Nat := 80

def payToWitnessPubKeyHashDataSize : Nat := 20

def payToWitnessScriptHashDataSize : Nat := 32

inductive ScriptClass where
  | nonStandardTy | pubKeyTy | pubKeyHashTy | witnessV0PubKeyHashTy | scriptHashTy | witnessV0ScriptHashTy
  | multiSigTy | multiSigLockTy | eadAddressTy | htlcScriptTy | nullDataTy
deriving DecidableEq, Repr

/-! ## Templates -/

variable (pops : List ParsedOpcode)

def opValues : List Nat := pops.map ParsedOpcode.value

/-- The opcode at an index of a script whose class says that it is there. -/
def opAt (i : Nat) : ParsedOpcode := pops.getD i ⟨OP_0, []⟩

/-- The tests of a template read what the length checked before lets them read. -/
theorem getElem_eq_opAt {i : Nat} (h : i < pops.length) : pops[i] = opAt pops i := (List.getD_eq_getElem pops _ h).symm

def isKeyLength (data : Bytes) : Bool := data.length = 33 || data.length = 65

def isScriptHash : Bool := opValues pops = [OP_HASH160, OP_DATA_20, OP_EQUAL]

def isWitnessScriptHash : Bool := opValues pops = [OP_0, OP_DATA_32]

def isWitnessPubKeyHash : Bool := opValues pops = [OP_0, OP_DATA_20]

def isPubkey : Bool :=
  if h : pops.length = 2 then isKeyLength pops[0].data && isOpCode pops[1] OP_CHECKSIG else false

def isPubkeyHash : Bool :=
  opValues pops = [OP_DUP, OP_HASH160, OP_DATA_20, OP_EQUALVERIFY, OP_CHECKSIG]

def isMultiSig : Bool :=
  let l := pops.length
  if h : 4 ≤ l then
    isSmallInt pops[0] && isSmallInt pops[l - 2] && isOpCode pops[l - 1] OP_CHECKMULTISIG &&
      l - 3 = asSmallInt pops[l - 2] && ((pops.take (l - 2)).drop 1).all fun pop => isKeyLength pop.data
  else false

def mslFirstMSigOpI : Nat := 4

def mslTailLen : Nat := 5

def isMultiSigLock : Bool :=
  let l := pops.length
  if h : 13 ≤ l then
    isOpCode pops[0] OP_INPUTAGE && isNumber pops[1] && isOpCode pops[2] OP_LESSTHAN && isOpCode pops[3] OP_IF &&
      isOpCode pops[l - 5] OP_ELSE && isKeyLength pops[l - 4].data && isOpCode pops[l - 3] OP_CHECKSIG &&
      isOpCode pops[l - 2] OP_NIP && isOpCode pops[l - 1] OP_ENDIF &&
      isMultiSig ((pops.take (l - mslTailLen)).drop mslFirstMSigOpI)
  else false

def isEADRegistration [Primitives] (pops : List ParsedOpcode) : Bool :=
  if h : pops.length = 9 then
    isKeyLength pops[0].data && isOpCode pops[1] OP_CHECKSIG && isOpCode pops[2] OP_NOP && isNumber pops[3] &&
      isNumber pops[4] && (Primitives.isIP pops[5].data || Primitives.isURL pops[5].data) && isNumber pops[6]
  else false

/-- `isHTLC`: the class of the script inside the lock, if the lock has the form of the template. -/
def isHTLC : Option ScriptClass :=
  let l := pops.length
  let inner := (pops.drop 4).take (l - 7)
  if h : ¬(l = 9 ∨ l = 10 ∨ l = 12) then none
  else if !(isOpCode pops[0] OP_INPUTAGE && isNumber pops[1] && isOpCode pops[2] OP_GREATERTHAN && isOpCode pops[3] OP_IF &&
      isOpCode pops[l - 3] OP_ELSE && isOpCode pops[l - 2] OP_RETURN && isOpCode pops[l - 1] OP_ENDIF) then none
  else if l = 9 then
    if isPubkey inner then some .pubKeyTy
    -- the length of the data counts here, not the opcode that pushes it
    else if isOpCode pops[4] OP_0 && pops[5].data.length = 20 then some .witnessV0PubKeyHashTy
    else if isOpCode pops[4] OP_0 && pops[5].data.length = 32 then some .witnessV0ScriptHashTy
    else none
  else if l = 10 then if isScriptHash inner then some .scriptHashTy else none
  else if isPubkeyHash inner then some .pubKeyHashTy else none

def isHTLCWithScriptHash : Bool := isHTLC pops = some .scriptHashTy

def isHTLCWitnessScript : Bool :=
  isHTLC pops = some .witnessV0PubKeyHashTy || isHTLC pops = some .witnessV0ScriptHashTy

def isNullData : Bool :=
  opValues pops = [OP_RETURN] ||
    if h : pops.length = 2 then
      isOpCode pops[0] OP_RETURN && (isSmallInt pops[1] || pops[1].value ≤ OP_PUSHDATA4) &&
        pops[1].data.length ≤ maxDataCarrierSize
    else false

def typeOfScript [Primitives] (pops : List ParsedOpcode) : ScriptClass :=
  if isPubkey pops then .pubKeyTy
  else if isPubkeyHash pops then .pubKeyHashTy
  else if isWitnessPubKeyHash pops then .witnessV0PubKeyHashTy
  else if isScriptHash pops then .scriptHashTy
  else if isWitnessScriptHash pops then .witnessV0ScriptHashTy
  else if isMultiSig pops then .multiSigTy
  else if isMultiSigLock pops then .multiSigLockTy
  else if isEADRegistration pops then .eadAddressTy
  else if (isHTLC pops).isSome then .htlcScriptTy
  else if isNullData pops then .nullDataTy
  else .nonStandardTy

def getScriptClass [Primitives] (script : Bytes) : ScriptClass :=
  match parsed script with
  | .ok pops => typeOfScript pops
  | .error _ => .nonStandardTy

variable (script : Bytes)

/-- `EADAddressScriptData` of a script of the class `EADAddressTy`: the registered shard, the expiration date and the port.
The key and the address are copied. -/
def eadAddressScriptData : Except ScriptError (Nat × Int × Int) := do
  let pops ← parsed script
  let shardID ← if isSmallInt (opAt pops 3) then .ok (asSmallInt (opAt pops 3) : Int)
    else makeScriptNum (opAt pops 3).data true 1
  let rawTime ← makeScriptNum (opAt pops 4).data false 5
  let rawPort ← makeScriptNum (opAt pops 6).data false 5
  return (((shardID - 16) % 2 ^ 32).toNat, rawTime, rawPort)

/-! ## Witness programs -/

/-- The test on the whole script; the opcodes of a lock around a program are looked at as well. -/
def isWitnessProgramPops : Bool :=
  if h : pops.length = 2 then
    isSmallInt pops[0] && canonicalPush pops[1] && 2 ≤ pops[1].data.length && pops[1].data.length ≤ 40
  else false

def isWitnessProgram : Bool :=
  if script.length < 4 || 42 < script.length then false
  else match parsed script with
    | .ok pops => isWitnessProgramPops pops || isHTLCWitnessScript pops
    | .error _ => false

def isPayToScriptHash : Bool :=
  match parsed script with
  | .ok pops => isScriptHash pops
  | .error _ => false

def extractWitnessProgram : List ParsedOpcode :=
  if h : pops.length = 9 then [pops[4], pops[5]] else pops

def extractWitnessProgramInfo : Except ScriptError (Nat × Bytes) := do
  let pops ← parsed script
  failIf (!isWitnessProgramPops pops && !isHTLCWitnessScript pops)
    ⟨.other, "script is not a witness program, unable to extract version or witness program"⟩
  let pg := extractWitnessProgram pops
  return (asSmallInt (opAt pg 0), (opAt pg 1).data)

/-! ## Signature operations -/

/-- The loop of `getSigOpCount`, with the opcode before the one at hand. -/
def sigOpLoop (precise : Bool) : Option ParsedOpcode → List ParsedOpcode → Nat
  | _, [] => 0
  | prev, pop :: pops =>
    (match pop.value with
      | OP_CHECKSIG | OP_CHECKSIGVERIFY => 1
      | OP_CHECKMULTISIG | OP_CHECKMULTISIGVERIFY =>
        match prev with
        | some p => if precise ∧ OP_1 ≤ p.value ∧ p.value ≤ OP_16 then asSmallInt p else maxPubKeysPerMultiSig
        | none => maxPubKeysPerMultiSig
      | _ => 0) + sigOpLoop precise (some pop) pops

def countSigOps (precise : Bool) : Nat := sigOpLoop precise none pops

def getSigOpCount : Nat := countSigOps (parseScript script).1 false

def getPreciseSigOpCount (scriptSig scriptPubKey : Bytes) (bip16 : Bool) : Nat :=
  let pops := (parseScript scriptPubKey).1
  if !(bip16 && isScriptHash pops) then countSigOps pops true
  else match parsed scriptSig with
    | .error _ => 0
    | .ok sigPops =>
      if !isPushOnly sigPops then 0
      else match sigPops.getLast? with
        | none => 0
        | some pop => if pop.data = [] then 0 else countSigOps (parseScript pop.data).1 true

def getWitnessSigOps (pkScript : Bytes) (witness : List Bytes) : Nat :=
  match extractWitnessProgramInfo pkScript with
  | .error _ => 0
  | .ok (version, program) =>
    if version ≠ 0 then 0
    else if program.length = payToWitnessPubKeyHashDataSize then 1
    else if program.length = payToWitnessScriptHashDataSize then
      match witness.getLast? with
      | some witnessScript => countSigOps (parseScript witnessScript).1 true
      | none => 0
    else 0

/-- `GetWitnessSigOpCount`. An empty signature script in front of a script hash panics, where the source
slices off its first byte. -/
def getWitnessSigOpCount (sigScript pkScript : Bytes) (witness : List Bytes) : Option Nat :=
  if isWitnessProgram pkScript then some (getWitnessSigOps pkScript witness)
  else match parsed sigScript with
    | .error _ => some 0
    | .ok sigPops =>
      if isPayToScriptHash pkScript && isPushOnly sigPops then
        match sigScript with
        | [] => none
        | _ :: program => some (if isWitnessProgram program then getWitnessSigOps program witness else 0)
      else some 0

end Jaxnetd.TxScript
