import Jaxnetd.TxScript.SigHash

/-!
# Package `txscript`: the engine

`Engine` with its opcode handlers (`engine.go`, `opcode.go`). What `NewEngine` fixes for the whole run is the context
`EngineCtx`; `Engine` is what a step changes. The caches of signatures and hashes are left out: they hold signatures
verified before and the hashes of the transaction.
-/

namespace Jaxnetd.TxScript
open Wire ChainHash Checks Primitives

structure ScriptFlags where
  bip16 : Bool := false
  strictMultiSig : Bool := false
  discourageUpgradableNops : Bool := false
  verifyCheckLockTimeVerify : Bool := false
  verifyCheckSequenceVerify : Bool := false
  verifyCleanStack : Bool := false
  verifyDERSignatures : Bool := false
  verifyLowS : Bool := false
  verifyMinimalData : Bool := false
  verifyNullFail : Bool := false
  verifySigPushOnly : Bool := false
  verifyStrictEncoding : Bool := false
  verifyWitness : Bool := false
  verifyDiscourageUpgradeableWitnessProgram : Bool := false
  verifyMinimalIf : Bool := false
  verifyWitnessPubKeyType : Bool := false
deriving DecidableEq, Repr

/-- The part of an `Engine` that stays as `NewEngine` sets it. `CheckTransactionInputs` has noted the age of the input in
it. -/
structure EngineCtx (H : Type) where
  tx : MsgTx H
  txIdx : Nat
  flags : ScriptFlags
  inputAmount : Int
  inputAge : Int
  bip16 : Bool

inductive OpCond where
  | condFalse | condTrue | condSkip
deriving DecidableEq, Repr

/-- The part of an `Engine` that its steps change. -/
structure Engine where
  scripts : List (List ParsedOpcode)
  scriptIdx : Nat
  scriptOff : Nat
  lastCodeSep : Nat
  dstack : Stack
  astack : Stack
  condStack : List OpCond
  numOps : Nat
  savedFirstStack : List Bytes
  witnessVersion : Nat
  witnessProgram : Option Bytes
deriving DecidableEq, Repr

/-- A handler: what an opcode does to the engine. -/
abbrev OpM := StateT Engine (Except ScriptError)

namespace Engine

variable (vm : Engine)

def script (idx : Nat) : List ParsedOpcode := vm.scripts.getD idx []

def isBranchExecuting : Bool :=
  match vm.condStack with
  | [] => true
  | c :: _ => c = .condTrue

def isWitnessVersionActive (version : Nat) : Bool :=
  vm.witnessProgram.isSome && vm.witnessVersion = version

def subScript : List ParsedOpcode := (vm.script vm.scriptIdx).drop vm.lastCodeSep

def onD {α : Type} (m : StackM α) : OpM α := fun vm => do
  let (a, s) ← m vm.dstack
  return (a, { vm with dstack := s })

def onA {α : Type} (m : StackM α) : OpM α := fun vm => do
  let (a, s) ← m vm.astack
  return (a, { vm with astack := s })

end Engine

open Engine Stack

def fail {α : Type} (code : ErrorCode) (description : String) : OpM α := fun _ => .error ⟨code, description⟩

/-! ## Constants and conditionals -/

variable (op : ParsedOpcode)

def opcodeReserved : OpM Unit :=
  fail .reservedOpcode ("attempt to execute reserved opcode " ++ op.name)

def opcodeDisabled : OpM Unit :=
  fail .disabledOpcode ("attempt to execute disabled opcode " ++ op.name)

def opcodeInvalid : OpM Unit :=
  fail .reservedOpcode ("attempt to execute invalid opcode " ++ op.name)

def opcodeFalse : OpM Unit := onD (pushByteArray [])

def opcodePushData : OpM Unit := onD (pushByteArray op.data)

def opcode1Negate : OpM Unit := onD (pushInt (-1))

def opcodeN : OpM Unit := onD (pushInt (op.value - (OP_1 - 1) : Nat))

section
variable {H : Type} (ctx : EngineCtx H)

def opcodeInputAge : OpM Unit := onD (pushInt ctx.inputAge)

def opcodeNop (op : ParsedOpcode) : OpM Unit :=
  if op.value ≠ OP_NOP ∧ ctx.flags.discourageUpgradableNops then
    fail .discourageUpgradableNOPs ("OP_NOP" ++ toString (op.value - (OP_NOP1 - 1)) ++
      " reserved for soft-fork upgrades")
  else pure ()

def popIfBool : OpM Bool := do
  if !(← get).isWitnessVersionActive 0 || !ctx.flags.verifyMinimalIf then onD popBool
  else
    let so ← onD popByteArray
    if 1 < so.length then
      fail .minimalIf ("minimal if is active, top element MUST have a length of at least, instead length is " ++
        toString so.length)
    else if so.length = 1 ∧ so ≠ [1] then
      fail .minimalIf ("minimal if is active, top stack item MUST be an empty byte array or 0x01, is instead: " ++
        toString (so.headD 0))
    else return asBool so

/-- `opcodeIf` and `opcodeNotIf`: the first branch is executed when the condition equals `want`. -/
def pushCondition (want : Bool) : OpM Unit := do
  let condVal ← if (← get).isBranchExecuting then do
      let ok ← popIfBool ctx
      pure (if ok = want then OpCond.condTrue else .condFalse)
    else pure .condSkip
  modify fun vm => { vm with condStack := condVal :: vm.condStack }

def opcodeIf : OpM Unit := pushCondition ctx true

def opcodeNotIf : OpM Unit := pushCondition ctx false

end

/-- The error of a conditional without an `OP_IF` before it. -/
def unbalanced {α : Type} (op : ParsedOpcode) : OpM α :=
  fail .unbalancedConditional ("encountered opcode " ++ op.name ++
    " with no matching opcode to begin conditional execution")

def opcodeElse : OpM Unit := do
  match (← get).condStack with
  | [] => unbalanced op
  | .condTrue :: cs => modify fun vm => { vm with condStack := .condFalse :: cs }
  | .condFalse :: cs => modify fun vm => { vm with condStack := .condTrue :: cs }
  | .condSkip :: _ => pure ()

def opcodeEndif : OpM Unit := do
  match (← get).condStack with
  | [] => unbalanced op
  | _ :: cs => modify fun vm => { vm with condStack := cs }

def abstractVerify (c : ErrorCode) : OpM Unit := do
  let verified ← onD popBool
  if verified then pure () else fail c (op.name ++ " failed")

def opcodeVerify : OpM Unit := abstractVerify op .verify

def opcodeReturn : OpM Unit := fail .earlyReturn "script returned early"

/-! ## Lock times -/

def lockTimeThreshold : Nat := 500000000

def verifyLockTime (txLockTime threshold lockTime : Int) : Except ScriptError Unit := do
  failIf (¬(txLockTime < threshold ∧ lockTime < threshold ∨ threshold ≤ txLockTime ∧ threshold ≤ lockTime))
    ⟨.unsatisfiedLockTime, "mismatched locktime types -- tx locktime " ++ toString txLockTime ++
      ", stack locktime " ++ toString lockTime⟩
  failIf (txLockTime < lockTime) ⟨.unsatisfiedLockTime,
    "locktime requirement not satisfied -- locktime is greater than the transaction locktime: " ++
      toString lockTime ++ " > " ++ toString txLockTime⟩

section
variable {H : Type} (ctx : EngineCtx H)

def EngineCtx.sequence : Nat := (ctx.tx.txIn[ctx.txIdx]?.map TxIn.sequence).getD 0

/-- The number that the two lock time opcodes find on the stack. -/
def lockOperand (vm : Engine) : Except ScriptError Int := do
  let so ← item 0 vm.dstack
  makeScriptNum so vm.dstack.verifyMinimalData 5

/-- What `opcodeCheckLockTimeVerify` checks once its flag is set. -/
def checkLockTime (vm : Engine) : Except ScriptError Unit := do
  let lockTime ← lockOperand vm
  failIf (lockTime < 0) ⟨.negativeLockTime, "negative lock time: " ++ toString lockTime⟩
  verifyLockTime ctx.tx.lockTime lockTimeThreshold lockTime
  failIf (ctx.sequence = maxTxInSequenceNum) ⟨.unsatisfiedLockTime, "transaction input is finalized"⟩

/-- What `opcodeCheckSequenceVerify` checks once its flag is set. -/
def checkSequence (vm : Engine) : Except ScriptError Unit := do
  let stackSequence ← lockOperand vm
  failIf (stackSequence < 0) ⟨.negativeLockTime, "negative sequence: " ++ toString stackSequence⟩
  let sequence := stackSequence.toNat
  if sequence &&& sequenceLockTimeDisabled ≠ 0 then return ()
  failIf (ctx.tx.version ≠ txVerTimeLock)
    ⟨.unsatisfiedLockTime, "invalid transaction version: " ++ toString ctx.tx.version⟩
  failIf (ctx.sequence &&& sequenceLockTimeDisabled ≠ 0) ⟨.unsatisfiedLockTime,
    "transaction sequence has sequence locktime disabled bit set: 0x" ++
      hexString (leBytes 4 ctx.sequence).reverse⟩
  let lockTimeMask := sequenceLockTimeIsSeconds ||| sequenceLockTimeMask
  verifyLockTime (ctx.sequence &&& lockTimeMask : Nat) sequenceLockTimeIsSeconds (sequence &&& lockTimeMask : Nat)

/-- An opcode that was a `NOP` before the flag: the checks read the engine and leave it as it is. -/
def softForkedNop (active : Bool) (name : String) (check : Engine → Except ScriptError Unit) : OpM Unit := fun vm =>
  if active then do check vm; return ((), vm)
  else if ctx.flags.discourageUpgradableNops then
    .error ⟨.discourageUpgradableNOPs, name ++ " reserved for soft-fork upgrades"⟩
  else .ok ((), vm)

def opcodeCheckLockTimeVerify : OpM Unit :=
  softForkedNop ctx ctx.flags.verifyCheckLockTimeVerify "OP_NOP2" (checkLockTime ctx)

def opcodeCheckSequenceVerify : OpM Unit :=
  softForkedNop ctx ctx.flags.verifyCheckSequenceVerify "OP_NOP3" (checkSequence ctx)

end

/-! ## Stack opcodes -/

def opcodeToAltStack : OpM Unit := do onA (pushByteArray (← onD popByteArray))

def opcodeFromAltStack : OpM Unit := do onD (pushByteArray (← onA popByteArray))

def opcode2Drop : OpM Unit := onD (dropN 2)

def opcode2Dup : OpM Unit := onD (dupN 2)

def opcode3Dup : OpM Unit := onD (dupN 3)

def opcode2Over : OpM Unit := onD (overN 2)

def opcode2Rot : OpM Unit := onD (rotN 2)

def opcode2Swap : OpM Unit := onD (swapN 2)

def opcodeIfDup : OpM Unit := onD do
  let so ← peekByteArray 0
  if asBool so then pushByteArray so

def opcodeDepth : OpM Unit := onD do pushInt (← get).depth

def opcodeDrop : OpM Unit := onD (dropN 1)

def opcodeDup : OpM Unit := onD (dupN 1)

/-- `NipN(1)`, which drops the item that `nipN` returns. -/
def opcodeNip : OpM Unit := onD do let _ ← nipN 1

def opcodeOver : OpM Unit := onD (overN 1)

def opcodePick : OpM Unit := onD do pickN (scriptNumInt32 (← popInt))

def opcodeRoll : OpM Unit := onD do rollN (scriptNumInt32 (← popInt))

def opcodeRot : OpM Unit := onD (rotN 1)

def opcodeSwap : OpM Unit := onD (swapN 1)

def opcodeTuck : OpM Unit := onD tuck

def opcodeSize : OpM Unit := onD do pushInt (← peekByteArray 0).length

def opcodeEqual : OpM Unit := onD do
  let a ← popByteArray
  let b ← popByteArray
  pushBool (a = b)

def opcodeEqualVerify : OpM Unit := do opcodeEqual; abstractVerify op .equalVerify

/-! ## Arithmetic -/

def numOp1 (f : Int → Int) : OpM Unit := onD do pushInt (f (← popInt))

def numOp2 (f : Int → Int → Int) : OpM Unit := onD do
  let v0 ← popInt
  let v1 ← popInt
  pushInt (f v0 v1)

def numTest (f : Int → Int → Bool) : OpM Unit := numOp2 fun v0 v1 => if f v0 v1 then 1 else 0

def opcode1Add : OpM Unit := numOp1 fun m => m + 1

def opcode1Sub : OpM Unit := numOp1 fun m => m - 1

def opcodeNegate : OpM Unit := numOp1 fun m => -m

def opcodeAbs : OpM Unit := numOp1 fun m => if m < 0 then -m else m

def opcodeNot : OpM Unit := numOp1 fun m => if m = 0 then 1 else 0

def opcode0NotEqual : OpM Unit := numOp1 fun m => if m ≠ 0 then 1 else m

def opcodeAdd : OpM Unit := numOp2 fun v0 v1 => v0 + v1

def opcodeSub : OpM Unit := numOp2 fun v0 v1 => v1 - v0

def opcodeBoolAnd : OpM Unit := numTest fun v0 v1 => v0 ≠ 0 && v1 ≠ 0

def opcodeBoolOr : OpM Unit := numTest fun v0 v1 => v0 ≠ 0 || v1 ≠ 0

def opcodeNumEqual : OpM Unit := numTest fun v0 v1 => v0 = v1

def opcodeNumEqualVerify : OpM Unit := do opcodeNumEqual; abstractVerify op .numEqualVerify

def opcodeNumNotEqual : OpM Unit := numTest fun v0 v1 => v0 ≠ v1

def opcodeLessThan : OpM Unit := numTest fun v0 v1 => v1 < v0

def opcodeGreaterThan : OpM Unit := numTest fun v0 v1 => v0 < v1

def opcodeLessThanOrEqual : OpM Unit := numTest fun v0 v1 => v1 ≤ v0

def opcodeGreaterThanOrEqual : OpM Unit := numTest fun v0 v1 => v0 ≤ v1

def opcodeMin : OpM Unit := numOp2 fun v0 v1 => if v1 < v0 then v1 else v0

def opcodeMax : OpM Unit := numOp2 fun v0 v1 => if v0 < v1 then v1 else v0

def opcodeWithin : OpM Unit := onD do
  let maxVal ← popInt
  let minVal ← popInt
  let x ← popInt
  pushInt (if minVal ≤ x ∧ x < maxVal then 1 else 0)

/-! ## Digests -/

def digestOp (f : Bytes → Bytes) : OpM Unit := onD do pushByteArray (f (← popByteArray))

def opcodeRipemd160 [Primitives] : OpM Unit := digestOp ripemd160

def opcodeSha1 [Primitives] : OpM Unit := digestOp sha1

def opcodeSha256 (H : Type) [ChainHash H] : OpM Unit := digestOp (hashB H)

def opcodeHash160 (H : Type) [ChainHash H] [Primitives] : OpM Unit :=
  digestOp fun buf => ripemd160 (hashB H buf)

def opcodeHash256 (H : Type) [ChainHash H] : OpM Unit := digestOp (doubleHashB H)

def opcodeCodeSeparator : OpM Unit := modify fun vm => { vm with lastCodeSep := vm.scriptOff }

/-! ## Signatures -/

section
variable {H : Type} (ctx : EngineCtx H)

def checkHashTypeEncoding (hashType : Nat) : Except ScriptError Unit :=
  let sigHashType := if hashType &&& sigHashAnyOneCanPay = 0 then hashType else hashType - sigHashAnyOneCanPay
  failIf (ctx.flags.verifyStrictEncoding ∧ (sigHashType < 1 ∨ sigHashSingle < sigHashType))
    ⟨.invalidSigHashType, "invalid hash type 0x" ++ hexByte (UInt8.ofNat hashType)⟩

variable (vm : Engine)

def checkPubKeyEncoding (pubKey : Bytes) : Except ScriptError Unit := do
  let format := (pubKey.headD 0).toNat
  let compressed := pubKey.length = 33 ∧ (format = 2 ∨ format = 3)
  failIf (ctx.flags.verifyWitnessPubKeyType ∧ vm.isWitnessVersionActive 0 ∧ ¬compressed)
    ⟨.witnessPubKeyType, "only compressed keys are accepted post-segwit"⟩
  failIf (ctx.flags.verifyStrictEncoding ∧ ¬compressed ∧ ¬(pubKey.length = 65 ∧ format = 4))
    ⟨.pubKeyType, "unsupported public key type"⟩

/-- Half the order of the group of `secp256k1`. -/
def halfOrder : Nat := 0x7fffffffffffffffffffffffffffffff5d576e7357a4501ddfe92f46681b20a0

/-- The checks of the DER encoding of a signature, in the order of the source. -/
def checkDER (sig : Bytes) (lowS : Bool) : Except ScriptError Unit := do
  let at' (i : Nat) : Nat := (sig.getD i 0).toNat
  let sigLen := sig.length
  failIf (sigLen < 8) ⟨.sigTooShort, "malformed signature: too short: " ++ toString sigLen ++ " < 8"⟩
  failIf (72 < sigLen) ⟨.sigTooLong, "malformed signature: too long: " ++ toString sigLen ++ " > 72"⟩
  failIf (at' 0 ≠ 0x30)
    ⟨.sigInvalidSeqID, "malformed signature: format has wrong type: 0x" ++ hexByte (sig.getD 0 0)⟩
  failIf (at' 1 ≠ sigLen - 2) ⟨.sigInvalidDataLen, "malformed signature: bad length: " ++ toString (at' 1) ++
    " != " ++ toString (sigLen - 2)⟩
  let rLen := at' 3
  let sTypeOffset := 4 + rLen
  let sLenOffset := sTypeOffset + 1
  failIf (sigLen ≤ sTypeOffset) ⟨.sigMissingSTypeID, "malformed signature: S type indicator missing"⟩
  failIf (sigLen ≤ sLenOffset) ⟨.sigMissingSLen, "malformed signature: S length missing"⟩
  let sOffset := sLenOffset + 1
  let sLen := at' sLenOffset
  failIf (sOffset + sLen ≠ sigLen) ⟨.sigInvalidSLen, "malformed signature: invalid S length"⟩
  failIf (at' 2 ≠ 0x02) ⟨.sigInvalidRIntID,
    "malformed signature: R integer marker: 0x" ++ hexByte (sig.getD 2 0) ++ " != 0x2"⟩
  failIf (rLen = 0) ⟨.sigZeroRLen, "malformed signature: R length is zero"⟩
  failIf (at' 4 &&& 0x80 ≠ 0) ⟨.sigNegativeR, "malformed signature: R is negative"⟩
  failIf (1 < rLen ∧ at' 4 = 0 ∧ at' 5 &&& 0x80 = 0)
    ⟨.sigTooMuchRPadding, "malformed signature: R value has too much padding"⟩
  failIf (at' sTypeOffset ≠ 0x02) ⟨.sigInvalidSIntID,
    "malformed signature: S integer marker: 0x" ++ hexByte (sig.getD sTypeOffset 0) ++ " != 0x2"⟩
  failIf (sLen = 0) ⟨.sigZeroSLen, "malformed signature: S length is zero"⟩
  failIf (at' sOffset &&& 0x80 ≠ 0) ⟨.sigNegativeS, "malformed signature: S is negative"⟩
  failIf (1 < sLen ∧ at' sOffset = 0 ∧ at' (sOffset + 1) &&& 0x80 = 0)
    ⟨.sigTooMuchSPadding, "malformed signature: S value has too much padding"⟩
  failIf (lowS ∧ halfOrder < leNat ((sig.drop sOffset).take sLen).reverse)
    ⟨.sigHighS, "signature is not canonical due to unnecessarily high S value"⟩

def checkSignatureEncoding (sig : Bytes) : Except ScriptError Unit :=
  if ctx.flags.verifyDERSignatures || ctx.flags.verifyLowS || ctx.flags.verifyStrictEncoding then
    checkDER sig ctx.flags.verifyLowS
  else .ok ()

variable [ChainHash H] [Primitives]

def parseSig (sigBytes : Bytes) : Option Signature :=
  if ctx.flags.verifyStrictEncoding || ctx.flags.verifyDERSignatures then parseDERSignature sigBytes
  else parseSignature sigBytes

def sigHash (script : List ParsedOpcode) (hashType : Nat) : Except ScriptError Bytes :=
  if vm.isWitnessVersionActive 0 then calcWitnessSignatureHash script hashType ctx.tx ctx.txIdx ctx.inputAmount
  else .ok (calcSignatureHash script hashType ctx.tx ctx.txIdx)

def splitSig (fullSig : Bytes) : Nat × Bytes := ((fullSig.getLastD 0).toNat, fullSig.dropLast)

/-- `opcodeCheckSig` after the two items are taken from the stack: the result of the check. -/
def checkSig (pkBytes fullSigBytes : Bytes) : Except ScriptError Bool := do
  if fullSigBytes = [] then return false
  let (hashType, sigBytes) := splitSig fullSigBytes
  checkHashTypeEncoding ctx hashType
  checkSignatureEncoding ctx sigBytes
  checkPubKeyEncoding ctx vm pkBytes
  let subScript := if vm.isWitnessVersionActive 0 then vm.subScript
    else removeOpcodeByData vm.subScript fullSigBytes
  let hashData ← sigHash ctx vm subScript hashType
  match parsePubKey pkBytes, parseSig ctx sigBytes with
  | some pubKey, some signature =>
    let valid := verify signature hashData pubKey
    failIf (!valid ∧ ctx.flags.verifyNullFail ∧ sigBytes ≠ [])
      ⟨.nullFail, "signature not empty on failed checksig"⟩
    return valid
  | _, _ => return false

def opcodeCheckSig : OpM Unit := do
  let pkBytes ← onD popByteArray
  let fullSigBytes ← onD popByteArray
  onD (pushBool (← checkSig ctx (← get) pkBytes fullSigBytes))

def opcodeCheckSigVerify (op : ParsedOpcode) : OpM Unit := do
  opcodeCheckSig ctx
  abstractVerify op .checkSigVerify

/-- The loop of `opcodeCheckMultiSig` over the public keys, with the signatures still to be matched. A
signature parsed once is parsed again at the next key, with the same outcome. -/
def multiSigLoop (vm : Engine) (script : List ParsedOpcode) :
    List Bytes → List Bytes → Except ScriptError Bool
  | [], sigs => .ok sigs.isEmpty
  | _ :: _, [] => .ok true
  | pubKey :: pubKeys, rawSig :: sigs =>
    if pubKeys.length < sigs.length then .ok false
    else if rawSig = [] then multiSigLoop vm script pubKeys (rawSig :: sigs)
    else do
      let (hashType, signature) := splitSig rawSig
      checkHashTypeEncoding ctx hashType
      checkSignatureEncoding ctx signature
      match parseSig ctx signature with
      | none => multiSigLoop vm script pubKeys (rawSig :: sigs)
      | some parsedSig =>
        checkPubKeyEncoding ctx vm pubKey
        match parsePubKey pubKey with
        | none => multiSigLoop vm script pubKeys (rawSig :: sigs)
        | some parsedPubKey =>
          let hashData ← sigHash ctx vm script hashType
          multiSigLoop vm script pubKeys
            (if verify parsedSig hashData parsedPubKey then sigs else rawSig :: sigs)

/-- The items that `opcodeCheckMultiSig` takes in a loop. -/
def popMany : Nat → OpM (List Bytes)
  | 0 => return []
  | n + 1 => do
    let x ← onD popByteArray
    return x :: (← popMany n)

def opcodeCheckMultiSig : OpM Unit := do
  let numPubKeys := scriptNumInt32 (← onD popInt)
  if numPubKeys < 0 then fail .invalidPubKeyCount ("number of pubkeys " ++ toString numPubKeys ++ " is negative")
  if (maxPubKeysPerMultiSig : Int) < numPubKeys then
    fail .invalidPubKeyCount ("too many pubkeys: " ++ toString numPubKeys ++ " > " ++
      toString maxPubKeysPerMultiSig)
  modify fun vm => { vm with numOps := vm.numOps + numPubKeys.toNat }
  if maxOpsPerScript < (← get).numOps then
    fail .tooManyOperations ("exceeded max operation limit of " ++ toString maxOpsPerScript)
  let pubKeys ← popMany numPubKeys.toNat
  let numSignatures := scriptNumInt32 (← onD popInt)
  if numSignatures < 0 then
    fail .invalidSignatureCount ("number of signatures " ++ toString numSignatures ++ " is negative")
  if numPubKeys < numSignatures then
    fail .invalidSignatureCount ("more signatures than pubkeys: " ++ toString numSignatures ++ " > " ++
      toString numPubKeys)
  let signatures ← popMany numSignatures.toNat
  let dummy ← onD popByteArray
  if ctx.flags.strictMultiSig ∧ dummy ≠ [] then
    fail .sigNullDummy ("multisig dummy argument has length " ++ toString dummy.length ++ " instead of 0")
  let vm ← get
  let script := if vm.isWitnessVersionActive 0 then vm.subScript
    else signatures.foldl removeOpcodeByData vm.subScript
  let success ← multiSigLoop ctx vm script pubKeys signatures
  if !success ∧ ctx.flags.verifyNullFail ∧ signatures.any (fun sig => !sig.isEmpty) then
    fail .nullFail "not all signatures empty on failed checkmultisig"
  onD (pushBool success)

def opcodeCheckMultiSigVerify (op : ParsedOpcode) : OpM Unit := do
  opcodeCheckMultiSig ctx
  abstractVerify op .checkMultiSigVerify

/-! ## Execution -/

def opfunc (op : ParsedOpcode) : OpM Unit :=
  if 1 ≤ op.value ∧ op.value ≤ OP_PUSHDATA4 then opcodePushData op
  else if OP_1 ≤ op.value ∧ op.value ≤ OP_16 then opcodeN op
  else match op.value with
    | OP_0 => opcodeFalse
    | OP_1NEGATE => opcode1Negate
    | OP_NOP | OP_NOP1 | OP_NOP5 | OP_NOP6 | OP_NOP7 | OP_NOP8 | OP_NOP9 | OP_NOP10 => opcodeNop ctx op
    | OP_RESERVED | OP_VER | OP_VERIF | OP_VERNOTIF | OP_RESERVED1 | OP_RESERVED2 => opcodeReserved op
    | OP_IF => opcodeIf ctx
    | OP_NOTIF => opcodeNotIf ctx
    | OP_ELSE => opcodeElse op
    | OP_ENDIF => opcodeEndif op
    | OP_VERIFY => opcodeVerify op
    | OP_RETURN => opcodeReturn
    | OP_CHECKLOCKTIMEVERIFY => opcodeCheckLockTimeVerify ctx
    | OP_CHECKSEQUENCEVERIFY => opcodeCheckSequenceVerify ctx
    | OP_TOALTSTACK => opcodeToAltStack
    | OP_FROMALTSTACK => opcodeFromAltStack
    | OP_2DROP => opcode2Drop
    | OP_2DUP => opcode2Dup
    | OP_3DUP => opcode3Dup
    | OP_2OVER => opcode2Over
    | OP_2ROT => opcode2Rot
    | OP_2SWAP => opcode2Swap
    | OP_IFDUP => opcodeIfDup
    | OP_DEPTH => opcodeDepth
    | OP_DROP => opcodeDrop
    | OP_DUP => opcodeDup
    | OP_NIP => opcodeNip
    | OP_OVER => opcodeOver
    | OP_PICK => opcodePick
    | OP_ROLL => opcodeRoll
    | OP_ROT => opcodeRot
    | OP_SWAP => opcodeSwap
    | OP_TUCK => opcodeTuck
    | OP_SIZE => opcodeSize
    | OP_EQUAL => opcodeEqual
    | OP_EQUALVERIFY => opcodeEqualVerify op
    | OP_1ADD => opcode1Add
    | OP_1SUB => opcode1Sub
    | OP_NEGATE => opcodeNegate
    | OP_ABS => opcodeAbs
    | OP_NOT => opcodeNot
    | OP_0NOTEQUAL => opcode0NotEqual
    | OP_ADD => opcodeAdd
    | OP_SUB => opcodeSub
    | OP_BOOLAND => opcodeBoolAnd
    | OP_BOOLOR => opcodeBoolOr
    | OP_NUMEQUAL => opcodeNumEqual
    | OP_NUMEQUALVERIFY => opcodeNumEqualVerify op
    | OP_NUMNOTEQUAL => opcodeNumNotEqual
    | OP_LESSTHAN => opcodeLessThan
    | OP_GREATERTHAN => opcodeGreaterThan
    | OP_LESSTHANOREQUAL => opcodeLessThanOrEqual
    | OP_GREATERTHANOREQUAL => opcodeGreaterThanOrEqual
    | OP_MIN => opcodeMin
    | OP_MAX => opcodeMax
    | OP_WITHIN => opcodeWithin
    | OP_RIPEMD160 => opcodeRipemd160
    | OP_SHA1 => opcodeSha1
    | OP_SHA256 => opcodeSha256 H
    | OP_HASH160 => opcodeHash160 H
    | OP_HASH256 => opcodeHash256 H
    | OP_CODESEPARATOR => opcodeCodeSeparator
    | OP_CHECKSIG => opcodeCheckSig ctx
    | OP_CHECKSIGVERIFY => opcodeCheckSigVerify ctx op
    | OP_CHECKMULTISIG => opcodeCheckMultiSig ctx
    | OP_CHECKMULTISIGVERIFY => opcodeCheckMultiSigVerify ctx op
    | OP_INPUTAGE => opcodeInputAge ctx
    | _ => if op.isDisabled then opcodeDisabled op else opcodeInvalid op

/-- `executeOpcode`: the checks that every opcode passes, then its handler. -/
def executeOpcode (pop : ParsedOpcode) (vm : Engine) : Except ScriptError Engine := do
  failIf pop.isDisabled ⟨.disabledOpcode, "attempt to execute disabled opcode " ++ pop.name⟩
  failIf pop.alwaysIllegal ⟨.reservedOpcode, "attempt to execute reserved opcode " ++ pop.name⟩
  let vm := if OP_16 < pop.value then { vm with numOps := vm.numOps + 1 } else vm
  failIf (OP_16 < pop.value ∧ maxOpsPerScript < vm.numOps)
    ⟨.tooManyOperations, "exceeded max operation limit of " ++ toString maxOpsPerScript⟩
  failIf (pop.value ≤ OP_16 ∧ maxScriptElementSize < pop.data.length) ⟨.elementTooBig, "element size " ++
    toString pop.data.length ++ " exceeds max allowed size " ++ toString maxScriptElementSize⟩
  if !vm.isBranchExecuting && !pop.isConditional then return vm
  checkWhen (vm.dstack.verifyMinimalData ∧ vm.isBranchExecuting ∧ pop.value ≤ OP_PUSHDATA4) pop.checkMinimalDataPush
  let (_, vm) ← opfunc ctx pop vm
  return vm

def checkErrorCondition (finalScript : Bool) (vm : Engine) : Except ScriptError Unit := do
  failIf (vm.scriptIdx < vm.scripts.length) ⟨.scriptUnfinished, "error check when script unfinished"⟩
  failIf (finalScript ∧ vm.isWitnessVersionActive 0 ∧ vm.dstack.depth ≠ 1)
    ⟨.evalFalse, "witness program must have clean stack"⟩
  failIf (finalScript ∧ ctx.flags.verifyCleanStack ∧ vm.dstack.depth ≠ 1)
    ⟨.cleanStack, "stack contains " ++ toString ((vm.dstack.depth : Int) - 1) ++ " unexpected items"⟩
  failIf (vm.dstack.depth < 1) ⟨.emptyStack, "stack empty at end of script execution"⟩
  let (v, _) ← popBool vm.dstack
  failIf (!v) ⟨.evalFalse, "false stack entry at end of script execution"⟩

/-- `payToPubKeyHashScript`, which pushes the hash with the shortest opcode. -/
def payToPubKeyHashScript (pubKeyHash : Bytes) : Bytes :=
  [UInt8.ofNat OP_DUP, UInt8.ofNat OP_HASH160] ++ UInt8.ofNat pubKeyHash.length :: pubKeyHash ++
    [UInt8.ofNat OP_EQUALVERIFY, UInt8.ofNat OP_CHECKSIG]

def Engine.enter (pops : List ParsedOpcode) (data : List Bytes) : Engine :=
  { vm with scripts := vm.scripts ++ [pops], dstack := vm.dstack.setArray data }

/-- The script and the stack of a version 0 witness program. -/
def witnessScript0 (program : Bytes) (witness : List Bytes) : Except ScriptError (Bytes × List Bytes) :=
  if program.length = payToWitnessPubKeyHashDataSize then do
    failIf (witness.length ≠ 2) ⟨.witnessProgramMismatch,
      "should have exactly two items in witness, instead have " ++ toString witness.length⟩
    return (payToPubKeyHashScript program, witness)
  else if program.length = payToWitnessScriptHashDataSize then
    match witness.getLast? with
    | none => .error ⟨.witnessProgramEmpty, "witness program empty passed empty witness"⟩
    | some witnessScript => do
      failIf (maxScriptSize < witnessScript.length) ⟨.scriptTooBig, "witnessScript size " ++
        toString witnessScript.length ++ " is larger than max allowed size " ++ toString maxScriptSize⟩
      failIf (hashB H witnessScript ≠ program) ⟨.witnessProgramMismatch, "witness program hash mismatch"⟩
      return (witnessScript, witness.dropLast)
  else .error ⟨.witnessProgramWrongLength, "length of witness program must either be " ++
    toString payToWitnessPubKeyHashDataSize ++ " or " ++ toString payToWitnessScriptHashDataSize ++
    " bytes, instead is " ++ toString program.length ++ " bytes"⟩

def verifyWitnessProgram (witness : List Bytes) (vm : Engine) : Except ScriptError Engine :=
  let program := vm.witnessProgram.getD []
  if vm.isWitnessVersionActive 0 then do
    let (script, data) ← witnessScript0 (H := H) program witness
    let vm := vm.enter (← parsed script) data
    match vm.dstack.toArray.find? (fun el => maxScriptElementSize < el.length) with
    | some el => .error ⟨.elementTooBig, "element size " ++ toString el.length ++ " exceeds max allowed size " ++
        toString maxScriptElementSize⟩
    | none => return vm
  else if ctx.flags.verifyDiscourageUpgradeableWitnessProgram then
    .error ⟨.discourageUpgradableWitnessProgram, "new witness program versions invalid: " ++ hexString program⟩
  else .ok { vm with witnessProgram := none }

/-- The end of a script in `Step`: the next script is chosen by the index of the one that ended. -/
def finishScript : Except ScriptError Engine := do
  let idx := vm.scriptIdx
  let vm := { vm with astack := { vm.astack with stk := [] }, numOps := 0, scriptOff := 0, scriptIdx := idx + 1 }
  if idx = 0 ∧ ctx.bip16 then return { vm with savedFirstStack := vm.dstack.toArray }
  else if idx = 1 ∧ ctx.bip16 then
    checkErrorCondition ctx false vm
    match vm.savedFirstStack.getLast? with
    | none => .error ⟨.other, "index out of range"⟩
    | some script =>
      let pops ← parsed script
      return vm.enter pops vm.savedFirstStack.dropLast
  else if vm.witnessProgram.isSome ∧ (idx = 1 ∨ idx = 2 ∧ ctx.bip16) then
    verifyWitnessProgram ctx ((ctx.tx.txIn[ctx.txIdx]?.map TxIn.witness).getD []) vm
  else return vm

def maxStackSize : Nat := 1000

def currentOpcode : Option ParsedOpcode := do (← vm.scripts[vm.scriptIdx]?)[vm.scriptOff]?

def pastScripts : ScriptError :=
  ⟨.invalidProgramCounter, "past input scripts " ++ toString vm.scriptIdx ++ ":" ++ toString vm.scriptOff ++ " " ++
    (if vm.scripts.length ≤ vm.scriptIdx then toString vm.scripts.length ++ ":xxxx"
      else toString vm.scriptIdx ++ ":" ++ toString (vm.script vm.scriptIdx).length)⟩

/-- `Step`: the engine after one opcode, and whether it was the last one. -/
def step : Except ScriptError (Bool × Engine) := do
  let opcode ← orFail (pastScripts vm) (currentOpcode vm)
  let vm ← executeOpcode ctx opcode { vm with scriptOff := vm.scriptOff + 1 }
  let combinedStackSize := vm.dstack.depth + vm.astack.depth
  failIf (maxStackSize < combinedStackSize) ⟨.stackOverflow, "combined stack size " ++
    toString combinedStackSize ++ " > max allowed " ++ toString maxStackSize⟩
  if vm.scriptOff < (vm.script vm.scriptIdx).length then return (false, vm)
  failIf (vm.condStack ≠ []) ⟨.unbalancedConditional, "end of script reached in conditional execution"⟩
  let vm ← finishScript ctx vm
  -- an empty script is passed over
  let skip := vm.scriptIdx < vm.scripts.length ∧ (vm.script vm.scriptIdx).length ≤ vm.scriptOff
  let vm := { vm with scriptIdx := if skip then vm.scriptIdx + 1 else vm.scriptIdx, lastCodeSep := 0 }
  return (vm.scripts.length ≤ vm.scriptIdx, vm)

/-- More steps than any run takes: one for each opcode of the signature script, the public key script
and the witness script, which are bounded in size, and of a pushed script. -/
def maxSteps : Nat := 3 * maxScriptSize + maxScriptElementSize

def executeLoop : Nat → Engine → Except ScriptError Engine
  | 0, _ => .error ⟨.other, "too many steps"⟩
  | fuel + 1, vm => do
    let (done, vm) ← step ctx vm
    if done then return vm else executeLoop fuel vm

def execute : Except ScriptError Unit := do
  let vm ← executeLoop ctx maxSteps vm
  checkErrorCondition ctx true vm

end

/-! ## `NewEngine` -/

section
variable {H : Type} [ChainHash H]

def parseScripts (scriptSig scriptPubKey : Bytes) : Except ScriptError (List ParsedOpcode × List ParsedOpcode) := do
  let check (scr : Bytes) : Except ScriptError (List ParsedOpcode) := do
    failIf (maxScriptSize < scr.length) ⟨.scriptTooBig, "script size " ++ toString scr.length ++
      " is larger than max allowed size " ++ toString maxScriptSize⟩
    parsed scr
  return (← check scriptSig, ← check scriptPubKey)

/-- The witness program of an input, from its public key script or from its signature script. -/
def witnessProgramOf (flags : ScriptFlags) (bip16 : Bool) (scriptSig scriptPubKey : Bytes)
    (sigPops pkPops : List ParsedOpcode) (witness : List Bytes) : Except ScriptError (Option Bytes) :=
  if !flags.verifyWitness then .ok none
  else if isWitnessProgramPops pkPops || isHTLCWitnessScript pkPops then do
    failIf (scriptSig ≠ [])
      ⟨.witnessMalleated, "native witness program cannot also have a signature script"⟩
    return some scriptPubKey
  else if witness ≠ [] ∧ bip16 then
    match sigPops with
    | [pop] =>
      if canonicalPush pop && isWitnessProgram pop.data then .ok (some pop.data)
      else .error ⟨.witnessMalleatedP2SH, "signature script for witness nested p2sh is not canonical"⟩
    | _ => .error ⟨.witnessMalleatedP2SH, "signature script for witness nested p2sh is not canonical"⟩
  else .ok none

def witnessInfo : Option Bytes → Except ScriptError (Nat × Option Bytes)
  | some script => do
    let (version, program) ← extractWitnessProgramInfo script
    return (version, some program)
  | none => .ok (0, none)

/-- `NewEngine` of an input found in the view. -/
def newEngine (scriptPubKey : Bytes) (tx : MsgTx H) (txIdx : Nat) (txIn : TxIn H) (flags : ScriptFlags)
    (inputAmount inputAge : Int) : Except ScriptError (EngineCtx H × Engine) := do
  let scriptSig := txIn.signatureScript
  failIf (scriptSig = [] ∧ scriptPubKey = []) ⟨.evalFalse, "false stack entry at end of script execution"⟩
  failIf (flags.verifyCleanStack ∧ ¬flags.bip16 ∧ ¬flags.verifyWitness)
    ⟨.invalidFlags, "invalid flags combination"⟩
  failIf (flags.verifySigPushOnly ∧ ¬isPushOnlyScript scriptSig)
    ⟨.notPushOnly, "signature script is not push only"⟩
  let (sigPops, pkPops) ← parseScripts scriptSig scriptPubKey
  let bip16 := flags.bip16 && (isScriptHash pkPops || isHTLCWithScriptHash pkPops)
  failIf (bip16 ∧ ¬isPushOnly sigPops) ⟨.notPushOnly, "pay to script hash is not push only"⟩
  failIf (flags.verifyWitness ∧ ¬flags.bip16)
    ⟨.invalidFlags, "P2SH must be enabled to do witness verification"⟩
  let witProgram ← witnessProgramOf flags bip16 scriptSig scriptPubKey sigPops pkPops txIn.witness
  failIf (flags.verifyWitness ∧ witProgram = none ∧ txIn.witness ≠ [])
    ⟨.witnessUnexpected, "non-witness inputs cannot have a witness"⟩
  let (witnessVersion, witnessProgram) ← witnessInfo witProgram
  let stack : Stack := ⟨[], flags.verifyMinimalData⟩
  return ({ tx, txIdx, flags, inputAmount, inputAge, bip16 },
    { scripts := [sigPops, pkPops], scriptIdx := if scriptSig = [] then 1 else 0, scriptOff := 0,
      lastCodeSep := 0, dstack := stack, astack := stack, condStack := [], numOps := 0, savedFirstStack := [],
      witnessVersion, witnessProgram })

end

end Jaxnetd.TxScript
