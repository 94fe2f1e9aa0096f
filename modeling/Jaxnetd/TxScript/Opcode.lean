import Jaxnetd.Chainhash
import Jaxnetd.Lib.Checks

/-!
# Package `txscript`: opcodes and scripts

The opcode table (`opcode.go`) and the parser of scripts (`script.go`). An opcode is its byte; what the
table adds to the byte is its name and the length of its encoding, which is negative for the three
opcodes that read the length of their data from the script.
-/

namespace Jaxnetd.TxScript
open Checks List

inductive ErrorCode where
  | internal | invalidFlags | invalidIndex | earlyReturn | emptyStack | evalFalse | scriptUnfinished
  | invalidProgramCounter | scriptTooBig | elementTooBig | tooManyOperations | stackOverflow
  | invalidPubKeyCount | invalidSignatureCount | numberTooBig | verify | equalVerify | numEqualVerify
  | checkSigVerify | checkMultiSigVerify | disabledOpcode | reservedOpcode | malformedPush
  | invalidStackOperation | unbalancedConditional | minimalData | invalidSigHashType | sigTooShort
  | sigTooLong | sigInvalidSeqID | sigInvalidDataLen | sigMissingSTypeID | sigMissingSLen
  | sigInvalidSLen | sigInvalidRIntID | sigZeroRLen | sigNegativeR | sigTooMuchRPadding
  | sigInvalidSIntID | sigZeroSLen | sigNegativeS | sigTooMuchSPadding | sigHighS | notPushOnly
  | sigNullDummy | pubKeyType | cleanStack | nullFail | witnessMalleated | witnessMalleatedP2SH
  | discourageUpgradableNOPs | negativeLockTime | unsatisfiedLockTime | minimalIf
  | discourageUpgradableWitnessProgram | witnessProgramEmpty | witnessProgramMismatch
  | witnessProgramWrongLength | witnessUnexpected | witnessPubKeyType
  /-- An error that is not a script error, or a run-time panic. -/
  | other
deriving DecidableEq, Repr

structure ScriptError where
  code : ErrorCode
  description : String
deriving DecidableEq, Repr

def OP_0 : Nat := 0x00
def OP_DATA_1 : Nat := 0x01
def OP_DATA_4 : Nat := 0x04
def OP_DATA_20 : Nat := 0x14
def OP_DATA_32 : Nat := 0x20
def OP_DATA_33 : Nat := 0x21
def OP_DATA_65 : Nat := 0x41
def OP_PUSHDATA1 : Nat := 0x4c
def OP_PUSHDATA2 : Nat := 0x4d
def OP_PUSHDATA4 : Nat := 0x4e
def OP_1NEGATE : Nat := 0x4f
def OP_RESERVED : Nat := 0x50
def OP_1 : Nat := 0x51
def OP_16 : Nat := 0x60
def OP_NOP : Nat := 0x61
def OP_VER : Nat := 0x62
def OP_IF : Nat := 0x63
def OP_NOTIF : Nat := 0x64
def OP_VERIF : Nat := 0x65
def OP_VERNOTIF : Nat := 0x66
def OP_ELSE : Nat := 0x67
def OP_ENDIF : Nat := 0x68
def OP_VERIFY : Nat := 0x69
def OP_RETURN : Nat := 0x6a
def OP_TOALTSTACK : Nat := 0x6b
def OP_FROMALTSTACK : Nat := 0x6c
def OP_2DROP : Nat := 0x6d
def OP_2DUP : Nat := 0x6e
def OP_3DUP : Nat := 0x6f
def OP_2OVER : Nat := 0x70
def OP_2ROT : Nat := 0x71
def OP_2SWAP : Nat := 0x72
def OP_IFDUP : Nat := 0x73
def OP_DEPTH : Nat := 0x74
def OP_DROP : Nat := 0x75
def OP_DUP : Nat := 0x76
def OP_NIP : Nat := 0x77
def OP_OVER : Nat := 0x78
def OP_PICK : Nat := 0x79
def OP_ROLL : Nat := 0x7a
def OP_ROT : Nat := 0x7b
def OP_SWAP : Nat := 0x7c
def OP_TUCK : Nat := 0x7d
def OP_CAT : Nat := 0x7e
def OP_SUBSTR : Nat := 0x7f
def OP_LEFT : Nat := 0x80
def OP_RIGHT : Nat := 0x81
def OP_SIZE : Nat := 0x82
def OP_INVERT : Nat := 0x83
def OP_AND : Nat := 0x84
def OP_OR : Nat := 0x85
def OP_XOR : Nat := 0x86
def OP_EQUAL : Nat := 0x87
def OP_EQUALVERIFY : Nat := 0x88
def OP_RESERVED1 : Nat := 0x89
def OP_RESERVED2 : Nat := 0x8a
def OP_1ADD : Nat := 0x8b
def OP_1SUB : Nat := 0x8c
def OP_2MUL : Nat := 0x8d
def OP_2DIV : Nat := 0x8e
def OP_NEGATE : Nat := 0x8f
def OP_ABS : Nat := 0x90
def OP_NOT : Nat := 0x91
def OP_0NOTEQUAL : Nat := 0x92
def OP_ADD : Nat := 0x93
def OP_SUB : Nat := 0x94
def OP_MUL : Nat := 0x95
def OP_DIV : Nat := 0x96
def OP_MOD : Nat := 0x97
def OP_LSHIFT : Nat := 0x98
def OP_RSHIFT : Nat := 0x99
def OP_BOOLAND : Nat := 0x9a
def OP_BOOLOR : Nat := 0x9b
def OP_NUMEQUAL : Nat := 0x9c
def OP_NUMEQUALVERIFY : Nat := 0x9d
def OP_NUMNOTEQUAL : Nat := 0x9e
def OP_LESSTHAN : Nat := 0x9f
def OP_GREATERTHAN : Nat := 0xa0
def OP_LESSTHANOREQUAL : Nat := 0xa1
def OP_GREATERTHANOREQUAL : Nat := 0xa2
def OP_MIN : Nat := 0xa3
def OP_MAX : Nat := 0xa4
def OP_WITHIN : Nat := 0xa5
def OP_RIPEMD160 : Nat := 0xa6
def OP_SHA1 : Nat := 0xa7
def OP_SHA256 : Nat := 0xa8
def OP_HASH160 : Nat := 0xa9
def OP_HASH256 : Nat := 0xaa
def OP_CODESEPARATOR : Nat := 0xab
def OP_CHECKSIG : Nat := 0xac
def OP_CHECKSIGVERIFY : Nat := 0xad
def OP_CHECKMULTISIG : Nat := 0xae
def OP_CHECKMULTISIGVERIFY : Nat := 0xaf
def OP_NOP1 : Nat := 0xb0
def OP_CHECKLOCKTIMEVERIFY : Nat := 0xb1
def OP_CHECKSEQUENCEVERIFY : Nat := 0xb2
def OP_INPUTAGE : Nat := 0xb3
def OP_NOP5 : Nat := 0xb4
def OP_NOP6 : Nat := 0xb5
def OP_NOP7 : Nat := 0xb6
def OP_NOP8 : Nat := 0xb7
def OP_NOP9 : Nat := 0xb8
def OP_NOP10 : Nat := 0xb9

attribute [match_pattern] OP_0 OP_PUSHDATA1 OP_PUSHDATA2 OP_PUSHDATA4 OP_1NEGATE OP_RESERVED OP_NOP OP_VER OP_IF OP_NOTIF
  OP_VERIF OP_VERNOTIF OP_ELSE OP_ENDIF OP_VERIFY OP_RETURN OP_TOALTSTACK OP_FROMALTSTACK OP_2DROP OP_2DUP OP_3DUP OP_2OVER
  OP_2ROT OP_2SWAP OP_IFDUP OP_DEPTH OP_DROP OP_DUP OP_NIP OP_OVER OP_PICK OP_ROLL OP_ROT OP_SWAP OP_TUCK OP_SIZE OP_EQUAL
  OP_EQUALVERIFY OP_RESERVED1 OP_RESERVED2 OP_1ADD OP_1SUB OP_NEGATE OP_ABS OP_NOT OP_0NOTEQUAL OP_ADD OP_SUB OP_BOOLAND
  OP_BOOLOR OP_NUMEQUAL OP_NUMEQUALVERIFY OP_NUMNOTEQUAL OP_LESSTHAN OP_GREATERTHAN OP_LESSTHANOREQUAL OP_GREATERTHANOREQUAL
  OP_MIN OP_MAX OP_WITHIN OP_RIPEMD160 OP_SHA1 OP_SHA256 OP_HASH160 OP_HASH256 OP_CODESEPARATOR OP_CHECKSIG OP_CHECKSIGVERIFY
  OP_CHECKMULTISIG OP_CHECKMULTISIGVERIFY OP_NOP1 OP_CHECKLOCKTIMEVERIFY OP_CHECKSEQUENCEVERIFY OP_INPUTAGE OP_NOP5 OP_NOP6
  OP_NOP7 OP_NOP8 OP_NOP9 OP_NOP10

def opNames : List String :=
  ["OP_NOP", "OP_VER", "OP_IF", "OP_NOTIF", "OP_VERIF", "OP_VERNOTIF", "OP_ELSE", "OP_ENDIF", "OP_VERIFY",
    "OP_RETURN", "OP_TOALTSTACK", "OP_FROMALTSTACK", "OP_2DROP", "OP_2DUP", "OP_3DUP", "OP_2OVER",
    "OP_2ROT", "OP_2SWAP", "OP_IFDUP", "OP_DEPTH", "OP_DROP", "OP_DUP", "OP_NIP", "OP_OVER", "OP_PICK",
    "OP_ROLL", "OP_ROT", "OP_SWAP", "OP_TUCK", "OP_CAT", "OP_SUBSTR", "OP_LEFT", "OP_RIGHT", "OP_SIZE",
    "OP_INVERT", "OP_AND", "OP_OR", "OP_XOR", "OP_EQUAL", "OP_EQUALVERIFY", "OP_RESERVED1",
    "OP_RESERVED2", "OP_1ADD", "OP_1SUB", "OP_2MUL", "OP_2DIV", "OP_NEGATE", "OP_ABS", "OP_NOT",
    "OP_0NOTEQUAL", "OP_ADD", "OP_SUB", "OP_MUL", "OP_DIV", "OP_MOD", "OP_LSHIFT", "OP_RSHIFT",
    "OP_BOOLAND", "OP_BOOLOR", "OP_NUMEQUAL", "OP_NUMEQUALVERIFY", "OP_NUMNOTEQUAL", "OP_LESSTHAN",
    "OP_GREATERTHAN", "OP_LESSTHANOREQUAL", "OP_GREATERTHANOREQUAL", "OP_MIN", "OP_MAX", "OP_WITHIN",
    "OP_RIPEMD160", "OP_SHA1", "OP_SHA256", "OP_HASH160", "OP_HASH256", "OP_CODESEPARATOR",
    "OP_CHECKSIG", "OP_CHECKSIGVERIFY", "OP_CHECKMULTISIG", "OP_CHECKMULTISIGVERIFY", "OP_NOP1",
    "OP_CHECKLOCKTIMEVERIFY", "OP_CHECKSEQUENCEVERIFY", "OP_INPUTAGE", "OP_NOP5", "OP_NOP6", "OP_NOP7",
    "OP_NOP8", "OP_NOP9", "OP_NOP10"]

def opName (value : Nat) : String :=
  if 1 ≤ value ∧ value ≤ 75 then "OP_DATA_" ++ toString value
  else if OP_1 ≤ value ∧ value ≤ OP_16 then "OP_" ++ toString (value - 80)
  else match value with
    | OP_0 => "OP_0"
    | OP_PUSHDATA1 => "OP_PUSHDATA1"
    | OP_PUSHDATA2 => "OP_PUSHDATA2"
    | OP_PUSHDATA4 => "OP_PUSHDATA4"
    | OP_1NEGATE => "OP_1NEGATE"
    | OP_RESERVED => "OP_RESERVED"
    | 0xfa => "OP_SMALLINTEGER"
    | 0xfb => "OP_PUBKEYS"
    | 0xfd => "OP_PUBKEYHASH"
    | 0xfe => "OP_PUBKEY"
    | 0xff => "OP_INVALIDOPCODE"
    | v => opNames.getD (v - OP_NOP) ("OP_UNKNOWN" ++ toString v)

def opLength (value : Nat) : Int :=
  if 1 ≤ value ∧ value ≤ 75 then value + 1
  else match value with
    | OP_PUSHDATA1 => -1
    | OP_PUSHDATA2 => -2
    | OP_PUSHDATA4 => -4
    | _ => 1

structure ParsedOpcode where
  value : Nat
  data : Bytes
deriving DecidableEq, Repr

namespace ParsedOpcode

variable (pop : ParsedOpcode)

def isDisabled : Bool :=
  [OP_CAT, OP_SUBSTR, OP_LEFT, OP_RIGHT, OP_INVERT, OP_AND, OP_OR, OP_XOR, OP_2MUL, OP_2DIV, OP_MUL, OP_DIV,
    OP_MOD, OP_LSHIFT, OP_RSHIFT].contains pop.value

def alwaysIllegal : Bool := [OP_VERIF, OP_VERNOTIF].contains pop.value

def isConditional : Bool := [OP_IF, OP_NOTIF, OP_ELSE, OP_ENDIF].contains pop.value

def name : String := opName pop.value

/-- The cases of `checkMinimalDataPush` are tried in order, so the length of one byte is looked at
before the direct pushes. -/
def checkMinimalDataPush : Except ScriptError Unit :=
  let len := pop.data.length
  let first := (pop.data.headD 0).toNat
  if len = 0 ∧ pop.value ≠ OP_0 then
    .error ⟨.minimalData, "zero length data push is encoded with opcode " ++ pop.name ++ " instead of OP_0"⟩
  else if len = 1 ∧ 1 ≤ first ∧ first ≤ 16 then
    failIf (pop.value ≠ OP_1 + first - 1) ⟨.minimalData, "data push of the value " ++ toString first ++
      " encoded with opcode " ++ pop.name ++ " instead of OP_" ++ toString first⟩
  else if len = 1 ∧ first = 0x81 then
    failIf (pop.value ≠ OP_1NEGATE) ⟨.minimalData, "data push of the value -1 encoded with opcode " ++
      pop.name ++ " instead of OP_1NEGATE"⟩
  else if len ≤ 75 then
    failIf (pop.value ≠ len) ⟨.minimalData, "data push of " ++ toString len ++ " bytes encoded with opcode " ++
      pop.name ++ " instead of OP_DATA_" ++ toString len⟩
  else if len ≤ 255 then
    failIf (pop.value ≠ OP_PUSHDATA1) ⟨.minimalData, "data push of " ++ toString len ++
      " bytes encoded with opcode " ++ pop.name ++ " instead of OP_PUSHDATA1"⟩
  else if len ≤ 65535 then
    failIf (pop.value ≠ OP_PUSHDATA2) ⟨.minimalData, "data push of " ++ toString len ++
      " bytes encoded with opcode " ++ pop.name ++ " instead of OP_PUSHDATA2"⟩
  else .ok ()

def bytes : Except ScriptError Bytes :=
  let len := opLength pop.value
  let mismatch (n : Nat) (expected : Int) : ScriptError := ⟨.internal,
    "internal consistency error - parsed opcode " ++ pop.name ++ " has data length " ++ toString n ++
      " when " ++ toString expected ++ " was expected"⟩
  if len = 1 then do
    failIf (pop.data.length ≠ 0) (mismatch pop.data.length 0)
    return [UInt8.ofNat pop.value]
  else
    let head := UInt8.ofNat pop.value :: if len < 0 then leBytes len.natAbs pop.data.length else []
    let nbytes := if len < 0 then (pop.data.length % 256 ^ len.natAbs : Nat) + head.length else len.toNat
    do
      failIf ((head ++ pop.data).length ≠ nbytes) (mismatch (head ++ pop.data).length nbytes)
      return head ++ pop.data

end ParsedOpcode

/-! ## Parsing -/

def leNat : Bytes → Nat
  | [] => 0
  | b :: bs => b.toNat + 256 * leNat bs

/-- One round of the loop of `parseScriptTemplate`, at the byte `instr`: the opcode and the rest of the
script. -/
def parseOpcode (instr : UInt8) (rest : Bytes) : Except ScriptError (ParsedOpcode × Bytes) :=
  let value := instr.toNat
  let len := opLength value
  if len = 1 then .ok (⟨value, []⟩, rest)
  else if 1 < len then do
    failIf ((rest.length + 1 : Int) < len) ⟨.malformedPush, "opcode " ++ opName value ++ " requires " ++
      toString len ++ " bytes, but script only has " ++ toString (rest.length + 1) ++ " remaining"⟩
    return (⟨value, rest.take (len.toNat - 1)⟩, rest.drop (len.toNat - 1))
  else do
    let w := len.natAbs
    failIf (rest.length < w) ⟨.malformedPush, "opcode " ++ opName value ++ " requires " ++ toString w ++
      " bytes, but script only has " ++ toString rest.length ++ " remaining"⟩
    let l := leNat (rest.take w)
    let tail := rest.drop w
    failIf (tail.length < l) ⟨.malformedPush, "opcode " ++ opName value ++ " pushes " ++ toString l ++
      " bytes, but script only has " ++ toString tail.length ++ " remaining"⟩
    return (⟨value, tail.take l⟩, tail.drop l)

/-- The loop of `parseScriptTemplate`. Every round takes a byte, so the length of the script is enough rounds
(`parseLoop_mono`). -/
def parseLoop : Nat → Bytes → List ParsedOpcode × Option ScriptError
  | 0, _ => ([], none)
  | _ + 1, [] => ([], none)
  | fuel + 1, instr :: rest =>
    match parseOpcode instr rest with
    | .error e => ([], some e)
    | .ok (pop, rest) =>
      let (pops, err) := parseLoop fuel rest
      (pop :: pops, err)

variable (script : Bytes)

def parseScript : List ParsedOpcode × Option ScriptError := parseLoop script.length script

def parsed : Except ScriptError (List ParsedOpcode) :=
  match parseScript script with
  | (pops, none) => .ok pops
  | (_, some e) => .error e

theorem parseOpcode_shorter {instr : UInt8} {rest rest' : Bytes} {pop : ParsedOpcode}
    (h : parseOpcode instr rest = .ok (pop, rest')) : rest'.length ≤ rest.length := by
  simp only [parseOpcode] at h
  split at h
  · simp_all
  split at h
  · simp only [ok_rules] at h
    rw [← h.2.2, length_drop]
    omega
  · simp only [ok_rules] at h
    rw [← h.2.2.2, length_drop, length_drop]
    omega

theorem parseLoop_mono {fuel fuel' : Nat} {script : Bytes} (h : script.length ≤ fuel) (h' : fuel ≤ fuel') :
    parseLoop fuel' script = parseLoop fuel script := by
  induction fuel generalizing fuel' script with
  | zero =>
    have hnil : script = [] := length_eq_zero_iff.1 (by omega)
    subst hnil
    cases fuel' <;> rfl
  | succ fuel ih =>
    obtain ⟨f, rfl⟩ : ∃ f, fuel' = f + 1 := ⟨fuel' - 1, by omega⟩
    match script with
    | [] => rfl
    | instr :: rest =>
      rw [parseLoop, parseLoop]
      match hp : parseOpcode instr rest with
      | .error e => rfl
      | .ok (pop, rest') =>
        have hlen := parseOpcode_shorter hp
        rw [length_cons] at h
        simp only [ih (show length rest' ≤ fuel by omega) (show fuel ≤ f by omega)]

variable (pops : List ParsedOpcode)

def unparseScript : Except ScriptError Bytes := do
  let parts ← pops.mapM ParsedOpcode.bytes
  return parts.flatten

/-! ## Opcode classes -/

variable (pop : ParsedOpcode)

def isSmallInt : Bool := pop.value = OP_0 || (OP_1 ≤ pop.value && pop.value ≤ OP_16)

def isOpCode (expected : Nat) : Bool := pop.value = expected

def isNumber : Bool := isSmallInt pop || (OP_DATA_1 ≤ pop.value && pop.value ≤ OP_DATA_4)

def asSmallInt : Nat := if pop.value = OP_0 then 0 else pop.value - (OP_1 - 1)

def isPushOnly : Bool := pops.all fun pop => pop.value ≤ OP_16

def isPushOnlyScript : Bool :=
  match parsed script with
  | .ok pops => isPushOnly pops
  | .error _ => false

def canonicalPush : Bool :=
  let len := pop.data.length
  if OP_16 < pop.value then true
  else if pop.value < OP_PUSHDATA1 ∧ OP_0 < pop.value ∧ len = 1 ∧ (pop.data.headD 0).toNat ≤ 16 then false
  else if pop.value = OP_PUSHDATA1 ∧ len < OP_PUSHDATA1 then false
  else if pop.value = OP_PUSHDATA2 ∧ len ≤ 0xff then false
  else if pop.value = OP_PUSHDATA4 ∧ len ≤ 0xffff then false
  else true

def removeOpcode (opcode : Nat) : List ParsedOpcode :=
  pops.filter fun pop => pop.value ≠ opcode

def containsBytes (b : Bytes) : Bytes → Bool
  | [] => b.isEmpty
  | x :: xs => b.isPrefixOf (x :: xs) || containsBytes b xs

def removeOpcodeByData (data : Bytes) : List ParsedOpcode :=
  pops.filter fun pop => !canonicalPush pop || !containsBytes data pop.data

/-- A script is unspendable when it does not parse or starts with `OP_RETURN`. -/
def isUnspendable (pkScript : Bytes) : Bool :=
  match parsed pkScript with
  | .ok (pop :: _) => pop.value = OP_RETURN
  | .ok [] => false
  | .error _ => true

end Jaxnetd.TxScript
